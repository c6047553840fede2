import Sigil.Audit.Trail
import Sigil.Authority.Confinement

/-! # What the audit logs account for

An auditor who holds the trail of a vault can check the vault against it. The running totals of the
vault are what the entries add up to, and while nothing is added to the entries of the successful,
neither the owner, the policy, the rights of the agents nor what was spent has changed.
-/

namespace Sigil

open Machine Guard TokenLedger Trace

section Figures

inductive Figure
  | deposited | withdrawn | transactions | volume | failed
  deriving DecidableEq

def AgentVault.figure (v : AgentVault) : Figure → ℕ
  | .deposited => v.totalDepositedUsd.toNat
  | .withdrawn => v.totalWithdrawnUsd.toNat
  | .transactions => v.totalTransactions.toNat
  | .volume => v.totalVolume.toNat
  | .failed => v.totalFailedTransactions.toNat

/-- What is told under a discriminator, as a share of a running total. -/
def figureOf (cluster : Cluster) (discriminator : UInt8) (subject : Pubkey) (movedIn movedOut : ℕ) :
    Figure → ℕ
  | .deposited => if discriminator = AuditKind.deposit.discriminator ∧
      isStablecoinMint cluster subject = true then movedIn else 0
  | .withdrawn => if discriminator = AuditKind.withdraw.discriminator ∧
      isStablecoinMint cluster subject = true then movedOut else 0
  | .transactions => if discriminator = AuditKind.finalizeSuccess.discriminator ∨
      discriminator = AuditKind.agentTransfer.discriminator then 1 else 0
  | .volume => if discriminator = AuditKind.finalizeSuccess.discriminator ∨
      discriminator = AuditKind.agentTransfer.discriminator then movedIn + movedOut else 0
  | .failed => if discriminator = AuditKind.finalizeReject.discriminator then 1 else 0

def AuditEntry.figure (cluster : Cluster) (f : Figure) (e : AuditEntry) : ℕ :=
  figureOf cluster e.discriminator e.subject e.balanceDeltaIn.toNat e.balanceDeltaOut.toNat f

def AuditNote.figure (cluster : Cluster) (f : Figure) (note : AuditNote) : ℕ :=
  figureOf cluster note.kind.discriminator note.subject note.amountIn.toNat note.amountOut.toNat f

/-- Whether the entries of a kind have a share in a running total. -/
def AuditKind.counted : AuditKind → Bool
  | finalizeSuccess | deposit | withdraw | finalizeReject | agentTransfer => true
  | _ => false

/-- The amounts of an entry are below the largest `i64`, which stands for itself and for all that
was cut to it. -/
def AuditEntry.Exact (e : AuditEntry) : Prop :=
  e.balanceDeltaIn < 2 ^ 63 - 1 ∧ e.balanceDeltaOut < 2 ^ 63 - 1

instance (e : AuditEntry) : Decidable e.Exact := inferInstanceAs (Decidable (_ ∧ _))

def Trail.entries (t : Trail) : List AuditEntry := t.success ++ t.rejected

def Trail.figure (cluster : Cluster) (f : Figure) (t : Trail) : ℕ :=
  (t.entries.map (AuditEntry.figure cluster f)).sum

variable {cluster : Cluster} {f : Figure} {note : AuditNote} {clock : Clock}
  {slotHashes : List UInt8} {t : Trail} {entry : AuditEntry}

theorem figureOf_mono {discriminator : UInt8} {subject : Pubkey} {m m' n n' : ℕ} (hm : m ≤ m')
    (hn : n ≤ n') :
    figureOf cluster discriminator subject m n f ≤
      figureOf cluster discriminator subject m' n' f := by
  cases f with
  | transactions | failed => exact le_rfl
  | deposited | withdrawn | volume =>
    simp only [figureOf]
    split <;> omega

theorem AuditNote.figure_uncounted (h : note.kind.counted = false) :
    note.figure cluster f = 0 := by
  obtain ⟨kind, subject, amountIn, amountOut⟩ := note
  cases kind <;> first | cases h; done | cases f <;> rfl

theorem auditDelta_le (amount : UInt64) : (auditDelta amount).toNat ≤ amount.toNat := by
  unfold auditDelta
  omega

theorem auditDelta_eq {amount : UInt64} (h : auditDelta amount < 2 ^ 63 - 1) :
    (auditDelta amount).toNat = amount.toNat := by
  unfold auditDelta at h ⊢
  omega

theorem AuditNote.figure_entry_le :
    (note.entry clock slotHashes).figure cluster f ≤ note.figure cluster f :=
  figureOf_mono (auditDelta_le _) (auditDelta_le _)

theorem AuditNote.figure_entry_eq (h : (note.entry clock slotHashes).Exact) :
    (note.entry clock slotHashes).figure cluster f = note.figure cluster f := by
  change figureOf _ _ _ (auditDelta _).toNat (auditDelta _).toNat _ = _
  rw [auditDelta_eq h.1, auditDelta_eq h.2]
  rfl

theorem Trail.figure_add :
    (t.add note entry).figure cluster f = t.figure cluster f + entry.figure cluster f := by
  unfold Trail.add Trail.figure Trail.entries
  split <;> simp only [List.map_append, List.sum_append, List.map_cons, List.map_nil,
    List.sum_cons, List.sum_nil] <;> omega

theorem Trail.mem_entries_add {e : AuditEntry} :
    e ∈ (t.add note entry).entries ↔ e ∈ t.entries ∨ e = entry := by
  unfold Trail.add Trail.entries
  split <;> simp only [List.mem_append, List.mem_singleton]
  · exact (or_assoc).symm
  · rw [or_assoc, or_assoc, or_comm (b := e ∈ t.rejected)]

end Figures

section Count

variable {D : Type} [Host D] {env : Env} {l l' : Ledger D} {a a' : VaultAccounts D} {f : Figure}
  {note : AuditNote}

omit [Host D] in
theorem addWhen_ok {p : Bool} {total amount total' : UInt64}
    (h : addWhen p total amount = .ok total') :
    total'.toNat = total.toNat + if p = true then amount.toNat else 0 := by
  cases p with
  | true => exact checkedAdd_eq_some.mp (someOr_ok_iff.mp h)
  | false => rw [← Except.ok.inj h]; rfl

theorem depositFunds_figure {owner mint : Pubkey} {amount : UInt64}
    (h : depositFunds env owner mint amount l = .ok l') (ha : l.live = some a)
    (ha' : l'.live = some a') :
    a'.vault.figure f = a.vault.figure f +
      AuditNote.figure (Host.cluster D) f ⟨.deposit, mint, amount, 0⟩ := by
  simp only [depositFunds, seq_ok_iff, Ledger.loadAsOwner_ok_iff, mustExist_ok_iff, require_ok_iff,
    rejectCpi_ok_iff, ensure_ok_iff, viaToken_ok_iff, exists_and_left, exists_const,
    pure_ok_iff] at h
  obtain ⟨b, ⟨hb, -⟩, -, -, -, -, -, -, -, -, -, -, -, -, -, -, -, -, tokens, -, deposited,
    hdeposited, rfl⟩ := h
  cases ha.symm.trans hb
  cases ha'
  have hcount := addWhen_ok hdeposited
  cases f <;> simp [AgentVault.figure, AuditNote.figure, figureOf, AuditKind.discriminator, hcount]

theorem withdrawFunds_figure {owner mint : Pubkey} {remaining : List AccountMeta} {amount : UInt64}
    (h : withdrawFunds env owner mint remaining amount l = .ok l') (ha : l.live = some a)
    (ha' : l'.live = some a') :
    a'.vault.figure f = a.vault.figure f +
      AuditNote.figure (Host.cluster D) f ⟨.withdraw, mint, 0, amount⟩ := by
  simp only [withdrawFunds, seq_ok_iff, Ledger.loadAsOwner_ok_iff, mustExist_ok_iff, require_ok_iff,
    rejectCpi_ok_iff, ensure_ok_iff, VaultAccounts.cosignGate_ok_iff, viaToken_ok_iff,
    exists_and_left, exists_const, pure_ok_iff] at h
  obtain ⟨b, ⟨hb, -⟩, -, -, -, -, -, -, -, -, -, -, -, -, -, -, tokens, -, withdrawn, hwithdrawn,
    rfl⟩ := h
  cases ha.symm.trans hb
  cases ha'
  have hcount := addWhen_ok hwithdrawn
  cases f <;> simp [AgentVault.figure, AuditNote.figure, figureOf, AuditKind.discriminator, hcount]

theorem agentTransfer_figure {args : AgentTransferArgs} (h : agentTransfer env args l = .ok l')
    (ha : l.live = some a) (ha' : l'.live = some a') :
    ∃ note, l.auditNote env (.agentTransfer args) = some note ∧
      note.kind = .agentTransfer ∧
      a'.vault.figure f = a.vault.figure f + note.figure (Host.cluster D) f := by
  obtain ⟨b, charged, counted, source, destination, usdAmount, split, ht⟩ := agentTransfer_ok h
  cases ha.symm.trans ht.live
  refine ⟨_, by rw [Ledger.auditNote, ht.destinationAccount, Option.map_some], rfl, ?_⟩
  obtain ⟨entry, -, hcharged⟩ := ht.charge
  obtain ⟨overlay, recorded, tracker, -, -, -, -, -, rfl⟩ := chargeTransfer_ok hcharged
  have hcount := ht.count
  simp only [VaultAccounts.countTransfer, seq_ok_iff, someOr_ok_iff, checkedAdd_eq_some,
    pure_ok_iff] at hcount
  obtain ⟨transactions, htransactions, volume, hvolume, fees, -, rfl⟩ := hcount
  obtain ⟨tokens, rfl⟩ := ht.result
  cases ha'
  cases f <;> simp [AgentVault.figure, AuditNote.figure, figureOf, AuditKind.discriminator,
    htransactions, hvolume]

def Ledger.SpendingMeasured (l : Ledger D) : Prop :=
  ∀ address s, l.sessions address = some s → s.outputMint ≠ Pubkey.default → 0 < s.authorizedAmount

omit [Host D] in
theorem countFinalize_figure {v v' : AgentVault} {expired isSpending : Bool}
    {spend developerFee : UInt64} (hspend : expired = false → isSpending = false → spend = 0)
    (h : v.countFinalize expired isSpending spend developerFee = .ok v') :
    v'.figure .transactions = v.figure .transactions + (if expired then 0 else 1) ∧
      v'.figure .volume = v.figure .volume + (if expired then 0 else spend.toNat) ∧
      v'.figure .failed = v.figure .failed + (if expired then 1 else 0) ∧
      v'.figure .deposited = v.figure .deposited ∧ v'.figure .withdrawn = v.figure .withdrawn := by
  simp only [AgentVault.countFinalize, seq_ok_iff, pure_ok_iff] at h
  obtain ⟨fees, -, counted, hcounted, rfl⟩ := h
  unfold AgentVault.countClosed at hcounted
  cases expired with
  | true =>
    simp only [if_true, AgentVault.countFailure, seq_ok_iff, someOr_ok_iff, checkedAdd_eq_some,
      pure_ok_iff] at hcounted
    obtain ⟨failed, hfailed, rfl⟩ := hcounted
    exact ⟨rfl, rfl, hfailed, rfl, rfl⟩
  | false =>
    simp only [Bool.false_eq_true, if_false, AgentVault.countSuccess, seq_ok_iff, someOr_ok_iff,
      checkedAdd_eq_some, pure_ok_iff] at hcounted
    obtain ⟨transactions, htransactions, volume, hvolume, rfl⟩ := hcounted
    refine ⟨htransactions, (addWhen_ok hvolume).trans ?_, rfl, rfl, rfl⟩
    cases isSpending with
    | true => rfl
    | false => rw [hspend rfl rfl]; rfl

theorem settle_spend_unmeasured {clock : Clock} {s : SessionAuthority} {args : FinalizeSessionArgs}
    {treasury feeDest : Option (Pubkey × TokenAccount Pubkey)} {outcome : Outcome D}
    (h : settle clock l a s args treasury feeDest = .ok outcome)
    (hs : s.isMeasured clock.unixTimestamp = false) : outcome.spend = 0 := by
  rw [settle, hs] at h
  rw [← Except.ok.inj h]

theorem finalizeSession_figure {args : FinalizeSessionArgs} (hl : l.SpendingMeasured)
    (h : finalizeSession env args l = .ok l') (ha : l.live = some a) (ha' : l'.live = some a') :
    ∃ note, l.auditNote env (.finalizeSession args) = some note ∧
      a'.vault.figure f = a.vault.figure f + note.figure (Host.cluster D) f := by
  obtain ⟨b, s, revoked, outcome, vault, tracker, hclosed⟩ := finalizeSession_ok h
  cases ha.symm.trans hclosed.live
  obtain ⟨treasury, feeDest, -, -, hsettled⟩ := hclosed.settled
  refine ⟨sessionNote (Host.cluster D) env.clock.unixTimestamp s outcome.spend, ?_, ?_⟩
  · simp only [Ledger.auditNote, ha, hclosed.session, hclosed.outcome_eq, Option.bind_eq_bind,
      Option.bind_some, Except.toOption]
    rfl
  obtain ⟨tracker', overlay, haccounts⟩ := settle_ok hsettled
  have hcount := hclosed.count
  rw [haccounts] at hcount
  obtain rfl := hclosed.result
  cases ha'
  have hspend : s.isExpired env.clock.unixTimestamp = false →
      decide (0 < s.authorizedAmount) = false → outcome.spend = 0 := by
    intro hopen hidle
    refine settle_spend_unmeasured hsettled (decide_eq_false fun hmeasured => ?_)
    exact of_decide_eq_false hidle (hl _ s hclosed.session hmeasured.2)
  obtain ⟨htransactions, hvolume, hfailed, hdeposited, hwithdrawn⟩ :=
    countFinalize_figure hspend hcount
  cases hexpired : s.isExpired env.clock.unixTimestamp <;>
    cases hinflow : s.isInflow (Host.cluster D) env.clock.unixTimestamp <;>
    cases f <;> simp_all [AuditNote.figure, figureOf, AuditKind.discriminator, sessionNote]

variable [DecidableEq D] {c : Call D}

theorem AgentVault.figure_of_figures {v v' : AgentVault} (h : v'.figures = v.figures) :
    v'.figure f = v.figure f := by
  simp only [AgentVault.figures, List.cons.injEq, and_true] at h
  cases f <;> simp [AgentVault.figure, h]

omit [DecidableEq D] in
theorem uncounted_of_spared (hwrites : Part.figures ∉ c.writes)
    (hnote : l.auditNote env c = some note) : note.kind.counted = false := by
  cases c <;> first
    | cases hnote; done
    | cases hnote; rfl
    | simp [Call.writes] at hwrites; done
    | obtain ⟨pending, -, rfl⟩ := Option.map_eq_some_iff.mp hnote; rfl
    | skip
  case recordAgentViolation =>
    simp only [Ledger.auditNote, Option.bind_eq_bind, Option.bind_eq_some_iff,
      Option.ite_none_right_eq_some] at hnote
    obtain ⟨a, -, entry, -, -, hnote⟩ := hnote
    cases hnote
    rfl

theorem exec_figure (hl : l.SpendingMeasured) (h : exec env l c = .ok l') (ha : l.live = some a)
    (ha' : l'.live = some a') (f : Figure) : a'.vault.figure f = a.vault.figure f +
      ((l.auditNote env c).elim 0 (AuditNote.figure (Host.cluster D) f)) := by
  by_cases hwrites : Part.figures ∉ c.writes
  · rw [AgentVault.figure_of_figures ((exec_frame h hwrites).eq ha ha'), left_eq_add]
    cases hnote : l.auditNote env c with
    | none => rfl
    | some note => exact AuditNote.figure_uncounted (uncounted_of_spared hwrites hnote)
  cases c <;> simp [Call.writes, Part.ofVault] at hwrites
  case initializeVault =>
    obtain ⟨hnone, -⟩ := initializeVault_ok h
    cases hnone.symm.trans ha
  case closeVault =>
    obtain ⟨b, -, -, -, -, -, rfl⟩ := closeVault_ok h
    cases ha'
  case depositFunds => exact depositFunds_figure h ha ha'
  case withdrawFunds => exact withdrawFunds_figure h ha ha'
  case agentTransfer =>
    obtain ⟨note, hnote, -, hfigure⟩ := agentTransfer_figure h ha ha'
    rw [hnote, hfigure, Option.elim_some]
  case finalizeSession =>
    obtain ⟨note, hnote, hfigure⟩ := finalizeSession_figure hl h ha ha'
    rw [hnote, hfigure, Option.elim_some]

omit [DecidableEq D] in
theorem amount_pos_of_pinOutputs {vaultKey : Pubkey} {policy : PolicyConfig D}
    {args : ValidateAndAuthorizeArgs D} {vaultToken : TokenAccount Pubkey}
    {outputStablecoin outputSwap : Option (Pubkey × TokenAccount Pubkey)} {pins : OutputPins}
    (h : pinOutputs vaultKey policy args vaultToken outputStablecoin outputSwap = .ok pins)
    (hpins : pins.outputMint ≠ Pubkey.default) : 0 < args.amount := by
  by_contra hidle
  rw [pinOutputs, if_neg (by simpa [ValidateAndAuthorizeArgs.isSpending] using hidle)] at h
  exact hpins (Except.ok.inj h ▸ rfl)

theorem exec_session_origin {address : Pubkey} {s : SessionAuthority} (h : exec env l c = .ok l')
    (hs : l'.sessions address = some s) : l.sessions address = some s ∨
      ∃ args b vaultToken pins snapshots tokens,
        SessionOpened env args l l' b vaultToken pins snapshots tokens ∧
        s = newSession env.clock l.vaultKey b.policy args pins snapshots := by
  by_cases hwrites : Part.sessions ∉ c.writes
  · have hsessions : l'.sessions = l.sessions := exec_frame h hwrites
    exact .inl (hsessions ▸ hs)
  cases c <;> simp [Call.writes, Part.ofVault] at hwrites
  case validateAndAuthorize args =>
    obtain ⟨b, vaultToken, pins, snapshots, tokens, ho⟩ := validateAndAuthorize_ok h
    have hsessions : l'.sessions = Function.update l.sessions
        (sessionAddress D l.vaultKey args.agent args.tokenMint)
        (some (newSession env.clock l.vaultKey b.policy args pins snapshots)) := by
      rw [ho.result]
      rfl
    rw [hsessions] at hs
    rcases eq_or_ne address (sessionAddress D l.vaultKey args.agent args.tokenMint) with rfl | hne
    · rw [Function.update_self] at hs
      exact .inr ⟨args, b, vaultToken, pins, snapshots, tokens, ho, (Option.some.inj hs).symm⟩
    · exact .inl (Function.update_of_ne hne _ l.sessions ▸ hs)
  case finalizeSession args =>
    obtain ⟨b, closed, revoked, outcome, vault, tracker, hclosed⟩ := finalizeSession_ok h
    have hsessions : l'.sessions = Function.update l.sessions args.session none := by
      rw [hclosed.result]
      rfl
    rw [hsessions] at hs
    rcases eq_or_ne address args.session with rfl | hne
    · rw [Function.update_self] at hs
      cases hs
    · exact .inl (Function.update_of_ne hne _ l.sessions ▸ hs)

theorem exec_spendingMeasured (hl : l.SpendingMeasured) (h : exec env l c = .ok l') :
    l'.SpendingMeasured := by
  intro address s hs hmeasured
  rcases exec_session_origin h hs
    with hold | ⟨args, b, vaultToken, pins, snapshots, tokens, ho, rfl⟩
  · exact hl address s hold hmeasured
  · obtain ⟨outputStablecoin, outputSwap, hpins⟩ := ho.pinned
    exact amount_pos_of_pinOutputs hpins hmeasured

end Count

section Reconciled

variable {D : Type} [Host D] [DecidableEq D] {l₀ : Ledger D} {s s' : AuditedLedger D} {t t' : Trail}
  {as : List (Action D)} {x : Action D} {a : VaultAccounts D}

/-- The totals of a live vault are at least what the trail adds up to, and just that where no amount
was cut. -/
structure AuditedLedger.Reconciled (s : AuditedLedger D) (t : Trail) : Prop where
  measured : s.ledger.SpendingMeasured
  covers : ∀ a ∈ s.ledger.live, ∀ f, t.figure (Host.cluster D) f ≤ a.vault.figure f
  exact : ∀ a ∈ s.ledger.live, (∀ e ∈ t.entries, e.Exact) →
    ∀ f, a.vault.figure f = t.figure (Host.cluster D) f

theorem AuditedStep.reconciled (h : AuditedStep (s, t) x (s', t')) (hs : s.Reconciled t) :
    s'.Reconciled t' := by
  cases h with
  | foreign => exact ⟨hs.measured, hs.covers, hs.exact⟩
  | @call env c _ _ _ slotHashes h =>
    have hexec := exec_of_execAudited h
    have hmeasured := exec_spendingMeasured hs.measured hexec
    rw [Trail.after]
    by_cases hinit : c.isInitialize = true
    · rw [if_pos hinit]
      obtain ⟨owner, feeDestination, args, rfl⟩ := Call.isInitialize_iff.mp hinit
      obtain ⟨-, -, -, -, -, -, hnew⟩ := initializeVault_ok hexec
      have hzero : ∀ a ∈ s'.ledger.live, ∀ f, a.vault.figure f = 0 := by
        intro a ha f
        rw [hnew] at ha
        cases ha
        cases f <;> rfl
      exact ⟨hmeasured, fun a ha f => (hzero a ha f).ge, fun a ha _ f => hzero a ha f⟩
    · rw [if_neg hinit]
      obtain ⟨b, hb⟩ := exists_live_of_not_isInitialize hexec hinit
      have hfigure := fun a (ha : s'.ledger.live = some a) => exec_figure hs.measured hexec hb ha
      cases hnote : s.ledger.auditNote env c with
      | none =>
        rw [hnote] at hfigure
        refine ⟨hmeasured, fun a ha f => ?_, fun a ha hexact f => ?_⟩
        · rw [hfigure a ha f]
          exact hs.covers b hb f
        · rw [hfigure a ha f]
          exact hs.exact b hb hexact f
      | some note =>
        rw [hnote] at hfigure
        refine ⟨hmeasured, fun a ha f => ?_, fun a ha hexact f => ?_⟩
        · rw [hfigure a ha f, Trail.figure_add]
          exact Nat.add_le_add (hs.covers b hb f) AuditNote.figure_entry_le
        · have hold : ∀ e ∈ t.entries, e.Exact := fun e he =>
            hexact e (Trail.mem_entries_add.mpr (.inl he))
          have hnew := hexact _ (Trail.mem_entries_add.mpr (.inr rfl))
          rw [hfigure a ha f, Trail.figure_add, hs.exact b hb hold f,
            AuditNote.figure_entry_eq hnew]
          rfl

/-- After every run of a live vault its deposits, withdrawals, transactions, volume and failures
are what the entries since its creation add up to, as long as no entry has the largest amount; and
the entries never claim more. -/
theorem totals_match_trail (h₀ : l₀.Genesis)
    (hrun : Run AuditedStep (⟨l₀, none⟩, ⟨[], []⟩) as (s, t)) (ha : s.ledger.live = some a)
    (f : Figure) : t.figure (Host.cluster D) f ≤ a.vault.figure f ∧
      ((∀ e ∈ t.entries, e.Exact) → a.vault.figure f = t.figure (Host.cluster D) f) := by
  have hreconciled : s.Reconciled t := by
    refine hrun.invariant (P := fun (r : AuditedLedger D × Trail) => r.1.Reconciled r.2) ?_ ?_
    · rintro ⟨s, t⟩ x ⟨s', t'⟩ hs hstep
      exact hstep.reconciled hs
    · refine ⟨fun address s hs => ?_, fun a ha => ?_, fun a ha => ?_⟩
      · cases (h₀.sessions address).symm.trans hs
      · cases h₀.live.symm.trans ha
      · cases h₀.live.symm.trans ha
  exact ⟨hreconciled.covers a ha f, fun hexact => hreconciled.exact a ha hexact f⟩

def auditEvent (r : AuditedLedger Preimage × Trail) :
    SampleEvent → Result (AuditedLedger Preimage × Trail)
  | .inl x => do
    let s ← execAudited x.1 [] r.1 x.2
    return (s, r.2.after x.1 [] r.1.ledger x.2)
  | .inr x => .ok ({ r.1 with ledger := { r.1.ledger with tokens := x.1, others := x.2 } }, r.2)

theorem auditEvent_step {r r' : AuditedLedger Preimage × Trail} {x : SampleEvent}
    (h : auditEvent r x = .ok r') : AuditedStep r x.action r' := by
  cases x with
  | inl x =>
    obtain ⟨s, hexec, hpure⟩ := seq_ok_iff.mp h
    obtain rfl := pure_ok_iff.mp hpure
    exact .call [] hexec
  | inr x =>
    cases h
    exact .foreign _ _ _ _

def playAudited (events : List SampleEvent) (r : AuditedLedger Preimage × Trail) :
    Result (AuditedLedger Preimage × Trail) := events.foldlM auditEvent r

theorem run_playAudited {events : List SampleEvent} {r r' : AuditedLedger Preimage × Trail}
    (h : (playAudited events r).toOption = some r') :
    Run AuditedStep r (events.map SampleEvent.action) r' :=
  run_of_foldlM (f := auditEvent) (fun _ _ _ => auditEvent_step) (toOption_eq_some_iff.mp h)

theorem totals_match_trail_metered : ∃ as s t a,
    Run AuditedStep (⟨emptyLedger, none⟩, ⟨[], []⟩) as (s, t) ∧ s.ledger.live = some a ∧
    a.vault.figure .volume = t.figure (Host.cluster Preimage) .volume ∧
    a.vault.figure .volume = 90 := by
  have hplayed : (playAudited (meteredSetup ++ meteredSpends)
      (⟨emptyLedger, none⟩, ⟨[], []⟩)).toOption.any (fun r => (∀ e ∈ r.2.entries, e.Exact) ∧
        r.1.ledger.live.any fun a => a.vault.figure .volume = 90) = true := by
    decide +kernel
  obtain ⟨r, hok, hfacts⟩ := (Option.any_eq_true _ _).mp hplayed
  obtain ⟨hexact, hlive⟩ := of_decide_eq_true hfacts
  obtain ⟨a, ha, hvolume⟩ := (Option.any_eq_true _ _).mp hlive
  have hrun := run_playAudited hok
  exact ⟨_, r.1, r.2, a, hrun, ha,
    (totals_match_trail genesis_emptyLedger hrun ha .volume).2 hexact, of_decide_eq_true hvolume⟩

end Reconciled

section Silent

variable {D : Type}

/-- The part of the state around a vault whose changes are told. -/
@[ext]
structure LoggedState (D : Type) where
  custody : Option (Pubkey × UInt8)
  status : Option (VaultStatus × ℤ)
  guards : Option (PolicyConfig D)
  rights : Option (List (Pubkey × UInt8 × UInt64 × Bool))
  tracker : Option SpendTracker
  pendingOwner : Option PendingOwnershipTransfer
  pendingGrant : Option (PendingAgentGrant D)

variable [Host D]

def Ledger.logged (l : Ledger D) : LoggedState D where
  custody := l.live.map fun a => (a.vault.owner, a.vault.ownerType)
  status := l.live.map fun a => (a.vault.status, a.vault.frozenAtTimestamp)
  guards := l.live.map fun a => a.policy.core
  rights := l.live.map fun a => a.vault.agents.map AgentEntry.rights
  tracker := l.live.map fun a => a.tracker
  pendingOwner := l.pendingOwner
  pendingGrant := l.pendingGrant

/-- The instruction writes nothing into the log of the successful. -/
def Ledger.Silent (env : Env) (l : Ledger D) (c : Call D) : Prop :=
  ∀ note ∈ l.auditNote env c, note.kind = .finalizeReject

variable [DecidableEq D] {env : Env} {l l' : Ledger D} {c : Call D} {a a' : VaultAccounts D}

omit [DecidableEq D] in
/-- Who owns the vault, its status and its policy never change without an entry. -/
theorem Ledger.Silent.spares (hsilent : l.Silent env c) (hinit : c.isInitialize = false)
    (hclose : c.closes = false) {p : Part} (hp : p ∈ [Part.custody, .status, .guards]) :
    p ∉ c.writes := by
  simp only [List.mem_cons, List.not_mem_nil, or_false] at hp
  cases c <;> first
    | cases hinit; done
    | cases hclose; done
    | cases hsilent _ rfl
    | rcases hp with rfl | rfl | rfl <;> simp [Call.writes]

omit [DecidableEq D] in
theorem not_silent_of_spendOf {p : Spend} (hp : l.spendOf env c = some p) : ¬ l.Silent env c := by
  intro hsilent
  cases c <;> first | cases hp | skip
  case agentTransfer args =>
    simp only [Ledger.spendOf, Option.bind_eq_bind, Option.bind_eq_some_iff] at hp
    obtain ⟨a, -, source, -, destination, hdestination, -⟩ := hp
    cases hsilent _ (Option.map_eq_some_iff.mpr ⟨destination, hdestination, rfl⟩)
  case finalizeSession args =>
    simp only [Ledger.spendOf, Option.bind_eq_bind, Option.bind_eq_some_iff] at hp
    obtain ⟨a, ha, s, hs, outcome, houtcome, amount, hamount, -⟩ := hp
    have hkind := hsilent (sessionNote (Host.cluster D) env.clock.unixTimestamp s outcome.spend) (by
      simp [Ledger.auditNote, ha, hs, houtcome])
    -- only a session that has not expired is measured
    have hopen : s.isExpired env.clock.unixTimestamp = false := by
      by_contra hexpired
      rw [SessionAuthority.chargedAmount, SessionAuthority.isMeasured,
        if_neg (by simp [hexpired])] at hamount
      cases hamount
    rw [sessionNote, hopen] at hkind
    cases hkind

theorem Ledger.Silent.pendingOwner (hsilent : l.Silent env c) (hclose : c.closes = false)
    (h : exec env l c = .ok l') : l'.pendingOwner = l.pendingOwner := by
  by_cases hwrites : Part.pendingOwner ∉ c.writes
  · exact exec_frame h hwrites
  cases c <;> simp [Call.writes, Part.ofVault] at hwrites <;> first
    | cases hclose; done
    | cases hsilent _ rfl
    | skip
  case cancelOwnershipTransfer =>
    obtain ⟨b, -, -, rfl⟩ := cancelOwnershipTransfer_ok h
    cases hpending : l.pendingOwner with
    | none => rfl
    | some pending => cases hsilent _ (Option.map_eq_some_iff.mpr ⟨pending, hpending, rfl⟩)

theorem Ledger.Silent.pendingGrant (hsilent : l.Silent env c) (hclose : c.closes = false)
    (h : exec env l c = .ok l') : l'.pendingGrant = l.pendingGrant := by
  by_cases hwrites : Part.pendingGrant ∉ c.writes
  · exact exec_frame h hwrites
  cases c <;> simp [Call.writes, Part.ofVault] at hwrites <;> first
    | cases hclose; done
    | cases hsilent _ rfl
    | skip
  case applyAgentGrant =>
    obtain ⟨b, pending, overlay, version, -, -, hpending, -⟩ := applyAgentGrant_ok h
    cases hsilent _ (Option.map_eq_some_iff.mpr ⟨pending, hpending, rfl⟩)
  case cancelAgentGrant =>
    obtain ⟨b, -, -, -, rfl⟩ := cancelAgentGrant_ok h
    cases hpending : l.pendingGrant with
    | none => rfl
    | some pending => cases hsilent _ (Option.map_eq_some_iff.mpr ⟨pending, hpending, rfl⟩)

theorem Ledger.Silent.rights (hsilent : l.Silent env c) (h : exec env l c = .ok l')
    (ha : l.live = some a) (ha' : l'.live = some a') :
    a'.vault.agents.map AgentEntry.rights = a.vault.agents.map AgentEntry.rights := by
  by_cases hwrites : Part.agents ∉ c.writes
  · have hagents : a'.vault.agents = a.vault.agents := (exec_frame h hwrites).eq ha ha'
    rw [hagents]
  cases c <;> simp [Call.writes, Part.ofVault] at hwrites <;> first
    | cases hsilent _ rfl
    | skip
  case initializeVault =>
    obtain ⟨hnone, -⟩ := initializeVault_ok h
    cases hnone.symm.trans ha
  case closeVault =>
    obtain ⟨b, -, -, -, -, -, rfl⟩ := closeVault_ok h
    cases ha'
  case applyAgentGrant =>
    obtain ⟨b, pending, overlay, version, -, -, hpending, -⟩ := applyAgentGrant_ok h
    cases hsilent _ (Option.map_eq_some_iff.mpr ⟨pending, hpending, rfl⟩)
  case applyAgentPermissionsUpdate =>
    obtain ⟨b, pending, entry, overlay, version, -, -, -, hready, -⟩ :=
      applyAgentPermissionsUpdate_ok h
    cases hsilent _ (Option.map_eq_some_iff.mpr ⟨pending, hready.found, rfl⟩)
  case validateAndAuthorize =>
    obtain ⟨b, vaultToken, pins, snapshots, tokens, ho⟩ := validateAndAuthorize_ok h
    cases ha.symm.trans ho.live
    obtain rfl := ho.result
    cases ha'
    exact map_rights_updateAgent fun _ => rfl
  case recordAgentViolation =>
    obtain ⟨b, entry, hb, -, hentry, -, ⟨hbelow, rfl⟩ | ⟨version, htrip, -, -⟩⟩ :=
      recordAgentViolation_ok h
    · cases ha.symm.trans hb
      cases ha'
      refine FirstMatch.map_modifyFirst AgentEntry.pubkey fun e he => ?_
      cases hentry.symm.trans he
      simp only [AgentEntry.rights, recordFailure_capability hbelow]
      rfl
    · have hkind := hsilent _ (by
        simp only [Ledger.auditNote, hb, hentry, Option.bind_eq_bind, Option.bind_some,
          if_pos htrip]
        rfl)
      cases hkind

theorem Ledger.Silent.logged (hsilent : l.Silent env c) (h : exec env l c = .ok l')
    (ha : l.live = some a) (ha' : l'.live = some a') : l'.logged = l.logged := by
  have hinit : c.isInitialize = false := Bool.eq_false_iff.mpr (not_isInitialize_of_live h ha)
  have hclose : c.closes = false := by
    rw [Bool.eq_false_iff]
    intro hclose
    obtain ⟨owner, remaining, rfl⟩ := Call.closes_iff.mp hclose
    obtain ⟨b, -, -, -, -, -, rfl⟩ := closeVault_ok h
    cases ha'
  have hframe : ∀ p ∈ [Part.custody, .status, .guards], l.SameAt l' p :=
    fun p hp => exec_frame h (hsilent.spares hinit hclose hp)
  have htracker : a'.tracker = a.tracker := by
    rcases exec_booked h ha ha' with ⟨p, hp, -⟩ | ⟨-, hsame⟩
    · exact absurd hsilent (not_silent_of_spendOf hp)
    · exact hsame
  apply LoggedState.ext
  · exact hframe .custody (by simp)
  · exact hframe .status (by simp)
  · exact hframe .guards (by simp)
  · simp only [Ledger.logged, ha, ha', Option.map_some, hsilent.rights h ha ha']
  · simp only [Ledger.logged, ha, ha', Option.map_some, htracker]
  · exact hsilent.pendingOwner hclose h
  · exact hsilent.pendingGrant hclose h

def LivingStep (r : AuditedLedger D × Trail) (x : Action D) (r' : AuditedLedger D × Trail) : Prop :=
  AuditedStep r x r' ∧ r.1.ledger.live.isSome = true ∧ r'.1.ledger.live.isSome = true

theorem LivingStep.stamped {r r' : AuditedLedger D × Trail} {x : Action D}
    (h : LivingStep r x r') : r.2.success.length < r'.2.success.length ∨
      r'.2.success.length = r.2.success.length ∧ r'.1.ledger.logged = r.1.ledger.logged := by
  obtain ⟨hstep, hlive, hlive'⟩ := h
  obtain ⟨a, ha⟩ := Option.isSome_iff_exists.mp hlive
  obtain ⟨a', ha'⟩ := Option.isSome_iff_exists.mp hlive'
  cases hstep with
  | foreign => exact .inr ⟨rfl, rfl⟩
  | @call env c s s' t slotHashes hexec =>
    have hledger := exec_of_execAudited hexec
    simp only [Trail.after, if_neg (not_isInitialize_of_live hledger ha)]
    by_cases hsilent : s.ledger.Silent env c
    · refine .inr ⟨?_, hsilent.logged hledger ha ha'⟩
      cases hnote : s.ledger.auditNote env c with
      | none => rfl
      | some note => simp only [Trail.add, if_pos (hsilent note hnote)]
    · refine .inl ?_
      simp only [Ledger.Silent, not_forall] at hsilent
      obtain ⟨note, hnote, hkind⟩ := hsilent
      simp [Option.mem_def.mp hnote, Trail.add, hkind]

/-- Along every run that the vault lives through the entries of the successful since its creation
never become fewer, and if they are as many as before, then who owns the vault, its status, its
policy, the rights of its agents, its spending counters and the pending changes of owner and agents
are all as before. -/
theorem unlogged_runs_change_nothing {r r' : AuditedLedger D × Trail} {as : List (Action D)}
    (hrun : Run LivingStep r as r') : r.2.success.length ≤ r'.2.success.length ∧
      (r'.2.success.length = r.2.success.length → r'.1.ledger.logged = r.1.ledger.logged) := by
  rcases hrun.stamped (fun r => r.2.success.length) (fun r => r.1.ledger.logged)
    fun _ _ _ hstep => hstep.stamped with hmore | ⟨hsame, hlogged⟩
  · exact ⟨hmore.le, fun hsame => absurd hsame hmore.ne'⟩
  · exact ⟨hsame.ge, fun _ => hlogged⟩

theorem unlogged_runs_change_nothing_metered : ∃ (r r' : AuditedLedger Preimage × Trail) (x : _),
    Run LivingStep r [x] r' ∧ r'.2.success.length = r.2.success.length ∧
    r'.1.ledger.logged = r.1.ledger.logged := by
  obtain ⟨m, hout⟩ := outside_metered
  obtain ⟨a, ha, -⟩ := Option.map_eq_some_iff.mp play_metered.2.2.1
  have hopens : Action.call ((tradeWith (sampleKey 60) 1 40 2600).env 0)
      (validateWith (sampleKey 60) 1) ∈ meteredSpends.map SampleEvent.action := by
    simp [meteredSpends, SampleEvent.action]
  obtain ⟨front, back, r, r', -, hfront, hstep, -⟩ := hout.exists_split hopens
  obtain ⟨b, hb, -⟩ := outside_run ha hfront
  obtain ⟨b', hb', -⟩ := outside_run ha (hfront.snoc hstep)
  obtain ⟨s, t, hrun, hledger⟩ := exists_audited_run genesis_emptyLedger
    ((step_run_of_booked run_metered.1).append
      (step_run_of_booked (booked_of_outside ha hfront []))) []
  cases hstep.1.1 with
  | call hexec =>
    rw [← hledger] at hexec hb
    obtain ⟨s', haudited, hledger', -⟩ := (holds_run genesis_emptyLedger hrun).exec [] hexec
    rw [← hledger'] at hb'
    have hlive : LivingStep (s, t) _ (s', _) :=
      ⟨.call [] haudited, Option.isSome_iff_exists.mpr ⟨b, hb⟩,
        Option.isSome_iff_exists.mpr ⟨b', hb'⟩⟩
    exact ⟨_, _, _, .single hlive, rfl,
      (unlogged_runs_change_nothing (.single hlive)).2 rfl⟩

end Silent

end Sigil
