import Sigil.Authority.Signers
import Sigil.Client.AuditLogView
import Sigil.Lifecycle.Reactivation
import Sigil.Spending.BookedSpends

/-! # The audit logs along runs of the program

Most instructions append an entry to a log of their vault as they succeed: what happened, to whom,
and what was moved. A session that is closed after its time goes into a log of its own. The logs
are created with the vault and go with it. `execAudited` is the program with its logs.
-/

namespace Sigil

open Machine Guard SelfDelimiting TokenLedger Trace

section Entries

inductive AuditKind
  | finalizeSuccess | deposit | withdraw | freeze | reactivate | ownershipInitiate
  | ownershipAccept | ownershipCancel | pauseAgent | unpauseAgent | revokeAgent | registerAgent
  | policyApply | finalizeReject | agentGrantQueue | agentGrantApply | agentGrantCancel
  | agentPermsApply | agentAutoRevoked | agentTransfer
  deriving DecidableEq

def AuditKind.discriminator : AuditKind → UInt8
  | finalizeSuccess => 2
  | deposit => 3
  | withdraw => 4
  | freeze => 5
  | reactivate => 6
  | ownershipInitiate => 7
  | ownershipAccept => 8
  | ownershipCancel => 9
  | pauseAgent => 10
  | unpauseAgent => 11
  | revokeAgent => 12
  | registerAgent => 13
  | policyApply => 14
  | finalizeReject => 16
  | agentGrantQueue => 17
  | agentGrantApply => 18
  | agentGrantCancel => 19
  | agentPermsApply => 20
  | agentAutoRevoked => 22
  | agentTransfer => 23

/-- The start of the newest slot and of its hash, from the bytes of the sysvar. -/
def readSlotHashHead (data : List UInt8) : List.Vector UInt8 4 × List.Vector UInt8 3 :=
  if data.length < 8 then (.replicate 4 0, .replicate 3 0)
  else if h : ofLeBytes (data.take 8) = 0 ∨ data.length < 8 + 8 + 32 then
    (.replicate 4 0, .replicate 3 0)
  else (⟨(data.drop 8).take 4, by simp; omega⟩, ⟨(data.drop 16).take 3, by simp; omega⟩)

def buildAuditEntry (discriminator : UInt8) (subject : Pubkey) (balanceDeltaIn balanceDeltaOut : ℤ)
    (timestamp : ℤ) (slotHashes : List UInt8) : AuditEntry where
  subject := subject
  balanceDeltaIn := balanceDeltaIn
  balanceDeltaOut := balanceDeltaOut
  timestamp := timestamp
  slotHash := (readSlotHashHead slotHashes).1
  blockhash := (readSlotHashHead slotHashes).2
  discriminator := discriminator

/-- An amount as the entries have it, at most the largest `i64`. -/
def auditDelta (amount : UInt64) : ℤ := min amount.toNat (2 ^ 63 - 1)

structure AuditNote where
  kind : AuditKind
  subject : Pubkey
  amountIn : UInt64
  amountOut : UInt64

def AuditNote.entry (note : AuditNote) (clock : Clock) (slotHashes : List UInt8) : AuditEntry :=
  buildAuditEntry note.kind.discriminator note.subject (auditDelta note.amountIn)
    (auditDelta note.amountOut) clock.unixTimestamp slotHashes

variable {D : Type} [Host D]

/-- What a session brought in, rather than spent, is what was measured of another token. -/
def SessionAuthority.isInflow (cluster : Cluster) (s : SessionAuthority) (now : ℤ) : Bool :=
  s.isMeasured now && !isStablecoinMint cluster s.authorizedToken

def sessionNote (cluster : Cluster) (now : ℤ) (s : SessionAuthority) (spend : UInt64) :
    AuditNote where
  kind := if s.isExpired now then .finalizeReject else .finalizeSuccess
  subject := s.authorizedProtocol
  amountIn := if s.isInflow cluster now then spend else 0
  amountOut := if s.isInflow cluster now then 0 else spend

def Ledger.auditNote (env : Env) (l : Ledger D) : Call D → Option AuditNote
  | .depositFunds _ mint amount => some ⟨.deposit, mint, amount, 0⟩
  | .withdrawFunds _ mint _ amount => some ⟨.withdraw, mint, 0, amount⟩
  | .freezeVault .. => some ⟨.freeze, l.vaultKey, 0, 0⟩
  | .reactivateVault .. => some ⟨.reactivate, l.vaultKey, 0, 0⟩
  | .initiateOwnershipTransfer _ _ newOwner _ => some ⟨.ownershipInitiate, newOwner, 0, 0⟩
  | .acceptOwnershipTransfer newOwner => some ⟨.ownershipAccept, newOwner, 0, 0⟩
  | .cancelOwnershipTransfer .. =>
    l.pendingOwner.map fun pending => ⟨.ownershipCancel, pending.newOwner, 0, 0⟩
  | .pauseAgent _ agent => some ⟨.pauseAgent, agent, 0, 0⟩
  | .unpauseAgent _ _ agent => some ⟨.unpauseAgent, agent, 0, 0⟩
  | .revokeAgent _ agent => some ⟨.revokeAgent, agent, 0, 0⟩
  | .registerAgent _ _ agent _ _ => some ⟨.registerAgent, agent, 0, 0⟩
  | .applyPendingPolicy _ => some ⟨.policyApply, l.vaultKey, 0, 0⟩
  | .queueAgentGrant _ _ agent _ _ => some ⟨.agentGrantQueue, agent, 0, 0⟩
  | .applyAgentGrant .. => l.pendingGrant.map fun pending => ⟨.agentGrantApply, pending.agent, 0, 0⟩
  | .cancelAgentGrant .. =>
    l.pendingGrant.map fun pending => ⟨.agentGrantCancel, pending.agent, 0, 0⟩
  | .applyAgentPermissionsUpdate _ _ address =>
    (l.pendingPerms address).map fun pending => ⟨.agentPermsApply, pending.agent, 0, 0⟩
  | .recordAgentViolation _ agent _ => do
    let a ← l.live
    let entry ← a.vault.getAgent agent
    -- only the violation that disables the agent is told
    if a.policy.autoRevokeThreshold ≤
        (entry.recordFailure a.policy.autoRevokeThreshold).consecutiveFailures then
      some ⟨.agentAutoRevoked, agent, 0, 0⟩
    else none
  | .agentTransfer args => (l.tokens args.destinationTokenAccount).map fun destination =>
    ⟨.agentTransfer, destination.owner, 0, args.amount⟩
  | .finalizeSession args => do
    let a ← l.live
    let s ← l.sessions args.session
    let outcome ← (l.outcome env args a s).toOption
    return sessionNote (Host.cluster D) env.clock.unixTimestamp s outcome.spend
  | _ => none

end Entries

section Exec

variable {D : Type}

structure AuditedLedger (D : Type) where
  ledger : Ledger D
  logs : Option (AuditLogSuccess × AuditLogRejected)

def AuditEntry.zero : AuditEntry := ⟨Pubkey.default, 0, 0, 0, .replicate 4 0, .replicate 3 0, 0⟩

def AuditLog.new (capacity : ℕ) (vault : Pubkey) : AuditLog capacity :=
  ⟨vault, fun _ => .zero, 0, 0⟩

def AuditLog.record {capacity : ℕ} [NeZero capacity] (log : AuditLog capacity) (vaultKey : Pubkey)
    (entry : AuditEntry) : Result (AuditLog capacity) := do
  ensure (log.vault = vaultKey) .zeroCopyVaultMismatch
  return log.append entry

/-- An expired session goes into the log of the rejected, everything else into that of the
successful. -/
def writeNote (logs : AuditLogSuccess × AuditLogRejected) (vaultKey : Pubkey) (note : AuditNote)
    (entry : AuditEntry) : Result (AuditLogSuccess × AuditLogRejected) :=
  if note.kind = .finalizeReject then do
    let rejected ← logs.2.record vaultKey entry
    return (logs.1, rejected)
  else do
    let success ← logs.1.record vaultKey entry
    return (success, logs.2)

def Call.isInitialize : Call D → Bool
  | initializeVault .. => true
  | _ => false

variable [Host D] [DecidableEq D]

def execAudited (env : Env) (slotHashes : List UInt8) (s : AuditedLedger D) (c : Call D) :
    Result (AuditedLedger D) := do
  let l ← exec env s.ledger c
  if c.isInitialize then return ⟨l, some (.new _ l.vaultKey, .new _ l.vaultKey)⟩
  else if c.closes then do
    let _ ← mustExist s.logs
    return ⟨l, none⟩
  else match s.ledger.auditNote env c with
    | some note => do
      let logs ← mustExist s.logs
      let written ← writeNote logs s.ledger.vaultKey note (note.entry env.clock slotHashes)
      return ⟨l, some written⟩
    | none => return ⟨l, s.logs⟩

end Exec

section Run

variable {D : Type} [Host D]

/-- The entries since the vault was created, oldest first. -/
structure Trail where
  success : List AuditEntry
  rejected : List AuditEntry

def Trail.add (t : Trail) (note : AuditNote) (entry : AuditEntry) : Trail :=
  if note.kind = .finalizeReject then { t with rejected := t.rejected ++ [entry] }
  else { t with success := t.success ++ [entry] }

/-- The trail after a successful instruction. -/
def Trail.after (t : Trail) (env : Env) (slotHashes : List UInt8) (l : Ledger D) (c : Call D) :
    Trail :=
  if c.isInitialize then ⟨[], []⟩
  else match l.auditNote env c with
    | some note => t.add note (note.entry env.clock slotHashes)
    | none => t

variable [DecidableEq D]

/-- A step of the world around a vault with its logs, and what it adds to the trail. -/
inductive AuditedStep : AuditedLedger D × Trail → Action D → AuditedLedger D × Trail → Prop
  | call {env : Env} {c : Call D} {s s' : AuditedLedger D} {t : Trail} (slotHashes : List UInt8)
      (h : execAudited env slotHashes s c = .ok s') :
      AuditedStep (s, t) (.call env c) (s', t.after env slotHashes s.ledger c)
  | foreign (s : AuditedLedger D) (t : Trail) (tokens : Accounts Pubkey)
      (others : Pubkey → AccountInfo) :
      AuditedStep (s, t) .foreign
        ({ s with ledger := { s.ledger with tokens := tokens, others := others } }, t)

/-- The logs of a live vault are its own and hold the trail; without a vault there are none. -/
def AuditedLedger.Holds (s : AuditedLedger D) (t : Trail) : Prop :=
  (s.ledger.live = none ∧ s.logs = none) ∨
    s.ledger.live.isSome = true ∧ ∃ success rejected, s.logs = some (success, rejected) ∧
      success.vault = s.ledger.vaultKey ∧ rejected.vault = s.ledger.vaultKey ∧
      success.Wrote t.success ∧ rejected.Wrote t.rejected

variable {env : Env} {c : Call D} {s s' : AuditedLedger D} {t t' : Trail} {slotHashes : List UInt8}
  {l' : Ledger D} {x : Action D}

theorem exec_of_execAudited (h : execAudited env slotHashes s c = .ok s') :
    exec env s.ledger c = .ok s'.ledger := by
  obtain ⟨l, hexec, h⟩ := seq_ok_iff.mp h
  split at h
  · obtain rfl := pure_ok_iff.mp h
    exact hexec
  · split at h
    · obtain ⟨-, -, h⟩ := seq_ok_iff.mp h
      obtain rfl := pure_ok_iff.mp h
      exact hexec
    · split at h
      · obtain ⟨logs, -, h⟩ := seq_ok_iff.mp h
        obtain ⟨written, -, h⟩ := seq_ok_iff.mp h
        obtain rfl := pure_ok_iff.mp h
        exact hexec
      · obtain rfl := pure_ok_iff.mp h
        exact hexec

/-- Writing the entry of an instruction adds it to the trail, and is never refused. -/
theorem writeNote_wrote {success : AuditLogSuccess} {rejected : AuditLogRejected} {vault : Pubkey}
    (hsuccess : success.vault = vault) (hrejected : rejected.vault = vault)
    (hwrote : success.Wrote t.success) (hwrote' : rejected.Wrote t.rejected) (note : AuditNote)
    (entry : AuditEntry) : ∃ success' rejected',
      writeNote (success, rejected) vault note entry = .ok (success', rejected') ∧
      success'.vault = vault ∧ rejected'.vault = vault ∧
      success'.Wrote (t.add note entry).success ∧ rejected'.Wrote (t.add note entry).rejected := by
  unfold writeNote Trail.add AuditLog.record
  split
  · rw [ensure_of hrejected]
    exact ⟨success, rejected.append entry, rfl, hsuccess, hrejected, hwrote,
      hwrote'.append (by decide) entry⟩
  · rw [ensure_of hsuccess]
    exact ⟨success.append entry, rejected, rfl, hsuccess, hrejected,
      hwrote.append (by decide) entry, hwrote'⟩

theorem auditLog_new_empty (capacity : ℕ) (vault : Pubkey) : (AuditLog.new capacity vault).Empty :=
  ⟨rfl, rfl⟩

omit [Host D] [DecidableEq D] in
theorem Call.isInitialize_iff :
    c.isInitialize = true ↔ ∃ owner feeDestination args,
      c = .initializeVault owner feeDestination args := by
  cases c <;> simp [isInitialize]

omit [Host D] [DecidableEq D] in
theorem Call.closes_iff : c.closes = true ↔ ∃ owner remaining, c = .closeVault owner remaining := by
  cases c <;> simp [closes]

theorem not_isInitialize_of_live {l l' : Ledger D} {a : VaultAccounts D} (h : exec env l c = .ok l')
    (ha : l.live = some a) : ¬ c.isInitialize = true := by
  intro hinit
  obtain ⟨owner, feeDestination, args, rfl⟩ := Call.isInitialize_iff.mp hinit
  obtain ⟨hnone, -⟩ := initializeVault_ok h
  cases hnone.symm.trans ha

theorem exists_live_of_not_isInitialize {l l' : Ledger D} (h : exec env l c = .ok l')
    (hinit : ¬ c.isInitialize = true) : ∃ a, l.live = some a := by
  rcases exec_exists_live h with hlive | ⟨owner, feeDestination, args, rfl⟩
  · exact hlive
  · exact absurd rfl hinit

/-- With logs that hold the trail an instruction succeeds just as it does without them, and the logs
hold the trail after it. -/
theorem AuditedLedger.Holds.exec (hs : s.Holds t) (slotHashes : List UInt8)
    (h : exec env s.ledger c = .ok l') : ∃ s', execAudited env slotHashes s c = .ok s' ∧
      s'.ledger = l' ∧ s'.Holds (t.after env slotHashes s.ledger c) := by
  rw [execAudited, h, ok_seq, Trail.after]
  by_cases hinit : c.isInitialize = true
  · simp only [if_pos hinit]
    obtain ⟨owner, feeDestination, args, rfl⟩ := Call.isInitialize_iff.mp hinit
    obtain ⟨-, -, -, -, -, -, rfl⟩ := initializeVault_ok h
    exact ⟨_, rfl, rfl, .inr ⟨rfl, _, _, rfl, rfl, rfl, (auditLog_new_empty _ _).wrote,
      (auditLog_new_empty _ _).wrote⟩⟩
  · simp only [if_neg hinit]
    obtain ⟨a, ha⟩ := exists_live_of_not_isInitialize h hinit
    rcases hs with ⟨hnone, -⟩ | ⟨-, success, rejected, hlogs, hsuccess, hrejected, hwrote, hwrote'⟩
    · cases hnone.symm.trans ha
    by_cases hclose : c.closes = true
    · obtain ⟨owner, remaining, rfl⟩ := Call.closes_iff.mp hclose
      obtain ⟨b, -, -, -, -, -, rfl⟩ := closeVault_ok h
      rw [if_pos hclose, hlogs]
      exact ⟨_, rfl, rfl, .inl ⟨rfl, rfl⟩⟩
    · have hlive : l'.live.isSome = true := by
        rcases exec_exists_after h ha with ⟨a', ha'⟩ | ⟨owner, remaining, rfl⟩
        · exact Option.isSome_iff_exists.mpr ⟨a', ha'⟩
        · exact absurd rfl hclose
      have hkey : l'.vaultKey = s.ledger.vaultKey := exec_vaultKey h
      rw [if_neg hclose]
      cases hnote : s.ledger.auditNote env c with
      | none =>
        exact ⟨_, rfl, rfl, .inr ⟨hlive, success, rejected, hlogs, hsuccess.trans hkey.symm,
          hrejected.trans hkey.symm, hwrote, hwrote'⟩⟩
      | some note =>
        obtain ⟨success', rejected', hwritten, hown, hown', hheld, hheld'⟩ :=
          writeNote_wrote hsuccess hrejected hwrote hwrote' note (note.entry env.clock slotHashes)
        refine ⟨⟨l', some (success', rejected')⟩, ?_, rfl, .inr ⟨hlive, success', rejected', rfl,
          hown.trans hkey.symm, hown'.trans hkey.symm, hheld, hheld'⟩⟩
        simp only [hlogs, mustExist, okOr, ok_seq, hwritten]
        rfl

theorem AuditedStep.holds (h : AuditedStep (s, t) x (s', t')) (hs : s.Holds t) : s'.Holds t' := by
  cases h with
  | call slotHashes h =>
    obtain ⟨s'', haudited, -, hholds⟩ := hs.exec slotHashes (exec_of_execAudited h)
    obtain rfl := Except.ok.inj (h.symm.trans haudited)
    exact hholds
  | foreign => exact hs

variable {l₀ l : Ledger D} {as : List (Action D)}

theorem holds_run (h₀ : l₀.Genesis) (hrun : Run AuditedStep (⟨l₀, none⟩, ⟨[], []⟩) as (s, t)) :
    s.Holds t := by
  refine hrun.invariant (P := fun (r : AuditedLedger D × Trail) => r.1.Holds r.2) ?_
    (.inl ⟨h₀.live, rfl⟩)
  rintro ⟨s, t⟩ x ⟨s', t'⟩ hs hstep
  exact hstep.holds hs

theorem exists_audited_run (h₀ : l₀.Genesis) (hrun : Run Step l₀ as l) (slotHashes : List UInt8) :
    ∃ s t, Run AuditedStep (⟨l₀, none⟩, ⟨[], []⟩) as (s, t) ∧ s.ledger = l := by
  induction hrun with
  | nil => exact ⟨_, _, .nil _, rfl⟩
  | @snoc m m' as x _ hstep ih =>
    obtain ⟨s, t, haudited, rfl⟩ := ih
    cases hstep with
    | foreign => exact ⟨_, _, haudited.snoc (.foreign _ _ _ _), rfl⟩
    | call hexec =>
      obtain ⟨s', hwritten, hledger, -⟩ := (holds_run h₀ haudited).exec slotHashes hexec
      exact ⟨s', _, haudited.snoc (.call slotHashes hwritten), hledger⟩

/-- Somebody who can add to the log of the successful: the owner, a party to a pending transfer, an
agent, or the agent of an open session. -/
def Ledger.Author (l : Ledger D) (a : VaultAccounts D) (key : Pubkey) : Prop :=
  key = a.vault.owner ∨
    (∃ pending, l.pendingOwner = some pending ∧
      (key = pending.newOwner ∨ key = pending.currentOwner)) ∨
    a.vault.isAgent key = true ∨ ∃ address session, l.sessions address = some session ∧
      key = session.agent

variable {a : VaultAccounts D} {note : AuditNote}

theorem author_of_exec (h : exec env l c = .ok l') (ha : l.live = some a)
    (hnote : l.auditNote env c = some note) (hkind : note.kind ≠ .finalizeReject) :
    l.Author a c.signer := by
  cases exec_authorized h ha with
  | owner hsigner => exact .inl hsigner
  | newOwner hpending hkey => exact .inr (.inl ⟨_, hpending, .inl hkey.symm⟩)
  | initiator hpending hkey => exact .inr (.inl ⟨_, hpending, .inr hkey.symm⟩)
  | cosigner => cases hnote
  | spender hagent => exact .inr (.inr (.inl hagent))
  | opener => cases hnote
  | @closer args session hsession hpayer =>
    refine .inr (.inr (.inr ⟨args.session, session, hsession, hpayer ?_⟩))
    -- an expired session is written into the other log
    by_contra hexpired
    rw [Bool.not_eq_false] at hexpired
    refine hkind ?_
    simp only [Ledger.auditNote, ha, hsession, Option.bind_eq_bind, Option.bind_some,
      Option.bind_eq_some_iff, Option.pure_def, Option.some.injEq] at hnote
    obtain ⟨outcome, -, rfl⟩ := hnote
    exact if_pos hexpired

/-- After every run of a live vault the client shows of its two logs the newest 128 and the newest
64 of the entries written since the vault was created. The logs never make an instruction fail, and
nobody but an author has an instruction written into the log of the successful. -/
theorem audit_logs_show_trail (h₀ : l₀.Genesis)
    (hrun : Run AuditedStep (⟨l₀, none⟩, ⟨[], []⟩) as (s, t)) (ha : s.ledger.live = some a) :
    (∃ success rejected, s.logs = some (success, rejected) ∧
      Client.ShowsNewest success t.success ∧ Client.ShowsNewest rejected t.rejected) ∧
    ∀ env c l', exec env s.ledger c = .ok l' → ∀ slotHashes,
      (∃ s', execAudited env slotHashes s c = .ok s' ∧ s'.ledger = l') ∧
      (¬ s.ledger.Author a c.signer → (t.after env slotHashes s.ledger c).success = t.success) := by
  have hholds := holds_run h₀ hrun
  refine ⟨?_, fun env c l' hexec slotHashes => ⟨?_, fun houtside => ?_⟩⟩
  · rcases hholds with ⟨hnone, -⟩ | ⟨-, success, rejected, hlogs, -, -, hwrote, hwrote'⟩
    · cases hnone.symm.trans ha
    · exact ⟨success, rejected, hlogs, Client.showsNewest_of_wrote hwrote,
        Client.showsNewest_of_wrote hwrote'⟩
  · obtain ⟨s', haudited, hledger, -⟩ := hholds.exec slotHashes hexec
    exact ⟨s', haudited, hledger⟩
  · rw [Trail.after, if_neg (not_isInitialize_of_live hexec ha)]
    cases hnote : s.ledger.auditNote env c with
    | none => rfl
    | some note =>
      have hkind : note.kind = .finalizeReject := by
        by_contra hkind
        exact houtside (author_of_exec hexec ha hnote hkind)
      simp [Trail.add, hkind]

theorem audit_logs_show_trail_metered : ∃ as s t a success rejected,
    Run AuditedStep (⟨emptyLedger, none⟩, ⟨[], []⟩) as (s, t) ∧ s.ledger.live = some a ∧
    s.logs = some (success, rejected) ∧ Client.ShowsNewest success t.success := by
  obtain ⟨a, ha, -⟩ := Option.map_eq_some_iff.mp play_metered.2.2.1
  obtain ⟨s, t, hrun, hledger⟩ := exists_audited_run genesis_emptyLedger
    (step_run_of_booked run_metered.1) []
  rw [← hledger] at ha
  obtain ⟨⟨success, rejected, hlogs, hshown, -⟩, -⟩ :=
    audit_logs_show_trail genesis_emptyLedger hrun ha
  exact ⟨_, s, t, a, success, rejected, hrun, ha, hlogs, hshown⟩

end Run

end Sigil
