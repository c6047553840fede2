import Sigil.Session.AgentSlots
import Sigil.Spending.ProtocolCounters
import Sigil.Spending.RecipientHistory

/-! # Booked spends

Two instructions spend for an agent, and each books one spend in the counters of the vault: the
ring behind the daily cap, the slot of the agent, the counter of the protocol and the counter of
the recipient. A spend is read off the state before the instruction, with the caps that are in
force there; every other instruction leaves the counters alone.
-/

namespace Sigil

open Machine Guard TokenLedger Trace

/-- A spend as the counters book it, with the caps it is held against. A cap of zero is none. -/
structure Spend where
  time : ℤ
  agent : Pubkey
  amount : UInt64
  protocol : Option Pubkey
  recipient : Option Pubkey
  paid : UInt64
  dailyCap : UInt64
  agentLimit : UInt64
  protocolCounted : Bool
  protocolCap : UInt64
  recipientCap : UInt64
  deriving DecidableEq

section Reading

variable {D : Type}

def VaultAccounts.spend (a : VaultAccounts D) (clock : Clock) (agent : Pubkey) (amount : UInt64)
    (protocol recipient : Option Pubkey) (paid : UInt64) : Spend where
  time := clock.unixTimestamp
  agent := agent
  amount := amount
  protocol := protocol
  recipient := recipient
  paid := paid
  dailyCap := a.policy.dailySpendingCapUsd
  agentLimit := (a.vault.getAgent agent).elim 0 AgentEntry.spendingLimitUsd
  protocolCounted := a.policy.hasProtocolCaps
  protocolCap := (protocol.bind a.policy.getProtocolCap).getD 0
  recipientCap := a.policy.perRecipientDailyCapUsd

variable [Host D]

/-- The measurement that closing a session makes. -/
def Ledger.outcome (env : Env) (args : FinalizeSessionArgs) (l : Ledger D) (a : VaultAccounts D)
    (s : SessionAuthority) : Result (Outcome D) := do
  let treasury ← l.loadOptionalToken args.protocolTreasuryTokenAccount
  let feeDest ← l.loadOptionalToken args.feeDestinationTokenAccount
  let revoked ← revokeDelegation l s
  settle env.clock { l with tokens := revoked } a s args treasury feeDest

/-- What a measured session is charged with: stablecoin it spent with the fees, or the stablecoin
that it brought in. -/
def SessionAuthority.chargedAmount (cluster : Cluster) (s : SessionAuthority) (now : ℤ)
    (developerFeeRate : UInt16) (spend : UInt64) : Option UInt64 :=
  if s.isMeasured now then
    if isStablecoinMint cluster s.authorizedToken then
      if 0 < spend then (spendWithFees spend developerFeeRate).toOption.map (·.2.2) else none
    else some spend
  else none

/-- The recipient that closing a session charges. -/
def sessionRecipient (env : Env) (l : Ledger D) (policy : PolicyConfig D)
    (remaining : List AccountMeta) (spend : UInt64) : Option Pubkey :=
  if 0 < policy.perRecipientDailyCapUsd ∧ 0 < spend then do
    let defiIx ← precedingInstruction env
    (walkRecipients (recipientOf env l policy remaining) 64 none defiIx.accounts).toOption.join
  else none

def Ledger.spendOf (env : Env) (l : Ledger D) : Call D → Option Spend
  | .agentTransfer args => do
    let a ← l.live
    let source ← l.tokens args.vaultTokenAccount
    let destination ← l.tokens args.destinationTokenAccount
    let decimals ← unpackMint (l.accountInfo env source.mint)
    let amount ← (stablecoinToUsd args.amount decimals).toOption
    return a.spend env.clock args.agent amount none (some destination.owner) amount
  | .finalizeSession args => do
    let a ← l.live
    let s ← l.sessions args.session
    let outcome ← (l.outcome env args a s).toOption
    let amount ← s.chargedAmount (Host.cluster D) env.clock.unixTimestamp
      a.policy.developerFeeRate outcome.spend
    return a.spend env.clock s.agent amount (some s.authorizedProtocol)
      (sessionRecipient env { l with tokens := outcome.tokens } a.policy args.remaining
        outcome.spend) outcome.spend
  | _ => none

end Reading

theorem VaultAccounts.spend_capped {D : Type} (a : VaultAccounts D) (clock : Clock)
    (agent : Pubkey) (amount : UInt64) (protocol recipient : Option Pubkey) (paid : UInt64)
    (h : 0 < (a.spend clock agent amount protocol recipient paid).protocolCap) :
    (a.spend clock agent amount protocol recipient paid).protocolCounted = true := by
  by_contra hcounted
  have hnone : protocol.bind a.policy.getProtocolCap = none := by
    cases protocol with
    | none => rfl
    | some k => exact if_neg hcounted
  rw [VaultAccounts.spend, hnone] at h
  exact absurd h (lt_irrefl 0)

section Booked

namespace SpendTracker

def ring (t : SpendTracker) : (Fin numEpochs → EpochBucket) × ℤ := (t.buckets, t.lastWriteEpoch)

def recipients (t : SpendTracker) : (Fin maxPerRecipientEntries → PerRecipientCounter) × ℕ :=
  (t.perRecipient, t.perRecipientCount)

end SpendTracker

/-- The spend went into the counter of its protocol, or it is not counted for a protocol. -/
inductive ProtocolBooked (clock : Clock) (p : Spend) (t t' : SpendTracker) : Prop
  | counted {protocol : Pubkey} {u : SpendTracker} (hprotocol : p.protocol = some protocol)
      (hcounted : p.protocolCounted = true)
      (hcap : 0 < p.protocolCap →
        (t.getProtocolSpend clock protocol).toNat + p.amount.toNat ≤ p.protocolCap.toNat)
      (hrecord : t.recordProtocolSpend clock protocol p.amount = .ok u)
      (hsame : t'.protocolCounters = u.protocolCounters)
  | skipped (hskipped : p.protocol = none ∨ p.protocolCounted = false)
      (hsame : t'.protocolCounters = t.protocolCounters)

/-- The spend went into the counter of its recipient, or there is no recipient with a cap. -/
inductive RecipientBooked (clock : Clock) (p : Spend) (t t' : SpendTracker) : Prop
  | counted {recipient : Pubkey} {u u' : SpendTracker} (hrecipient : p.recipient = some recipient)
      (hcapped : 0 < p.recipientCap)
      (hsame : u.recipients = t.recipients)
      (hcap : (u.getRecipientSpend clock recipient).toNat + p.paid.toNat ≤ p.recipientCap.toNat)
      (hrecord : u.recordRecipientSpend clock recipient p.paid = .ok u')
      (hsame' : t'.recipients = u'.recipients)
  | skipped (hskipped : p.recipient = none ∨ ¬ 0 < p.recipientCap)
      (hsame : t'.recipients = t.recipients)

variable {D : Type} {clock : Clock} {a a' : VaultAccounts D} {amount : UInt64}
  {protocol recipient : Pubkey} {t recorded t' : SpendTracker} {policy : PolicyConfig D}

/-- What an instruction that books a spend does to the counters. -/
structure Booked (clock : Clock) (p : Spend) (a a' : VaultAccounts D) : Prop where
  time : p.time = clock.unixTimestamp
  dailyCap : p.dailyCap = a.policy.dailySpendingCapUsd
  agentLimit : ∃ entry, a.vault.getAgent p.agent = some entry ∧
    entry.spendingLimitUsd = p.agentLimit
  counters : SpendRecorded clock p.agent p.amount a a'
  others : Charged p.agent a.overlay a'.overlay
  ring : ∃ t, a.tracker.recordSpend clock p.amount = .ok t ∧ a'.tracker.ring = t.ring
  capped : 0 < p.protocolCap → p.protocolCounted = true
  protocol : ProtocolBooked clock p a.tracker a'.tracker
  recipient : RecipientBooked clock p a.tracker a'.tracker

theorem recordSpend_counters (h : t.recordSpend clock amount = .ok t') :
    t'.protocolCounters = t.protocolCounters ∧ t'.recipients = t.recipients := by
  obtain ⟨-, total, -, rfl⟩ := SpendTracker.recordSpend_ok h
  exact ⟨rfl, rfl⟩

theorem recordProtocolSpend_beside (h : t.recordProtocolSpend clock protocol amount = .ok t') :
    t'.ring = t.ring ∧ t'.recipients = t.recipients := by
  simp only [SpendTracker.recordProtocolSpend, ensure_seq_ok_iff] at h
  obtain ⟨-, h⟩ := h
  split at h
  · split at h
    · obtain rfl := pure_ok_iff.mp h
      exact ⟨rfl, rfl⟩
    · simp only [someOr_seq_ok_iff, pure_ok_iff] at h
      obtain ⟨spend, -, rfl⟩ := h
      exact ⟨rfl, rfl⟩
  · split at h
    · obtain rfl := pure_ok_iff.mp h
      exact ⟨rfl, rfl⟩
    · exact absurd h fail_ne_ok

theorem recordForProtocol_beside (h : recordForProtocol policy t clock protocol amount = .ok t') :
    t'.ring = t.ring ∧ t'.recipients = t.recipients := by
  unfold recordForProtocol at h
  split at h
  · exact recordProtocolSpend_beside h
  · cases h
    exact ⟨rfl, rfl⟩

theorem chargeRecipient_beside (h : chargeRecipient policy t clock recipient amount = .ok t') :
    t'.ring = t.ring ∧ t'.protocolCounters = t.protocolCounters := by
  unfold chargeRecipient at h
  split at h
  · simp only [seq_ok_iff] at h
    obtain ⟨-, -, h⟩ := h
    obtain ⟨counters, count, rfl⟩ := recordRecipientSpend_eq h
    exact ⟨rfl, rfl⟩
  · cases h
    exact ⟨rfl, rfl⟩

theorem RecipientBooked.of_charge {p : Spend}
    (hrecipient : p.recipient = some recipient)
    (hcap : p.recipientCap = policy.perRecipientDailyCapUsd)
    (hsame : recorded.recipients = t.recipients)
    (h : chargeRecipient policy recorded clock recipient p.paid = .ok t') :
    RecipientBooked clock p t t' := by
  unfold chargeRecipient at h
  split at h
  · rename_i hcapped
    simp only [seq_ok_iff, checkCap_ok_iff, exists_and_left, exists_const] at h
    obtain ⟨hle, hrecord⟩ := h
    exact .counted hrecipient (hcap ▸ hcapped) hsame (hcap ▸ hle) hrecord rfl
  · rename_i hopen
    cases h
    exact .skipped (.inr (hcap ▸ hopen)) hsame

theorem ProtocolBooked.of_charge {p : Spend} (hprotocol : p.protocol = some protocol)
    (hcounted : p.protocolCounted = policy.hasProtocolCaps)
    (hcap : p.protocolCap = (policy.getProtocolCap protocol).getD 0)
    (hcheck : checkProtocolCap policy t clock protocol p.amount = .ok ())
    (hrecorded : t.recordSpend clock p.amount = .ok recorded)
    (h : recordForProtocol policy recorded clock protocol p.amount = .ok t') :
    ProtocolBooked clock p t t' := by
  obtain ⟨-, hcounter⟩ := recordForProtocol_ok hrecorded h
  by_cases hcaps : policy.hasProtocolCaps = true
  · obtain ⟨u, hrecord, hsame⟩ := hcounter hcaps
    refine .counted hprotocol (hcounted.trans hcaps) (fun hpos => ?_) hrecord hsame
    cases hget : policy.getProtocolCap protocol with
    | none =>
      rw [hcap, hget, Option.getD_none] at hpos
      exact absurd hpos (lt_irrefl 0)
    | some cap =>
      rw [hget, Option.getD_some] at hcap
      rw [hcap] at hpos ⊢
      exact checkProtocolCap_ok hcheck cap hget hpos
  · refine .skipped (.inr (hcounted.trans (Bool.eq_false_iff.mpr hcaps))) ?_
    rw [recordForProtocol, if_neg hcaps] at h
    cases h
    exact (recordSpend_counters hrecorded).1

theorem ProtocolBooked.congr {p : Spend} (h : ProtocolBooked clock p t recorded)
    (hsame : t'.protocolCounters = recorded.protocolCounters) : ProtocolBooked clock p t t' := by
  cases h with
  | counted hprotocol hcounted hcap hrecord hcounters =>
    exact .counted hprotocol hcounted hcap hrecord (hsame.trans hcounters)
  | skipped hskipped hcounters => exact .skipped hskipped (hsame.trans hcounters)

/-- A recipient that was charged if there was one. -/
def RecipientPaid (policy : PolicyConfig D) (clock : Clock) (recipient : Option Pubkey)
    (paid : UInt64) (t t' : SpendTracker) : Prop :=
  (∃ r, recipient = some r ∧ chargeRecipient policy t clock r paid = .ok t') ∨
    recipient = none ∧ t' = t

theorem RecipientPaid.beside {recipient : Option Pubkey} {paid : UInt64}
    (h : RecipientPaid policy clock recipient paid t t') :
    t'.ring = t.ring ∧ t'.protocolCounters = t.protocolCounters := by
  rcases h with ⟨r, -, hcharge⟩ | ⟨-, rfl⟩
  · exact chargeRecipient_beside hcharge
  · exact ⟨rfl, rfl⟩

theorem Booked.of_session {s : SessionAuthority} {b : VaultAccounts D} {recipient : Option Pubkey}
    {paid : UInt64} (hcharged : a.chargeSession clock s amount = .ok b)
    (hrecipient : RecipientPaid a.policy clock recipient paid b.tracker a'.tracker)
    (hoverlay : a'.overlay = b.overlay) :
    Booked clock (a.spend clock s.agent amount (some s.authorizedProtocol) recipient paid)
      a a' := by
  obtain ⟨hcounters, -⟩ := chargeSession_recorded hcharged
  have hslots : Charged s.agent a.overlay a'.overlay :=
    hoverlay ▸ (charged_chargeSession hcharged).2
  obtain ⟨hring, hprotocols⟩ := hrecipient.beside
  obtain ⟨entry, overlay, recorded, booked, -, -, hentry, -, hcap, hrecorded, hbooked, rfl⟩ :=
    chargeSession_ok hcharged
  obtain ⟨hring', hothers⟩ := recordForProtocol_beside hbooked
  have hrecipients := hothers.trans (recordSpend_counters hrecorded).2
  have hlimit : entry.spendingLimitUsd =
      (a.spend clock s.agent amount (some s.authorizedProtocol) recipient paid).agentLimit := by
    simp [VaultAccounts.spend, hentry]
  generalize hp : a.spend clock s.agent amount (some s.authorizedProtocol) recipient paid = p
    at hlimit
  have hprotocol : p.protocol = some s.authorizedProtocol := hp ▸ rfl
  have hcounted : p.protocolCounted = a.policy.hasProtocolCaps := hp ▸ rfl
  have hprotocolCap : p.protocolCap = (a.policy.getProtocolCap s.authorizedProtocol).getD 0 :=
    hp ▸ rfl
  have hagent : p.agent = s.agent := hp ▸ rfl
  have hamount : p.amount = amount := hp ▸ rfl
  have hpaid : p.paid = paid := hp ▸ rfl
  subst hamount hpaid
  refine ⟨hp ▸ rfl, hp ▸ rfl, ⟨entry, hagent ▸ hentry, hlimit⟩, ?_, hagent ▸ hslots,
    ⟨recorded, hrecorded, hring.trans hring'⟩, fun hcapped => ?_, ?_, ?_⟩
  · rw [hagent]
    exact hcounters.congr (congrArg Prod.fst hring) (congrArg _ hoverlay)
  · rw [← hp] at hcapped ⊢
    exact a.spend_capped _ _ _ _ _ _ hcapped
  · exact (ProtocolBooked.of_charge hprotocol hcounted hprotocolCap hcap hrecorded hbooked).congr
      hprotocols
  · have hfound : p.recipient = recipient := hp ▸ rfl
    have hrecipientCap : p.recipientCap = a.policy.perRecipientDailyCapUsd := hp ▸ rfl
    rcases hrecipient with ⟨r, rfl, hcharge⟩ | ⟨rfl, hsame⟩
    · exact .of_charge hfound hrecipientCap hrecipients hcharge
    · exact .skipped (.inl hfound) (by rw [hsame]; exact hrecipients)

end Booked

section Exec

variable {D : Type} [Host D] {env : Env} {l l' : Ledger D} {a a' : VaultAccounts D}

theorem spendOf_agentTransfer {args : AgentTransferArgs} {charged counted : VaultAccounts D}
    {source destination : TokenAccount Pubkey} {usdAmount : UInt64} {split : TransferSplit}
    (h : Transferred env args l l' a charged counted source destination usdAmount split) :
    l.spendOf env (.agentTransfer args) = some (a.spend env.clock args.agent usdAmount none
      (some destination.owner) usdAmount) := by
  obtain ⟨decimals, hmint, husd⟩ := h.converted
  simp [Ledger.spendOf, h.live, h.sourceAccount, h.destinationAccount, hmint, husd,
    Except.toOption]

theorem booked_agentTransfer {args : AgentTransferArgs} (h : agentTransfer env args l = .ok l') :
    ∃ p a a', l.spendOf env (.agentTransfer args) = some p ∧ l.live = some a ∧
      l'.live = some a' ∧ Booked env.clock p a a' := by
  obtain ⟨a, charged, counted, source, destination, usdAmount, split, ht⟩ := agentTransfer_ok h
  have hspend := spendOf_agentTransfer ht
  obtain ⟨entry, hentry, hcharged⟩ := ht.charge
  have hcounters := chargeTransfer_recorded hentry hcharged
  have hothers : Charged args.agent a.overlay charged.overlay := charged_chargeTransfer hcharged
  obtain ⟨overlay, recorded, tracker, -, -, -, hrecorded, htracker, rfl⟩ :=
    chargeTransfer_ok hcharged
  obtain ⟨transactions, volume, fees, rfl⟩ := countTransfer_ok ht.count
  obtain ⟨tokens, rfl⟩ := ht.result
  obtain ⟨hring, hprotocols⟩ := chargeRecipient_beside htracker
  obtain ⟨hkept, hrecipients⟩ := recordSpend_counters hrecorded
  refine ⟨_, a, _, hspend, ht.live, rfl, rfl, rfl, ⟨entry, hentry, ?_⟩,
    hcounters.congr rfl rfl, hothers, ⟨recorded, hrecorded, hring⟩,
    a.spend_capped _ _ _ _ _ _, .skipped (.inl rfl) (hprotocols.trans hkept),
    .of_charge rfl rfl hrecipients htracker⟩
  simp [VaultAccounts.spend, hentry]

theorem settle_chargedAmount {clock : Clock} {s : SessionAuthority} {args : FinalizeSessionArgs}
    {treasury feeDest : Option (Pubkey × TokenAccount Pubkey)} {outcome : Outcome D}
    (h : settle clock l a s args treasury feeDest = .ok outcome) :
    (∃ amount, s.chargedAmount (Host.cluster D) clock.unixTimestamp a.policy.developerFeeRate
        outcome.spend = some amount ∧ a.chargeSession clock s amount = .ok outcome.accounts) ∨
      s.chargedAmount (Host.cluster D) clock.unixTimestamp a.policy.developerFeeRate
        outcome.spend = none ∧ outcome.accounts = a ∧ outcome.spend = 0 := by
  unfold settle at h
  unfold SessionAuthority.chargedAmount
  split at h
  · rename_i hmeasured
    simp only [hmeasured, if_true]
    split at h
    · rename_i hstable
      simp only [hstable, if_true]
      simp only [settleStablecoin, seq_ok_iff] at h
      obtain ⟨source, -, t, -, -, -, h⟩ := h
      split at h
      · rename_i hpos
        simp only [settleSpend, seq_ok_iff, pure_ok_iff] at h
        obtain ⟨-, -, fees, hfees, charged, hcharged, -, -, -, -, rfl⟩ := h
        refine .inl ⟨fees.2.2, ?_, hcharged⟩
        simp [hpos, hfees, Except.toOption]
      · rename_i hzero
        obtain rfl := pure_ok_iff.mp h
        have hnone : saturatingSub s.stablecoinBalanceBefore t.amount = 0 := by
          by_contra hne
          exact hzero (UInt64.pos_iff_ne_zero.mpr hne)
        exact .inr ⟨if_neg hzero, rfl, hnone⟩
    · rename_i hother
      simp only [settleInflow, seq_ok_iff, pure_ok_iff] at h
      obtain ⟨key, -, -, -, t, -, -, -, delta, -, charged, hcharged, rfl⟩ := h
      exact .inl ⟨delta, if_neg hother, hcharged⟩
  · rename_i hmeasured
    cases h
    exact .inr ⟨if_neg hmeasured, rfl, rfl⟩

theorem recipientPaid_of_session {policy : PolicyConfig D} {t t' : SpendTracker}
    {remaining : List AccountMeta} {spend : UInt64}
    (h : chargeSessionRecipient env l policy t remaining spend = .ok t') :
    RecipientPaid policy env.clock (sessionRecipient env l policy remaining spend) spend t t' := by
  unfold chargeSessionRecipient at h
  unfold sessionRecipient
  split at h
  · rename_i hcapped
    simp only [seq_ok_iff, ensure_ok_iff, someOr_ok_iff, exists_and_left, exists_const] at h
    obtain ⟨-, defiIx, hpreceding, found, hwalk, h⟩ := h
    simp only [if_pos hcapped, hpreceding, Option.bind_eq_bind, Option.bind_some, hwalk,
      Except.toOption]
    cases found with
    | some recipient => exact .inl ⟨recipient, rfl, h⟩
    | none => exact .inr ⟨rfl, (Except.ok.inj h).symm⟩
  · rename_i hopen
    exact .inr ⟨if_neg hopen, (Except.ok.inj h).symm⟩

theorem SessionClosed.outcome_eq {args : FinalizeSessionArgs} {s : SessionAuthority}
    {revoked : Accounts Pubkey} {outcome : Outcome D} {vault : AgentVault} {tracker : SpendTracker}
    (h : SessionClosed env args l l' a s revoked outcome vault tracker) :
    l.outcome env args a s = .ok outcome := by
  obtain ⟨treasury, feeDest, htreasury, hfeeDest, hsettled⟩ := h.settled
  simp only [Ledger.outcome, htreasury, hfeeDest, h.revocation, ok_seq, hsettled]

theorem booked_finalizeSession {args : FinalizeSessionArgs}
    (h : finalizeSession env args l = .ok l') :
    ∃ a a', l.live = some a ∧ l'.live = some a' ∧
      ((∃ p, l.spendOf env (.finalizeSession args) = some p ∧ Booked env.clock p a a') ∨
        l.spendOf env (.finalizeSession args) = none ∧ a'.tracker = a.tracker ∧
          a'.overlay = a.overlay) := by
  obtain ⟨a, s, revoked, outcome, vault, tracker, hclosed⟩ := finalizeSession_ok h
  obtain ⟨treasury, feeDest, -, -, hsettled⟩ := hclosed.settled
  have hrecipient := hclosed.recipient
  have hread : l.spendOf env (.finalizeSession args) =
      (s.chargedAmount (Host.cluster D) env.clock.unixTimestamp a.policy.developerFeeRate
        outcome.spend).map fun amount => a.spend env.clock s.agent amount
          (some s.authorizedProtocol) (sessionRecipient env { l with tokens := outcome.tokens }
            a.policy args.remaining outcome.spend) outcome.spend := by
    simp only [Ledger.spendOf, hclosed.live, hclosed.session, Option.bind_eq_bind,
      Option.bind_some, hclosed.outcome_eq, Except.toOption]
    exact (Option.map_eq_bind ..).symm
  have hcharge := recipientPaid_of_session hrecipient
  obtain rfl := hclosed.result
  refine ⟨a, _, hclosed.live, rfl, ?_⟩
  rcases settle_chargedAmount hsettled with ⟨amount, hamount, hcharged⟩ | ⟨hnone, hsame, hzero⟩
  · rw [hamount] at hread
    exact .inl ⟨_, hread, .of_session hcharged hcharge rfl⟩
  · rw [hnone] at hread
    unfold chargeSessionRecipient at hrecipient
    rw [if_neg (by simp [hzero])] at hrecipient
    refine .inr ⟨hread, ?_, ?_⟩
    · change tracker = a.tracker
      rw [← Except.ok.inj hrecipient, hsame]
    · change outcome.accounts.overlay = a.overlay
      rw [hsame]

variable [DecidableEq D] {c : Call D}

/-- Every instruction books the spend that was read before it, or leaves the counters of the
tracker alone. -/
theorem exec_booked (h : exec env l c = .ok l') (ha : l.live = some a) (ha' : l'.live = some a') :
    (∃ p, l.spendOf env c = some p ∧ Booked env.clock p a a') ∨
      l.spendOf env c = none ∧ a'.tracker = a.tracker := by
  by_cases hwrites : Part.tracker ∉ c.writes
  · refine .inr ⟨?_, (exec_frame h hwrites).eq ha ha'⟩
    cases c <;> first | rfl | exact absurd hwrites (by simp [Call.writes])
  cases c <;> simp [Call.writes, Part.ofVault] at hwrites
  case initializeVault =>
    obtain ⟨hnone, -⟩ := initializeVault_ok h
    cases hnone.symm.trans ha
  case closeVault =>
    obtain ⟨b, -, -, -, -, -, rfl⟩ := closeVault_ok h
    cases ha'
  case agentTransfer =>
    obtain ⟨p, b, b', hp, hb, hb', hbooked⟩ := booked_agentTransfer h
    cases ha.symm.trans hb
    cases ha'.symm.trans hb'
    exact .inl ⟨p, hp, hbooked⟩
  case finalizeSession =>
    obtain ⟨b, b', hb, hb', hcases⟩ := booked_finalizeSession h
    cases ha.symm.trans hb
    cases ha'.symm.trans hb'
    exact hcases.imp id fun hnone => ⟨hnone.1, hnone.2.1⟩

end Exec

section Run

variable {D : Type} [Host D]

/-- The spends since the vault was created, newest first, after one more action. -/
def Action.book (l : Ledger D) (h : List Spend) : Action D → List Spend
  | .call _ (.initializeVault ..) => []
  | .call env c => (l.spendOf env c).toList ++ h
  | .foreign => h

def BookedStep [DecidableEq D] (s : Ledger D × List Spend) (x : Action D)
    (s' : Ledger D × List Spend) : Prop :=
  Step s.1 x s'.1 ∧ s'.2 = x.book s.1 s.2

variable [DecidableEq D] {l l' : Ledger D} {h h' : List Spend} {as : List (Action D)}

theorem step_run_of_booked (hrun : Run BookedStep (l, h) as (l', h')) : Run Step l as l' :=
  hrun.map Prod.fst fun _ _ _ hstep => hstep.1

end Run

section Sample

/-- An instruction, or token accounts and others as the outside leaves them. -/
abbrev SampleEvent : Type :=
  (Env × Call Preimage) ⊕ TokenLedger.Accounts Pubkey × (Pubkey → AccountInfo)

def SampleEvent.action : SampleEvent → Action Preimage
  | .inl x => .call x.1 x.2
  | .inr _ => .foreign

def playEvent (s : Ledger Preimage × List Spend) :
    SampleEvent → Result (Ledger Preimage × List Spend)
  | .inl x => do
    let l ← exec x.1 s.1 x.2
    return (l, Action.book s.1 s.2 (.call x.1 x.2))
  | .inr x => .ok ({ s.1 with tokens := x.1, others := x.2 }, s.2)

def play (events : List SampleEvent) (s : Ledger Preimage × List Spend) :
    Result (Ledger Preimage × List Spend) := events.foldlM playEvent s

theorem playEvent_step {s s' : Ledger Preimage × List Spend} {x : SampleEvent}
    (h : playEvent s x = .ok s') : BookedStep s x.action s' := by
  cases x with
  | inl x =>
    obtain ⟨l, hexec, hpure⟩ := seq_ok_iff.mp h
    obtain rfl := pure_ok_iff.mp hpure
    exact ⟨.call hexec, rfl⟩
  | inr x =>
    cases h
    exact ⟨.foreign _ _ _, rfl⟩

theorem run_of_foldlM {σ : Type} {step : σ → Action Preimage → σ → Prop}
    {f : σ → SampleEvent → Result σ} (hf : ∀ s x s', f s x = .ok s' → step s x.action s')
    {events : List SampleEvent} {s s' : σ} (h : events.foldlM f s = .ok s') :
    Run step s (events.map SampleEvent.action) s' := by
  induction events generalizing s with
  | nil =>
    obtain rfl := Except.ok.inj h
    exact .nil s
  | cons x events ih =>
    rw [List.foldlM_cons] at h
    obtain ⟨m, hfirst, hrest⟩ := seq_ok_iff.mp h
    exact (Run.single (hf s x m hfirst)).append (ih hrest)

theorem run_play {events : List SampleEvent} {s s' : Ledger Preimage × List Spend}
    (h : play events s = .ok s') : Run BookedStep s (events.map SampleEvent.action) s' :=
  run_of_foldlM (f := playEvent) (fun _ _ _ => playEvent_step) h

theorem exists_played {events : List SampleEvent} {s : Ledger Preimage × List Spend}
    {h : List Spend} (hbook : (play events s).toOption.map Prod.snd = some h) :
    ∃ l, play events s = .ok (l, h) := by
  obtain ⟨s', hplay, rfl⟩ := Option.map_eq_some_iff.mp hbook
  exact ⟨s'.1, toOption_eq_some_iff.mp hplay⟩

def meteredArgs : InitializeVaultArgs Preimage :=
  let draft : InitializeVaultArgs Preimage := { cappedArgs with perRecipientDailyCapUsd := 80 }
  { draft with
    previewDigest := liveDigest (draft.newVault (sampleKey 1) (sampleKey 4))
      (draft.newPolicy emptyLedger.vaultKey 7) }

/-- The vault is created and an agent with a limit of 500 is seated. -/
def meteredSetup : List SampleEvent :=
  [.inl (sampleEnv 1000 7, .initializeVault (sampleKey 1) (sampleKey 4) meteredArgs),
    .inl (sampleEnv 1000 7,
      .queueAgentGrant (sampleKey 1) [] (sampleKey 9) capabilityOperator 500),
    .inl (sampleEnv 1600 20, .applyAgentGrant (sampleKey 1) [])]

/-- The token accounts of the sample trade and one of the allowed destination. -/
def meteredTokens (spent : UInt64) : TokenLedger.Accounts Pubkey :=
  Function.update (sampleTokens emptyLedger.vaultKey spent) (sampleKey 25)
    (some (sampleAccount sampleMint (sampleKey 3) 0))

/-- The agent pays 50 to the allowed destination and lets a protocol take 40. -/
def meteredSpends : List SampleEvent :=
  [.inr (meteredTokens 0, sampleOthers),
    .inl (sampleEnv 2000 30, .agentTransfer sampleTransfer),
    .inr (meteredTokens 0, sampleOthers),
    .inl ((tradeWith (sampleKey 60) 1 40 2600).env 0, validateWith (sampleKey 60) 1),
    .inr (meteredTokens 40, sampleOthers),
    .inl ((tradeWith (sampleKey 60) 1 40 2600).env 2, closeTrade)]

/-- What the two spends are booked as; the protocol's fee is charged to the agent too. -/
def meteredBook : List Spend :=
  [⟨2600, sampleKey 9, 41, some (sampleKey 60), none, 40, 1000, 500, true, 1000, 80⟩,
    ⟨2000, sampleKey 9, 50, none, some (sampleKey 3), 50, 1000, 500, true, 0, 80⟩]

def meteredLedger : Ledger Preimage :=
  ((play meteredSetup (emptyLedger, [])).toOption.map Prod.fst).getD emptyLedger

theorem play_metered : (play meteredSetup (emptyLedger, [])).toOption.map Prod.snd = some [] ∧
    (play (meteredSetup ++ meteredSpends) (emptyLedger, [])).toOption.map Prod.snd =
      some meteredBook ∧
    meteredLedger.live.map (fun a => a.vault.owner) = some (sampleKey 1) ∧
    meteredLedger.pendingOwner = none := by
  decide +kernel

theorem run_metered :
    Run BookedStep (emptyLedger, []) (meteredSetup.map SampleEvent.action) (meteredLedger, []) ∧
      ∃ m, Run BookedStep (meteredLedger, []) (meteredSpends.map SampleEvent.action)
        (m, meteredBook) := by
  obtain ⟨hsetup, hall, -⟩ := play_metered
  obtain ⟨l, hplayed⟩ := exists_played hsetup
  obtain ⟨m, hended⟩ := exists_played hall
  rw [play, List.foldlM_append] at hended
  obtain ⟨s, hfirst, hrest⟩ := seq_ok_iff.mp hended
  obtain rfl := Except.ok.inj (hplayed.symm.trans hfirst)
  have hl : meteredLedger = l := by
    rw [meteredLedger, hplayed]
    rfl
  rw [hl]
  exact ⟨run_play hplayed, m, run_play hrest⟩

end Sample

end Sigil
