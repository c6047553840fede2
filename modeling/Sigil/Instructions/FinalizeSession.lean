import Sigil.Instructions.AgentTransfer
import Sigil.Instructions.ValidateAndAuthorize

/-! # Closing a session

`finalize_session` measures what the session moved, charges the caps with it, takes the fees and
closes the session. A session that has expired is closed by anyone, without a measurement.
-/

namespace Sigil

open Machine Guard TokenLedger

structure FinalizeSessionArgs where
  payer : Pubkey
  session : Pubkey
  sessionRentRecipient : Pubkey
  vaultTokenAccount : Option Pubkey
  outputStablecoinAccount : Option Pubkey
  outputSwapAccount : Option Pubkey
  protocolTreasuryTokenAccount : Option Pubkey
  feeDestinationTokenAccount : Option Pubkey
  remaining : List AccountMeta

structure Outcome (D : Type) where
  accounts : VaultAccounts D
  tokens : Accounts Pubkey
  spend : UInt64
  developerFee : UInt64

namespace AgentSpendOverlay

def countLifetime (o : AgentSpendOverlay) (i : Fin maxOverlayEntries) (usdAmount : UInt64) :
    Result AgentSpendOverlay := do
  let spend ← someOr .overflow (checkedAdd (o.lifetimeSpend i) usdAmount)
  let count ← someOr .overflow (checkedAdd (o.lifetimeTxCount i) 1)
  return { o with
    lifetimeSpend := Function.update o.lifetimeSpend i spend
    lifetimeTxCount := Function.update o.lifetimeTxCount i count }

/-- As `chargeAgent`, with the lifetime figures. -/
def chargeAgentLifetime (o : AgentSpendOverlay) (clock : Clock) (agent : Pubkey)
    (usdAmount limit : UInt64) : Result AgentSpendOverlay :=
  match o.findAgentSlot agent with
  | some i => do
    let charged ← o.chargeSlot clock i usdAmount limit
    charged.countLifetime i usdAmount
  | none => if 0 < limit then fail .agentSlotNotFound else .ok o

end AgentSpendOverlay

section Measure

variable {D : Type}

/-- The cap of the session's protocol; no cap and a cap of zero let everything through. -/
def checkProtocolCap (policy : PolicyConfig D) (t : SpendTracker) (clock : Clock)
    (protocol : Pubkey) (usdAmount : UInt64) : Result Unit :=
  match policy.getProtocolCap protocol with
  | some cap =>
    if 0 < cap then
      checkCap .errDailyCapExceeded (t.getProtocolSpend clock protocol) usdAmount cap
    else .ok ()
  | none => .ok ()

/-- The spend also counts against its protocol when the policy has protocol caps. -/
def recordForProtocol (policy : PolicyConfig D) (t : SpendTracker) (clock : Clock)
    (protocol : Pubkey) (usdAmount : UInt64) : Result SpendTracker :=
  if policy.hasProtocolCaps then t.recordProtocolSpend clock protocol usdAmount else .ok t

def VaultAccounts.chargeSession (a : VaultAccounts D) (clock : Clock) (s : SessionAuthority)
    (usdAmount : UInt64) : Result (VaultAccounts D) := do
  ensure (usdAmount ≤ a.policy.maxTransactionSizeUsd) .transactionTooLarge
  a.tracker.checkDailyCap clock usdAmount a.policy.dailySpendingCapUsd
  let entry ← someOr .unauthorizedAgent (a.vault.getAgent s.agent)
  let overlay ← a.overlay.chargeAgentLifetime clock s.agent usdAmount entry.spendingLimitUsd
  checkProtocolCap a.policy a.tracker clock s.authorizedProtocol usdAmount
  let recorded ← a.tracker.recordSpend clock usdAmount
  let tracker ← recordForProtocol a.policy recorded clock s.authorizedProtocol usdAmount
  return { a with tracker := tracker, overlay := overlay }

/-- The pinned swap account must still be the vault's and have grown. -/
def enforceOutputOwnership (tokens : Accounts Pubkey) (vaultKey : Pubkey) (s : SessionAuthority)
    (outputSwap : Option Pubkey) : Result Unit := do
  let key ← someOr .errOutputNotVaultOwned outputSwap
  ensure (key = s.outputSwapAccount) .errOutputNotVaultOwned
  let t ← someOr .errOutputNotVaultOwned (tokens key)
  ensure (t.owner = vaultKey) .errOutputNotVaultOwned
  ensure (t.mint = s.outputSwapMint) .errOutputNotVaultOwned
  ensure (s.outputSwapBalanceBefore < t.amount) .errOutputNotVaultOwned

/-- The account that is measured, with the owner and the mint it must have. -/
def measuredAccount (tokens : Accounts Pubkey) (vaultKey mint key : Pubkey) :
    Result (TokenAccount Pubkey) := do
  let t ← someOr .invalidTokenAccount (tokens key)
  ensure (t.owner = vaultKey) .invalidTokenAccount
  ensure (t.mint = mint) .invalidTokenAccount
  return t

/-- The two fees on a measured spend and what it costs the vault with them. -/
def spendWithFees (spend : UInt64) (developerFeeRate : UInt16) :
    Result (UInt64 × UInt64 × UInt64) := do
  let protocolFee ← ceilFee spend protocolFeeRate.toUInt64
  let developerFee ← ceilFee spend developerFeeRate.toUInt64
  let withProtocol ← someOr .overflow (checkedAdd spend protocolFee)
  let total ← someOr .overflow (checkedAdd withProtocol developerFee)
  return (protocolFee, developerFee, total)

theorem spendWithFees_ok {spend : UInt64} {rate : UInt16} {fees : UInt64 × UInt64 × UInt64}
    (h : spendWithFees spend rate = .ok fees) :
    fees.2.2.toNat = spend.toNat + fees.1.toNat + fees.2.1.toNat := by
  simp only [spendWithFees, seq_ok_iff, someOr_ok_iff, checkedAdd_eq_some, pure_ok_iff] at h
  obtain ⟨protocolFee, -, developerFee, -, withProtocol, hprotocol, total, htotal, rfl⟩ := h
  change total.toNat = spend.toNat + protocolFee.toNat + developerFee.toNat
  rw [htotal, hprotocol]

variable [Host D]

/-- A session on stablecoin that spent: charge the spend with its fees and pay the fees. -/
def settleSpend (clock : Clock) (l : Ledger D) (a : VaultAccounts D) (s : SessionAuthority)
    (source : Pubkey) (outputSwap : Option Pubkey)
    (treasury feeDest : Option (Pubkey × TokenAccount Pubkey)) (spend : UInt64) :
    Result (Outcome D) := do
  enforceOutputOwnership l.tokens l.vaultKey s outputSwap
  let (protocolFee, developerFee, total) ← spendWithFees spend a.policy.developerFeeRate
  let charged ← a.chargeSession clock s total
  let tokens ← transferMeasuredFees (Host.cluster D) l.tokens l.vaultKey source s.authorizedToken
    a.vault.feeDestination protocolFee developerFee treasury feeDest
  let _ ← someOr .overflow (checkedAdd a.vault.totalFeesCollected developerFee)
  return ⟨charged, tokens, spend, developerFee⟩

/-- A session on stablecoin is measured at the account it delegated from. -/
def settleStablecoin (clock : Clock) (l : Ledger D) (a : VaultAccounts D) (s : SessionAuthority)
    (args : FinalizeSessionArgs) (treasury feeDest : Option (Pubkey × TokenAccount Pubkey)) :
    Result (Outcome D) := do
  let source ← someOr .invalidTokenAccount args.vaultTokenAccount
  let t ← measuredAccount l.tokens l.vaultKey s.authorizedToken source
  let spend := saturatingSub s.stablecoinBalanceBefore t.amount
  ensure (s.delegated = true ∧ t.amount < s.stablecoinBalanceBefore → spend ≤ s.authorizedAmount)
    .unexpectedBalanceDecrease
  if 0 < spend then
    settleSpend clock l a s source args.outputSwapAccount treasury feeDest spend
  else return ⟨a, l.tokens, spend, 0⟩

/-- A session on another token must bring stablecoin in, and the inflow is charged. -/
def settleInflow (clock : Clock) (l : Ledger D) (a : VaultAccounts D) (s : SessionAuthority)
    (args : FinalizeSessionArgs) : Result (Outcome D) := do
  let key ← someOr .invalidTokenAccount args.outputStablecoinAccount
  ensure (key = s.outputStablecoinAccount) .invalidTokenAccount
  let t ← measuredAccount l.tokens l.vaultKey s.outputMint key
  ensure (s.stablecoinBalanceBefore < t.amount) .nonTrackedSwapMustReturnStablecoin
  let delta ← someOr .overflow (checkedSub t.amount s.stablecoinBalanceBefore)
  let charged ← a.chargeSession clock s delta
  return ⟨charged, l.tokens, delta, 0⟩

def SessionAuthority.isMeasured (s : SessionAuthority) (now : ℤ) : Bool :=
  s.isExpired now = false ∧ s.outputMint ≠ Pubkey.default

def settle (clock : Clock) (l : Ledger D) (a : VaultAccounts D) (s : SessionAuthority)
    (args : FinalizeSessionArgs) (treasury feeDest : Option (Pubkey × TokenAccount Pubkey)) :
    Result (Outcome D) :=
  if s.isMeasured clock.unixTimestamp then
    if isStablecoinMint (Host.cluster D) s.authorizedToken then
      settleStablecoin clock l a s args treasury feeDest
    else settleInflow clock l a s args
  else .ok ⟨a, l.tokens, 0, 0⟩

end Measure

section Checks

variable {D : Type}

/-- A measured session that spent nothing must show growth of its pinned output. -/
def enforceMeasurableOutcome (vaultKey : Pubkey) (s : SessionAuthority) (measured : Bool)
    (spend : UInt64) (tokens : Accounts Pubkey) (outputSwap : Option Pubkey) : Result Unit :=
  if measured = true ∧ spend = 0 then
    if s.outputSwapAccount ≠ Pubkey.default then
      enforceOutputOwnership tokens vaultKey s outputSwap
    else fail .errUnmeasurableSpend
  else .ok ()

/-- Every account that the instruction before could write must be listed. -/
def enforceFinalizeCompleteness (env : Env) (vaultKey : Pubkey) (remaining : List AccountMeta)
    (measured : Bool) (spend : UInt64) : Result Unit :=
  if measured = true ∧ 0 < spend then do
    ensure (1 ≤ env.currentIndex) .invalidSession
    let defiIx ← someOr .errFinalizeMetaUnresolvable (precedingInstruction env)
    checkMetaCounts defiIx.accounts
    ensure (∀ m ∈ defiIx.accounts, m.isWritable = true → m.pubkey ≠ vaultKey →
      remaining.any (fun r => r.pubkey = m.pubkey) = true) .errFinalizeMetaUnresolvable
  else .ok ()

variable [Host D]

/-- The allowed recipient of stablecoin behind a writable account, if it is one. -/
def recipientOf (env : Env) (l : Ledger D) (policy : PolicyConfig D)
    (remaining : List AccountMeta) (m : AccountMeta) : Option Pubkey :=
  if m.isWritable then
    match (l.listedInfo env remaining m.pubkey).bind readToken with
    | some view =>
      if view.owner ≠ l.vaultKey ∧ isStablecoinMint (Host.cluster D) view.mint = true ∧
          policy.isDestinationAllowed view.owner = true then some view.owner
      else none
    | none => none
  else none

/-- The one recipient among the accounts of an instruction; two different ones are refused. -/
def walkRecipients (recipientOf : AccountMeta → Option Pubkey) :
    ℕ → Option Pubkey → List AccountMeta → Result (Option Pubkey)
  | _, seen, [] => .ok seen
  | 0, _, _ :: _ => fail .ixMetaCountExceeded
  | fuel + 1, seen, m :: rest =>
    match recipientOf m, seen with
    | none, _ => walkRecipients recipientOf fuel seen rest
    | some r, none => walkRecipients recipientOf fuel (some r) rest
    | some r, some prev =>
      if prev = r then walkRecipients recipientOf fuel seen rest
      else fail .errRecipientCapExceeded

/-- Charge the recipient of the instruction before, when the policy caps recipients. -/
def chargeSessionRecipient (env : Env) (l : Ledger D) (policy : PolicyConfig D)
    (t : SpendTracker) (remaining : List AccountMeta) (spend : UInt64) : Result SpendTracker :=
  if 0 < policy.perRecipientDailyCapUsd ∧ 0 < spend then do
    ensure (1 ≤ env.currentIndex) .invalidSession
    let defiIx ← someOr .errRecipientCapExceeded (precedingInstruction env)
    let recipient ← walkRecipients (recipientOf env l policy remaining) 64 none defiIx.accounts
    match recipient with
    | some r => chargeRecipient policy t env.clock r spend
    | none => .ok t
  else .ok t

/-- The balance of an account that the vault holds at its associated address. -/
def canonicalStableBalance (l : Ledger D) (key : Pubkey) : UInt64 :=
  match l.tokens key with
  | some t =>
    if t.owner = l.vaultKey ∧ isStablecoinMint (Host.cluster D) t.mint = true ∧
        key = associatedTokenAddress D l.vaultKey t.mint tokenProgramId then t.amount
    else 0
  | none => 0

/-- The vault's stablecoin in the named accounts and in the listed ones. -/
def sessionFloorSum (env : Env) (l : Ledger D) (args : FinalizeSessionArgs) : Result UInt64 := do
  let input := args.vaultTokenAccount.elim 0 (canonicalStableBalance l)
  let output := if args.outputStablecoinAccount = args.vaultTokenAccount then 0
    else args.outputStablecoinAccount.elim 0 (canonicalStableBalance l)
  let start ← someOr .overflow (checkedAdd input output)
  sumStableBalances env l
    (fun key info view => key = associatedTokenAddress D l.vaultKey view.mint info.owner) 64
    (args.vaultTokenAccount.toList ++ args.outputStablecoinAccount.toList) start args.remaining

end Checks

section Finalize

variable {D : Type} [Host D]

/-- Take the delegation of a session back. -/
def revokeDelegation (l : Ledger D) (s : SessionAuthority) : Result (Accounts Pubkey) :=
  if s.delegated then viaToken (revoke l.tokens s.delegationTokenAccount l.vaultKey)
  else .ok l.tokens

/-- A session that is closed in time must meet the stored assertions. -/
def ensureAssertions (env : Env) (l : Ledger D) (policy : PolicyConfig D)
    (remaining : List AccountMeta) (s : SessionAuthority) : Result Unit :=
  if s.isExpired env.clock.unixTimestamp = false ∧ policy.hasPostAssertions ≠ 0 then
    enforcePostExecutionAssertions env l remaining s
  else .ok ()

def AgentVault.countSuccess (v : AgentVault) (isSpending : Bool) (spend : UInt64) :
    Result AgentVault := do
  let transactions ← someOr .overflow (checkedAdd v.totalTransactions 1)
  let volume ← addWhen isSpending v.totalVolume spend
  return { v with totalTransactions := transactions, totalVolume := volume }

def AgentVault.countFailure (v : AgentVault) : Result AgentVault := do
  let failed ← someOr .overflow (checkedAdd v.totalFailedTransactions 1)
  return { v with totalFailedTransactions := failed }

def AgentVault.countClosed (v : AgentVault) (expired isSpending : Bool) (spend : UInt64) :
    Result AgentVault :=
  if expired then v.countFailure else v.countSuccess isSpending spend

def AgentVault.countFinalize (v : AgentVault) (expired isSpending : Bool)
    (spend developerFee : UInt64) : Result AgentVault := do
  let fees ← addWhen (0 < developerFee) v.totalFeesCollected developerFee
  let counted ← { v with totalFeesCollected := fees }.countClosed expired isSpending spend
  return { counted with activeSessions := counted.activeSessions - min 1 counted.activeSessions }

def finalizeSession (env : Env) (args : FinalizeSessionArgs) (l : Ledger D) :
    Result (Ledger D) := do
  let a ← mustExist l.live
  let s ← mustExist (l.sessions args.session)
  ensure (s.vault = l.vaultKey) .invalidSession
  require (args.session = sessionAddress D l.vaultKey s.agent s.authorizedToken)
    (.anchor .constraintSeeds)
  let vaultToken ← l.loadOptionalToken args.vaultTokenAccount
  ensure (∀ t ∈ vaultToken, t.2.owner = l.vaultKey) .invalidTokenAccount
  let _ ← l.loadOptionalToken args.outputStablecoinAccount
  let _ ← l.loadOptionalToken args.outputSwapAccount
  let treasury ← l.loadOptionalToken args.protocolTreasuryTokenAccount
  let feeDest ← l.loadOptionalToken args.feeDestinationTokenAccount
  rejectCpi env
  let now := env.clock.unixTimestamp
  ensure (args.sessionRentRecipient = s.agent) .invalidSession
  ensure (s.isExpired now = false → args.payer = s.agent) .unauthorizedAgent
  ensure (s.isExpired now = false → s.authorized = true) .sessionNotAuthorized
  ensure (s.delegated = true → args.vaultTokenAccount = some s.delegationTokenAccount)
    .invalidTokenAccount
  let revoked ← revokeDelegation l s
  let outcome ← settle env.clock { l with tokens := revoked } a s args treasury feeDest
  let measured := s.isMeasured now
  let l₁ : Ledger D := { l with tokens := outcome.tokens }
  enforceMeasurableOutcome l.vaultKey s measured outcome.spend outcome.tokens
    args.outputSwapAccount
  enforceFinalizeCompleteness env l.vaultKey args.remaining measured outcome.spend
  let tracker ← chargeSessionRecipient env l₁ a.policy outcome.accounts.tracker args.remaining
    outcome.spend
  checkStableFloor a.policy (sessionFloorSum env l₁ args)
  let vault ← outcome.accounts.vault.countFinalize (s.isExpired now) (0 < s.authorizedAmount)
    outcome.spend outcome.developerFee
  ensureAssertions env l₁ a.policy args.remaining s
  let _ ← someOr .overflow (checkedAdd s.nonce 1)
  postScan env
  return { l₁.setSession args.session none with
    live := some { outcome.accounts with vault := vault, tracker := tracker } }

structure SessionClosed (env : Env) (args : FinalizeSessionArgs) (l l' : Ledger D)
    (a : VaultAccounts D) (s : SessionAuthority) (revoked : Accounts Pubkey)
    (outcome : Outcome D) (vault : AgentVault) (tracker : SpendTracker) : Prop where
  live : l.live = some a
  session : l.sessions args.session = some s
  topLevel : env.stackHeight = transactionLevelStackHeight
  payer : s.isExpired env.clock.unixTimestamp = false → args.payer = s.agent
  delegation : s.delegated = true → args.vaultTokenAccount = some s.delegationTokenAccount
  revocation : revokeDelegation l s = .ok revoked
  settled : ∃ treasury feeDest,
    l.loadOptionalToken args.protocolTreasuryTokenAccount = .ok treasury ∧
    l.loadOptionalToken args.feeDestinationTokenAccount = .ok feeDest ∧
    settle env.clock { l with tokens := revoked } a s args treasury feeDest = .ok outcome
  complete : enforceFinalizeCompleteness env l.vaultKey args.remaining
    (s.isMeasured env.clock.unixTimestamp) outcome.spend = .ok ()
  recipient : chargeSessionRecipient env { l with tokens := outcome.tokens } a.policy
    outcome.accounts.tracker args.remaining outcome.spend = .ok tracker
  floor : checkStableFloor a.policy
    (sessionFloorSum env { l with tokens := outcome.tokens } args) = .ok ()
  count : outcome.accounts.vault.countFinalize (s.isExpired env.clock.unixTimestamp)
    (0 < s.authorizedAmount) outcome.spend outcome.developerFee = .ok vault
  asserted : ensureAssertions env { l with tokens := outcome.tokens } a.policy args.remaining s =
    .ok ()
  after : postScan env = .ok ()
  result : l' = { l.setSession args.session none with
    live := some { outcome.accounts with vault := vault, tracker := tracker }
    tokens := outcome.tokens }

variable {env : Env} {args : FinalizeSessionArgs} {l l' : Ledger D}

theorem finalizeSession_ok (h : finalizeSession env args l = .ok l') :
    ∃ a s revoked outcome vault tracker,
      SessionClosed env args l l' a s revoked outcome vault tracker := by
  simp only [finalizeSession, seq_ok_iff, mustExist_ok_iff, rejectCpi_ok_iff, ensure_ok_iff,
    require_ok_iff, exists_and_left, exists_const, pure_ok_iff] at h
  obtain ⟨a, ha, s, hs, -, -, -, -, -, -, -, -, -, treasury, htreasury, feeDest, hfeeDest, htop, -,
    hpayer, -, hdelegation, revoked, hrevoked, outcome, hsettled, -, -, ⟨⟩, hcomplete, tracker,
    htracker, ⟨⟩, hfloor, vault, hvault, ⟨⟩, hasserted, -, -, ⟨⟩, hafter, rfl⟩ := h
  exact ⟨a, s, revoked, outcome, vault, tracker, ha, hs, htop, hpayer, hdelegation, hrevoked,
    ⟨treasury, feeDest, htreasury, hfeeDest, hsettled⟩, hcomplete, htracker, hfloor, hvault,
    hasserted, hafter, rfl⟩

omit [Host D] in
theorem chargeSession_ok {a charged : VaultAccounts D} {clock : Clock} {s : SessionAuthority}
    {usdAmount : UInt64} (h : a.chargeSession clock s usdAmount = .ok charged) :
    ∃ entry overlay recorded tracker, usdAmount ≤ a.policy.maxTransactionSizeUsd ∧
      a.tracker.checkDailyCap clock usdAmount a.policy.dailySpendingCapUsd = .ok () ∧
      a.vault.getAgent s.agent = some entry ∧
      a.overlay.chargeAgentLifetime clock s.agent usdAmount entry.spendingLimitUsd = .ok overlay ∧
      checkProtocolCap a.policy a.tracker clock s.authorizedProtocol usdAmount = .ok () ∧
      a.tracker.recordSpend clock usdAmount = .ok recorded ∧
      recordForProtocol a.policy recorded clock s.authorizedProtocol usdAmount = .ok tracker ∧
      charged = { a with tracker := tracker, overlay := overlay } := by
  simp only [VaultAccounts.chargeSession, seq_ok_iff, ensure_ok_iff, someOr_ok_iff,
    exists_and_left, exists_const, pure_ok_iff] at h
  obtain ⟨hsize, ⟨⟩, hdaily, entry, hentry, overlay, hoverlay, ⟨⟩, hprotocol, recorded, hrecorded,
    tracker, htracker, rfl⟩ := h
  exact ⟨entry, overlay, recorded, tracker, hsize, hdaily, hentry, hoverlay, hprotocol, hrecorded,
    htracker, rfl⟩

theorem settle_charges {clock : Clock} {a : VaultAccounts D} {s : SessionAuthority}
    {treasury feeDest : Option (Pubkey × TokenAccount Pubkey)} {outcome : Outcome D}
    (h : settle clock l a s args treasury feeDest = .ok outcome) :
    outcome.accounts = a ∨ ∃ amount, a.chargeSession clock s amount = .ok outcome.accounts := by
  unfold settle at h
  split at h
  · split at h
    · simp only [settleStablecoin, seq_ok_iff] at h
      obtain ⟨source, -, t, -, -, -, h⟩ := h
      split at h
      · simp only [settleSpend, seq_ok_iff, pure_ok_iff] at h
        obtain ⟨-, -, fees, -, charged, hcharged, -, -, -, -, rfl⟩ := h
        exact .inr ⟨_, hcharged⟩
      · obtain rfl := pure_ok_iff.mp h
        exact .inl rfl
    · simp only [settleInflow, seq_ok_iff, pure_ok_iff] at h
      obtain ⟨key, -, -, -, t, -, -, -, delta, -, charged, hcharged, rfl⟩ := h
      exact .inr ⟨_, hcharged⟩
  · cases h
    exact .inl rfl

theorem settle_ok {clock : Clock} {a : VaultAccounts D} {s : SessionAuthority}
    {treasury feeDest : Option (Pubkey × TokenAccount Pubkey)} {outcome : Outcome D}
    (h : settle clock l a s args treasury feeDest = .ok outcome) :
    ∃ tracker overlay, outcome.accounts = { a with tracker := tracker, overlay := overlay } := by
  rcases settle_charges h with hsame | ⟨amount, hcharged⟩
  · exact ⟨a.tracker, a.overlay, hsame⟩
  · obtain ⟨entry, overlay, recorded, tracker, -, -, -, -, -, -, -, hresult⟩ :=
      chargeSession_ok hcharged
    exact ⟨tracker, overlay, hresult⟩

omit [Host D] in
theorem countFinalize_ok {v v' : AgentVault} {expired isSpending : Bool}
    {spend developerFee : UInt64}
    (h : v.countFinalize expired isSpending spend developerFee = .ok v') :
    ∃ transactions volume fees failed sessions, v' = { v with
      totalTransactions := transactions
      totalVolume := volume
      totalFeesCollected := fees
      totalFailedTransactions := failed
      activeSessions := sessions } := by
  simp only [AgentVault.countFinalize, seq_ok_iff, pure_ok_iff] at h
  obtain ⟨fees, -, counted, hcounted, rfl⟩ := h
  unfold AgentVault.countClosed at hcounted
  split at hcounted
  · simp only [AgentVault.countFailure, seq_ok_iff, pure_ok_iff] at hcounted
    obtain ⟨failed, -, rfl⟩ := hcounted
    exact ⟨_, _, _, _, _, rfl⟩
  · simp only [AgentVault.countSuccess, seq_ok_iff, pure_ok_iff] at hcounted
    obtain ⟨transactions, -, volume, -, rfl⟩ := hcounted
    exact ⟨_, _, _, _, _, rfl⟩

/-- Closing a session changes the totals of the vault, the tracker, the overlay and the tokens, and
takes the session away. -/
theorem finalizeSession_effect (h : finalizeSession env args l = .ok l') :
    ∃ a overlay tracker transactions volume fees failed sessions tokens, l.live = some a ∧
      l' = { l.setSession args.session none with
        live := some { a with
          vault := { a.vault with
            totalTransactions := transactions
            totalVolume := volume
            totalFeesCollected := fees
            totalFailedTransactions := failed
            activeSessions := sessions }
          tracker := tracker
          overlay := overlay }
        tokens := tokens } := by
  obtain ⟨a, s, revoked, outcome, vault, tracker, hclosed⟩ := finalizeSession_ok h
  obtain ⟨treasury, feeDest, -, -, hsettled⟩ := hclosed.settled
  obtain ⟨tracker', overlay, haccounts⟩ := settle_ok hsettled
  obtain ⟨transactions, volume, fees, failed, sessions, hvault⟩ := countFinalize_ok hclosed.count
  refine ⟨a, overlay, tracker, transactions, volume, fees, failed, sessions, outcome.tokens,
    hclosed.live, ?_⟩
  rw [hclosed.result, hvault, haccounts]

end Finalize

end Sigil
