import Sigil.Instructions.Funds

/-! # Agent transfer

The direct spending path of an agent: stablecoin goes from the vault to an allowed destination,
and the caps are charged with the whole amount, fees included. The handler looks neither at
observe-only mode nor at the operating hours nor at the agent's cooldown, and it does not note
the time of the action.
-/

namespace Sigil

open Machine Guard TokenLedger

structure AgentTransferArgs where
  agent : Pubkey
  vaultTokenAccount : Pubkey
  tokenMintAccount : Pubkey
  destinationTokenAccount : Pubkey
  feeDestinationTokenAccount : Option Pubkey
  protocolTreasuryTokenAccount : Option Pubkey
  amount : UInt64
  expectedPolicyVersion : UInt64
  remaining : List AccountMeta

structure TransferSplit where
  net : UInt64
  protocolFee : UInt64
  developerFee : UInt64

def splitTransfer (amount : UInt64) (developerFeeRate : UInt16) : Result TransferSplit := do
  let protocolFee ← ceilFee amount protocolFeeRate.toUInt64
  let developerFee ← ceilFee amount developerFeeRate.toUInt64
  let afterProtocol ← someOr .overflow (checkedSub amount protocolFee)
  let net ← someOr .overflow (checkedSub afterProtocol developerFee)
  return ⟨net, protocolFee, developerFee⟩

theorem splitTransfer_ok {amount : UInt64} {rate : UInt16} {split : TransferSplit}
    (h : splitTransfer amount rate = .ok split) :
    split.net.toNat + split.protocolFee.toNat + split.developerFee.toNat = amount.toNat := by
  simp only [splitTransfer, seq_ok_iff, someOr_ok_iff, checkedSub_eq_some, pure_ok_iff] at h
  obtain ⟨protocolFee, -, developerFee, -, afterProtocol, hprotocol, net, hnet, rfl⟩ := h
  change net.toNat + protocolFee.toNat + developerFee.toNat = amount.toNat
  rw [← hprotocol, ← hnet, Nat.add_right_comm]

/-- Check and record a spend to a recipient when the policy caps recipients. -/
def chargeRecipient {D : Type} (policy : PolicyConfig D) (t : SpendTracker) (clock : Clock)
    (recipient : Pubkey) (usdAmount : UInt64) : Result SpendTracker :=
  if 0 < policy.perRecipientDailyCapUsd then do
    checkCap .errRecipientCapExceeded (t.getRecipientSpend clock recipient) usdAmount
      policy.perRecipientDailyCapUsd
    t.recordRecipientSpend clock recipient usdAmount
  else .ok t

section Transfer

variable {D : Type} [Host D]

/-- The stablecoin left in the source account and, for other mints, in listed accounts. -/
def transferFloorSum (env : Env) (l : Ledger D) (source : Pubkey) (remaining : List AccountMeta) :
    Result UInt64 := do
  let t ← l.loadToken source
  let start ← addWhen (t.owner = l.vaultKey ∧ isStablecoinMint (Host.cluster D) t.mint) 0 t.amount
  sumStableBalances env l (fun _ _ view => view.mint ≠ t.mint) 16 [source] start remaining

def checkStableFloor (policy : PolicyConfig D) (sum : Result UInt64) : Result Unit :=
  if 0 < policy.stableBalanceFloor then do
    let total ← sum
    ensure (policy.stableBalanceFloor ≤ total) .errStableFloorViolation
  else .ok ()

def VaultAccounts.chargeTransfer (a : VaultAccounts D) (clock : Clock) (agent recipient : Pubkey)
    (usdAmount : UInt64) (entry : AgentEntry) : Result (VaultAccounts D) := do
  ensure (usdAmount ≤ a.policy.maxTransactionSizeUsd) .transactionTooLarge
  a.tracker.checkDailyCap clock usdAmount a.policy.dailySpendingCapUsd
  let overlay ← a.overlay.chargeAgent clock agent usdAmount entry.spendingLimitUsd
  let recorded ← a.tracker.recordSpend clock usdAmount
  let tracker ← chargeRecipient a.policy recorded clock recipient usdAmount
  return { a with tracker := tracker, overlay := overlay }

def VaultAccounts.countTransfer (a : VaultAccounts D) (amount developerFee : UInt64) :
    Result (VaultAccounts D) := do
  let transactions ← someOr .overflow (checkedAdd a.vault.totalTransactions 1)
  let volume ← someOr .overflow (checkedAdd a.vault.totalVolume amount)
  let fees ← addWhen (0 < developerFee) a.vault.totalFeesCollected developerFee
  let vault : AgentVault := { a.vault with
    totalTransactions := transactions
    totalVolume := volume
    totalFeesCollected := fees }
  return { a with vault := vault }

def agentTransfer (env : Env) (args : AgentTransferArgs) (l : Ledger D) : Result (Ledger D) := do
  let a ← mustExist l.live
  ensure (a.vault.isAgent args.agent = true) .unauthorizedAgent
  let source ← l.loadToken args.vaultTokenAccount
  ensure (source.owner = l.vaultKey) .invalidTokenAccount
  let decimals ← mustExist (unpackMint (l.accountInfo env args.tokenMintAccount))
  ensure (args.tokenMintAccount = source.mint) .invalidTokenAccount
  let destination ← l.loadToken args.destinationTokenAccount
  let feeDest ← l.loadOptionalToken args.feeDestinationTokenAccount
  let treasury ← l.loadOptionalToken args.protocolTreasuryTokenAccount
  rejectCpi env
  ensure (a.policy.policyVersion = args.expectedPolicyVersion) .policyVersionMismatch
  ensure (a.vault.isActive = true) .vaultNotActive
  ensure (a.vault.isAgentPaused args.agent = false) .agentPaused
  let entry ← someOr .unauthorizedAgent (a.vault.getAgent args.agent)
  ensure (a.vault.hasCapability args.agent true = true) .insufficientPermissions
  ensure (0 < args.amount) .transactionTooLarge
  ensure (isStablecoinMint (Host.cluster D) source.mint = true) .unsupportedToken
  ensure (a.policy.isDestinationAllowed destination.owner = true) .destinationNotAllowed
  ensure (a.policy.isDestinationGraylisted destination.owner env.clock.unixTimestamp = false)
    .errGraylistFriction
  ensure (destination.mint = source.mint) .invalidTokenAccount
  let usdAmount ← stablecoinToUsd args.amount decimals
  let charged ← a.chargeTransfer env.clock args.agent destination.owner usdAmount entry
  let split ← splitTransfer args.amount a.policy.developerFeeRate
  let moved ← viaToken (transfer l.tokens args.vaultTokenAccount args.destinationTokenAccount
    l.vaultKey split.net)
  let tokens ← transferMeasuredFees (Host.cluster D) moved l.vaultKey args.vaultTokenAccount
    source.mint a.vault.feeDestination split.protocolFee split.developerFee treasury feeDest
  checkStableFloor a.policy (transferFloorSum env { l with tokens := tokens }
    args.vaultTokenAccount args.remaining)
  let counted ← charged.countTransfer args.amount split.developerFee
  return { l with live := some counted, tokens := tokens }

structure Transferred (env : Env) (args : AgentTransferArgs) (l l' : Ledger D)
    (a charged counted : VaultAccounts D) (source destination : TokenAccount Pubkey)
    (usdAmount : UInt64) (split : TransferSplit) : Prop where
  live : l.live = some a
  version : a.policy.policyVersion = args.expectedPolicyVersion
  sourceAccount : l.tokens args.vaultTokenAccount = some source
  sourceOwner : source.owner = l.vaultKey
  destinationAccount : l.tokens args.destinationTokenAccount = some destination
  destinationFree :
    a.policy.isDestinationGraylisted destination.owner env.clock.unixTimestamp = false
  converted : ∃ decimals, unpackMint (l.accountInfo env source.mint) = some decimals ∧
    stablecoinToUsd args.amount decimals = .ok usdAmount
  charge : ∃ entry, a.vault.getAgent args.agent = some entry ∧
    a.chargeTransfer env.clock args.agent destination.owner usdAmount entry = .ok charged
  parts : splitTransfer args.amount a.policy.developerFeeRate = .ok split
  floor : checkStableFloor a.policy (transferFloorSum env { l with tokens := l'.tokens }
    args.vaultTokenAccount args.remaining) = .ok ()
  count : charged.countTransfer args.amount split.developerFee = .ok counted
  payments : ∃ moved feeDest treasury tokens,
    transfer l.tokens args.vaultTokenAccount args.destinationTokenAccount l.vaultKey split.net =
      .ok moved ∧
    l.loadOptionalToken args.feeDestinationTokenAccount = .ok feeDest ∧
    l.loadOptionalToken args.protocolTreasuryTokenAccount = .ok treasury ∧
    transferMeasuredFees (Host.cluster D) moved l.vaultKey args.vaultTokenAccount source.mint
      a.vault.feeDestination split.protocolFee split.developerFee treasury feeDest = .ok tokens ∧
    l' = { l with live := some counted, tokens := tokens }

variable {env : Env} {args : AgentTransferArgs} {l l' : Ledger D}

theorem agentTransfer_ok (h : agentTransfer env args l = .ok l') :
    ∃ a charged counted source destination usdAmount split,
      Transferred env args l l' a charged counted source destination usdAmount split := by
  simp only [agentTransfer, Ledger.loadToken, seq_ok_iff, mustExist_ok_iff, rejectCpi_ok_iff,
    ensure_ok_iff, someOr_ok_iff, viaToken_ok_iff, exists_and_left, exists_const,
    pure_ok_iff] at h
  obtain ⟨a, ha, -, source, hsource, howner, decimals, hdecimals, hmint, destination,
    hdestination, feeDest, hfeeDest, treasury, htreasury, -, hversion, -, -, entry, hentry, -,
    -, -, -, hfree, -, usdAmount, husd, charged, hcharged, split, hsplit, moved, hmoved, tokens,
    htokens, ⟨⟩, hfloor, counted, hcounted, rfl⟩ := h
  exact ⟨a, charged, counted, source, destination, usdAmount, split, ha, hversion, hsource, howner,
    hdestination, hfree, ⟨decimals, hmint ▸ hdecimals, husd⟩, ⟨entry, hentry, hcharged⟩,
    hsplit, hfloor, hcounted, moved, feeDest, treasury, tokens, hmoved, hfeeDest, htreasury,
    htokens, rfl⟩

theorem Transferred.result {a charged counted : VaultAccounts D}
    {source destination : TokenAccount Pubkey} {usdAmount : UInt64} {split : TransferSplit}
    (h : Transferred env args l l' a charged counted source destination usdAmount split) :
    ∃ tokens, l' = { l with live := some counted, tokens := tokens } := by
  obtain ⟨moved, feeDest, treasury, tokens, -, -, -, -, hresult⟩ := h.payments
  exact ⟨tokens, hresult⟩

omit [Host D] in
theorem chargeTransfer_ok {a charged : VaultAccounts D} {clock : Clock} {agent recipient : Pubkey}
    {usdAmount : UInt64} {entry : AgentEntry}
    (h : a.chargeTransfer clock agent recipient usdAmount entry = .ok charged) :
    ∃ overlay recorded tracker, usdAmount ≤ a.policy.maxTransactionSizeUsd ∧
      a.tracker.checkDailyCap clock usdAmount a.policy.dailySpendingCapUsd = .ok () ∧
      a.overlay.chargeAgent clock agent usdAmount entry.spendingLimitUsd = .ok overlay ∧
      a.tracker.recordSpend clock usdAmount = .ok recorded ∧
      chargeRecipient a.policy recorded clock recipient usdAmount = .ok tracker ∧
      charged = { a with tracker := tracker, overlay := overlay } := by
  simp only [VaultAccounts.chargeTransfer, seq_ok_iff, ensure_ok_iff, exists_and_left,
    exists_const, pure_ok_iff] at h
  obtain ⟨hsize, ⟨⟩, hdaily, overlay, hoverlay, recorded, hrecorded, tracker, htracker, rfl⟩ := h
  exact ⟨overlay, recorded, tracker, hsize, hdaily, hoverlay, hrecorded, htracker, rfl⟩

omit [Host D] in
theorem countTransfer_ok {a counted : VaultAccounts D} {amount developerFee : UInt64}
    (h : a.countTransfer amount developerFee = .ok counted) :
    ∃ transactions volume fees, counted = { a with vault := { a.vault with
      totalTransactions := transactions
      totalVolume := volume
      totalFeesCollected := fees } } := by
  simp only [VaultAccounts.countTransfer, seq_ok_iff, pure_ok_iff] at h
  obtain ⟨transactions, -, volume, -, fees, -, rfl⟩ := h
  exact ⟨transactions, volume, fees, rfl⟩

theorem agentTransfer_effect (h : agentTransfer env args l = .ok l') :
    ∃ a overlay tracker transactions volume fees tokens, l.live = some a ∧ l' = { l with
      live := some { a with
        vault := { a.vault with
          totalTransactions := transactions
          totalVolume := volume
          totalFeesCollected := fees }
        tracker := tracker
        overlay := overlay }
      tokens := tokens } := by
  obtain ⟨a, charged, counted, source, destination, usdAmount, split, ht⟩ := agentTransfer_ok h
  obtain ⟨entry, -, hcharged⟩ := ht.charge
  obtain ⟨overlay, recorded, tracker, -, -, -, -, -, rfl⟩ := chargeTransfer_ok hcharged
  obtain ⟨transactions, volume, fees, rfl⟩ := countTransfer_ok ht.count
  obtain ⟨tokens, rfl⟩ := ht.result
  exact ⟨a, overlay, tracker, transactions, volume, fees, tokens, ht.live, rfl⟩

end Transfer

end Sigil
