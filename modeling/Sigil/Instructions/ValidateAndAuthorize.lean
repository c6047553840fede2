import Sigil.Digest.CosignDigest
import Sigil.Instructions.SandwichScan

/-! # Opening a session

`validate_and_authorize` checks the agent, the policy and the surrounding transaction, delegates
the amount to the agent and opens a session that remembers the balances before the spend.
-/

namespace Sigil

open Machine Guard TokenLedger

def programDataHeaderLen : ℕ := 45

structure ValidateAndAuthorizeArgs (D : Type) where
  agent : Pubkey
  tokenMint : Pubkey
  amount : UInt64
  targetProtocol : Pubkey
  expectedPolicyVersion : UInt64
  expectedNonce : UInt64
  expectedIntentDigest : D
  vaultTokenAccount : Pubkey
  tokenMintAccount : Pubkey
  outputStablecoinAccount : Option Pubkey
  outputSwapAccount : Option Pubkey
  remaining : List AccountMeta

def ValidateAndAuthorizeArgs.isSpending {D : Type} (args : ValidateAndAuthorizeArgs D) : Bool :=
  0 < args.amount

/-- The output accounts and balances that a session pins when it opens. -/
structure OutputPins where
  outputMint : Pubkey
  stablecoinBalanceBefore : UInt64
  outputStablecoinAccount : Pubkey
  outputSwapAccount : Pubkey
  outputSwapMint : Pubkey
  outputSwapBalanceBefore : UInt64

def OutputPins.none : OutputPins :=
  ⟨Pubkey.default, 0, Pubkey.default, Pubkey.default, Pubkey.default, 0⟩

/-- A session account as the framework creates it. -/
def SessionAuthority.blank : SessionAuthority where
  vault := Pubkey.default
  agent := Pubkey.default
  authorized := false
  authorizedAmount := 0
  authorizedToken := Pubkey.default
  authorizedProtocol := Pubkey.default
  expiresAtTimestamp := 0
  delegated := false
  delegationTokenAccount := Pubkey.default
  protocolFee := 0
  developerFee := 0
  outputMint := Pubkey.default
  stablecoinBalanceBefore := 0
  assertionSnapshots := fun _ => List.replicate 32 0
  snapshotLens := fun _ => 0
  nonce := 0
  outputStablecoinAccount := Pubkey.default
  outputSwapAccount := Pubkey.default
  outputSwapMint := Pubkey.default
  outputSwapBalanceBefore := 0

section Validate

variable {D : Type} [Host D]

def enforceProgramBuildHash [DecidableEq D] (info : AccountInfo) (expectedHash : D) :
    Result Unit := do
  ensure (info.owner = bpfLoaderUpgradeableId) .errProgramDataUnresolvable
  ensure (programDataHeaderLen < info.data.length) .errProgramDataUnresolvable
  ensure (Host.sha256 (info.data.drop programDataHeaderLen) = expectedHash)
    .errProgramBuildMismatch

/-- A pinned build hash must be the hash of the deployed program. -/
def enforceVerifiedBuildIfArmed [DecidableEq D] (env : Env) (l : Ledger D)
    (policy : PolicyConfig D) (targetProtocol : Pubkey) (remaining : List AccountMeta) :
    Result Unit := do
  let i ← someOr .protocolNotAllowed (policy.protocolIndex targetProtocol)
  if policy.hashAt i = Host.zeroDigest then .ok ()
  else do
    let info ← someOr .errProgramDataUnresolvable (l.listedInfo env remaining
      (Host.findProgramAddress D [targetProtocol.bytes] bpfLoaderUpgradeableId))
    enforceProgramBuildHash info (policy.hashAt i)

/-- The swap account a stablecoin session may name: another token of the vault. -/
def pinSwapAccount (vaultKey tokenMint : Pubkey) (balanceBefore : UInt64) :
    Option (Pubkey × TokenAccount Pubkey) → Result OutputPins
  | none => .ok { OutputPins.none with
      outputMint := tokenMint
      stablecoinBalanceBefore := balanceBefore }
  | some (key, t) => do
    ensure (t.owner = vaultKey) .errOutputNotVaultOwned
    ensure (t.mint ≠ tokenMint) .errOutputNotVaultOwned
    return ⟨tokenMint, balanceBefore, Pubkey.default, key, t.mint, t.amount⟩

/-- The stablecoin account that a session on another token must name. -/
def pinStablecoinAccount (cluster : Cluster) (vaultKey : Pubkey)
    (output : Option (Pubkey × TokenAccount Pubkey)) : Result OutputPins := do
  let (key, t) ← someOr .invalidTokenAccount output
  ensure (t.owner = vaultKey) .invalidTokenAccount
  ensure (isStablecoinMint cluster t.mint = true) .unsupportedToken
  return ⟨t.mint, t.amount, key, Pubkey.default, Pubkey.default, 0⟩

def pinOutputs (vaultKey : Pubkey) (policy : PolicyConfig D) (args : ValidateAndAuthorizeArgs D)
    (vaultToken : TokenAccount Pubkey)
    (outputStablecoin outputSwap : Option (Pubkey × TokenAccount Pubkey)) : Result OutputPins :=
  if args.isSpending then
    if isStablecoinMint (Host.cluster D) args.tokenMint then do
      ensure (0 < policy.maxTransactionSizeUsd → args.amount ≤ policy.maxTransactionSizeUsd)
        .transactionTooLarge
      pinSwapAccount vaultKey args.tokenMint vaultToken.amount outputSwap
    else pinStablecoinAccount (Host.cluster D) vaultKey outputStablecoin
  else .ok OutputPins.none

/-- The snapshots of the stored assertions; without their account there are none. -/
def captureSnapshots (env : Env) (l : Ledger D) (policy : PolicyConfig D)
    (remaining : List AccountMeta) : Result (List (List UInt8 × UInt8)) :=
  if policy.hasPostAssertions = 0 then .ok []
  else do
    let found ← loadAssertions l remaining
    (found.elim [] PostExecutionAssertions.entries).mapM (captureSnapshot env l remaining)

def newSession (clock : Clock) (vaultKey : Pubkey) (policy : PolicyConfig D)
    (args : ValidateAndAuthorizeArgs D) (pins : OutputPins)
    (snapshots : List (List UInt8 × UInt8)) : SessionAuthority where
  vault := vaultKey
  agent := args.agent
  authorized := true
  authorizedAmount := args.amount
  authorizedToken := args.tokenMint
  authorizedProtocol := args.targetProtocol
  expiresAtTimestamp :=
    SessionAuthority.calculateExpiry clock.unixTimestamp policy.effectiveSessionExpirySeconds
  delegated := args.isSpending
  delegationTokenAccount := args.vaultTokenAccount
  protocolFee := 0
  developerFee := 0
  outputMint := pins.outputMint
  stablecoinBalanceBefore := pins.stablecoinBalanceBefore
  assertionSnapshots := fun i => (snapshots.getD i (List.replicate 32 0, 0)).1
  snapshotLens := fun i => (snapshots.getD i ([], 0)).2
  nonce := 0
  outputStablecoinAccount := pins.outputStablecoinAccount
  outputSwapAccount := pins.outputSwapAccount
  outputSwapMint := pins.outputSwapMint
  outputSwapBalanceBefore := pins.outputSwapBalanceBefore

omit [Host D] in
theorem not_isExpired_newSession (clock : Clock) (vaultKey : Pubkey) (policy : PolicyConfig D)
    (vargs : ValidateAndAuthorizeArgs D) (pins : OutputPins)
    (snapshots : List (List UInt8 × UInt8)) :
    (newSession clock vaultKey policy vargs pins snapshots).isExpired clock.unixTimestamp =
      false :=
  decide_eq_false (le_saturatingAddI64 clock.inI64 _).not_gt

/-- Note the time of an action in the agent's slot, when it has one. -/
def AgentSpendOverlay.noteAction (o : AgentSpendOverlay) (agent : Pubkey) (now : ℤ) :
    AgentSpendOverlay :=
  match o.findAgentSlot agent with
  | some i => o.recordActionUnix i now
  | none => o

def VaultAccounts.opened (a : VaultAccounts D) (agent : Pubkey) (now : ℤ) : VaultAccounts D :=
  { a with
    vault := { a.vault with activeSessions := a.vault.activeSessions + 1 }.updateAgent agent
      fun e => { e with consecutiveFailures := 0 }
    overlay := a.overlay.noteAction agent now }

/-- Delegate the amount of a session that spends. -/
def delegateAmount (l : Ledger D) (args : ValidateAndAuthorizeArgs D) :
    Result (Accounts Pubkey) :=
  if args.isSpending then
    viaToken (approve l.tokens args.vaultTokenAccount args.agent l.vaultKey args.amount)
  else .ok l.tokens

def Ledger.setSession (l : Ledger D) (address : Pubkey) (s : Option SessionAuthority) :
    Ledger D :=
  { l with sessions := Function.update l.sessions address s }

def validateAndAuthorize [DecidableEq D] (env : Env) (args : ValidateAndAuthorizeArgs D)
    (l : Ledger D) : Result (Ledger D) := do
  let a ← mustExist l.live
  ensure (a.vault.isAgent args.agent = true) .unauthorizedAgent
  let address := sessionAddress D l.vaultKey args.agent args.tokenMint
  mustBeNew (l.sessions address)
  let vaultToken ← l.loadToken args.vaultTokenAccount
  ensure (vaultToken.owner = l.vaultKey) .invalidTokenAccount
  ensure (vaultToken.mint = args.tokenMintAccount) .invalidTokenAccount
  let _ ← mustExist (unpackMint (l.accountInfo env args.tokenMintAccount))
  ensure (args.tokenMintAccount = args.tokenMint) .invalidTokenAccount
  let outputStablecoin ← l.loadOptionalToken args.outputStablecoinAccount
  let outputSwap ← l.loadOptionalToken args.outputSwapAccount
  rejectCpi env
  ensure (computeScalarIntentDigest l.vaultKey args.agent args.tokenMint args.amount
    args.targetProtocol = args.expectedIntentDigest) .errIntentDigestMismatch
  ensure (SessionAuthority.blank.nonce = args.expectedNonce) .errSessionNonceMismatch
  ensure (a.policy.policyVersion = args.expectedPolicyVersion) .policyVersionMismatch
  ensure (a.vault.observeOnly = false) .observeOnlyModeBlocksExecute
  ensure (a.policy.isWithinOperatingHours env.clock.unixTimestamp = true)
    .errOutsideOperatingHours
  ensure (∀ i ∈ a.overlay.findAgentSlot args.agent,
    a.overlay.isCooldownElapsed i env.clock.unixTimestamp = true) .errCooldownActive
  ensure (a.vault.isActive = true) .vaultNotActive
  ensure (a.vault.isAgentPaused args.agent = false) .agentPaused
  ensure (∀ e ∈ a.vault.getAgent args.agent, ¬ (e.capability = capabilityDisabled ∧
    a.policy.autoRevokeThreshold ≤ e.consecutiveFailures ∧ 0 < a.policy.autoRevokeThreshold))
    .errAutoRevoked
  ensure (a.vault.hasCapability args.agent args.isSpending = true) .insufficientPermissions
  ensure (a.policy.isProtocolAllowed args.targetProtocol = true) .protocolNotAllowed
  enforceVerifiedBuildIfArmed env l a.policy args.targetProtocol args.remaining
  let pins ← pinOutputs l.vaultKey a.policy args vaultToken outputStablecoin outputSwap
  let opened := l.setSession address (some SessionAuthority.blank)
  preScan env
  rejectSameValidate env l.vaultKey args.agent args.tokenMintAccount
  rejectProtectedWritable env opened address a.vault.agents args.remaining
  sandwichScan env opened a.policy address args.targetProtocol args.remaining args.isSpending
  let tokens ← delegateAmount l args
  let snapshots ← captureSnapshots env { opened with tokens := tokens } a.policy args.remaining
  ensure (a.vault.activeSessions ≠ 255) .overflow
  let session := newSession env.clock l.vaultKey a.policy args pins snapshots
  return { l.setSession address (some session) with
    live := some (a.opened args.agent env.clock.unixTimestamp)
    tokens := tokens }

/-- The ledger that the scans see: the account of the session exists and is not filled in. -/
def Ledger.withBlankSession (l : Ledger D) (args : ValidateAndAuthorizeArgs D) : Ledger D :=
  l.setSession (sessionAddress D l.vaultKey args.agent args.tokenMint) (some SessionAuthority.blank)

structure SessionOpened (env : Env) (args : ValidateAndAuthorizeArgs D) (l l' : Ledger D)
    (a : VaultAccounts D) (vaultToken : TokenAccount Pubkey) (pins : OutputPins)
    (snapshots : List (List UInt8 × UInt8)) (tokens : Accounts Pubkey) : Prop where
  live : l.live = some a
  isAgent : a.vault.isAgent args.agent = true
  fresh : l.sessions (sessionAddress D l.vaultKey args.agent args.tokenMint) = none
  tokenAccount : l.tokens args.vaultTokenAccount = some vaultToken
  mint : vaultToken.mint = args.tokenMint
  topLevel : env.stackHeight = transactionLevelStackHeight
  version : a.policy.policyVersion = args.expectedPolicyVersion
  observeOnly : a.vault.observeOnly = false
  operatingHours : a.policy.isWithinOperatingHours env.clock.unixTimestamp = true
  cooldown : ∀ i ∈ a.overlay.findAgentSlot args.agent,
    a.overlay.isCooldownElapsed i env.clock.unixTimestamp = true
  protocolAllowed : a.policy.isProtocolAllowed args.targetProtocol = true
  pinned : ∃ outputStablecoin outputSwap,
    pinOutputs l.vaultKey a.policy args vaultToken outputStablecoin outputSwap = .ok pins
  before : preScan env = .ok ()
  guarded : rejectProtectedWritable env (l.withBlankSession args)
    (sessionAddress D l.vaultKey args.agent args.tokenMint) a.vault.agents args.remaining = .ok ()
  scan : sandwichScan env (l.withBlankSession args) a.policy
    (sessionAddress D l.vaultKey args.agent args.tokenMint) args.targetProtocol args.remaining
    args.isSpending = .ok ()
  delegate : delegateAmount l args = .ok tokens
  captured : captureSnapshots env { l.withBlankSession args with tokens := tokens } a.policy
    args.remaining = .ok snapshots
  result : l' = { l.setSession (sessionAddress D l.vaultKey args.agent args.tokenMint)
      (some (newSession env.clock l.vaultKey a.policy args pins snapshots)) with
    live := some (a.opened args.agent env.clock.unixTimestamp)
    tokens := tokens }

theorem validateAndAuthorize_ok [DecidableEq D] {env : Env} {args : ValidateAndAuthorizeArgs D}
    {l l' : Ledger D} (h : validateAndAuthorize env args l = .ok l') :
    ∃ a vaultToken pins snapshots tokens,
      SessionOpened env args l l' a vaultToken pins snapshots tokens := by
  simp only [validateAndAuthorize, Ledger.loadToken, seq_ok_iff, mustExist_ok_iff,
    mustBeNew_ok_iff, rejectCpi_ok_iff, ensure_ok_iff, exists_and_left, exists_const,
    pure_ok_iff] at h
  obtain ⟨a, ha, hagent, hfresh, vaultToken, hvaultToken, -, hmint, -, -, hmintArg,
    outputStablecoin, -, outputSwap, -, htop, -, -, hversion, hobserve, hhours,
    hcooldown, -, -, -, -, hallowed, -, -, pins, hpins, ⟨⟩, hpre, -, -, ⟨⟩, hguarded, ⟨⟩, hscan,
    tokens, htokens, snapshots, hcaptured, -, rfl⟩ := h
  exact ⟨a, vaultToken, pins, snapshots, tokens, ha, hagent, hfresh, hvaultToken,
    hmint.trans hmintArg, htop, hversion, hobserve, hhours, hcooldown, hallowed,
    ⟨outputStablecoin, outputSwap, hpins⟩, hpre, hguarded, hscan, htokens, hcaptured, rfl⟩

end Validate

end Sigil
