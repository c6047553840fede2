import Sigil.Instructions.OperatorGrant

/-! # Vault lifecycle

Creating, closing, freezing and reactivating a vault, and the switch of observe-only mode.
-/

namespace Sigil

open Machine Guard TokenLedger

def maxDeveloperFeeRate : UInt16 := 500

def maxSlippageBps : UInt16 := 5000

def minTimelockDuration : UInt64 := 1800

def maxTimelockDuration : UInt64 := 172800

def autoRevokeThresholdMin : UInt8 := 3

def autoRevokeThresholdMax : UInt8 := 20

def reactivateCooldownSeconds : ℤ := 300

structure InitializeVaultArgs (D : Type) where
  vaultId : UInt64
  dailySpendingCapUsd : UInt64
  maxTransactionSizeUsd : UInt64
  protocolMode : UInt8
  protocols : List Pubkey
  developerFeeRate : UInt16
  maxSlippageBps : UInt16
  timelockDuration : UInt64
  allowedDestinations : List Pubkey
  protocolCaps : List UInt64
  observeOnly : Bool
  operatingHours : UInt32
  autoPromoteGrays : Bool
  autoRevokeThreshold : UInt8
  stableBalanceFloor : UInt64
  perRecipientDailyCapUsd : UInt64
  cosignRequired : Bool
  previewDigest : D

namespace InitializeVaultArgs

variable {D : Type} (args : InitializeVaultArgs D)

def newVault (owner feeDestination : Pubkey) : AgentVault where
  owner := owner
  vaultId := args.vaultId
  agents := []
  feeDestination := feeDestination
  status := .active
  totalTransactions := 0
  totalVolume := 0
  totalFeesCollected := 0
  totalDepositedUsd := 0
  totalWithdrawnUsd := 0
  totalFailedTransactions := 0
  activeSessions := 0
  observeOnly := args.observeOnly
  frozenAtTimestamp := 0
  freezeReason := .manual
  ownerType := ownerTypeEoa
  vaultAuthority := owner

def newPolicy [Host D] (vault : Pubkey) (createdAtSlot : UInt64) : PolicyConfig D where
  vault := vault
  dailySpendingCapUsd := args.dailySpendingCapUsd
  maxTransactionSizeUsd := args.maxTransactionSizeUsd
  protocolMode := args.protocolMode
  protocols := args.protocols
  developerFeeRate := args.developerFeeRate
  maxSlippageBps := args.maxSlippageBps
  timelockDuration := args.timelockDuration
  allowedDestinations := args.allowedDestinations
  hasPendingPolicy := false
  hasProtocolCaps := args.protocolCaps ≠ []
  protocolCaps := args.protocolCaps
  sessionExpirySeconds := 0
  policyVersion := 0
  hasPostAssertions := 0
  destinationMode := destinationModeRestricted
  policyPreviewDigest := args.previewDigest
  createdAtSlot := createdAtSlot
  operatingHours := args.operatingHours
  destinationGraylist := []
  autoPromoteGrays := args.autoPromoteGrays
  autoRevokeThreshold := args.autoRevokeThreshold
  stableBalanceFloor := args.stableBalanceFloor
  perRecipientDailyCapUsd := args.perRecipientDailyCapUsd
  cosignRequired := args.cosignRequired
  cosignSessionPubkey := Pubkey.default
  operatorGrantDelaySeconds := 0
  protocolHashes := fun _ => Host.zeroDigest

def newAccounts [Host D] (vault owner feeDestination : Pubkey) (createdAtSlot : UInt64) :
    VaultAccounts D where
  vault := args.newVault owner feeDestination
  policy := args.newPolicy vault createdAtSlot
  tracker := .empty vault
  overlay := .empty vault

end InitializeVaultArgs

section Create

variable {D : Type} [Host D]

def initializeVault [DecidableEq D] (env : Env) (owner feeDestination : Pubkey)
    (args : InitializeVaultArgs D) (l : Ledger D) : Result (Ledger D) := do
  require (l.vaultKey = programAddress D
      [seedBytes "vault", owner.bytes, SelfDelimiting.leBytes 8 args.vaultId.toNat])
    (.anchor .constraintSeeds)
  mustBeNew l.live
  rejectCpi env
  ensure (args.protocolMode = protocolModeAllowlist) .invalidProtocolMode
  ensure (args.operatingHours &&& ~~~operatingHoursValidMask = 0) .errOutsideOperatingHours
  ensure (autoRevokeThresholdMin ≤ args.autoRevokeThreshold ∧
    args.autoRevokeThreshold ≤ autoRevokeThresholdMax) .invalidPermissions
  ensure (args.protocols.length ≤ maxAllowedProtocols) .tooManyAllowedProtocols
  ensure (args.developerFeeRate ≤ maxDeveloperFeeRate) .developerFeeTooHigh
  ensure (args.maxSlippageBps ≤ maxSlippageBps) .slippageBpsTooHigh
  ensure (feeDestination ≠ Pubkey.default) .invalidFeeDestination
  ensure (args.allowedDestinations.length ≤ maxAllowedDestinations) .tooManyDestinations
  ensure (minTimelockDuration ≤ args.timelockDuration) .timelockTooShort
  ensure (args.timelockDuration ≤ maxTimelockDuration) .timelockTooLong
  ensure (args.protocolCaps ≠ [] → args.protocolMode = protocolModeAllowlist)
    .protocolCapsMismatch
  ensure (args.protocolCaps ≠ [] → args.protocolCaps.length = args.protocols.length)
    .protocolCapsMismatch
  ensure (args.observeOnly = false → args.protocols ≠ [] ∨ args.allowedDestinations ≠ [])
    .activeVaultRequiresAllowlist
  let a := args.newAccounts l.vaultKey owner feeDestination env.clock.slot
  ensure (liveDigest a.vault a.policy = args.previewDigest) .policyPreviewMismatch
  ensure (args.cosignRequired = false) .errCosignRequired
  return l.setLive a

/-- Take away the account at an address when it is among the listed ones. -/
def drainListed {α : Type} (listed : List AccountMeta) (address : Pubkey) (x : Option α) :
    Option α :=
  if listed.any fun m => m.pubkey = address then none else x

theorem mem_of_mem_drainListed {α : Type} {listed : List AccountMeta} {address : Pubkey}
    {x : Option α} {p : α} (h : p ∈ drainListed listed address x) : p ∈ x := by
  unfold drainListed at h
  split at h
  · cases h
  · exact h

/-- The ledger after the vault is closed: its accounts are gone, and so are the pending accounts
that were listed. The first remaining account is the pending policy when there is one. -/
def closedLedger (a : VaultAccounts D) (remaining : List AccountMeta) (l : Ledger D) :
    Ledger D :=
  let listed := if a.policy.hasPendingPolicy then remaining.tail else remaining
  let perms := a.vault.agents.map fun e => pendingAgentPermsAddress D l.vaultKey e.pubkey
  { l with
    live := none
    pendingPolicy := if a.policy.hasPendingPolicy then none else l.pendingPolicy
    pendingPerms := fun address =>
      if address ∈ perms then drainListed listed address (l.pendingPerms address)
      else l.pendingPerms address
    pendingOwner := drainListed listed (accountAddress D "pending_owner" l.vaultKey) l.pendingOwner
    pendingGrant :=
      drainListed listed (accountAddress D "pending_agent_grant" l.vaultKey) l.pendingGrant }

def closeVault (env : Env) (owner : Pubkey) (remaining : List AccountMeta) (l : Ledger D) :
    Result (Ledger D) := do
  let a ← l.loadAsOwner owner
  rejectCpi env
  ensure (a.vault.status ≠ .closed) .vaultAlreadyClosed
  ensure (a.vault.activeSessions = 0) .activeSessionsExist
  ensure (a.policy.hasPostAssertions = 0) .errPostAssertionsNotClosed
  a.cosignGate remaining
  ensure (a.policy.hasPendingPolicy = true → l.pendingPolicy.isSome = true ∧
      remaining.head?.any (fun m => m.pubkey = accountAddress D "pending_policy" l.vaultKey) = true)
    .pendingPolicyExists
  return closedLedger a remaining l

variable {env : Env} {owner : Pubkey} {remaining : List AccountMeta} {l l' : Ledger D}

theorem initializeVault_ok [DecidableEq D] {feeDestination : Pubkey} {args : InitializeVaultArgs D}
    (h : initializeVault env owner feeDestination args l = .ok l') :
    l.live = none ∧ args.protocols.length ≤ maxAllowedProtocols ∧
      args.allowedDestinations.length ≤ maxAllowedDestinations ∧
      (args.protocolCaps ≠ [] → args.protocolCaps.length = args.protocols.length) ∧
      args.cosignRequired = false ∧
      let a := args.newAccounts l.vaultKey owner feeDestination env.clock.slot
      liveDigest a.vault a.policy = args.previewDigest ∧ l' = l.setLive a := by
  simp only [initializeVault, seq_ok_iff, require_ok_iff, mustBeNew_ok_iff, rejectCpi_ok_iff,
    ensure_ok_iff, exists_and_left, exists_const, pure_ok_iff] at h
  obtain ⟨-, hnew, -, -, -, -, hprotocols, -, -, -, hdests, -, -, -, hcaps, -, hdigest, hcosign,
    rfl⟩ := h
  exact ⟨hnew, hprotocols, hdests, hcaps, hcosign, hdigest, rfl⟩

theorem initializeVault_timelock [DecidableEq D] {feeDestination : Pubkey}
    {args : InitializeVaultArgs D} (h : initializeVault env owner feeDestination args l = .ok l') :
    minTimelockDuration ≤ args.timelockDuration := by
  simp only [initializeVault, seq_ok_iff, require_ok_iff, mustBeNew_ok_iff, rejectCpi_ok_iff,
    ensure_ok_iff, exists_and_left, exists_const] at h
  obtain ⟨-, -, -, -, -, -, -, -, -, -, -, htimelock, -⟩ := h
  exact htimelock

theorem initializeVault_address [DecidableEq D] {feeDestination : Pubkey}
    {args : InitializeVaultArgs D} (h : initializeVault env owner feeDestination args l = .ok l') :
    l.vaultKey = programAddress D
      [seedBytes "vault", owner.bytes, SelfDelimiting.leBytes 8 args.vaultId.toNat] := by
  simp only [initializeVault, seq_ok_iff, require_ok_iff, exists_and_left, exists_const] at h
  exact h.1

theorem closeVault_ok (h : closeVault env owner remaining l = .ok l') :
    ∃ a : VaultAccounts D, l.live = some a ∧ a.vault.owner = owner ∧
      a.policy.hasPostAssertions = 0 ∧ (a.policy.cosignRequired = true →
        hasBoundCosigner remaining a.policy.cosignSessionPubkey = true) ∧
      (a.policy.hasPendingPolicy = true → l.pendingPolicy.isSome = true) ∧
      l' = closedLedger a remaining l := by
  simp only [closeVault, seq_ok_iff, Ledger.loadAsOwner_ok_iff, rejectCpi_ok_iff, ensure_ok_iff,
    VaultAccounts.cosignGate_ok_iff, exists_and_left, exists_const, pure_ok_iff] at h
  obtain ⟨a, ⟨ha, howner⟩, -, -, -, hassertions, hcosign, hpending, rfl⟩ := h
  exact ⟨a, ha, howner, hassertions, hcosign, fun hp => (hpending hp).1, rfl⟩

end Create

def AgentVault.freezeInternal (v : AgentVault) (reason : FreezeReason) (clock : Clock) :
    AgentVault :=
  { v with status := .frozen, frozenAtTimestamp := clock.unixTimestamp, freezeReason := reason }

section Graft

variable {D : Type}

def graftAgent (a : VaultAccounts D) (remaining : List AccountMeta) (newAgent : Option Pubkey)
    (newAgentCapability : Option UInt8) : Result (VaultAccounts D) :=
  match newAgent, newAgentCapability with
  | some agent, some capability => do
    ensure (agent ≠ Pubkey.default) .invalidAgentKey
    ensure (agent ≠ a.vault.owner) .agentIsOwner
    ensure (capability ≤ fullCapability) .invalidPermissions
    ensure (a.vault.agents.length < maxAgentsPerVault) .maxAgentsReached
    ensure (a.vault.isAgent agent = false) .agentAlreadyRegistered
    if capabilityOperator ≤ capability then
      ensure (a.vault.ownerType ≤ ownerTypeMultisig) .invalidOwnerType
      a.instantOperatorGate remaining
      return a.pushAgent agent capability 0
    else return a.pushAgent agent capability 0
  | none, none => .ok a
  | _, _ => fail .invalidPermissions

theorem graftAgent_ok {a g : VaultAccounts D} {remaining : List AccountMeta}
    {newAgent : Option Pubkey} {newAgentCapability : Option UInt8}
    (h : graftAgent a remaining newAgent newAgentCapability = .ok g) :
    g = a ∨ ∃ agent capability, newAgent = some agent ∧ newAgentCapability = some capability ∧
      a.vault.HasRoomFor agent ∧ a.vault.Eligible agent capability ∧
      (capabilityOperator ≤ capability → a.instantOperatorGate remaining = .ok ()) ∧
      g = a.pushAgent agent capability 0 := by
  cases newAgent with
  | none =>
    cases newAgentCapability with
    | none => exact .inl (Except.ok.inj h).symm
    | some capability => cases h
  | some agent =>
    cases newAgentCapability with
    | none => cases h
    | some capability =>
      unfold graftAgent at h
      simp only [seq_ok_iff, ensure_ok_iff, exists_and_left, exists_const] at h
      obtain ⟨hnamed, howner, hcapable, hroom, hfresh, h⟩ := h
      refine .inr ⟨agent, capability, rfl, rfl, ⟨hfresh, hroom⟩, ⟨hnamed, howner, hcapable⟩, ?_⟩
      split at h
      · simp only [seq_ok_iff, pure_ok_iff] at h
        obtain ⟨-, -, ⟨⟩, hgate, rfl⟩ := h
        exact ⟨fun _ => hgate, rfl⟩
      · rename_i hobserver
        exact ⟨fun hoperator => absurd hoperator hobserver, (pure_ok_iff.mp h).symm⟩

end Graft

section Freeze

variable {D : Type} [Host D]

/-- Revoke the delegation behind a session. A pair that is not a live session of this vault with
its own token account is skipped. -/
def revokePair (env : Env) (l : Ledger D) (session token : Pubkey) : Result (Ledger D) :=
  match l.sessions session with
  | none => .ok l
  | some s =>
    if s.vault = l.vaultKey ∧ session = sessionAddress D l.vaultKey s.agent s.authorizedToken ∧
        s.delegated = true ∧ s.authorized = true ∧ token = s.delegationTokenAccount ∧
        (l.accountInfo env token).owner = tokenProgramId then do
      let tokens ← viaToken (revoke l.tokens token l.vaultKey)
      return { l with tokens := tokens }
    else .ok l

/-- The remaining accounts are read two at a time; a single last one is ignored. -/
def revokePairs (env : Env) (l : Ledger D) : List AccountMeta → Result (Ledger D)
  | session :: token :: rest => do
    let l' ← revokePair env l session.pubkey token.pubkey
    revokePairs env l' rest
  | _ => .ok l

def freezeVault (env : Env) (owner : Pubkey) (remaining : List AccountMeta) (l : Ledger D) :
    Result (Ledger D) := do
  let a ← l.loadAsOwner owner
  rejectCpi env
  ensure (a.vault.isActive = true) .vaultNotActive
  let drains := remaining.head?.any (fun m =>
    m.pubkey = accountAddress D "pending_owner" l.vaultKey) ∧ l.pendingOwner.isSome
  let l₁ := if drains then { l with pendingOwner := none } else l
  let l₂ ← revokePairs env l₁ (if drains then remaining.tail else remaining)
  return l₂.setLive { a with vault := a.vault.freezeInternal .manual env.clock }

def reactivateVault (env : Env) (owner : Pubkey) (remaining : List AccountMeta)
    (newAgent : Option Pubkey) (newAgentCapability : Option UInt8) (l : Ledger D) :
    Result (Ledger D) := do
  let a ← l.loadAsOwner owner
  rejectCpi env
  ensure (a.vault.status = .frozen) .vaultNotFrozen
  a.cosignGate remaining
  ensure (0 < a.vault.frozenAtTimestamp) .vaultNotFrozen
  ensure (reactivateCooldownSeconds ≤
    saturatingSubI64 env.clock.unixTimestamp a.vault.frozenAtTimestamp)
    .errReactivateCooldownActive
  let grafted ← graftAgent a remaining newAgent newAgentCapability
  ensure (grafted.vault.agents ≠ []) .noAgentRegistered
  ensure (a.policy.protocols ≠ [] ∨ a.policy.allowedDestinations ≠ [])
    .activeVaultRequiresAllowlist
  let sealed ← { grafted with vault := { grafted.vault with status := .active } }.reseal
  return l.setLive sealed

def setObserveOnly (env : Env) (owner : Pubkey) (remaining : List AccountMeta) (newValue : Bool)
    (l : Ledger D) : Result (Ledger D) := do
  let a ← l.loadAsOwner owner
  rejectCpi env
  ensure (newValue = false → a.vault.status = .active) .vaultNotActive
  ensure (newValue = false → a.policy.cosignRequired = true →
    hasBoundCosigner remaining a.policy.cosignSessionPubkey = true) .errCosignRequired
  ensure (newValue = false → a.policy.protocols ≠ [] ∨ a.policy.allowedDestinations ≠ [])
    .activeVaultRequiresAllowlist
  let sealed ← { a with vault := { a.vault with observeOnly := newValue } }.reseal
  return l.setLive sealed

variable {env : Env} {owner : Pubkey} {remaining : List AccountMeta} {l l' : Ledger D}

theorem revokePair_ok {session token : Pubkey} (h : revokePair env l session token = .ok l') :
    ∃ tokens, l' = { l with tokens := tokens } := by
  unfold revokePair at h
  split at h
  · cases h
    exact ⟨l.tokens, rfl⟩
  · split at h
    · simp only [seq_ok_iff, pure_ok_iff] at h
      obtain ⟨tokens, -, rfl⟩ := h
      exact ⟨tokens, rfl⟩
    · cases h
      exact ⟨l.tokens, rfl⟩

theorem revokePairs_ok {pairs : List AccountMeta} (h : revokePairs env l pairs = .ok l') :
    ∃ tokens, l' = { l with tokens := tokens } := by
  induction l, pairs using revokePairs.induct with
  | case1 l session token rest ih =>
    simp only [revokePairs, seq_ok_iff] at h
    obtain ⟨l₁, h₁, h⟩ := h
    obtain ⟨tokens₁, rfl⟩ := revokePair_ok h₁
    obtain ⟨tokens, rfl⟩ := ih _ h
    exact ⟨tokens, rfl⟩
  | case2 pairs l hshort =>
    rw [revokePairs] at h
    · obtain rfl := Except.ok.inj h
      exact ⟨l.tokens, rfl⟩
    · exact hshort

/-- Whether the first remaining account is the address of a pending transfer. -/
def listsOwnerFirst (vaultKey : Pubkey) (remaining : List AccountMeta) : Bool :=
  remaining.head?.any fun m => m.pubkey = accountAddress D "pending_owner" vaultKey

theorem freezeVault_ok (h : freezeVault env owner remaining l = .ok l') :
    ∃ (a : VaultAccounts D) (pendingOwner : Option PendingOwnershipTransfer)
      (tokens : Accounts Pubkey), l.live = some a ∧ a.vault.owner = owner ∧
      pendingOwner =
        (if listsOwnerFirst (D := D) l.vaultKey remaining then none else l.pendingOwner) ∧
      l' = { l with
        live := some { a with vault := a.vault.freezeInternal .manual env.clock }
        pendingOwner := pendingOwner
        tokens := tokens } := by
  simp only [freezeVault, seq_ok_iff, Ledger.loadAsOwner_ok_iff, rejectCpi_ok_iff, ensure_ok_iff,
    exists_and_left, exists_const, pure_ok_iff] at h
  obtain ⟨a, ⟨ha, howner⟩, -, -, l₂, hrevoked, rfl⟩ := h
  obtain ⟨tokens, rfl⟩ := revokePairs_ok hrevoked
  refine ⟨a, _, tokens, ha, howner, rfl, ?_⟩
  by_cases hlisted : listsOwnerFirst (D := D) l.vaultKey remaining = true
  · cases hpending : l.pendingOwner <;>
      simp_all [listsOwnerFirst, Ledger.setLive]
  · simp_all [listsOwnerFirst, Ledger.setLive]

theorem reactivateVault_cooled {newAgent : Option Pubkey} {newAgentCapability : Option UInt8}
    (h : reactivateVault env owner remaining newAgent newAgentCapability l = .ok l') :
    ∃ a : VaultAccounts D, l.live = some a ∧ a.vault.status = .frozen ∧
      a.vault.frozenAtTimestamp + 300 ≤ env.clock.unixTimestamp := by
  simp only [reactivateVault, seq_ok_iff, Ledger.loadAsOwner_ok_iff, rejectCpi_ok_iff,
    ensure_ok_iff, VaultAccounts.cosignGate_ok_iff, exists_and_left, exists_const] at h
  obtain ⟨a, ⟨ha, -⟩, -, hfrozen, -, -, hcooled, -⟩ := h
  refine ⟨a, ha, hfrozen, ?_⟩
  simp only [reactivateCooldownSeconds, saturatingSubI64, clampI64] at hcooled
  omega

theorem reactivateVault_ok {newAgent : Option Pubkey} {newAgentCapability : Option UInt8}
    (h : reactivateVault env owner remaining newAgent newAgentCapability l = .ok l') :
    ∃ (a g : VaultAccounts D) (version : UInt64), l.live = some a ∧ a.vault.owner = owner ∧
      (a.policy.cosignRequired = true →
        hasBoundCosigner remaining a.policy.cosignSessionPubkey = true) ∧
      graftAgent a remaining newAgent newAgentCapability = .ok g ∧
      version.toNat = g.policy.policyVersion.toNat + 1 ∧
      l' = l.setLive ({ g with vault := { g.vault with status := .active } }.sealedAt version) := by
  simp only [reactivateVault, seq_ok_iff, Ledger.loadAsOwner_ok_iff, rejectCpi_ok_iff,
    ensure_ok_iff, VaultAccounts.cosignGate_ok_iff, VaultAccounts.reseal_ok_iff, exists_and_left,
    exists_const, pure_ok_iff] at h
  obtain ⟨a, ⟨ha, howner⟩, -, -, hcosign, -, -, g, hgraft, -, -, sealed, ⟨version, hversion, rfl⟩,
    rfl⟩ := h
  exact ⟨a, g, version, ha, howner, hcosign, hgraft, hversion, rfl⟩

theorem setObserveOnly_ok {newValue : Bool}
    (h : setObserveOnly env owner remaining newValue l = .ok l') :
    ∃ (a : VaultAccounts D) (version : UInt64), l.live = some a ∧ a.vault.owner = owner ∧
      (newValue = false → a.policy.cosignRequired = true →
        hasBoundCosigner remaining a.policy.cosignSessionPubkey = true) ∧
      version.toNat = a.policy.policyVersion.toNat + 1 ∧
      l' = l.setLive
        ({ a with vault := { a.vault with observeOnly := newValue } }.sealedAt version) := by
  simp only [setObserveOnly, seq_ok_iff, Ledger.loadAsOwner_ok_iff, rejectCpi_ok_iff,
    ensure_ok_iff, VaultAccounts.reseal_ok_iff, exists_and_left, exists_const, pure_ok_iff] at h
  obtain ⟨a, ⟨ha, howner⟩, -, -, hcosign, -, sealed, ⟨version, hversion, rfl⟩, rfl⟩ := h
  exact ⟨a, version, ha, howner, hcosign, hversion, rfl⟩

end Freeze

end Sigil
