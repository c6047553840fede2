import Sigil.Digest.CosignDigest
import Sigil.Instructions.Lifecycle

/-! # Agents

Adding, removing, pausing and punishing agents, the delayed grant of a new operator and the
delayed change of an agent's permissions.
-/

namespace Sigil

open Machine Guard

def maxApplyAgeSlotsTimelockedAdmin : UInt64 := 700000

/-- Seat a new agent. Without a free slot only an agent without a limit may go on. -/
def AgentSpendOverlay.seat (o : AgentSpendOverlay) (agent : Pubkey) (spendingLimitUsd : UInt64) :
    Result AgentSpendOverlay :=
  if (o.findAgentSlot agent).isSome then .ok o
  else match o.claimSlot agent with
    | some o' => .ok o'
    | none => if 0 < spendingLimitUsd then fail .overlaySlotExhausted else .ok o

/-- Free the slot of an agent that leaves. -/
def AgentSpendOverlay.unseat (o : AgentSpendOverlay) (agent : Pubkey) : AgentSpendOverlay :=
  match o.findAgentSlot agent with
  | some i => o.releaseSlot i
  | none => o

def isPolicyViolationCode (code : UInt32) : Bool :=
  6074 ≤ code ∧ code ≤ 6083 ∨ 6085 ≤ code ∧ code ≤ 6088 ∨ 6090 ≤ code ∧ code ≤ 6091

section Pause

variable {D : Type}

def pauseAgent (env : Env) (owner agentToPause : Pubkey) (l : Ledger D) : Result (Ledger D) := do
  let a ← l.loadAsOwner owner
  rejectCpi env
  ensure (a.vault.status ≠ .closed) .vaultAlreadyClosed
  let entry ← someOr .unauthorizedAgent (a.vault.getAgent agentToPause)
  ensure (entry.paused = false) .agentAlreadyPaused
  let bumped ← { a with
    vault := a.vault.updateAgent agentToPause fun e => { e with paused := true } }.bumpVersion
  return l.setLive bumped

def unpauseAgent (env : Env) (owner : Pubkey) (remaining : List AccountMeta)
    (agentToUnpause : Pubkey) (l : Ledger D) : Result (Ledger D) := do
  let a ← l.loadAsOwner owner
  rejectCpi env
  a.cosignGate remaining
  ensure (a.vault.status ≠ .closed) .vaultAlreadyClosed
  ensure (a.vault.status ≠ .frozen) .vaultNotActive
  let entry ← someOr .unauthorizedAgent (a.vault.getAgent agentToUnpause)
  ensure (entry.paused = true) .agentNotPaused
  let bumped ← { a with
    vault := a.vault.updateAgent agentToUnpause fun e => { e with paused := false } }.bumpVersion
  return l.setLive bumped

variable {env : Env} {owner agent : Pubkey} {remaining : List AccountMeta} {l l' : Ledger D}

theorem pauseAgent_ok (h : pauseAgent env owner agent l = .ok l') :
    ∃ (a : VaultAccounts D) (version : UInt64), l.live = some a ∧ a.vault.owner = owner ∧
      version.toNat = a.policy.policyVersion.toNat + 1 ∧
      l' = l.setLive ({ a with
        vault := a.vault.updateAgent agent fun e => { e with paused := true } }.atVersion
          version) := by
  simp only [pauseAgent, seq_ok_iff, Ledger.loadAsOwner_ok_iff, rejectCpi_ok_iff, ensure_ok_iff,
    someOr_ok_iff, VaultAccounts.bumpVersion_ok_iff, exists_and_left, exists_const,
    pure_ok_iff] at h
  obtain ⟨a, ⟨ha, howner⟩, -, -, entry, -, -, bumped, ⟨version, hversion, rfl⟩, rfl⟩ := h
  exact ⟨a, version, ha, howner, hversion, rfl⟩

theorem unpauseAgent_ok (h : unpauseAgent env owner remaining agent l = .ok l') :
    ∃ (a : VaultAccounts D) (version : UInt64), l.live = some a ∧ a.vault.owner = owner ∧
      (a.policy.cosignRequired = true →
        hasBoundCosigner remaining a.policy.cosignSessionPubkey = true) ∧
      version.toNat = a.policy.policyVersion.toNat + 1 ∧
      l' = l.setLive ({ a with
        vault := a.vault.updateAgent agent fun e => { e with paused := false } }.atVersion
          version) := by
  simp only [unpauseAgent, seq_ok_iff, Ledger.loadAsOwner_ok_iff, rejectCpi_ok_iff,
    VaultAccounts.cosignGate_ok_iff, ensure_ok_iff, someOr_ok_iff,
    VaultAccounts.bumpVersion_ok_iff, exists_and_left, exists_const, pure_ok_iff] at h
  obtain ⟨a, ⟨ha, howner⟩, -, hcosign, -, -, entry, -, -, bumped, ⟨version, hversion, rfl⟩,
    rfl⟩ := h
  exact ⟨a, version, ha, howner, hcosign, hversion, rfl⟩

end Pause

section Agents

variable {D : Type} [Host D]

def registerAgent (env : Env) (owner : Pubkey) (remaining : List AccountMeta) (agent : Pubkey)
    (capability : UInt8) (spendingLimitUsd : UInt64) (l : Ledger D) : Result (Ledger D) := do
  let a ← l.loadAsOwner owner
  rejectCpi env
  ensure (a.vault.status ≠ .closed) .vaultAlreadyClosed
  ensure (a.vault.status ≠ .frozen) .vaultNotActive
  ensure (capability ≤ fullCapability) .invalidCapability
  ensure (a.vault.ownerType ≤ ownerTypeMultisig) .invalidOwnerType
  ensure (a.vault.isAgent agent = false) .agentAlreadyRegistered
  ensure (a.vault.agents.length < maxAgentsPerVault) .maxAgentsReached
  ensure (agent ≠ Pubkey.default) .invalidAgentKey
  ensure (agent ≠ a.vault.owner) .agentIsOwner
  a.registrationGate remaining capability
  let overlay ← a.overlay.seat agent spendingLimitUsd
  let sealed ← { a.pushAgent agent capability spendingLimitUsd with overlay := overlay }.reseal
  return l.setLive sealed

/-- The vault without an agent; a vault that lost its last agent freezes. -/
def AgentVault.removeAgent (v : AgentVault) (agent : Pubkey) (clock : Clock) : AgentVault :=
  let rest := { v with agents := v.agents.filter fun e => e.pubkey ≠ agent }
  if rest.agents = [] then rest.freezeInternal .autoRevoke clock else rest

theorem AgentVault.removeAgent_status (v : AgentVault) (agent : Pubkey) (clock : Clock) :
    (v.removeAgent agent clock).agents = [] ∧ (v.removeAgent agent clock).status = .frozen ∧
        (v.removeAgent agent clock).frozenAtTimestamp = clock.unixTimestamp ∨
      (v.removeAgent agent clock).agents ≠ [] ∧ (v.removeAgent agent clock).status = v.status ∧
        (v.removeAgent agent clock).frozenAtTimestamp = v.frozenAtTimestamp := by
  unfold removeAgent
  dsimp only
  split
  · rename_i hempty
    exact .inl ⟨hempty, rfl, rfl⟩
  · rename_i hsome
    exact .inr ⟨hsome, rfl, rfl⟩

def revokeAgent (env : Env) (owner agentToRemove : Pubkey) (l : Ledger D) :
    Result (Ledger D) := do
  let a ← l.loadAsOwner owner
  rejectCpi env
  ensure (a.vault.status ≠ .closed) .vaultAlreadyClosed
  ensure (a.vault.isAgent agentToRemove = true) .unauthorizedAgent
  let sealed ← { a with
    vault := a.vault.removeAgent agentToRemove env.clock
    overlay := a.overlay.unseat agentToRemove }.reseal
  return l.setLive sealed

/-- One more failure of an agent, which disables it at the threshold. -/
def AgentEntry.recordFailure (e : AgentEntry) (threshold : UInt8) : AgentEntry :=
  let failures := if e.consecutiveFailures = 255 then 255 else e.consecutiveFailures + 1
  { e with
    consecutiveFailures := failures
    capability := if threshold ≤ failures then capabilityDisabled else e.capability }

def recordAgentViolation (env : Env) (owner agent : Pubkey) (errorCode : UInt32)
    (l : Ledger D) : Result (Ledger D) := do
  let a ← l.loadAsOwner owner
  rejectCpi env
  ensure (a.vault.status ≠ .closed) .vaultAlreadyClosed
  ensure (isPolicyViolationCode errorCode = true) .invalidPermissions
  let threshold := a.policy.autoRevokeThreshold
  ensure (autoRevokeThresholdMin ≤ threshold ∧ threshold ≤ autoRevokeThresholdMax)
    .invalidPermissions
  let entry ← someOr .unauthorizedAgent (a.vault.getAgent agent)
  ensure (entry.capability ≠ capabilityDisabled) .errAutoRevoked
  let punished := { a with
    vault := a.vault.updateAgent agent fun e => e.recordFailure threshold }
  if threshold ≤ (entry.recordFailure threshold).consecutiveFailures then
    let sealed ← punished.reseal
    return l.setLive sealed
  else return l.setLive punished

variable {env : Env} {owner agent : Pubkey} {remaining : List AccountMeta} {l l' : Ledger D}

theorem registerAgent_ok {capability : UInt8} {spendingLimitUsd : UInt64}
    (h : registerAgent env owner remaining agent capability spendingLimitUsd l = .ok l') :
    ∃ (a : VaultAccounts D) (overlay : AgentSpendOverlay) (version : UInt64),
      l.live = some a ∧ a.vault.owner = owner ∧ a.vault.HasRoomFor agent ∧
      a.vault.Eligible agent capability ∧ a.registrationGate remaining capability = .ok () ∧
      a.overlay.seat agent spendingLimitUsd = .ok overlay ∧
      version.toNat = a.policy.policyVersion.toNat + 1 ∧
      l' = l.setLive ({ a.pushAgent agent capability spendingLimitUsd with
        overlay := overlay }.sealedAt version) := by
  simp only [registerAgent, seq_ok_iff, Ledger.loadAsOwner_ok_iff, rejectCpi_ok_iff, ensure_ok_iff,
    VaultAccounts.reseal_ok_iff, exists_and_left, exists_const, pure_ok_iff] at h
  obtain ⟨a, ⟨ha, howner⟩, -, -, -, hcapable, -, hfresh, hroom, hnamed, hnotOwner, ⟨⟩, hgate,
    overlay, hseat, sealed, ⟨version, hversion, rfl⟩, rfl⟩ := h
  exact ⟨a, overlay, version, ha, howner, ⟨hfresh, hroom⟩, ⟨hnamed, hnotOwner, hcapable⟩, hgate,
    hseat, hversion, rfl⟩

theorem revokeAgent_ok (h : revokeAgent env owner agent l = .ok l') :
    ∃ (a : VaultAccounts D) (version : UInt64), l.live = some a ∧ a.vault.owner = owner ∧
      a.vault.isAgent agent = true ∧ version.toNat = a.policy.policyVersion.toNat + 1 ∧
      l' = l.setLive ({ a with
        vault := a.vault.removeAgent agent env.clock
        overlay := a.overlay.unseat agent }.sealedAt version) := by
  simp only [revokeAgent, seq_ok_iff, Ledger.loadAsOwner_ok_iff, rejectCpi_ok_iff, ensure_ok_iff,
    VaultAccounts.reseal_ok_iff, exists_and_left, exists_const, pure_ok_iff] at h
  obtain ⟨a, ⟨ha, howner⟩, -, -, hagent, sealed, ⟨version, hversion, rfl⟩, rfl⟩ := h
  exact ⟨a, version, ha, howner, hagent, hversion, rfl⟩

/-- A violation that does not disable the agent changes its failure count and nothing else. -/
theorem recordAgentViolation_ok {errorCode : UInt32}
    (h : recordAgentViolation env owner agent errorCode l = .ok l') :
    ∃ (a : VaultAccounts D) (entry : AgentEntry), l.live = some a ∧ a.vault.owner = owner ∧
      a.vault.getAgent agent = some entry ∧ entry.capability ≠ capabilityDisabled ∧
      let threshold := a.policy.autoRevokeThreshold
      let punished := { a with
        vault := a.vault.updateAgent agent fun e => e.recordFailure threshold }
      (¬ threshold ≤ (entry.recordFailure threshold).consecutiveFailures ∧
          l' = l.setLive punished) ∨
        ∃ version : UInt64, threshold ≤ (entry.recordFailure threshold).consecutiveFailures ∧
          version.toNat = a.policy.policyVersion.toNat + 1 ∧
          l' = l.setLive (punished.sealedAt version) := by
  simp only [recordAgentViolation, seq_ok_iff, Ledger.loadAsOwner_ok_iff, rejectCpi_ok_iff,
    ensure_ok_iff, someOr_ok_iff, exists_and_left, exists_const] at h
  obtain ⟨a, ⟨ha, howner⟩, -, -, -, -, entry, hentry, henabled, h⟩ := h
  refine ⟨a, entry, ha, howner, hentry, henabled, ?_⟩
  split at h
  · rename_i htrip
    simp only [seq_ok_iff, VaultAccounts.reseal_ok_iff, pure_ok_iff] at h
    obtain ⟨sealed, ⟨version, hversion, rfl⟩, rfl⟩ := h
    exact .inr ⟨version, htrip, hversion, rfl⟩
  · rename_i hbelow
    exact .inl ⟨hbelow, (pure_ok_iff.mp h).symm⟩

/-- A queued change lapses after a number of slots. -/
def ensureFresh (clock : Clock) (anchorSlot : UInt64) : Result Unit := do
  let slotDelta ← someOr .overflow (checkedSub clock.slot anchorSlot)
  ensure (slotDelta < maxApplyAgeSlotsTimelockedAdmin) .queuedUpdateExpired

def queueAgentGrant (env : Env) (owner : Pubkey) (remaining : List AccountMeta) (agent : Pubkey)
    (capability : UInt8) (spendingLimitUsd : UInt64) (l : Ledger D) : Result (Ledger D) := do
  let a ← l.loadAsOwner owner
  mustBeNew l.pendingGrant
  rejectCpi env
  ensure (a.vault.status = .active) .vaultNotActive
  ensure (capability ≤ fullCapability) .invalidCapability
  ensure (capabilityOperator ≤ capability) .invalidPermissions
  ensure (agent ≠ Pubkey.default) .invalidAgentKey
  ensure (agent ≠ a.vault.owner) .agentIsOwner
  ensure (a.vault.isAgent agent = false) .agentAlreadyRegistered
  ensure (a.vault.agents.length < maxAgentsPerVault) .maxAgentsReached
  a.cosignGate remaining
  ensure (a.vault.ownerType ≤ ownerTypeMultisig) .invalidOwnerType
  let effectiveDelay :=
    effectiveOperatorGrantDelay a.operatorGrantTier a.policy.operatorGrantDelaySeconds
  let pending : PendingAgentGrant D := {
    vault := l.vaultKey
    agent := agent
    capability := capability
    spendingLimitUsd := spendingLimitUsd
    queuedAt := env.clock.unixTimestamp
    minDelaySeconds := effectiveDelay
    pendingContentDigest := Host.zeroDigest
    queuedAtSlot := env.clock.slot }
  let _ ← someOr .overflow (checkedAddI64 env.clock.unixTimestamp (castI64 effectiveDelay))
  let bound := { pending with pendingContentDigest := computePendingAgentGrantDigest pending }
  return { l with pendingGrant := some bound }

def applyAgentGrant [DecidableEq D] (env : Env) (owner : Pubkey) (remaining : List AccountMeta)
    (l : Ledger D) : Result (Ledger D) := do
  let a ← l.loadAsOwner owner
  let pending ← mustExist l.pendingGrant
  ensure (pending.vault = l.vaultKey) .zeroCopyVaultMismatch
  rejectCpi env
  ensureFresh env.clock pending.queuedAtSlot
  let elapsed ← someOr .overflow (checkedSubI64 env.clock.unixTimestamp pending.queuedAt)
  ensure (castI64 pending.minDelaySeconds ≤ elapsed) .timelockNotExpired
  a.cosignGate remaining
  ensure (computePendingAgentGrantDigest pending = pending.pendingContentDigest)
    .errPendingAgentGrantDigestMismatch
  ensure (a.vault.status = .active) .vaultNotActive
  ensure (a.vault.isAgent pending.agent = false) .agentAlreadyRegistered
  ensure (a.vault.agents.length < maxAgentsPerVault) .maxAgentsReached
  ensure (capabilityOperator ≤ pending.capability ∧ pending.capability ≤ fullCapability)
    .invalidPermissions
  let overlay ← a.overlay.seat pending.agent pending.spendingLimitUsd
  let sealed ← { a.pushAgent pending.agent pending.capability pending.spendingLimitUsd with
    overlay := overlay }.reseal
  return { l with live := some sealed, pendingGrant := none }

def cancelAgentGrant (env : Env) (owner : Pubkey) (remaining : List AccountMeta) (l : Ledger D) :
    Result (Ledger D) := do
  let a ← l.loadAsOwner owner
  let pending ← mustExist l.pendingGrant
  ensure (pending.vault = l.vaultKey) .zeroCopyVaultMismatch
  rejectCpi env
  a.cosignGate remaining
  return { l with pendingGrant := none }

structure GrantQueued (env : Env) (a : VaultAccounts D) (agent : Pubkey) (capability : UInt8)
    (pending : PendingAgentGrant D) : Prop where
  agent : pending.agent = agent
  capability : pending.capability = capability
  eligible : a.vault.Eligible pending.agent pending.capability
  queuedAt : pending.queuedAt = env.clock.unixTimestamp
  delay : pending.minDelaySeconds =
    effectiveOperatorGrantDelay a.operatorGrantTier a.policy.operatorGrantDelaySeconds

structure GrantReady (env : Env) (a : VaultAccounts D) (pending : PendingAgentGrant D) :
    Prop where
  room : a.vault.HasRoomFor pending.agent
  capable : pending.capability ≤ fullCapability
  elapsed : castI64 pending.minDelaySeconds ≤ env.clock.unixTimestamp - pending.queuedAt

theorem queueAgentGrant_ok {capability : UInt8} {spendingLimitUsd : UInt64}
    (h : queueAgentGrant env owner remaining agent capability spendingLimitUsd l = .ok l') :
    ∃ (a : VaultAccounts D) (pending : PendingAgentGrant D), l.live = some a ∧
      a.vault.owner = owner ∧ (a.policy.cosignRequired = true →
        hasBoundCosigner remaining a.policy.cosignSessionPubkey = true) ∧
      GrantQueued env a agent capability pending ∧
      l' = { l with pendingGrant := some pending } := by
  simp only [queueAgentGrant, seq_ok_iff, Ledger.loadAsOwner_ok_iff, mustBeNew_ok_iff,
    rejectCpi_ok_iff, ensure_ok_iff, VaultAccounts.cosignGate_ok_iff, someOr_ok_iff,
    exists_and_left, exists_const, pure_ok_iff] at h
  obtain ⟨a, ⟨ha, howner⟩, -, -, -, hcapable, -, hnamed, hnotOwner, -, -, hcosign, -, -, -,
    rfl⟩ := h
  exact ⟨a, _, ha, howner, hcosign, ⟨rfl, rfl, ⟨hnamed, hnotOwner, hcapable⟩, rfl, rfl⟩, rfl⟩

theorem applyAgentGrant_ok [DecidableEq D] (h : applyAgentGrant env owner remaining l = .ok l') :
    ∃ (a : VaultAccounts D) (pending : PendingAgentGrant D) (overlay : AgentSpendOverlay)
      (version : UInt64), l.live = some a ∧ a.vault.owner = owner ∧
      l.pendingGrant = some pending ∧ (a.policy.cosignRequired = true →
        hasBoundCosigner remaining a.policy.cosignSessionPubkey = true) ∧
      GrantReady env a pending ∧
      a.overlay.seat pending.agent pending.spendingLimitUsd = .ok overlay ∧
      version.toNat = a.policy.policyVersion.toNat + 1 ∧
      l' = { l with
        live := some ({ a.pushAgent pending.agent pending.capability pending.spendingLimitUsd with
          overlay := overlay }.sealedAt version)
        pendingGrant := none } := by
  simp only [applyAgentGrant, seq_ok_iff, Ledger.loadAsOwner_ok_iff, mustExist_ok_iff,
    rejectCpi_ok_iff, ensure_ok_iff, VaultAccounts.cosignGate_ok_iff, someOr_ok_iff,
    checkedSubI64_eq_some, VaultAccounts.reseal_ok_iff, exists_and_left, exists_const,
    pure_ok_iff] at h
  obtain ⟨a, ⟨ha, howner⟩, pending, hpending, -, -, -, -, elapsed, ⟨rfl, -⟩, helapsed, hcosign, -,
    -, hfresh, hroom, ⟨-, hcapable⟩, overlay, hseat, sealed, ⟨version, hversion, rfl⟩, rfl⟩ := h
  exact ⟨a, pending, overlay, version, ha, howner, hpending, hcosign,
    ⟨⟨hfresh, hroom⟩, hcapable, helapsed⟩, hseat, hversion, rfl⟩

omit [Host D] in
theorem cancelAgentGrant_ok (h : cancelAgentGrant env owner remaining l = .ok l') :
    ∃ a : VaultAccounts D, l.live = some a ∧ a.vault.owner = owner ∧
      (a.policy.cosignRequired = true →
        hasBoundCosigner remaining a.policy.cosignSessionPubkey = true) ∧
      l' = { l with pendingGrant := none } := by
  simp only [cancelAgentGrant, seq_ok_iff, Ledger.loadAsOwner_ok_iff, mustExist_ok_iff,
    ensure_ok_iff, rejectCpi_ok_iff, VaultAccounts.cosignGate_ok_iff, exists_and_left, exists_const,
    pure_ok_iff] at h
  obtain ⟨a, ⟨ha, howner⟩, pending, -, -, -, hcosign, rfl⟩ := h
  exact ⟨a, ha, howner, hcosign, rfl⟩

end Agents

section Permissions

variable {D : Type} [Host D]

/-- The cosigner a change of permissions is bound to: the bound key when the change gives the
agent more, none otherwise. -/
def bindPermsCosigner (a : VaultAccounts D) (owner : Pubkey) (remaining : List AccountMeta)
    (live : AgentEntry) (newCapability : UInt8) (spendingLimitUsd cooldownSeconds : UInt64)
    (cosignSession : Pubkey) : Result (Pubkey × D) :=
  if a.policy.cosignRequired = true ∧ (live.capability < newCapability ∨
      live.spendingLimitUsd < spendingLimitUsd ∨ cooldownSeconds ≠ 0) then do
    ensure (cosignSession ≠ Pubkey.default) .errCosignRequired
    ensure (cosignSession ≠ owner) .errCosignRequired
    ensure (cosignSession = a.policy.cosignSessionPubkey) .errCosignRequired
    ensure (remaining.any (fun m => m.pubkey = cosignSession ∧ m.isSigner) = true)
      .errCosignRequired
    return (cosignSession, computeAgentPermsCosignDigest cosignSession live.pubkey newCapability
      spendingLimitUsd cooldownSeconds)
  else do
    ensure (cosignSession = Pubkey.default) .invalidPermissions
    return (Pubkey.default, Host.zeroDigest)

theorem bindPermsCosigner_signed {a : VaultAccounts D} {owner : Pubkey}
    {remaining : List AccountMeta} {live : AgentEntry} {newCapability : UInt8}
    {spendingLimitUsd cooldownSeconds : UInt64} {cosignSession : Pubkey} {bound : Pubkey × D}
    (h : bindPermsCosigner a owner remaining live newCapability spendingLimitUsd cooldownSeconds
      cosignSession = .ok bound) (hreq : a.policy.cosignRequired = true)
    (hmore : live.capability < newCapability ∨ live.spendingLimitUsd < spendingLimitUsd ∨
      cooldownSeconds ≠ 0) :
    hasBoundCosigner remaining a.policy.cosignSessionPubkey = true := by
  simp only [bindPermsCosigner, if_pos (And.intro hreq hmore), seq_ok_iff, ensure_ok_iff,
    exists_and_left, exists_const] at h
  obtain ⟨hkey, -, rfl, hsigned, -⟩ := h
  simpa [hasBoundCosigner, hkey, and_comm] using hsigned

def queueAgentPermissionsUpdate (env : Env) (owner : Pubkey) (remaining : List AccountMeta)
    (agent : Pubkey) (newCapability : UInt8) (spendingLimitUsd cooldownSeconds : UInt64)
    (cosignSession : Pubkey) (l : Ledger D) : Result (Ledger D) := do
  let a ← l.loadAsOwner owner
  let address := pendingAgentPermsAddress D l.vaultKey agent
  mustBeNew (l.pendingPerms address)
  rejectCpi env
  ensure (a.vault.status ≠ .closed) .vaultAlreadyClosed
  ensure (a.vault.status ≠ .frozen) .vaultNotActive
  ensure (0 < a.policy.timelockDuration) .noTimelockConfigured
  let live ← someOr .unauthorizedAgent (a.vault.getAgent agent)
  ensure (newCapability ≤ fullCapability) .invalidCapability
  let (session, digest) ← bindPermsCosigner a owner remaining live newCapability spendingLimitUsd
    cooldownSeconds cosignSession
  let timelock ← someOr .overflow (tryI64 a.policy.timelockDuration)
  let executesAt ← someOr .overflow (checkedAddI64 env.clock.unixTimestamp timelock)
  let pending : PendingAgentPermissionsUpdate D := {
    vault := l.vaultKey
    agent := agent
    newCapability := newCapability
    spendingLimitUsd := spendingLimitUsd
    queuedAt := env.clock.unixTimestamp
    executesAt := executesAt
    queuedAtSlot := env.clock.slot
    cooldownSeconds := cooldownSeconds
    cosignDigest := digest
    cosignSession := session }
  return { l with pendingPerms := Function.update l.pendingPerms address (some pending) }

def Ledger.loadPerms (l : Ledger D) (address : Pubkey) :
    Result (PendingAgentPermissionsUpdate D) := do
  let pending ← mustExist (l.pendingPerms address)
  require (address = pendingAgentPermsAddress D l.vaultKey pending.agent)
    (.anchor .constraintSeeds)
  return pending

theorem Ledger.loadPerms_ok_iff {l : Ledger D} {address : Pubkey}
    {pending : PendingAgentPermissionsUpdate D} : l.loadPerms address = .ok pending ↔
      l.pendingPerms address = some pending ∧
        address = pendingAgentPermsAddress D l.vaultKey pending.agent := by
  simp only [Ledger.loadPerms, seq_ok_iff, mustExist_ok_iff, require_ok_iff, exists_and_left,
    exists_const, pure_ok_iff]
  constructor
  · rintro ⟨p, hp, haddress, rfl⟩
    exact ⟨hp, haddress⟩
  · rintro ⟨hp, haddress⟩
    exact ⟨pending, hp, haddress, rfl⟩

/-- The slot of an agent whose permissions change: it needs one for a limit, and loses it with
the limit. -/
def AgentSpendOverlay.reseat (o : AgentSpendOverlay) (agent : Pubkey)
    (oldLimit newLimit : UInt64) : Result AgentSpendOverlay :=
  match o.findAgentSlot agent with
  | none =>
    if 0 < newLimit then someOr .overlaySlotExhausted (o.claimSlot agent) else .ok o
  | some i => if newLimit = 0 ∧ 0 < oldLimit then .ok (o.releaseSlot i) else .ok o

def AgentSpendOverlay.setAgentCooldown (o : AgentSpendOverlay) (agent : Pubkey)
    (cooldownSeconds : UInt64) : AgentSpendOverlay :=
  match o.findAgentSlot agent with
  | some i => o.setCooldownSeconds i cooldownSeconds
  | none => o

theorem AgentSpendOverlay.setAgentCooldown_of_some {o : AgentSpendOverlay} {agent : Pubkey}
    {i : Fin maxOverlayEntries} (hi : o.findAgentSlot agent = some i) (cooldownSeconds : UInt64) :
    o.setAgentCooldown agent cooldownSeconds = o.setCooldownSeconds i cooldownSeconds := by
  unfold setAgentCooldown
  rw [hi]

theorem AgentSpendOverlay.setAgentCooldown_of_none {o : AgentSpendOverlay} {agent : Pubkey}
    (h : o.findAgentSlot agent = none) (cooldownSeconds : UInt64) :
    o.setAgentCooldown agent cooldownSeconds = o := by
  unfold setAgentCooldown
  rw [h]

def applyAgentPermissionsUpdate [DecidableEq D] (env : Env) (owner : Pubkey)
    (remaining : List AccountMeta) (address : Pubkey) (l : Ledger D) : Result (Ledger D) := do
  let a ← l.loadAsOwner owner
  let pending ← l.loadPerms address
  rejectCpi env
  ensure (a.vault.status = .active) .vaultNotActive
  ensure (pending.isReady env.clock.unixTimestamp = true) .timelockNotExpired
  ensureFresh env.clock pending.queuedAtSlot
  ensure (pending.newCapability ≤ fullCapability) .invalidCapability
  a.cosignGate remaining
  ensure (pending.cosignSession ≠ Pubkey.default →
    computeAgentPermsCosignDigest pending.cosignSession pending.agent pending.newCapability
      pending.spendingLimitUsd pending.cooldownSeconds = pending.cosignDigest) .errCosignRequired
  let entry ← someOr .unauthorizedAgent (a.vault.getAgent pending.agent)
  let reseated ← a.overlay.reseat pending.agent entry.spendingLimitUsd pending.spendingLimitUsd
  let sealed ← { a with
    vault := a.vault.updateAgent pending.agent fun e => { e with
      capability := pending.newCapability, spendingLimitUsd := pending.spendingLimitUsd }
    overlay := reseated.setAgentCooldown pending.agent pending.cooldownSeconds }.reseal
  return { l with
    live := some sealed
    pendingPerms := Function.update l.pendingPerms address none }

def cancelAgentPermissionsUpdate (env : Env) (owner : Pubkey) (remaining : List AccountMeta)
    (address : Pubkey) (l : Ledger D) : Result (Ledger D) := do
  let a ← l.loadAsOwner owner
  let _ ← l.loadPerms address
  rejectCpi env
  a.cosignGate remaining
  return { l with pendingPerms := Function.update l.pendingPerms address none }

variable {env : Env} {owner agent address : Pubkey} {remaining : List AccountMeta}
  {l l' : Ledger D}

structure PermsQueued (env : Env) (a : VaultAccounts D) (agent : Pubkey) (newCapability : UInt8)
    (pending : PendingAgentPermissionsUpdate D) : Prop where
  agent : pending.agent = agent
  capability : pending.newCapability = newCapability
  queuedAt : pending.queuedAt = env.clock.unixTimestamp
  executesAt : pending.executesAt = env.clock.unixTimestamp + a.policy.timelockDuration.toNat

structure PermsReady (env : Env) (l : Ledger D) (address : Pubkey)
    (pending : PendingAgentPermissionsUpdate D) : Prop where
  found : l.pendingPerms address = some pending
  address : address = pendingAgentPermsAddress D l.vaultKey pending.agent
  elapsed : pending.executesAt ≤ env.clock.unixTimestamp
  capable : pending.newCapability ≤ fullCapability

theorem queueAgentPermissionsUpdate_ok {newCapability : UInt8}
    {spendingLimitUsd cooldownSeconds : UInt64} {cosignSession : Pubkey}
    (h : queueAgentPermissionsUpdate env owner remaining agent newCapability spendingLimitUsd
      cooldownSeconds cosignSession l = .ok l') :
    ∃ (a : VaultAccounts D) (pending : PendingAgentPermissionsUpdate D), l.live = some a ∧
      a.vault.owner = owner ∧
      (∀ live ∈ a.vault.getAgent agent, a.policy.cosignRequired = true →
        (live.capability < newCapability ∨ live.spendingLimitUsd < spendingLimitUsd ∨
          cooldownSeconds ≠ 0) →
        hasBoundCosigner remaining a.policy.cosignSessionPubkey = true) ∧
      PermsQueued env a agent newCapability pending ∧ l' = { l with
        pendingPerms := Function.update l.pendingPerms
          (pendingAgentPermsAddress D l.vaultKey agent) (some pending) } := by
  simp only [queueAgentPermissionsUpdate, seq_ok_iff, Ledger.loadAsOwner_ok_iff, mustBeNew_ok_iff,
    rejectCpi_ok_iff, ensure_ok_iff, someOr_ok_iff, checkedAddI64_eq_some, exists_and_left,
    exists_const, pure_ok_iff] at h
  obtain ⟨a, ⟨ha, howner⟩, -, -, -, -, -, live, hlive, -, bound, hbound, timelock, htimelock,
    executesAt, ⟨rfl, -⟩, rfl⟩ := h
  obtain rfl := tryI64_eq_some htimelock
  refine ⟨a, _, ha, howner, fun e he hreq hmore => ?_, ⟨rfl, rfl, rfl, rfl⟩, rfl⟩
  cases hlive.symm.trans he
  exact bindPermsCosigner_signed hbound hreq hmore

theorem applyAgentPermissionsUpdate_ok [DecidableEq D]
    (h : applyAgentPermissionsUpdate env owner remaining address l = .ok l') :
    ∃ (a : VaultAccounts D) (pending : PendingAgentPermissionsUpdate D) (entry : AgentEntry)
      (overlay : AgentSpendOverlay) (version : UInt64), l.live = some a ∧ a.vault.owner = owner ∧
      (a.policy.cosignRequired = true →
        hasBoundCosigner remaining a.policy.cosignSessionPubkey = true) ∧
      PermsReady env l address pending ∧ a.vault.getAgent pending.agent = some entry ∧
      a.overlay.reseat pending.agent entry.spendingLimitUsd pending.spendingLimitUsd =
        .ok overlay ∧
      version.toNat = a.policy.policyVersion.toNat + 1 ∧
      l' = { l with
        live := some ({ a with
          vault := a.vault.updateAgent pending.agent fun e => { e with
            capability := pending.newCapability, spendingLimitUsd := pending.spendingLimitUsd }
          overlay := overlay.setAgentCooldown pending.agent
            pending.cooldownSeconds }.sealedAt version)
        pendingPerms := Function.update l.pendingPerms address none } := by
  simp only [applyAgentPermissionsUpdate, seq_ok_iff, Ledger.loadAsOwner_ok_iff,
    Ledger.loadPerms_ok_iff, rejectCpi_ok_iff, ensure_ok_iff,
    PendingAgentPermissionsUpdate.isReady, decide_eq_true_eq, VaultAccounts.cosignGate_ok_iff,
    someOr_ok_iff, VaultAccounts.reseal_ok_iff, exists_and_left, exists_const, pure_ok_iff] at h
  obtain ⟨a, ⟨ha, howner⟩, pending, ⟨hpending, haddress⟩, -, -, hready, -, -, hcapable, hcosign, -,
    entry, hentry, overlay, hreseat, sealed, ⟨version, hversion, rfl⟩, rfl⟩ := h
  exact ⟨a, pending, entry, overlay, version, ha, howner, hcosign,
    ⟨hpending, haddress, hready, hcapable⟩, hentry, hreseat, hversion, rfl⟩

theorem cancelAgentPermissionsUpdate_ok
    (h : cancelAgentPermissionsUpdate env owner remaining address l = .ok l') :
    ∃ a : VaultAccounts D, l.live = some a ∧ a.vault.owner = owner ∧
      (a.policy.cosignRequired = true →
        hasBoundCosigner remaining a.policy.cosignSessionPubkey = true) ∧
      l' = { l with pendingPerms := Function.update l.pendingPerms address none } := by
  simp only [cancelAgentPermissionsUpdate, seq_ok_iff, Ledger.loadAsOwner_ok_iff, rejectCpi_ok_iff,
    VaultAccounts.cosignGate_ok_iff, exists_and_left, exists_const, pure_ok_iff] at h
  obtain ⟨a, ⟨ha, howner⟩, pending, -, -, hcosign, rfl⟩ := h
  exact ⟨a, ha, howner, hcosign, rfl⟩

end Permissions

end Sigil
