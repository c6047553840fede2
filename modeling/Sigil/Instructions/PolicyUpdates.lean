import Sigil.Instructions.Agents
import Sigil.Instructions.Elevation

/-! # Policy updates

An update of the policy is queued, waits for the timelock and is applied. An elevated update
also needs the approval of the bound cosigner, which it gives in a transaction of its own.
-/

namespace Sigil

open Machine Guard

def minSessionDurationSeconds : UInt64 := 5

def graylistFrictionSeconds : ℤ := 86400

/-- The framework refuses to store an account that outgrew its space. -/
def ensureFits (size space : ℕ) : Result Unit :=
  require (size ≤ space) (.anchor .accountDidNotSerialize)

section Queue

variable {D : Type} [Host D]

/-- The addresses that no destination may have. -/
def vaultKeyedProtectedPdas (vault : Pubkey) : List Pubkey :=
  ["vault", "policy", "tracker", "post_assertions", "audit_success", "audit_rejected",
    "pending_policy", "pending_owner", "pending_agent_grant", "agent_spend"].map
    fun seed => accountAddress D seed vault

/-- The checks of each present field, and of the caps against the list they belong to. -/
def validateUpdate (vaultKey owner : Pubkey) (p : PolicyConfig D) (u : PolicyUpdate D) :
    Result Unit := do
  ensure (0 < p.timelockDuration) .noTimelockConfigured
  ensure (∀ mode ∈ u.protocolMode, mode = protocolModeAllowlist) .invalidProtocolMode
  ensure (∀ mode ∈ u.destinationMode, mode = destinationModeRestricted) .invalidDestinationMode
  ensure (∀ new ∈ u.protocols, new.length ≤ maxAllowedProtocols) .tooManyAllowedProtocols
  ensure (∀ rate ∈ u.developerFeeRate, rate ≤ maxDeveloperFeeRate) .developerFeeTooHigh
  ensure (∀ bps ∈ u.maxSlippageBps, bps ≤ maxSlippageBps) .slippageBpsTooHigh
  ensure (∀ new ∈ u.allowedDestinations, new.length ≤ maxAllowedDestinations) .tooManyDestinations
  ensure (∀ new ∈ u.allowedDestinations, ∀ d ∈ new, d ∉ vaultKeyedProtectedPdas (D := D) vaultKey)
    .errDestinationIsProtectedPda
  ensure (∀ t ∈ u.timelockDuration, minTimelockDuration ≤ t) .timelockTooShort
  ensure (∀ t ∈ u.timelockDuration, t ≤ maxTimelockDuration) .timelockTooLong
  ensure (∀ delay ∈ u.operatorGrantDelaySeconds, delay ≤ maxOperatorGrantDelay)
    .errOperatorGrantDelayTooLong
  ensure (∀ key ∈ u.cosignSessionPubkey, key ≠ Pubkey.default → key ≠ owner) .errCosignRequired
  ensure (∀ expiry ∈ u.sessionExpirySeconds, 0 < expiry →
    minSessionDurationSeconds ≤ expiry ∧ expiry ≤ maxOwnerSessionDurationSeconds)
    .invalidSessionExpiry
  ensure (∀ hours ∈ u.operatingHours, hours &&& ~~~operatingHoursValidMask = 0)
    .errOutsideOperatingHours
  ensure ((p.merge u).hasProtocolCaps = true →
    (p.merge u).protocolMode = protocolModeAllowlist) .protocolCapsMismatch
  ensure ((p.merge u).hasProtocolCaps = true →
    (p.merge u).protocolCaps.length = (p.merge u).protocols.length) .protocolCapsMismatch

/-- The cosigner an update is bound to: the bound key for an elevated update, none otherwise. -/
def bindPolicyCosigner [DecidableEq D] (owner : Pubkey) (p : PolicyConfig D) (u : PolicyUpdate D)
    (cosignSession : Pubkey) : Result (Pubkey × D) :=
  if p.isElevated u then do
    ensure (cosignSession ≠ Pubkey.default) .errCosignRequired
    ensure (cosignSession ≠ owner) .errCosignRequired
    ensure (cosignSession = p.cosignSessionPubkey) .errCosignRequired
    return (cosignSession, computeCosignDigest cosignSession u)
  else do
    ensure (cosignSession = Pubkey.default) .invalidPermissions
    return (Pubkey.default, Host.zeroDigest)

def newPendingPolicy (clock : Clock) (p : PolicyConfig D) (vaultKey : Pubkey) (u : PolicyUpdate D)
    (bound : Pubkey × D) (newPolicyPreviewDigest : D) (executesAt : ℤ) :
    PendingPolicyUpdate D where
  vault := vaultKey
  queuedAt := clock.unixTimestamp
  executesAt := executesAt
  queuedAtSlot := clock.slot
  update := u
  cosignDigest := bound.2
  cosignSession := bound.1
  newPolicyPreviewDigest := newPolicyPreviewDigest
  cosignApproved := false
  approvedAtSlot := 0
  queuedPolicyVersion := p.policyVersion

/-- The vault's accounts with the mark of a pending update set or taken away. -/
def VaultAccounts.markPending (a : VaultAccounts D) (mark : Bool) : VaultAccounts D :=
  { a with policy := { a.policy with hasPendingPolicy := mark } }

def queuePolicyUpdate [DecidableEq D] (env : Env) (owner : Pubkey) (u : PolicyUpdate D)
    (cosignSession : Pubkey) (newPolicyPreviewDigest : D) (l : Ledger D) :
    Result (Ledger D) := do
  let a ← l.loadAsOwner owner
  mustBeNew l.pendingPolicy
  rejectCpi env
  ensure (a.vault.status ≠ .closed) .vaultAlreadyClosed
  ensure (a.vault.status ≠ .frozen) .vaultNotActive
  validateUpdate l.vaultKey owner a.policy u
  let bound ← bindPolicyCosigner owner a.policy u cosignSession
  ensure (liveDigest a.vault (a.policy.merge u) = newPolicyPreviewDigest) .policyPreviewMismatch
  let timelock ← someOr .overflow (tryI64 a.policy.timelockDuration)
  let executesAt ← someOr .overflow (checkedAddI64 env.clock.unixTimestamp timelock)
  let pending :=
    newPendingPolicy env.clock a.policy l.vaultKey u bound newPolicyPreviewDigest executesAt
  ensureFits pending.serializedSize PendingPolicyUpdate.size
  return { l with live := some (a.markPending true), pendingPolicy := some pending }

variable [DecidableEq D] {env : Env} {owner cosignSession : Pubkey} {l l' : Ledger D}
  {u : PolicyUpdate D}

theorem bindPolicyCosigner_ok {p : PolicyConfig D} {bound : Pubkey × D}
    (h : bindPolicyCosigner owner p u cosignSession = .ok bound) :
    (p.isElevated u = true ∧ p.cosignSessionPubkey ≠ Pubkey.default ∧
        bound = (p.cosignSessionPubkey, computeCosignDigest p.cosignSessionPubkey u)) ∨
      p.isElevated u = false ∧ bound = (Pubkey.default, Host.zeroDigest) := by
  unfold bindPolicyCosigner at h
  split at h
  · rename_i helevated
    simp only [seq_ok_iff, ensure_ok_iff, exists_and_left, exists_const, pure_ok_iff] at h
    obtain ⟨hbound, -, rfl, rfl⟩ := h
    exact .inl ⟨helevated, hbound, rfl⟩
  · rename_i helevated
    simp only [seq_ok_iff, ensure_ok_iff, exists_and_left, exists_const, pure_ok_iff] at h
    exact .inr ⟨Bool.eq_false_iff.mpr helevated, h.2.symm⟩

theorem queuePolicyUpdate_ok {newPolicyPreviewDigest : D}
    (h : queuePolicyUpdate env owner u cosignSession newPolicyPreviewDigest l = .ok l') :
    ∃ (a : VaultAccounts D) (bound : Pubkey × D), l.live = some a ∧ a.vault.owner = owner ∧
      l.pendingPolicy = none ∧ bindPolicyCosigner owner a.policy u cosignSession = .ok bound ∧
      liveDigest a.vault (a.policy.merge u) = newPolicyPreviewDigest ∧
      let pending := newPendingPolicy env.clock a.policy l.vaultKey u bound newPolicyPreviewDigest
        (env.clock.unixTimestamp + a.policy.timelockDuration.toNat)
      pending.serializedSize ≤ PendingPolicyUpdate.size ∧
      l' = { l with live := some (a.markPending true), pendingPolicy := some pending } := by
  simp only [queuePolicyUpdate, ensureFits, seq_ok_iff, Ledger.loadAsOwner_ok_iff,
    mustBeNew_ok_iff, rejectCpi_ok_iff, ensure_ok_iff, require_ok_iff, someOr_ok_iff,
    checkedAddI64_eq_some, exists_and_left, exists_const, pure_ok_iff] at h
  obtain ⟨a, ⟨ha, howner⟩, hnew, -, -, -, -, -, bound, hbound, hdigest, timelock, htimelock, _,
    ⟨rfl, -⟩, hfits, rfl⟩ := h
  obtain rfl := tryI64_eq_some htimelock
  exact ⟨a, bound, ha, howner, hnew, hbound, hdigest, hfits, rfl⟩

theorem queuePolicyUpdate_valid {newPolicyPreviewDigest : D}
    (h : queuePolicyUpdate env owner u cosignSession newPolicyPreviewDigest l = .ok l') :
    ∃ a : VaultAccounts D, l.live = some a ∧
      validateUpdate l.vaultKey owner a.policy u = .ok () := by
  simp only [queuePolicyUpdate, seq_ok_iff, Ledger.loadAsOwner_ok_iff] at h
  obtain ⟨a, ⟨ha, -⟩, -, -, -, -, -, -, -, -, ⟨⟩, hvalid, -⟩ := h
  exact ⟨a, ha, hvalid⟩

end Queue

section Approve

variable {D : Type}

/-- The bound cosigner approves whatever update is pending; the instruction names no content. -/
def approvePendingPolicy (env : Env) (cosigner : Pubkey) (l : Ledger D) : Result (Ledger D) := do
  let a ← mustExist l.live
  let pending ← mustExist l.pendingPolicy
  require (pending.vault = l.vaultKey) (.anchor .constraintHasOne)
  rejectCpi env
  ensure (a.vault.status = .active) .vaultNotActive
  ensure (pending.cosignSession ≠ Pubkey.default) .errCosignRequired
  ensure (cosigner = a.policy.cosignSessionPubkey) .errCosignRequired
  ensure (pending.cosignApproved = false) .errCosignRequired
  ensure (a.policy.policyVersion = pending.queuedPolicyVersion) .policyVersionMismatch
  ensure (pending.isReady env.clock.unixTimestamp = true) .timelockNotExpired
  return { l with
    pendingPolicy :=
      some { pending with cosignApproved := true, approvedAtSlot := env.clock.slot } }

def cancelPendingPolicy (env : Env) (owner : Pubkey) (l : Ledger D) : Result (Ledger D) := do
  let a ← l.loadAsOwner owner
  let pending ← mustExist l.pendingPolicy
  require (pending.vault = l.vaultKey) (.anchor .constraintHasOne)
  rejectCpi env
  return { l with live := some (a.markPending false), pendingPolicy := none }

/-- Put a destination on the graylist, or move the unlock time of the first entry it has there. -/
def graylistDestination (graylist : List DestinationGraylistEntry) (unlockUnix : ℤ)
    (destination : Pubkey) : Result (List DestinationGraylistEntry) :=
  if graylist.any fun e => e.destination = destination then
    .ok (graylist.modify (graylist.findIdx fun e => e.destination = destination) fun e =>
      { e with unlockUnix := unlockUnix })
  else do
    ensure (graylist.length < maxAllowedDestinations) .errGraylistFull
    return graylist ++ [⟨destination, unlockUnix⟩]

/-- When a new destination may be used: at once when destinations are promoted automatically. -/
def graylistUnlock (clock : Clock) (p : PolicyConfig D) : Result ℤ :=
  if p.autoPromoteGrays then .ok clock.unixTimestamp
  else someOr .overflow (checkedAddI64 clock.unixTimestamp graylistFrictionSeconds)

/-- The graylist after a change of the allowed destinations, with each new one on it. -/
def graylistNewDestinations (clock : Clock) (p : PolicyConfig D) :
    Option (List Pubkey) → Result (List DestinationGraylistEntry)
  | none => .ok p.destinationGraylist
  | some destinations => do
    let unlockUnix ← graylistUnlock clock p
    (destinations.filter fun d => d ∉ p.allowedDestinations).foldlM
      (fun graylist d => graylistDestination graylist unlockUnix d) p.destinationGraylist

/-- The live policy with the pending update merged in, field by field with its checks. -/
def applyUpdate (clock : Clock) (owner : Pubkey) (p : PolicyConfig D)
    (pending : PendingPolicyUpdate D) : Result (PolicyConfig D) := do
  let u := pending.update
  ensure (∀ t ∈ u.timelockDuration, minTimelockDuration ≤ t) .timelockTooShort
  ensure (∀ t ∈ u.timelockDuration, t ≤ maxTimelockDuration) .timelockTooLong
  let graylist ← graylistNewDestinations clock p u.allowedDestinations
  let merged : PolicyConfig D := { p.merge u with destinationGraylist := graylist }
  ensure (merged.hasProtocolCaps = true → merged.protocolCaps.length = merged.protocols.length)
    .protocolCapsMismatch
  ensure (∀ mode ∈ u.destinationMode, mode = destinationModeRestricted) .invalidDestinationMode
  ensure (∀ hours ∈ u.operatingHours, hours &&& ~~~operatingHoursValidMask = 0)
    .errOutsideOperatingHours
  ensure (∀ delay ∈ u.operatorGrantDelaySeconds, delay ≤ maxOperatorGrantDelay)
    .errOperatorGrantDelayTooLong
  let disablesCosign := u.cosignRequired = some false ∧ p.cosignRequired = true
  ensure (disablesCosign → pending.cosignSession = p.cosignSessionPubkey) .errCosignRequired
  ensure (disablesCosign → pending.cosignSession ≠ Pubkey.default) .errCosignRequired
  ensure (merged.cosignSessionPubkey ≠ Pubkey.default → merged.cosignSessionPubkey ≠ owner)
    .errCosignRequired
  ensure (u.cosignRequired = some true →
    u.cosignSessionPubkey.any (fun key => key ≠ Pubkey.default) = true) .errCosignRequired
  ensure (¬ (merged.cosignRequired = true ∧ merged.cosignSessionPubkey = Pubkey.default))
    .errCosignRequired
  ensure (∀ mode ∈ u.protocolMode, mode = protocolModeAllowlist) .invalidProtocolMode
  return merged

/-- An update that was queued without a cosigner. -/
def PendingPolicyUpdate.noCosign [Host D] (pending : PendingPolicyUpdate D) : Prop :=
  pending.cosignDigest = Host.zeroDigest ∧ pending.cosignSession = Pubkey.default

instance [Host D] [DecidableEq D] (pending : PendingPolicyUpdate D) : Decidable pending.noCosign :=
  inferInstanceAs (Decidable (_ ∧ _))

def applyPendingPolicy [Host D] [DecidableEq D] (env : Env) (owner : Pubkey) (l : Ledger D) :
    Result (Ledger D) := do
  let a ← l.loadAsOwner owner
  let pending ← mustExist l.pendingPolicy
  require (pending.vault = l.vaultKey) (.anchor .constraintHasOne)
  rejectCpi env
  ensure (a.vault.status = .active) .vaultNotActive
  ensure (pending.isReady env.clock.unixTimestamp = true) .timelockNotExpired
  ensure (¬ pending.noCosign → pending.cosignApproved = true) .errCosignRequired
  ensure (¬ pending.noCosign → a.policy.policyVersion = pending.queuedPolicyVersion)
    .policyVersionMismatch
  ensureFresh env.clock (if pending.noCosign then pending.queuedAtSlot else pending.approvedAtSlot)
  ensure (¬ pending.noCosign →
    computeCosignDigest pending.cosignSession pending.update = pending.cosignDigest)
    .errCosignRequired
  let policy ← applyUpdate env.clock owner a.policy pending
  ensure (a.vault.observeOnly = true ∨ policy.protocols ≠ [] ∨ policy.allowedDestinations ≠ [])
    .activeVaultRequiresAllowlist
  ensure (liveDigest a.vault policy = pending.newPolicyPreviewDigest) .policyPreviewMismatch
  let version ← a.nextVersion
  let applied : PolicyConfig D := { policy with
    policyPreviewDigest := pending.newPolicyPreviewDigest
    hasPendingPolicy := false
    policyVersion := version }
  ensureFits applied.serializedSize PolicyConfig.size
  return { l with live := some { a with policy := applied }, pendingPolicy := none }

def promoteGraylistDestination (env : Env) (owner : Pubkey) (remaining : List AccountMeta)
    (destination : Pubkey) (l : Ledger D) : Result (Ledger D) := do
  let a ← l.loadAsOwner owner
  rejectCpi env
  ensure (a.vault.status ≠ .closed) .vaultAlreadyClosed
  ensure (a.vault.status ≠ .frozen) .vaultNotActive
  a.cosignGate remaining
  ensure (destination ∈ a.policy.allowedDestinations) .destinationNotAllowed
  let graylist := a.policy.destinationGraylist
  let promoted := graylist.modify (graylist.findIdx fun e => e.destination = destination) fun e =>
    { e with unlockUnix := env.clock.unixTimestamp }
  return l.setLive { a with policy := { a.policy with destinationGraylist := promoted } }

variable {env : Env} {owner : Pubkey} {remaining : List AccountMeta} {l l' : Ledger D}

theorem approvePendingPolicy_ok {cosigner : Pubkey}
    (h : approvePendingPolicy env cosigner l = .ok l') :
    ∃ (a : VaultAccounts D) (pending : PendingPolicyUpdate D), l.live = some a ∧
      l.pendingPolicy = some pending ∧ pending.isElevated ∧
      cosigner = a.policy.cosignSessionPubkey ∧ pending.cosignApproved = false ∧
      a.policy.policyVersion = pending.queuedPolicyVersion ∧
      pending.executesAt ≤ env.clock.unixTimestamp ∧
      l' = { l with pendingPolicy := some { pending with
        cosignApproved := true
        approvedAtSlot := env.clock.slot } } := by
  simp only [approvePendingPolicy, seq_ok_iff, mustExist_ok_iff, require_ok_iff, rejectCpi_ok_iff,
    ensure_ok_iff, PendingPolicyUpdate.isReady, decide_eq_true_eq, exists_and_left, exists_const,
    pure_ok_iff] at h
  obtain ⟨a, ha, pending, hpending, -, -, -, helevated, hkey, hfirst, hversion, hready, rfl⟩ := h
  exact ⟨a, pending, ha, hpending, helevated, hkey, hfirst, hversion, hready, rfl⟩

theorem cancelPendingPolicy_ok (h : cancelPendingPolicy env owner l = .ok l') :
    ∃ a : VaultAccounts D, l.live = some a ∧ a.vault.owner = owner ∧
      l' = { l with live := some (a.markPending false), pendingPolicy := none } := by
  simp only [cancelPendingPolicy, seq_ok_iff, Ledger.loadAsOwner_ok_iff, pure_ok_iff] at h
  obtain ⟨a, ⟨ha, howner⟩, -, -, -, -, -, -, rfl⟩ := h
  exact ⟨a, ha, howner, rfl⟩

/-- The unlock time of a destination: the first entry decides. -/
def unlockOf (graylist : List DestinationGraylistEntry) (destination : Pubkey) : Option ℤ :=
  (graylist.find? fun e => e.destination = destination).map DestinationGraylistEntry.unlockUnix

theorem isDestinationGraylisted_of_unlockOf {p : PolicyConfig D} {destination : Pubkey}
    {now unlockUnix : ℤ} (h : unlockOf p.destinationGraylist destination = some unlockUnix)
    (hnow : now < unlockUnix) : p.isDestinationGraylisted destination now = true := by
  obtain ⟨e, he, rfl⟩ := Option.map_eq_some_iff.mp h
  simp only [PolicyConfig.isDestinationGraylisted, he, hnow, decide_true]

/-- A graylist as it was but for one destination, with the same destinations on it and maybe that
one more. -/
structure GraylistedAt (destination : Pubkey) (graylist graylist' : List DestinationGraylistEntry) :
    Prop where
  others : ∀ d, d ≠ destination → unlockOf graylist' d = unlockOf graylist d
  single : (graylist.map DestinationGraylistEntry.destination).Nodup →
    (graylist'.map DestinationGraylistEntry.destination).Nodup

theorem destination_moved (unlockUnix : ℤ) (e : DestinationGraylistEntry) :
    ({ e with unlockUnix := unlockUnix } : DestinationGraylistEntry).destination = e.destination :=
  rfl

theorem GraylistedAt.modifyFirst {destination : Pubkey} {unlockUnix : ℤ}
    (graylist : List DestinationGraylistEntry) :
    GraylistedAt destination graylist
      (FirstMatch.modifyFirst DestinationGraylistEntry.destination destination
        (fun e => { e with unlockUnix := unlockUnix }) graylist) where
  others d hd := by
    rw [unlockOf, FirstMatch.find?_modifyFirst_of_ne _ (destination_moved unlockUnix) hd, unlockOf]
  single h := by
    rwa [FirstMatch.map_modifyFirst _ fun e _ => destination_moved unlockUnix e]

theorem graylistDestination_ok {graylist graylist' : List DestinationGraylistEntry}
    {unlockUnix : ℤ} {destination : Pubkey}
    (h : graylistDestination graylist unlockUnix destination = .ok graylist') :
    unlockOf graylist' destination = some unlockUnix ∧
      GraylistedAt destination graylist graylist' := by
  unfold graylistDestination at h
  split at h
  · rename_i hany
    cases h
    refine ⟨?_, .modifyFirst graylist⟩
    have hfound : (graylist.find? fun e => e.destination = destination).isSome = true :=
      List.find?_isSome.mpr (List.any_eq_true.mp hany)
    obtain ⟨e, he⟩ := Option.isSome_iff_exists.mp hfound
    rw [unlockOf, FirstMatch.find?_modifyFirst_self _ (destination_moved unlockUnix), he]
    rfl
  · rename_i hany
    simp only [seq_ok_iff, ensure_ok_iff, exists_const, pure_ok_iff] at h
    obtain ⟨-, rfl⟩ := h
    have habsent : ∀ e ∈ graylist, e.destination ≠ destination := by
      simpa only [List.any_eq_true, decide_eq_true_eq, not_exists, not_and] using hany
    have hnone : (graylist.find? fun e => e.destination = destination) = none :=
      List.find?_eq_none.mpr fun e he => by simpa using habsent e he
    refine ⟨by simp [unlockOf, List.find?_append, hnone], fun d hd => ?_, fun hnodup => ?_⟩
    · simp [unlockOf, List.find?_append, Ne.symm hd]
    · rw [List.map_append, List.map_singleton, List.nodup_append]
      refine ⟨hnodup, List.nodup_singleton _, fun d hd d' hd' => ?_⟩
      obtain ⟨e, he, rfl⟩ := List.mem_map.mp hd
      obtain rfl := List.mem_singleton.mp hd'
      exact habsent e he

/-- The loop over the new destinations: each of them has the new unlock time, every other one the
old. -/
theorem graylistDestinations_ok {unlockUnix : ℤ} {new : List Pubkey}
    {graylist graylist' : List DestinationGraylistEntry}
    (h : new.foldlM (fun graylist d => graylistDestination graylist unlockUnix d) graylist =
      .ok graylist') :
    (∀ d, unlockOf graylist' d = if d ∈ new then some unlockUnix else unlockOf graylist d) ∧
      ((graylist.map DestinationGraylistEntry.destination).Nodup →
        (graylist'.map DestinationGraylistEntry.destination).Nodup) := by
  induction new generalizing graylist with
  | nil =>
    cases h
    exact ⟨fun d => by simp, id⟩
  | cons x new ih =>
    rw [List.foldlM_cons, seq_ok_iff] at h
    obtain ⟨middle, hfirst, hrest⟩ := h
    obtain ⟨hunlock, hat⟩ := graylistDestination_ok hfirst
    obtain ⟨hothers, hsingle⟩ := ih hrest
    refine ⟨fun d => ?_, fun hnodup => hsingle (hat.single hnodup)⟩
    rw [hothers d]
    by_cases hd : d ∈ new
    · simp [hd]
    · by_cases hx : d = x
      · simp [hx ▸ hd, hx, hunlock]
      · simp [hd, hx, hat.others d hx]

theorem graylistNewDestinations_ok {clock : Clock} {p : PolicyConfig D}
    {destinations : Option (List Pubkey)} {graylist : List DestinationGraylistEntry}
    (h : graylistNewDestinations clock p destinations = .ok graylist)
    (hold : ∀ new ∈ destinations, ∀ d ∈ new, d ∈ p.allowedDestinations) :
    graylist = p.destinationGraylist := by
  cases destinations with
  | none => exact (Except.ok.inj h).symm
  | some new =>
    have hnone : (new.filter fun d => d ∉ p.allowedDestinations) = [] :=
      List.filter_eq_nil_iff.mpr fun d hd => by simpa using hold new rfl d hd
    simp only [graylistNewDestinations, hnone, List.foldlM_nil, seq_ok_iff, pure_ok_iff] at h
    obtain ⟨-, -, rfl⟩ := h
    rfl

/-- A destination that was allowed before keeps its unlock time, a new one waits for the whole
friction window. -/
theorem unlockOf_graylistNewDestinations {clock : Clock} {p : PolicyConfig D}
    {destinations : Option (List Pubkey)} {graylist : List DestinationGraylistEntry}
    (h : graylistNewDestinations clock p destinations = .ok graylist) :
    (∀ d ∈ p.allowedDestinations, unlockOf graylist d = unlockOf p.destinationGraylist d) ∧
      (∀ new ∈ destinations, ∀ d ∈ new, d ∉ p.allowedDestinations → p.autoPromoteGrays = false →
        unlockOf graylist d = some (clock.unixTimestamp + graylistFrictionSeconds)) ∧
      ((p.destinationGraylist.map DestinationGraylistEntry.destination).Nodup →
        (graylist.map DestinationGraylistEntry.destination).Nodup) := by
  cases destinations with
  | none =>
    cases h
    exact ⟨fun _ _ => rfl, nofun, id⟩
  | some new =>
    rw [graylistNewDestinations, seq_ok_iff] at h
    obtain ⟨unlockUnix, hunlock, hloop⟩ := h
    obtain ⟨hvalues, hsingle⟩ := graylistDestinations_ok hloop
    refine ⟨fun d hd => by simp [hvalues d, hd], ?_, hsingle⟩
    rintro _ ⟨⟩ d hd hnew hauto
    rw [graylistUnlock, hauto, if_neg Bool.false_ne_true, someOr_ok_iff,
      checkedAddI64_eq_some] at hunlock
    simp [hvalues d, hd, hnew, hunlock]

theorem applyUpdate_ok {clock : Clock} {p merged : PolicyConfig D}
    {pending : PendingPolicyUpdate D} (h : applyUpdate clock owner p pending = .ok merged) :
    ∃ graylist, graylistNewDestinations clock p pending.update.allowedDestinations =
        .ok graylist ∧
      merged = { p.merge pending.update with destinationGraylist := graylist } ∧
      (merged.hasProtocolCaps = true → merged.protocolCaps.length = merged.protocols.length) ∧
      (merged.cosignSessionPubkey ≠ Pubkey.default → merged.cosignSessionPubkey ≠ owner) ∧
      (merged.cosignRequired = true → merged.cosignSessionPubkey ≠ Pubkey.default) := by
  simp only [applyUpdate, seq_ok_iff, ensure_ok_iff, exists_and_left, exists_const,
    pure_ok_iff] at h
  obtain ⟨-, -, graylist, hgraylist, hcaps, -, -, -, -, -, hkey, -, hbound, -, rfl⟩ := h
  exact ⟨graylist, hgraylist, rfl, hcaps, hkey, fun hreq hdef => hbound ⟨hreq, hdef⟩⟩

theorem applyUpdate_destinationMode {clock : Clock} {p merged : PolicyConfig D}
    {pending : PendingPolicyUpdate D} (h : applyUpdate clock owner p pending = .ok merged)
    (hp : p.destinationMode = destinationModeRestricted) :
    merged.destinationMode = destinationModeRestricted := by
  simp only [applyUpdate, seq_ok_iff, ensure_ok_iff, exists_and_left, exists_const,
    pure_ok_iff] at h
  obtain ⟨-, -, graylist, -, -, hmode, -, -, -, -, -, -, -, -, rfl⟩ := h
  exact PolicyConfig.merged_of_forall (P := fun mode => mode = destinationModeRestricted) hp hmode

theorem applyUpdate_delays {clock : Clock} {p merged : PolicyConfig D}
    {pending : PendingPolicyUpdate D} (h : applyUpdate clock owner p pending = .ok merged) :
    (minTimelockDuration ≤ p.timelockDuration → minTimelockDuration ≤ merged.timelockDuration) ∧
      (p.operatorGrantDelaySeconds ≤ maxOperatorGrantDelay →
        merged.operatorGrantDelaySeconds ≤ maxOperatorGrantDelay) := by
  simp only [applyUpdate, seq_ok_iff, ensure_ok_iff, exists_and_left, exists_const,
    pure_ok_iff] at h
  obtain ⟨htimelock, -, graylist, -, -, -, -, hdelay, -, -, -, -, -, -, rfl⟩ := h
  constructor
  · intro hp
    exact PolicyConfig.merged_of_forall (P := fun t => minTimelockDuration ≤ t) hp htimelock
  · intro hp
    exact PolicyConfig.merged_of_forall (P := fun delay => delay ≤ maxOperatorGrantDelay) hp hdelay

theorem applyPendingPolicy_ok [Host D] [DecidableEq D]
    (h : applyPendingPolicy env owner l = .ok l') :
    ∃ (a : VaultAccounts D) (pending : PendingPolicyUpdate D) (merged applied : PolicyConfig D)
      (version : UInt64), l.live = some a ∧ a.vault.owner = owner ∧
      l.pendingPolicy = some pending ∧ pending.executesAt ≤ env.clock.unixTimestamp ∧
      (¬ pending.noCosign → pending.cosignApproved = true ∧
        a.policy.policyVersion = pending.queuedPolicyVersion) ∧
      applyUpdate env.clock owner a.policy pending = .ok merged ∧
      liveDigest a.vault merged = pending.newPolicyPreviewDigest ∧
      version.toNat = a.policy.policyVersion.toNat + 1 ∧
      applied = { merged with
        policyPreviewDigest := pending.newPolicyPreviewDigest
        hasPendingPolicy := false
        policyVersion := version } ∧
      applied.serializedSize ≤ PolicyConfig.size ∧
      l' = { l with live := some { a with policy := applied }, pendingPolicy := none } := by
  simp only [applyPendingPolicy, VaultAccounts.nextVersion, ensureFits, seq_ok_iff,
    Ledger.loadAsOwner_ok_iff, mustExist_ok_iff, require_ok_iff, rejectCpi_ok_iff, ensure_ok_iff,
    PendingPolicyUpdate.isReady, decide_eq_true_eq, someOr_ok_iff, checkedAdd_eq_some,
    exists_and_left, exists_const, pure_ok_iff] at h
  obtain ⟨a, ⟨ha, howner⟩, pending, hpending, -, -, -, hready, happroved, hqueued, -, -, -, merged,
    hmerged, -, hdigest, version, hversion, hfits, rfl⟩ := h
  exact ⟨a, pending, merged, _, version, ha, howner, hpending, hready,
    fun hcosign => ⟨happroved hcosign, hqueued hcosign⟩, hmerged, hdigest, hversion,
    rfl, hfits, rfl⟩

theorem promoteGraylistDestination_ok {destination : Pubkey}
    (h : promoteGraylistDestination env owner remaining destination l = .ok l') :
    ∃ (a : VaultAccounts D) (graylist : List DestinationGraylistEntry), l.live = some a ∧
      a.vault.owner = owner ∧ (a.policy.cosignRequired = true →
        hasBoundCosigner remaining a.policy.cosignSessionPubkey = true) ∧
      GraylistedAt destination a.policy.destinationGraylist graylist ∧
      l' = l.setLive
        { a with policy := { a.policy with destinationGraylist := graylist } } := by
  simp only [promoteGraylistDestination, seq_ok_iff, Ledger.loadAsOwner_ok_iff, rejectCpi_ok_iff,
    ensure_ok_iff, VaultAccounts.cosignGate_ok_iff, exists_and_left, exists_const,
    pure_ok_iff] at h
  obtain ⟨a, ⟨ha, howner⟩, -, -, -, hcosign, -, rfl⟩ := h
  exact ⟨a, _, ha, howner, hcosign, .modifyFirst _, rfl⟩

end Approve

end Sigil
