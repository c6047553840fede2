import Sigil.Client.PolicyDigests
import Sigil.Instructions.PolicyUpdates

/-! # The builder of policy updates

The client reads the live accounts, merges the owner's changes into them and puts the digest of the
result in the instruction; the program merges the arguments of the instruction itself. Build hashes
are seeded from the live table, so that an update replaces only the hashes that it names.
-/

namespace Sigil.Client

open Guard

section Accounts

structure PolicyAccount where
  dailySpendingCapUsd : ℤ
  maxTransactionSizeUsd : ℤ
  protocolMode : ℤ
  protocols : List String
  developerFeeRate : ℤ
  maxSlippageBps : ℤ
  timelockDuration : ℤ
  allowedDestinations : List String
  hasProtocolCaps : Bool
  protocolCaps : List ℤ
  sessionExpirySeconds : ℤ
  hasPostAssertions : ℤ
  destinationMode : ℤ
  createdAtSlot : ℤ
  operatingHours : ℤ
  autoPromoteGrays : Bool
  autoRevokeThreshold : ℤ
  stableBalanceFloor : ℤ
  perRecipientDailyCapUsd : ℤ
  cosignRequired : Bool
  cosignSessionPubkey : String
  operatorGrantDelaySeconds : ℤ
  protocolHashes : List (List UInt8)

structure VaultAccount where
  agents : List AgentInput
  observeOnly : Bool

def textOf (k : Pubkey) : String := base58Encode k.bytes

theorem textOf_spec (k : Pubkey) : TextOf (textOf k) k := (Address.ofKey k).decoded

variable {D : Type} [Host D]

def decodePolicyConfig (p : PolicyConfig D) : PolicyAccount where
  dailySpendingCapUsd := p.dailySpendingCapUsd.toNat
  maxTransactionSizeUsd := p.maxTransactionSizeUsd.toNat
  protocolMode := p.protocolMode.toNat
  protocols := p.protocols.map textOf
  developerFeeRate := p.developerFeeRate.toNat
  maxSlippageBps := p.maxSlippageBps.toNat
  timelockDuration := p.timelockDuration.toNat
  allowedDestinations := p.allowedDestinations.map textOf
  hasProtocolCaps := p.hasProtocolCaps
  protocolCaps := p.protocolCaps.map fun c => c.toNat
  sessionExpirySeconds := p.sessionExpirySeconds.toNat
  hasPostAssertions := p.hasPostAssertions.toNat
  destinationMode := p.destinationMode.toNat
  createdAtSlot := p.createdAtSlot.toNat
  operatingHours := p.operatingHours.toNat
  autoPromoteGrays := p.autoPromoteGrays
  autoRevokeThreshold := p.autoRevokeThreshold.toNat
  stableBalanceFloor := p.stableBalanceFloor.toNat
  perRecipientDailyCapUsd := p.perRecipientDailyCapUsd.toNat
  cosignRequired := p.cosignRequired
  cosignSessionPubkey := textOf p.cosignSessionPubkey
  operatorGrantDelaySeconds := p.operatorGrantDelaySeconds.toNat
  protocolHashes := (List.ofFn p.protocolHashes).map Host.digestBytes

def decodeAgentVault (v : AgentVault) : VaultAccount where
  agents := v.agents.map fun a => ⟨textOf a.pubkey, a.capability.toNat⟩
  observeOnly := v.observeOnly

end Accounts

section Changes

inductive ProtocolMode | unrestricted | whitelist | blacklist

def mapProtocolMode : ProtocolMode → ℤ
  | .unrestricted => 0
  | .whitelist => 1
  | .blacklist => 2

/-- What becomes of the build hash of a protocol. -/
inductive HashChange
  | disarm
  | pin (value : List UInt8)

/-- The changes an owner asks for. `keys` counts the keys of the object, those without a value
included; a `null` counts as no value. -/
structure PolicyChanges where
  keys : ℕ
  dailyCap : Option ℤ
  maxPerTrade : Option ℤ
  approvedApps : Option (List String)
  protocolMode : Option ProtocolMode
  hasProtocolCaps : Option Bool
  protocolCaps : Option (List ℤ)
  maxSlippageBps : Option ℤ
  allowedDestinations : Option (List String)
  developerFeeRate : Option ℤ
  sessionExpirySeconds : Option ℤ
  timelock : Option ℤ
  destinationMode : Option ℤ
  stableBalanceFloor : Option ℤ
  perRecipientDailyCapUsd : Option ℤ
  cosignRequired : Option Bool
  cosignSessionPubkey : Option String
  operatorGrantDelaySeconds : Option ℤ
  protocolHashes : Option (List (String × HashChange))

inductive BuildError
  | noChanges
  | timelockTooShort (timelock : ℤ)
  | notPositive (field : String) (amount : ℤ)
  | exceedsU64 (field : String)
  | developerFeeTooHigh (rate : ℤ)
  | tooManyApps (n : ℕ)
  | hashesWithApps
  | notAllowlisted (protocol : String)
  /-- The table would outgrow its fixed size. -/
  | noSlot (protocol : String)
  | hashLength (protocol : String) (n : ℕ)
  | disarmNeedsCosigner
  | encode (e : EncodeError)
  deriving DecidableEq

def whenGiven {α : Type} (o : Option α) (check : α → Except BuildError Unit) :
    Except BuildError Unit :=
  match o with
  | none => .ok ()
  | some a => check a

def requirePositiveAmount (field : String) (amount : ℤ) : Except BuildError Unit := do
  require (0 < amount) (.notPositive field amount)
  require (amount ≤ 2 ^ 64 - 1) (.exceedsU64 field)

def validateChanges (changes : PolicyChanges) : Except BuildError Unit := do
  require (changes.keys ≠ 0) .noChanges
  whenGiven changes.timelock fun t => require (1800 ≤ t) (.timelockTooShort t)
  whenGiven changes.dailyCap (requirePositiveAmount "Daily cap")
  whenGiven changes.maxPerTrade (requirePositiveAmount "Max per trade")
  whenGiven changes.developerFeeRate fun r => require (r ≤ 500) (.developerFeeTooHigh r)
  whenGiven changes.approvedApps fun apps =>
    require (apps.length ≤ maxAllowedProtocols) (.tooManyApps apps.length)

end Changes

section Arming

def isAllZero (bytes : List UInt8) : Bool := bytes.all (· == 0)

def copyHash (h : List UInt8) : List UInt8 := h.take 32 ++ List.replicate (32 - h.length) 0

/-- The table of hashes under construction, and whether an armed one was cleared. -/
structure Seeded where
  hashes : List (List UInt8)
  containsDisarm : Bool

/-- One entry of the map: the first slot of the protocol is cleared or pinned. -/
def applyHashChange (protocols : List String) (s : Seeded) (c : String × HashChange) :
    Except BuildError Seeded := do
  let slot ← okOr (.notAllowlisted c.1) (protocols.findIdx? (· == c.1))
  let old ← okOr (.noSlot c.1) s.hashes[slot]?
  match c.2 with
  | .disarm =>
    return ⟨s.hashes.set slot (List.replicate 32 0), s.containsDisarm || !isAllZero old⟩
  | .pin value =>
    require (value.length = 32) (.hashLength c.1 value.length)
    return ⟨s.hashes.set slot value, s.containsDisarm⟩

/-- What the build hashes contribute: the argument of the instruction, the table under the digest
and whether an armed hash was cleared. -/
structure Armed where
  arg : Option (List (List UInt8))
  digestInput : List (List UInt8)
  containsDisarm : Bool
  deriving DecidableEq

def armHashes (live : PolicyAccount) (changes : PolicyChanges) : Except BuildError Armed :=
  match changes.protocolHashes with
  | none => .ok ⟨none, live.protocolHashes, false⟩
  | some map => do
    require (changes.approvedApps = none) .hashesWithApps
    let seeded ← map.foldlM (applyHashChange (changes.approvedApps.getD live.protocols))
      ⟨live.protocolHashes.map copyHash, false⟩
    return ⟨some seeded.hashes, seeded.hashes, seeded.containsDisarm⟩

end Arming

section Builder

/-- The arguments of the instruction that the client builds; `none` is sent as `null`. -/
structure QueuePolicyUpdateInput (D : Type) where
  dailySpendingCapUsd : Option ℤ
  maxTransactionAmountUsd : Option ℤ
  protocolMode : Option ℤ
  protocols : Option (List String)
  developerFeeRate : Option ℤ
  maxSlippageBps : Option ℤ
  timelockDuration : Option ℤ
  allowedDestinations : Option (List String)
  sessionExpirySeconds : Option ℤ
  hasProtocolCaps : Option Bool
  protocolCaps : Option (List ℤ)
  destinationMode : Option ℤ
  operatingHours : Option ℤ
  stableBalanceFloor : Option ℤ
  perRecipientDailyCapUsd : Option ℤ
  cosignRequired : Option Bool
  cosignSessionPubkey : Option String
  operatorGrantDelaySeconds : Option ℤ
  protocolHashes : Option (List (List UInt8))
  cosignSession : String
  newPolicyPreviewDigest : D

def defaultCosignSession : String := zeroKeyText

def effectiveFields (live : PolicyAccount) (vault : VaultAccount) (changes : PolicyChanges)
    (armed : Armed) (agentSetHash : List UInt8) : PolicyPreviewFields where
  dailySpendingCapUsd := changes.dailyCap.getD live.dailySpendingCapUsd
  maxTransactionSizeUsd := changes.maxPerTrade.getD live.maxTransactionSizeUsd
  maxSlippageBps := changes.maxSlippageBps.getD live.maxSlippageBps
  developerFeeRate := changes.developerFeeRate.getD live.developerFeeRate
  protocolMode := (changes.protocolMode.map mapProtocolMode).getD live.protocolMode
  protocols := changes.approvedApps.getD live.protocols
  destinationMode := changes.destinationMode.getD live.destinationMode
  allowedDestinations := changes.allowedDestinations.getD live.allowedDestinations
  timelockDuration := changes.timelock.getD live.timelockDuration
  sessionExpirySeconds := changes.sessionExpirySeconds.getD live.sessionExpirySeconds
  observeOnly := vault.observeOnly
  hasPostAssertions := live.hasPostAssertions
  createdAtSlot := live.createdAtSlot
  operatingHours := some live.operatingHours
  autoPromoteGrays := some live.autoPromoteGrays
  autoRevokeThreshold := some live.autoRevokeThreshold
  stableBalanceFloor := some (changes.stableBalanceFloor.getD live.stableBalanceFloor)
  perRecipientDailyCapUsd :=
    some (changes.perRecipientDailyCapUsd.getD live.perRecipientDailyCapUsd)
  cosignRequired := some (changes.cosignRequired.getD live.cosignRequired)
  agentSetHash := some agentSetHash
  cosignSessionPubkey :=
    some (.text (changes.cosignSessionPubkey.getD live.cosignSessionPubkey))
  operatorGrantDelaySeconds :=
    some (changes.operatorGrantDelaySeconds.getD live.operatorGrantDelaySeconds)
  hasProtocolCaps := some (changes.hasProtocolCaps.getD live.hasProtocolCaps)
  protocolCaps := some (changes.protocolCaps.getD live.protocolCaps)
  protocolHashes := some armed.digestInput

def queueInput {D : Type} (changes : PolicyChanges) (armed : Armed) (cosignSession : String)
    (newPolicyPreviewDigest : D) : QueuePolicyUpdateInput D where
  dailySpendingCapUsd := changes.dailyCap
  maxTransactionAmountUsd := changes.maxPerTrade
  protocolMode := changes.protocolMode.map mapProtocolMode
  protocols := changes.approvedApps
  developerFeeRate := changes.developerFeeRate
  maxSlippageBps := changes.maxSlippageBps
  timelockDuration := changes.timelock
  allowedDestinations := changes.allowedDestinations
  sessionExpirySeconds := changes.sessionExpirySeconds
  hasProtocolCaps := changes.hasProtocolCaps
  protocolCaps := changes.protocolCaps
  destinationMode := changes.destinationMode
  operatingHours := none
  stableBalanceFloor := changes.stableBalanceFloor
  perRecipientDailyCapUsd := changes.perRecipientDailyCapUsd
  cosignRequired := changes.cosignRequired
  cosignSessionPubkey := changes.cosignSessionPubkey
  operatorGrantDelaySeconds := changes.operatorGrantDelaySeconds
  protocolHashes := armed.arg
  cosignSession := cosignSession
  newPolicyPreviewDigest := newPolicyPreviewDigest

def buildPolicyUpdateIx (D : Type) [Host D] (live : PolicyAccount) (vault : VaultAccount)
    (changes : PolicyChanges) (cosignSession : String) :
    Except BuildError (QueuePolicyUpdateInput D) := do
  validateChanges changes
  let armed ← armHashes live changes
  -- clearing an armed hash needs the cosigner where there has to be one
  require (¬ (armed.containsDisarm = true ∧ cosignSession = defaultCosignSession ∧
    live.cosignRequired = true)) .disarmNeedsCosigner
  let agentSetHash ← (computeAgentSetHash D vault.agents).mapError .encode
  let newPolicyPreviewDigest ← (computePolicyPreviewDigest D
    (effectiveFields live vault changes armed agentSetHash)).mapError .encode
  return queueInput changes armed cosignSession newPolicyPreviewDigest

/-- The program reads the update and the cosigner from the arguments. -/
structure QueuePolicyUpdateInput.Encodes {D : Type} [Host D] (x : QueuePolicyUpdateInput D)
    (u : PolicyUpdate D) (session : Pubkey) : Prop where
  dailySpendingCapUsd : Option.Rel (fun v n => v = (n.toNat : ℤ)) x.dailySpendingCapUsd
    u.dailySpendingCapUsd
  maxTransactionAmountUsd : Option.Rel (fun v n => v = (n.toNat : ℤ)) x.maxTransactionAmountUsd
    u.maxTransactionAmountUsd
  protocolMode : Option.Rel (fun v n => v = (n.toNat : ℤ)) x.protocolMode u.protocolMode
  protocols : Option.Rel (List.Forall₂ TextOf) x.protocols u.protocols
  developerFeeRate : Option.Rel (fun v n => v = (n.toNat : ℤ)) x.developerFeeRate
    u.developerFeeRate
  maxSlippageBps : Option.Rel (fun v n => v = (n.toNat : ℤ)) x.maxSlippageBps u.maxSlippageBps
  timelockDuration : Option.Rel (fun v n => v = (n.toNat : ℤ)) x.timelockDuration
    u.timelockDuration
  allowedDestinations : Option.Rel (List.Forall₂ TextOf) x.allowedDestinations
    u.allowedDestinations
  sessionExpirySeconds : Option.Rel (fun v n => v = (n.toNat : ℤ)) x.sessionExpirySeconds
    u.sessionExpirySeconds
  hasProtocolCaps : x.hasProtocolCaps = u.hasProtocolCaps
  protocolCaps : Option.Rel (List.Forall₂ fun v n => v = (n.toNat : ℤ)) x.protocolCaps
    u.protocolCaps
  destinationMode : Option.Rel (fun v n => v = (n.toNat : ℤ)) x.destinationMode u.destinationMode
  operatingHours : Option.Rel (fun v n => v = (n.toNat : ℤ)) x.operatingHours u.operatingHours
  stableBalanceFloor : Option.Rel (fun v n => v = (n.toNat : ℤ)) x.stableBalanceFloor
    u.stableBalanceFloor
  perRecipientDailyCapUsd : Option.Rel (fun v n => v = (n.toNat : ℤ)) x.perRecipientDailyCapUsd
    u.perRecipientDailyCapUsd
  cosignRequired : x.cosignRequired = u.cosignRequired
  cosignSessionPubkey : Option.Rel TextOf x.cosignSessionPubkey u.cosignSessionPubkey
  operatorGrantDelaySeconds : Option.Rel (fun v n => v = (n.toNat : ℤ)) x.operatorGrantDelaySeconds
    u.operatorGrantDelaySeconds
  protocolHashes : Option.Rel (fun l h => l = (List.ofFn h).map Host.digestBytes) x.protocolHashes
    u.protocolHashes
  cosignSession : TextOf x.cosignSession session

end Builder

section Digest

theorem rel_getD {α β : Type} {r : α → β → Prop} {o : Option α} {o' : Option β} {d : α} {d' : β}
    (h : Option.Rel r o o') (hd : r d d') : r (o.getD d) (o'.getD d') := by
  cases h with
  | none => exact hd
  | some h => exact h

theorem rel_none_left_iff {α β : Type} {r : α → β → Prop} {o : Option β} :
    Option.Rel r none o ↔ o = none := by
  refine ⟨fun h => ?_, fun h => h ▸ .none⟩
  cases h
  rfl

theorem rel_some_left_iff {α β : Type} {r : α → β → Prop} {x : α} {o : Option β} :
    Option.Rel r (some x) o ↔ ∃ y, o = some y ∧ r x y := by
  constructor
  · rintro (h | _)
    exact ⟨_, rfl, h⟩
  · rintro ⟨y, rfl, h⟩
    exact .some h

theorem forall₂_textOf (ks : List Pubkey) : List.Forall₂ TextOf (ks.map textOf) ks :=
  List.forall₂_map_left_iff.mpr (List.forall₂_same.mpr fun k _ => textOf_spec k)

theorem armHashes_digestInput {live : PolicyAccount} {changes : PolicyChanges} {armed : Armed}
    (h : armHashes live changes = .ok armed) :
    armed.digestInput = armed.arg.getD live.protocolHashes := by
  unfold armHashes at h
  split at h
  · cases h
    rfl
  · simp only [seq_ok_iff, pure_ok_iff] at h
    obtain ⟨-, -, seeded, -, rfl⟩ := h
    rfl

variable {D : Type} [Host D] {v : AgentVault} {p : PolicyConfig D} {changes : PolicyChanges}
  {session : String} {x : QueuePolicyUpdateInput D} {u : PolicyUpdate D} {s : Pubkey}

theorem agents_represent (v : AgentVault) :
    List.Forall₂ AgentInput.Represents (decodeAgentVault v).agents v.agents :=
  List.forall₂_map_left_iff.mpr (List.forall₂_same.mpr fun a _ => ⟨textOf_spec a.pubkey, rfl⟩)

theorem effectiveFields_represents [WordHost D] {armed : Armed} {digest : D}
    (harmed : armHashes (decodePolicyConfig p) changes = .ok armed)
    (h : (queueInput changes armed session digest).Encodes u s) :
    (effectiveFields (decodePolicyConfig p) (decodeAgentVault v) changes armed
      (Host.digestBytes (Sigil.computeAgentSetHash v.agents : D))).Represents
      (previewFields v (p.merge u)) where
  dailySpendingCapUsd := rel_getD h.dailySpendingCapUsd rfl
  maxTransactionSizeUsd := rel_getD h.maxTransactionAmountUsd rfl
  maxSlippageBps := rel_getD h.maxSlippageBps rfl
  developerFeeRate := rel_getD h.developerFeeRate rfl
  protocolMode := rel_getD h.protocolMode rfl
  protocols := rel_getD h.protocols (forall₂_textOf _)
  destinationMode := rel_getD h.destinationMode rfl
  allowedDestinations := rel_getD h.allowedDestinations (forall₂_textOf _)
  timelockDuration := rel_getD h.timelockDuration rfl
  sessionExpirySeconds := rel_getD h.sessionExpirySeconds rfl
  observeOnly := rfl
  hasPostAssertions := rfl
  createdAtSlot := rfl
  operatingHours := rel_getD (o := none) h.operatingHours rfl
  autoPromoteGrays := rfl
  autoRevokeThreshold := rfl
  stableBalanceFloor := rel_getD h.stableBalanceFloor rfl
  perRecipientDailyCapUsd := rel_getD h.perRecipientDailyCapUsd rfl
  cosignRequired := congrArg (Option.getD · p.cosignRequired) h.cosignRequired
  agentSetHash := rfl
  cosignSessionPubkey := rel_getD h.cosignSessionPubkey (textOf_spec _)
  operatorGrantDelaySeconds := rel_getD h.operatorGrantDelaySeconds rfl
  hasProtocolCaps := congrArg (Option.getD · p.hasProtocolCaps) h.hasProtocolCaps
  protocolCaps := rel_getD (o := changes.protocolCaps) h.protocolCaps
    (List.forall₂_map_left_iff.mpr (List.forall₂_same.mpr fun _ _ => rfl))
  protocolHashes i _ := by
    have hhashes := (armHashes_digestInput harmed).trans
      (rel_getD (r := fun l t => l = (List.ofFn t).map Host.digestBytes) h.protocolHashes rfl)
    rw [← getD_map_digestBytes]
    exact congrArg (fun l => l[i]?.getD (List.replicate 32 0)) hhashes

theorem built_digest_eq [WordHost D]
    (h : buildPolicyUpdateIx D (decodePolicyConfig p) (decodeAgentVault v) changes session = .ok x)
    (hx : x.Encodes u s) : liveDigest v (p.merge u) = x.newPolicyPreviewDigest := by
  simp only [buildPolicyUpdateIx, seq_ok_iff, mapError_ok_iff, pure_ok_iff] at h
  obtain ⟨-, -, armed, harmed, -, -, hash, hhash, digest, hdigest, rfl⟩ := h
  rw [computeAgentSetHash_of_represents (agents_represent v)] at hhash
  cases hhash
  rw [computePolicyPreviewDigest_of_represents (effectiveFields_represents harmed hx)] at hdigest
  exact Except.ok.inj hdigest

theorem buildPolicyUpdateIx_eq [WordHost D] {armed : Armed}
    (hvalid : validateChanges changes = .ok ())
    (harmed : armHashes (decodePolicyConfig p) changes = .ok armed)
    (hcosigner : ¬ (armed.containsDisarm = true ∧ session = defaultCosignSession ∧
      p.cosignRequired = true))
    (h : ∀ digest, (queueInput changes armed session digest).Encodes u s) :
    buildPolicyUpdateIx D (decodePolicyConfig p) (decodeAgentVault v) changes session =
      .ok (queueInput changes armed session (liveDigest v (p.merge u))) := by
  have hdigest := computePolicyPreviewDigest_of_represents
    (effectiveFields_represents (v := v) harmed (h Host.zeroDigest))
  simp only [buildPolicyUpdateIx, seq_ok_iff, mapError_ok_iff, require_ok_iff, pure_ok_iff]
  exact ⟨(), hvalid, armed, harmed, (), hcosigner, _,
    computeAgentSetHash_of_represents (agents_represent v), _, hdigest, rfl⟩

theorem queuePolicyUpdate_spares_mismatch [DecidableEq D] {env : Env} {owner : Pubkey}
    {digest : D} {l : Ledger D}
    (h : ∀ a, l.live = some a → liveDigest a.vault (a.policy.merge u) = digest) :
    Spares (· = .sigil .policyPreviewMismatch) (queuePolicyUpdate env owner u s digest l) := by
  have hvalid (q : PolicyConfig D) : Spares (· = .sigil .policyPreviewMismatch)
      (validateUpdate l.vaultKey owner q u) := by
    simp only [validateUpdate, ensure, spares_seq_iff, spares_require_iff]
    simp
  have hbind (q : PolicyConfig D) : Spares (· = .sigil .policyPreviewMismatch)
      (bindPolicyCosigner owner q u s) := by
    simp [bindPolicyCosigner, ensure]
  simp +contextual [queuePolicyUpdate, Ledger.loadAsOwner, mustExist, mustBeNew,
    rejectCpi, ensure, ensureFits, someOr, hvalid, hbind, h]

end Digest

section Hashes

variable {protocols : List String} {t t' : Seeded} {map : List (String × HashChange)}
  {changes : PolicyChanges}

theorem applyHashChange_frame {c : String × HashChange} {i : ℕ}
    (h : applyHashChange protocols t c = .ok t') (hi : protocols[i]? ≠ some c.1) :
    t'.hashes[i]? = t.hashes[i]? := by
  simp only [applyHashChange, seq_ok_iff, okOr_ok_iff, List.findIdx?_eq_some_iff_getElem] at h
  obtain ⟨slot, ⟨hslot, hname, -⟩, old, -, h⟩ := h
  have hne : slot ≠ i := by
    rintro rfl
    exact hi (by rw [List.getElem?_eq_getElem hslot, eq_of_beq hname])
  split at h
  · obtain rfl := pure_ok_iff.mp h
    exact List.getElem?_set_ne hne
  · simp only [seq_ok_iff, pure_ok_iff] at h
    obtain ⟨-, -, rfl⟩ := h
    exact List.getElem?_set_ne hne

theorem applyHashChanges_frame {i : ℕ} (h : map.foldlM (applyHashChange protocols) t = .ok t')
    (hi : ∀ c ∈ map, protocols[i]? ≠ some c.1) : t'.hashes[i]? = t.hashes[i]? := by
  induction map generalizing t with
  | nil => rw [pure_ok_iff.mp h]
  | cons c map ih =>
    rw [List.foldlM_cons, seq_ok_iff] at h
    obtain ⟨middle, hfirst, hrest⟩ := h
    rw [ih hrest fun c hc => hi c (List.mem_cons_of_mem _ hc)]
    exact applyHashChange_frame hfirst (hi c List.mem_cons_self)

theorem armHashes_of_some {live : PolicyAccount} {armed : Armed}
    (h : armHashes live changes = .ok armed) (hmap : changes.protocolHashes = some map) :
    changes.approvedApps = none ∧ ∃ seeded,
      map.foldlM (applyHashChange live.protocols) ⟨live.protocolHashes.map copyHash, false⟩ =
        .ok seeded ∧ armed.arg = some seeded.hashes := by
  simp only [armHashes, hmap, seq_ok_iff, require_ok_iff, exists_and_left, exists_const,
    pure_ok_iff] at h
  obtain ⟨happs, seeded, hseeded, rfl⟩ := h
  rw [happs, Option.getD_none] at hseeded
  exact ⟨happs, seeded, hseeded, rfl⟩

variable {D : Type} [Host D] [WordHost D] {p : PolicyConfig D}

theorem copyHash_digestBytes (d : D) : copyHash (Host.digestBytes d) = Host.digestBytes d := by
  have hlength := WordHost.digestBytes_length d
  rw [copyHash, hlength, Nat.sub_self, List.replicate_zero, List.append_nil,
    List.take_of_length_le (Nat.le_of_eq hlength)]

theorem seeded_frame {seeded : Seeded} {table : Fin maxAllowedProtocols → D}
    (h : map.foldlM (applyHashChange (decodePolicyConfig p).protocols)
      ⟨(decodePolicyConfig p).protocolHashes.map copyHash, false⟩ = .ok seeded)
    (htable : seeded.hashes = (List.ofFn table).map Host.digestBytes)
    {i : Fin maxAllowedProtocols} {k : Pubkey} (hk : p.protocols[i.val]? = some k)
    (hfree : ∀ c ∈ map, ¬ TextOf c.1 k) : table i = p.protocolHashes i := by
  have hframe : seeded.hashes[i.val]? =
      ((decodePolicyConfig p).protocolHashes.map copyHash)[i.val]? := by
    refine applyHashChanges_frame h fun c hc hname => hfree c hc ?_
    rw [decodePolicyConfig, List.getElem?_map, hk] at hname
    exact Option.some.inj hname ▸ textOf_spec k
  rw [htable, decodePolicyConfig] at hframe
  simp only [List.getElem?_map, List.getElem?_ofFn, i.isLt, ↓reduceDIte, Option.map_some,
    copyHash_digestBytes, Option.some.injEq] at hframe
  exact WordHost.digestBytes_injective hframe

variable [DecidableEq D]

/-- An update that the builder returns carries the digest that the program recomputes, and of the
build hashes it changes only those of the protocols it names. -/
theorem built_update_matches {v : AgentVault} {p : PolicyConfig D} {session : String}
    {x : QueuePolicyUpdateInput D} {u : PolicyUpdate D} {s : Pubkey}
    (h : buildPolicyUpdateIx D (decodePolicyConfig p) (decodeAgentVault v) changes session = .ok x)
    (hx : x.Encodes u s) :
    liveDigest v (p.merge u) = x.newPolicyPreviewDigest ∧
    (∀ (env : Env) (owner : Pubkey) (l : Ledger D),
      (∃ a, l.live = some a ∧ a.vault = v ∧ a.policy = p) →
      queuePolicyUpdate env owner u s x.newPolicyPreviewDigest l ≠
        .error (.sigil .policyPreviewMismatch)) ∧
    ∀ map, changes.protocolHashes = some map → (p.merge u).protocols = p.protocols ∧
      ∀ (i : Fin maxAllowedProtocols) (k : Pubkey), p.protocols[i.val]? = some k →
        (∀ c ∈ map, ¬ TextOf c.1 k) → (p.merge u).protocolHashes i = p.protocolHashes i := by
  have hdigest := built_digest_eq h hx
  refine ⟨hdigest, fun env owner l ⟨a, hl, hvault, hpolicy⟩ herror => ?_, fun map hmap => ?_⟩
  · refine queuePolicyUpdate_spares_mismatch (fun b hb => ?_) _ herror rfl
    cases hl.symm.trans hb
    rw [hvault, hpolicy]
    exact hdigest
  · simp only [buildPolicyUpdateIx, seq_ok_iff, pure_ok_iff] at h
    obtain ⟨-, -, armed, harmed, -, -, -, -, digest, -, rfl⟩ := h
    obtain ⟨happs, seeded, hseeded, harg⟩ := armHashes_of_some harmed hmap
    have hprotocols : Option.Rel _ changes.approvedApps u.protocols := hx.protocols
    have hhashes : Option.Rel _ armed.arg u.protocolHashes := hx.protocolHashes
    rw [happs, rel_none_left_iff] at hprotocols
    rw [harg, rel_some_left_iff] at hhashes
    obtain ⟨table, hu, htable⟩ := hhashes
    refine ⟨by rw [PolicyConfig.merge, hprotocols, Option.getD_none], fun i k hk hfree => ?_⟩
    rw [PolicyConfig.merge, hu, Option.getD_some]
    exact seeded_frame hseeded htable hk hfree

end Hashes

section Sample

def samplePlan : InitializeVaultArgs Word where
  vaultId := 0
  dailySpendingCapUsd := 1000
  maxTransactionSizeUsd := 400
  protocolMode := 1
  protocols := [Pubkey.ofBytes [3], Pubkey.ofBytes [4]]
  developerFeeRate := 5
  maxSlippageBps := 50
  timelockDuration := 1800
  allowedDestinations := [Pubkey.ofBytes [5]]
  protocolCaps := []
  observeOnly := false
  operatingHours := 0xFFFFFF
  autoPromoteGrays := false
  autoRevokeThreshold := 5
  stableBalanceFloor := 0
  perRecipientDailyCapUsd := 0
  cosignRequired := false
  previewDigest := Host.zeroDigest

def sampleVault : AgentVault :=
  { samplePlan.newVault (Pubkey.ofBytes [1]) (Pubkey.ofBytes [2]) with
    agents := [sampleEntry 9 2, sampleEntry 8 1] }

def samplePolicy : PolicyConfig Word :=
  { samplePlan.newPolicy (Pubkey.ofBytes [7]) 5 with
    protocolHashes := fun i => if i = 1 then ⟨Pubkey.ofBytes [44]⟩ else Host.zeroDigest }

def sampleChanges : PolicyChanges where
  keys := 2
  dailyCap := some 500
  maxPerTrade := none
  approvedApps := none
  protocolMode := none
  hasProtocolCaps := none
  protocolCaps := none
  maxSlippageBps := none
  allowedDestinations := none
  developerFeeRate := none
  sessionExpirySeconds := none
  timelock := none
  destinationMode := none
  stableBalanceFloor := none
  perRecipientDailyCapUsd := none
  cosignRequired := none
  cosignSessionPubkey := none
  operatorGrantDelaySeconds := none
  protocolHashes := some [(textOf (Pubkey.ofBytes [3]), .pin (Pubkey.ofBytes [33]).bytes)]

def sampleQueued : PolicyUpdate Word :=
  { (PolicyUpdate.none : PolicyUpdate Word) with
    dailySpendingCapUsd := some 500
    protocolHashes := some fun i => if i = 0 then ⟨Pubkey.ofBytes [33]⟩ else
      samplePolicy.protocolHashes i }

def sampleArmed : Armed :=
  let table := (List.ofFn fun i : Fin maxAllowedProtocols => if i = 0 then
    (Pubkey.ofBytes [33]).bytes else Host.digestBytes (samplePolicy.protocolHashes i))
  ⟨some table, table, false⟩

theorem sampleArmed_arg : sampleArmed.arg = some ((List.ofFn fun i : Fin maxAllowedProtocols =>
    if i = 0 then (⟨Pubkey.ofBytes [33]⟩ : Word) else samplePolicy.protocolHashes i).map
      Host.digestBytes) := by
  decide +kernel

theorem encodes_sample (digest : Word) : (queueInput sampleChanges sampleArmed
    defaultCosignSession digest).Encodes sampleQueued Pubkey.default where
  dailySpendingCapUsd := .some rfl
  maxTransactionAmountUsd := .none
  protocolMode := .none
  protocols := .none
  developerFeeRate := .none
  maxSlippageBps := .none
  timelockDuration := .none
  allowedDestinations := .none
  sessionExpirySeconds := .none
  hasProtocolCaps := rfl
  protocolCaps := .none
  destinationMode := .none
  operatingHours := .none
  stableBalanceFloor := .none
  perRecipientDailyCapUsd := .none
  cosignRequired := rfl
  cosignSessionPubkey := .none
  operatorGrantDelaySeconds := .none
  protocolHashes := by
    rw [queueInput, sampleArmed_arg]
    exact .some rfl
  cosignSession := textOf_zeroKeyText

theorem built_sample : buildPolicyUpdateIx Word (decodePolicyConfig samplePolicy)
    (decodeAgentVault sampleVault) sampleChanges defaultCosignSession =
      .ok (queueInput sampleChanges sampleArmed defaultCosignSession
        (liveDigest sampleVault (samplePolicy.merge sampleQueued))) :=
  buildPolicyUpdateIx_eq (by decide) (by decide +kernel) (by decide) encodes_sample

/-- The pin of the first protocol leaves that of the second in place. -/
theorem built_update_matches_sample :
    (∃ x, buildPolicyUpdateIx Word (decodePolicyConfig samplePolicy) (decodeAgentVault sampleVault)
      sampleChanges defaultCosignSession = .ok x ∧
      liveDigest sampleVault (samplePolicy.merge sampleQueued) = x.newPolicyPreviewDigest) ∧
    (samplePolicy.merge sampleQueued).protocolHashes 1 = ⟨Pubkey.ofBytes [44]⟩ := by
  obtain ⟨hdigest, -, hhashes⟩ := built_update_matches built_sample (encodes_sample _)
  refine ⟨⟨_, built_sample, hdigest⟩, ?_⟩
  refine ((hhashes _ rfl).2 1 (Pubkey.ofBytes [4]) rfl ?_).trans rfl
  rintro c hc htext
  obtain rfl := List.mem_singleton.mp hc
  have hkey := (textOf_spec (Pubkey.ofBytes [3])).symm.trans htext
  exact absurd (Except.ok.inj hkey) (by decide)

end Sample

end Sigil.Client
