import Mathlib.Order.WithBot
import Sigil.Digest.PolicyDigest
import Sigil.Instructions.Elevation

/-! # Strength of guards

`NoWeaker` compares two policies guard by guard. An update that the elevation check lets
through without the cosigner merges into a policy that is no weaker than the live one.
-/

namespace Sigil

/-- A cap as a bound: zero means unlimited. -/
def capBound (c : UInt64) : WithTop ℕ := if c = 0 then ⊤ else (c.toNat : WithTop ℕ)

namespace PolicyConfig

variable {D : Type} {p : PolicyConfig D} {u : PolicyUpdate D}

theorem protocolIndex_mem_zipIdx {q : Pubkey} {i : ℕ} (h : p.protocolIndex q = some i) :
    (q, i) ∈ p.protocols.zipIdx := by
  obtain ⟨hlt, hq, -⟩ := List.findIdx?_eq_some_iff_getElem.mp h
  rw [List.mem_zipIdx_iff_getElem?, List.getElem?_eq_getElem hlt]
  exact congrArg some (of_decide_eq_true hq)

theorem exists_protocolIndex {q : Pubkey} (h : q ∈ p.protocols) :
    ∃ i, p.protocolIndex q = some i := by
  refine Option.isSome_iff_exists.mp ?_
  rw [protocolIndex, List.findIdx?_isSome]
  exact List.any_eq_true.mpr ⟨q, h, decide_eq_true rfl⟩

/-- The bound on a protocol's daily spend; without a cap there is none. -/
def protocolBound (p : PolicyConfig D) (protocol : Pubkey) : WithTop ℕ :=
  match p.getProtocolCap protocol with
  | some c => capBound c
  | none => ⊤

theorem capBound_le_of_not_weakensCap {new live : UInt64} (h : weakensCap new live = false) :
    capBound new ≤ capBound live := by
  unfold capBound
  by_cases hl : live = 0
  · rw [if_pos hl]
    exact le_top
  · by_cases hn : new = 0
    · simp [weakensCap, hl, hn] at h
    · rw [if_neg hl, if_neg hn]
      simp only [weakensCap, hl, hn, if_false, decide_eq_false_iff_not, UInt64.not_lt] at h
      exact_mod_cast UInt64.le_iff_toNat_le.mp h

theorem mem_of_not_expandsList {new live : List Pubkey} (h : expandsList new live = false) :
    ∀ k ∈ new, k ∈ live := by
  have hsub : new.length ≤ live.length ∧ ∀ k ∈ new, k ∈ live := by
    simpa [expandsList] using h
  exact hsub.2

/-- When the trigger of an optional field does not fire, the merged value has what the trigger
watches over. -/
theorem getD_of_any_eq_false {α : Type} {o : Option α} {trigger : α → Bool} {d : α}
    {R : α → Prop} (h : o.any trigger = false) (hv : ∀ v, trigger v = false → R v) (hd : R d) :
    R (o.getD d) := by
  cases o with
  | none => exact hd
  | some v => exact hv v (by simpa using h)

theorem protocolBound_merge_le (hcaps : p.weakensProtocolCaps u = false)
    (hid : p.weakensProtocolCapsByIdentity u = false) {q : Pubkey}
    (hnew : q ∈ (p.merge u).protocols) (hlive : q ∈ p.protocols) :
    (p.merge u).protocolBound q ≤ p.protocolBound q := by
  obtain ⟨j, hj⟩ := exists_protocolIndex hnew
  obtain ⟨i, hi⟩ := exists_protocolIndex hlive
  cases hon : p.hasProtocolCaps with
  | false => simp [protocolBound, getProtocolCap, hon]
  | true =>
    have hon' : (p.merge u).hasProtocolCaps = true := by
      simp only [weakensProtocolCaps, Bool.or_eq_false_iff] at hcaps
      exact getD_of_any_eq_false (R := fun b => b = true) hcaps.1 (by simp) hon
    simp only [weakensProtocolCapsByIdentity, hon', Bool.true_and, List.any_eq_false] at hid
    have hq := hid (q, i) (protocolIndex_mem_zipIdx hi)
    simp only [hj, protocolBound, getProtocolCap, hon, hon', hi, if_true, Option.map_some] at hq ⊢
    refine capBound_le_of_not_weakensCap ?_
    by_cases hzero : p.capAt i = 0
    · simp [weakensCap, hzero]
    · simp only [if_neg hzero, decide_eq_true_eq, not_or] at hq
      simp [weakensCap, hzero, hq.1, hq.2]

variable [Host D]

/-- The build hash the runtime finds for a protocol: the one at its first position. -/
def buildHash (p : PolicyConfig D) (protocol : Pubkey) : D :=
  match p.protocolIndex protocol with
  | some i => p.hashAt i
  | none => Host.zeroDigest

/-- The policy `new` is at least as strict as `live` on every guard. -/
structure NoWeaker (new live : PolicyConfig D) : Prop where
  dailyCap : new.dailySpendingCapUsd ≤ live.dailySpendingCapUsd
  maxTransaction : new.maxTransactionSizeUsd ≤ live.maxTransactionSizeUsd
  destinations : ∀ d ∈ new.allowedDestinations, d ∈ live.allowedDestinations
  protocols : ∀ q ∈ new.protocols, q ∈ live.protocols
  floor : live.stableBalanceFloor ≤ new.stableBalanceFloor
  slippage : new.maxSlippageBps ≤ live.maxSlippageBps
  developerFee : new.developerFeeRate ≤ live.developerFeeRate
  operatingHours : new.operatingHours &&& ~~~live.operatingHours = 0
  perRecipient :
    capBound new.perRecipientDailyCapUsd ≤ capBound live.perRecipientDailyCapUsd
  protocolCaps : ∀ q ∈ new.protocols, new.protocolBound q ≤ live.protocolBound q
  buildHashes : ∀ q ∈ new.protocols, live.buildHash q ≠ Host.zeroDigest →
    new.buildHash q ≠ Host.zeroDigest
  cosignRequired : live.cosignRequired → new.cosignRequired
  cosigner : new.cosignSessionPubkey = live.cosignSessionPubkey

theorem NoWeaker.refl (p : PolicyConfig D) : NoWeaker p p :=
  ⟨UInt64.le_refl _, UInt64.le_refl _, fun _ h => h, fun _ h => h, UInt64.le_refl _,
    UInt16.le_refl _, UInt16.le_refl _, UInt32.and_not_self, le_rfl, fun _ _ => le_rfl,
    fun _ _ h => h, id, rfl⟩

variable [DecidableEq D]

theorem buildHash_merge_ne (hid : p.disarmsBuildHashByIdentity u = false) {q : Pubkey}
    (hnew : q ∈ (p.merge u).protocols) (hlive : q ∈ p.protocols)
    (harmed : p.buildHash q ≠ Host.zeroDigest) :
    (p.merge u).buildHash q ≠ Host.zeroDigest := by
  obtain ⟨j, hj⟩ := exists_protocolIndex hnew
  obtain ⟨i, hi⟩ := exists_protocolIndex hlive
  simp only [disarmsBuildHashByIdentity, List.any_eq_false] at hid
  have hq := hid (q, i) (protocolIndex_mem_zipIdx hi)
  simp only [buildHash, hi, hj] at harmed hq ⊢
  simpa [harmed] using hq

theorem noWeaker_merge (hreq : p.cosignRequired = true) (hne : p.isElevated u = false) :
    NoWeaker (p.merge u) p := by
  simp only [isElevated, weakens, hreq, Bool.true_and, Bool.or_eq_false_iff] at hne
  obtain ⟨⟨⟨⟨⟨⟨⟨⟨⟨⟨⟨⟨⟨⟨⟨hdaily, hmax⟩, hdest⟩, hproto⟩, hfloor⟩, hrec⟩, hcaps⟩, hcapsId⟩,
    hslip⟩, hfee⟩, hhours⟩, -⟩, hhashId⟩, -⟩, hdisable⟩, hrotate⟩ := hne
  have hprotocols : ∀ q ∈ (p.merge u).protocols, q ∈ p.protocols :=
    getD_of_any_eq_false (R := fun new => ∀ q ∈ new, q ∈ p.protocols) hproto
      (fun _ => mem_of_not_expandsList) fun _ hq => hq
  constructor
  · exact getD_of_any_eq_false (R := (· ≤ p.dailySpendingCapUsd)) hdaily
      (fun v hv => UInt64.not_lt.mp (of_decide_eq_false hv)) (UInt64.le_refl _)
  · exact getD_of_any_eq_false (R := (· ≤ p.maxTransactionSizeUsd)) hmax
      (fun v hv => UInt64.not_lt.mp (of_decide_eq_false hv)) (UInt64.le_refl _)
  · exact getD_of_any_eq_false (R := fun new => ∀ d ∈ new, d ∈ p.allowedDestinations) hdest
      (fun _ => mem_of_not_expandsList) fun _ hd => hd
  · exact hprotocols
  · exact getD_of_any_eq_false (R := (p.stableBalanceFloor ≤ ·)) hfloor
      (fun v hv => UInt64.not_lt.mp (of_decide_eq_false hv)) (UInt64.le_refl _)
  · exact getD_of_any_eq_false (R := (· ≤ p.maxSlippageBps)) hslip
      (fun v hv => UInt16.not_lt.mp (of_decide_eq_false hv)) (UInt16.le_refl _)
  · exact getD_of_any_eq_false (R := (· ≤ p.developerFeeRate)) hfee
      (fun v hv => UInt16.not_lt.mp (of_decide_eq_false hv)) (UInt16.le_refl _)
  · exact getD_of_any_eq_false (R := fun new => new &&& ~~~p.operatingHours = 0) hhours
      (fun v hv => by simpa using hv) UInt32.and_not_self
  · exact getD_of_any_eq_false (R := fun c => capBound c ≤ capBound p.perRecipientDailyCapUsd)
      hrec (fun _ => capBound_le_of_not_weakensCap) le_rfl
  · exact fun q hq => protocolBound_merge_le hcaps hcapsId hq (hprotocols q hq)
  · exact fun q hq => buildHash_merge_ne hhashId hq (hprotocols q hq)
  · exact fun _ => getD_of_any_eq_false (R := fun b => b = true) hdisable (by simp [hreq]) hreq
  · exact getD_of_any_eq_false (R := fun k => k = p.cosignSessionPubkey) hrotate
      (by simp [hreq]) rfl

/-- Soundness of the elevation check: an update that it lets through on a policy that requires
cosigning leaves no guard weaker, and allows nothing the live policy did not allow. -/
theorem not_elevated_no_weaker (p : PolicyConfig D) (u : PolicyUpdate D)
    (hreq : p.cosignRequired = true) (hne : p.isElevated u = false) :
    NoWeaker (p.merge u) p ∧ (p.merge u).cosignRequired = true ∧
      (p.protocolMode = protocolModeAllowlist →
        ∀ q, (p.merge u).isProtocolAllowed q → p.isProtocolAllowed q) ∧
      (p.destinationMode = destinationModeRestricted →
        ∀ d, (p.merge u).isDestinationAllowed d → p.isDestinationAllowed d) := by
  have hw := noWeaker_merge hreq hne
  refine ⟨hw, hw.cosignRequired hreq, fun hmode q hq => ?_, fun hmode d hd => ?_⟩
  · simp only [isProtocolAllowed, decide_eq_true_eq] at hq ⊢
    exact ⟨hmode, hw.protocols q hq.2⟩
  · simp only [isDestinationAllowed, decide_eq_true_eq] at hd ⊢
    exact ⟨hmode, hw.destinations d hd.2⟩

/-- A policy with a cosigner, one protocol with a cap and one destination. -/
def cosignedPolicy : PolicyConfig Preimage where
  vault := Pubkey.ofBytes [1]
  dailySpendingCapUsd := 1000
  maxTransactionSizeUsd := 100
  protocolMode := 1
  protocols := [Pubkey.ofBytes [2]]
  developerFeeRate := 0
  maxSlippageBps := 50
  timelockDuration := 1800
  allowedDestinations := [Pubkey.ofBytes [3]]
  hasPendingPolicy := false
  hasProtocolCaps := true
  protocolCaps := [500]
  sessionExpirySeconds := 0
  policyVersion := 0
  hasPostAssertions := 0
  destinationMode := 0
  policyPreviewDigest := ⟨[]⟩
  createdAtSlot := 0
  operatingHours := 0x00FFFFFF
  destinationGraylist := []
  autoPromoteGrays := false
  autoRevokeThreshold := 5
  stableBalanceFloor := 0
  perRecipientDailyCapUsd := 0
  cosignRequired := true
  cosignSessionPubkey := Pubkey.ofBytes [4]
  operatorGrantDelaySeconds := 0
  protocolHashes := fun _ => ⟨[]⟩

theorem not_elevated_lower_cap :
    cosignedPolicy.cosignRequired = true ∧
      cosignedPolicy.isElevated { PolicyUpdate.none with dailySpendingCapUsd := some 900 } =
        false ∧
      NoWeaker (cosignedPolicy.merge { PolicyUpdate.none with dailySpendingCapUsd := some 900 })
        cosignedPolicy :=
  have hne : cosignedPolicy.isElevated
      { PolicyUpdate.none with dailySpendingCapUsd := some 900 } = false := by decide
  ⟨rfl, hne, (not_elevated_no_weaker cosignedPolicy _ rfl hne).1⟩

end PolicyConfig

end Sigil
