import Sigil.Cosign.PendingUpdate

/-! # What the digests determine

With an ideal host the preview digest determines the fields of a policy, the hash of the agents
determines who may do what, and the cosigner's digest determines the nine arguments it is made
from. Five more arguments can make an update elevated, and that digest does not see them.
-/

namespace Sigil

open Guard Trace SelfDelimiting

section Preview

variable {D : Type} [Host D]

/-- The lengths of the lists are words of four bytes. -/
def PolicyPreviewFields.Counts (f : PolicyPreviewFields D) : Prop :=
  f.protocols.length < 2 ^ 32 ∧ f.allowedDestinations.length < 2 ^ 32 ∧
    f.protocolCaps.length < 2 ^ 32

/-- The same fields, where of the build hashes only those of listed protocols count, and a hash
past the end of the list is zero. -/
def PolicyPreviewFields.Same (f g : PolicyPreviewFields D) : Prop :=
  { f with protocolHashes := g.protocolHashes } = g ∧
    ∀ i < f.protocols.length,
      f.protocolHashes.getD i Host.zeroDigest = g.protocolHashes.getD i Host.zeroDigest

theorem computePolicyPreviewDigest_eq_iff [IdealHost D] {f g : PolicyPreviewFields D}
    (hf : f.Counts) (hg : g.Counts) :
    computePolicyPreviewDigest f = computePolicyPreviewDigest g ↔ f.Same g := by
  constructor
  · intro h
    obtain ⟨hfields, hhashes⟩ := computePolicyPreviewDigest_inj hf hg h
    refine ⟨hfields, fun i hi => ?_⟩
    have hlength : f.protocols.length = g.protocols.length := by rw [← hfields]
    have hat := congrArg (fun l : List D => l[i]?) hhashes
    simpa [PolicyPreviewFields.boundHashes, List.getElem?_range, hi, hlength ▸ hi] using hat
  · rintro ⟨hfields, hhashes⟩
    have hbound : f.boundHashes = g.boundHashes := by
      rw [← hfields]
      refine List.map_congr_left fun i hi => ?_
      exact hhashes i (List.mem_range.mp hi)
    have hbytes : f.bytes = g.bytes := by
      unfold PolicyPreviewFields.bytes
      rw [hbound, ← hfields]
    rw [computePolicyPreviewDigest, hbytes]
    rfl

end Preview

section Agents

instance : Std.Total keyLe := by
  constructor
  intro a b
  simp only [keyLe, List.not_lt]
  exact Std.Total.total _ _

instance : IsTrans (Pubkey × UInt8) keyLe := by
  constructor
  intro a b c hab hbc
  simp only [keyLe, List.not_lt] at hab hbc ⊢
  exact List.le_trans hab hbc

theorem eq_of_keyLe {a b : Pubkey × UInt8} (hab : keyLe a b) (hba : keyLe b a) : a.1 = b.1 := by
  simp only [keyLe, List.not_lt] at hab hba
  exact Pubkey.bytes_injective (List.le_antisymm hab hba)

theorem delimits_agent : Delimits fun a : Pubkey × UInt8 => a.1.bytes ++ [a.2] := by
  intro a b x y h
  simp only [List.append_assoc] at h
  obtain ⟨hkey, h⟩ := delimits_pubkey h
  obtain ⟨hcapability, hrest⟩ := delimits_u8 h
  exact ⟨Prod.ext hkey hcapability, hrest⟩

theorem computeAgentSetHash_eq_iff {D : Type} [Host D] [IdealHost D]
    {agents agents' : List AgentEntry} (hlen : agents.length < 2 ^ 32)
    (hlen' : agents'.length < 2 ^ 32)
    (hkeys : (agents.map AgentEntry.pubkey).Nodup)
    (hkeys' : (agents'.map AgentEntry.pubkey).Nodup) :
    (computeAgentSetHash agents : D) = computeAgentSetHash agents' ↔
      ∀ a : Pubkey × UInt8, a ∈ agents.map (fun e => (e.pubkey, e.capability)) ↔
        a ∈ agents'.map (fun e => (e.pubkey, e.capability)) := by
  rw [← insertionSort_eq_iff (fun a b => @eq_of_keyLe a b) (by rwa [List.map_map])
    (by rwa [List.map_map])]
  unfold computeAgentSetHash agentSetBytes
  constructor
  · intro h
    have hbytes := congrArg (· ++ []) (IdealHost.sha256_injective h)
    exact (counted_append_inj delimits_agent (by simpa using hlen) (by simpa using hlen') hbytes).1
  · intro h
    rw [h]

end Agents

section Determined

/-- The preview digest determines the 25 fields it is made from, and the hash of the agents who
holds which capability, in whatever order they are stored. -/
theorem digests_determine {D : Type} [Host D] [IdealHost D] :
    (∀ f g : PolicyPreviewFields D, f.Counts → g.Counts →
      (computePolicyPreviewDigest f = computePolicyPreviewDigest g ↔ f.Same g)) ∧
    ∀ agents agents' : List AgentEntry, agents.length < 2 ^ 32 → agents'.length < 2 ^ 32 →
      (agents.map AgentEntry.pubkey).Nodup → (agents'.map AgentEntry.pubkey).Nodup →
      ((computeAgentSetHash agents : D) = computeAgentSetHash agents' ↔
        ∀ a : Pubkey × UInt8, a ∈ agents.map (fun e => (e.pubkey, e.capability)) ↔
          a ∈ agents'.map (fun e => (e.pubkey, e.capability))) :=
  ⟨fun _ _ => computePolicyPreviewDigest_eq_iff, fun _ _ => computeAgentSetHash_eq_iff⟩

def sampleFields (hashes : List Preimage) : PolicyPreviewFields Preimage :=
  { previewFields (sampleArgs.newVault (sampleKey 1) (sampleKey 4))
      (sampleArgs.newPolicy emptyLedger.vaultKey 7) with
    protocolHashes := hashes }

/-- Two agents in either order have one hash, and a build hash of the one listed protocol cannot
change without the digest. -/
theorem digests_determine_sample :
    (computeAgentSetHash [⟨sampleKey 5, 2, 100, false, 0⟩, ⟨sampleKey 6, 1, 0, true, 3⟩] :
        Preimage) =
      computeAgentSetHash [⟨sampleKey 6, 1, 50, false, 0⟩, ⟨sampleKey 5, 2, 0, false, 0⟩] ∧
    computePolicyPreviewDigest (sampleFields [⟨[1]⟩]) ≠
      computePolicyPreviewDigest (sampleFields [⟨[2]⟩]) := by
  obtain ⟨hfields, hagents⟩ := digests_determine (D := Preimage)
  constructor
  · refine (hagents _ _ (by decide) (by decide) (by decide) (by decide)).mpr fun a => ?_
    simp [or_comm]
  · intro h
    have hcounts : (sampleFields []).Counts := by
      unfold PolicyPreviewFields.Counts
      decide
    have hsame := (hfields (sampleFields [⟨[1]⟩]) (sampleFields [⟨[2]⟩]) hcounts hcounts).mp h
    exact absurd (hsame.2 0 (by decide)) (by decide)

/-- A list of build hashes that ends early has the digest of one that goes on with zero. -/
theorem short_hashes_read_as_zero :
    (sampleFields []).Counts ∧ (sampleFields [Host.zeroDigest]).Counts ∧
      computePolicyPreviewDigest (sampleFields []) =
        computePolicyPreviewDigest (sampleFields [Host.zeroDigest]) ∧
      (sampleFields []).protocolHashes.take (sampleFields []).protocols.length ≠
        (sampleFields [Host.zeroDigest]).protocolHashes.take
          (sampleFields []).protocols.length := by
  unfold PolicyPreviewFields.Counts
  decide +kernel

end Determined

section Cosign

variable {D : Type} {u v : PolicyUpdate D}

/-- The lengths of the lists are words of four bytes. -/
structure PolicyUpdate.Counts (u : PolicyUpdate D) : Prop where
  allowedDestinations : ∀ l ∈ u.allowedDestinations, l.length < 2 ^ 32
  protocols : ∀ l ∈ u.protocols, l.length < 2 ^ 32
  protocolCaps : ∀ l ∈ u.protocolCaps, l.length < 2 ^ 32

/-- Two updates with the same of the arguments that the cosigner's digest is made from. -/
structure PolicyUpdate.SameCosigned (u v : PolicyUpdate D) : Prop where
  dailySpendingCapUsd : u.dailySpendingCapUsd = v.dailySpendingCapUsd
  maxTransactionAmountUsd : u.maxTransactionAmountUsd = v.maxTransactionAmountUsd
  allowedDestinations : u.allowedDestinations = v.allowedDestinations
  protocols : u.protocols = v.protocols
  stableBalanceFloor : u.stableBalanceFloor = v.stableBalanceFloor
  perRecipientDailyCapUsd : u.perRecipientDailyCapUsd = v.perRecipientDailyCapUsd
  hasProtocolCaps : u.hasProtocolCaps = v.hasProtocolCaps
  protocolCaps : u.protocolCaps = v.protocolCaps
  cosignRequired : u.cosignRequired = v.cosignRequired

/-- Two updates with the same of the arguments that can make an update elevated and that the
cosigner's digest leaves out. -/
structure PolicyUpdate.SameUnbound (u v : PolicyUpdate D) : Prop where
  maxSlippageBps : u.maxSlippageBps = v.maxSlippageBps
  developerFeeRate : u.developerFeeRate = v.developerFeeRate
  operatingHours : u.operatingHours = v.operatingHours
  protocolHashes : u.protocolHashes = v.protocolHashes
  cosignSessionPubkey : u.cosignSessionPubkey = v.cosignSessionPubkey

/-- Two updates with the same of all arguments that can make an update elevated. -/
structure PolicyUpdate.SameElevating (u v : PolicyUpdate D) : Prop extends
  u.SameCosigned v, u.SameUnbound v

theorem PolicyUpdate.SameElevating.isElevated [Host D] [DecidableEq D] (h : u.SameElevating v)
    (p : PolicyConfig D) : p.isElevated u = p.isElevated v := by
  obtain ⟨⟨h₁, h₂, h₃, h₄, h₅, h₆, h₇, h₈, h₉⟩, ⟨h₁₀, h₁₁, h₁₂, h₁₃, h₁₄⟩⟩ := h
  have hu : u = { v with
      protocolMode := u.protocolMode
      timelockDuration := u.timelockDuration
      sessionExpirySeconds := u.sessionExpirySeconds
      destinationMode := u.destinationMode
      operatorGrantDelaySeconds := u.operatorGrantDelaySeconds } := by
    cases u
    simp_all only
  rw [hu]
  rfl

theorem computeCosignDigest_eq_iff [Host D] [IdealHost D] (session : Pubkey) (hu : u.Counts)
    (hv : v.Counts) :
    computeCosignDigest session u = computeCosignDigest session v ↔ u.SameCosigned v := by
  constructor
  · intro h
    have hbytes := congrArg (· ++ []) (IdealHost.sha256_injective h)
    simp only [PolicyUpdate.cosignBytes, List.append_assoc] at hbytes
    obtain ⟨-, hbytes⟩ := delimits_pubkey hbytes
    obtain ⟨h₁, hbytes⟩ := delimits_u64.optional hbytes
    obtain ⟨h₂, hbytes⟩ := delimits_u64.optional hbytes
    obtain ⟨h₃, hbytes⟩ := optional_counted_append_inj delimits_pubkey hu.allowedDestinations
      hv.allowedDestinations hbytes
    obtain ⟨h₄, hbytes⟩ := optional_counted_append_inj delimits_pubkey hu.protocols hv.protocols
      hbytes
    obtain ⟨h₅, hbytes⟩ := delimits_u64.optional hbytes
    obtain ⟨h₆, hbytes⟩ := delimits_u64.optional hbytes
    obtain ⟨h₇, hbytes⟩ := delimits_bool.optional hbytes
    obtain ⟨h₈, hbytes⟩ := optional_counted_append_inj delimits_u64 hu.protocolCaps
      hv.protocolCaps hbytes
    obtain ⟨h₉, -⟩ := delimits_bool.optional hbytes
    exact ⟨h₁, h₂, h₃, h₄, h₅, h₆, h₇, h₈, h₉⟩
  · rintro ⟨h₁, h₂, h₃, h₄, h₅, h₆, h₇, h₈, h₉⟩
    simp only [computeCosignDigest, PolicyUpdate.cosignBytes, h₁, h₂, h₃, h₄, h₅, h₆, h₇, h₈, h₉]

/-- The digest that the cosigner of an update is bound to determines nine of the arguments that can
make an update elevated. It determines all of them, for two updates, exactly if the updates agree on
the five others or differ in one of the nine. -/
theorem cosign_digest_covers_iff [Host D] [DecidableEq D] [IdealHost D] (session : Pubkey)
    (hu : u.Counts) (hv : v.Counts) :
    (computeCosignDigest session u = computeCosignDigest session v ↔ u.SameCosigned v) ∧
    ((computeCosignDigest session u = computeCosignDigest session v → u.SameElevating v) ↔
      u.SameUnbound v ∨ ¬ u.SameCosigned v) ∧
    (u.SameElevating v → ∀ p : PolicyConfig D, p.isElevated u = p.isElevated v) := by
  have hdigest := computeCosignDigest_eq_iff session hu hv
  refine ⟨hdigest, ⟨?_, ?_⟩, fun hsame => hsame.isElevated⟩
  · intro hcovers
    by_cases hsame : u.SameCosigned v
    · exact .inl (hcovers (hdigest.mpr hsame)).toSameUnbound
    · exact .inr hsame
  · rintro (hunbound | hdiffer) h
    · exact { hdigest.mp h, hunbound with }
    · exact absurd (hdigest.mp h) hdiffer

end Cosign

section Sample

/-- The sample cap raise with a longer timelock, which the digest leaves out. -/
def raiseCapSlowly : PolicyUpdate Preimage :=
  { raiseCap 2000 with timelockDuration := some 3600 }

/-- The two raises have one digest and agree on all that can make them elevated. -/
theorem cosign_digest_covers_iff_raiseCap :
    computeCosignDigest (sampleKey 5) (raiseCap 2000) =
        computeCosignDigest (sampleKey 5) raiseCapSlowly ∧
      (raiseCap 2000).SameElevating raiseCapSlowly ∧
      ∀ p : PolicyConfig Preimage, p.isElevated (raiseCap 2000) = p.isElevated raiseCapSlowly := by
  have hcounts : (raiseCap 2000).Counts ∧ raiseCapSlowly.Counts :=
    ⟨⟨nofun, nofun, nofun⟩, ⟨nofun, nofun, nofun⟩⟩
  obtain ⟨hdigest, hcovers, helevated⟩ :=
    cosign_digest_covers_iff (sampleKey 5) hcounts.1 hcounts.2
  have hequal := hdigest.mpr ⟨rfl, rfl, rfl, rfl, rfl, rfl, rfl, rfl, rfl⟩
  have hsame := hcovers.mpr (.inl ⟨rfl, rfl, rfl, rfl, rfl⟩) hequal
  exact ⟨hequal, hsame, helevated hsame⟩

def raiseSlippage : PolicyUpdate Preimage :=
  { PolicyUpdate.none with maxSlippageBps := some 100 }

def rotateCosigner : PolicyUpdate Preimage :=
  { PolicyUpdate.none with cosignSessionPubkey := some (sampleKey 8) }

/-- On a vault with a cosigner two updates are elevated and accepted, one for more slippage and one
for another cosigner, and the cosigner is bound to the same digest by both. -/
theorem cosign_digest_misses :
    (∃ as, Run Step emptyLedger as cosignedLedger) ∧
      (∀ u ∈ [raiseSlippage, rotateCosigner],
        cosignedLedger.live.any (fun a => a.policy.isElevated u) = true ∧
        (exec (sampleEnv 3000 110) cosignedLedger
          (sampleQueue cosignedLedger u (sampleKey 5))).isOk = true) ∧
      computeCosignDigest (sampleKey 5) raiseSlippage =
        computeCosignDigest (sampleKey 5) rotateCosigner ∧
      raiseSlippage.maxSlippageBps ≠ rotateCosigner.maxSlippageBps ∧
      raiseSlippage.cosignSessionPubkey ≠ rotateCosigner.cosignSessionPubkey := by
  have hreach : ∃ as, Run Step emptyLedger as cosignedLedger :=
    ⟨_, ((Run.single step_sampleInitialize).snoc step_enablingLedger).snoc step_cosignedLedger⟩
  exact ⟨hreach, by decide +kernel, rfl, by decide, by decide⟩

end Sample

end Sigil
