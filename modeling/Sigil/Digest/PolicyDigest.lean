import Mathlib.Data.List.Sort
import Sigil.Library.SelfDelimiting
import Sigil.State.Policy
import Sigil.State.Vault

/-! # Policy preview digest

The canonical encoding of the 25 fields an owner signs off on, and its digest. With an ideal
host the digest determines the fields.
-/

namespace Sigil

open SelfDelimiting

/-- The 25 digest-bound fields, in the order they are encoded. -/
structure PolicyPreviewFields (D : Type) where
  dailySpendingCapUsd : UInt64
  maxTransactionSizeUsd : UInt64
  maxSlippageBps : UInt16
  developerFeeRate : UInt16
  protocolMode : UInt8
  protocols : List Pubkey
  destinationMode : UInt8
  allowedDestinations : List Pubkey
  timelockDuration : UInt64
  sessionExpirySeconds : UInt64
  observeOnly : Bool
  hasPostAssertions : UInt8
  createdAtSlot : UInt64
  operatingHours : UInt32
  autoPromoteGrays : Bool
  autoRevokeThreshold : UInt8
  stableBalanceFloor : UInt64
  perRecipientDailyCapUsd : UInt64
  cosignRequired : Bool
  agentSetHash : D
  cosignSessionPubkey : Pubkey
  operatorGrantDelaySeconds : UInt64
  hasProtocolCaps : Bool
  protocolCaps : List UInt64
  protocolHashes : List D

section Encoding

variable {D : Type} [Host D]

/-- The build hashes of the listed protocols, the zero digest past the end of the list. -/
def PolicyPreviewFields.boundHashes (f : PolicyPreviewFields D) : List D :=
  (List.range f.protocols.length).map fun i => f.protocolHashes.getD i Host.zeroDigest

theorem PolicyPreviewFields.boundHashes_length (f : PolicyPreviewFields D) :
    f.boundHashes.length = f.protocols.length := by
  simp [boundHashes]

def PolicyPreviewFields.bytes (f : PolicyPreviewFields D) : List UInt8 :=
  leBytes 8 f.dailySpendingCapUsd.toNat ++ (leBytes 8 f.maxTransactionSizeUsd.toNat ++
  (leBytes 2 f.maxSlippageBps.toNat ++ (leBytes 2 f.developerFeeRate.toNat ++
  ([f.protocolMode] ++ (counted Pubkey.bytes f.protocols ++
  ([f.destinationMode] ++ (counted Pubkey.bytes f.allowedDestinations ++
  (leBytes 8 f.timelockDuration.toNat ++ (leBytes 8 f.sessionExpirySeconds.toNat ++
  ([boolByte f.observeOnly] ++ ([f.hasPostAssertions] ++
  (leBytes 8 f.createdAtSlot.toNat ++ (leBytes 4 f.operatingHours.toNat ++
  ([boolByte f.autoPromoteGrays] ++ ([f.autoRevokeThreshold] ++
  (leBytes 8 f.stableBalanceFloor.toNat ++ (leBytes 8 f.perRecipientDailyCapUsd.toNat ++
  ([boolByte f.cosignRequired] ++ (Host.digestBytes f.agentSetHash ++
  (f.cosignSessionPubkey.bytes ++ (leBytes 8 f.operatorGrantDelaySeconds.toNat ++
  ([boolByte f.hasProtocolCaps] ++ (counted (fun c => leBytes 8 c.toNat) f.protocolCaps ++
  counted Host.digestBytes f.boundHashes)))))))))))))))))))))))

def computePolicyPreviewDigest (f : PolicyPreviewFields D) : D := Host.sha256 f.bytes

/-- Keys are compared byte by byte. -/
def keyLe (a b : Pubkey × UInt8) : Prop := ¬ b.1.bytes < a.1.bytes

instance : DecidableRel keyLe := fun _ _ => inferInstanceAs (Decidable (¬ _))

/-- The agents' keys and capabilities, sorted by key. -/
def agentSetBytes (agents : List AgentEntry) : List UInt8 :=
  counted (fun a => a.1.bytes ++ [a.2])
    ((agents.map fun a => (a.pubkey, a.capability)).insertionSort keyLe)

def computeAgentSetHash (agents : List AgentEntry) : D :=
  Host.sha256 (agentSetBytes agents)

/-- The digest-bound fields of a vault and a policy. -/
def previewFields (vault : AgentVault) (policy : PolicyConfig D) : PolicyPreviewFields D where
  dailySpendingCapUsd := policy.dailySpendingCapUsd
  maxTransactionSizeUsd := policy.maxTransactionSizeUsd
  maxSlippageBps := policy.maxSlippageBps
  developerFeeRate := policy.developerFeeRate
  protocolMode := policy.protocolMode
  protocols := policy.protocols
  destinationMode := policy.destinationMode
  allowedDestinations := policy.allowedDestinations
  timelockDuration := policy.timelockDuration
  sessionExpirySeconds := policy.sessionExpirySeconds
  observeOnly := vault.observeOnly
  hasPostAssertions := policy.hasPostAssertions
  createdAtSlot := policy.createdAtSlot
  operatingHours := policy.operatingHours
  autoPromoteGrays := policy.autoPromoteGrays
  autoRevokeThreshold := policy.autoRevokeThreshold
  stableBalanceFloor := policy.stableBalanceFloor
  perRecipientDailyCapUsd := policy.perRecipientDailyCapUsd
  cosignRequired := policy.cosignRequired
  agentSetHash := computeAgentSetHash vault.agents
  cosignSessionPubkey := policy.cosignSessionPubkey
  operatorGrantDelaySeconds := policy.operatorGrantDelaySeconds
  hasProtocolCaps := policy.hasProtocolCaps
  protocolCaps := policy.protocolCaps
  protocolHashes := List.ofFn policy.protocolHashes

/-- The digest every instruction recomputes from the live accounts. -/
def liveDigest (vault : AgentVault) (policy : PolicyConfig D) : D :=
  computePolicyPreviewDigest (previewFields vault policy)

end Encoding

/-- A host whose hash has no collisions and whose digests have self-delimiting byte forms. -/
class IdealHost (D : Type) [Host D] : Prop where
  sha256_injective : Function.Injective (Host.sha256 : List UInt8 → D)
  digest_delimits : Delimits (Host.digestBytes : D → List UInt8)

theorem delimits_pubkey : Delimits Pubkey.bytes :=
  delimits_of_length Pubkey.bytes_length Pubkey.bytes_injective

section Injective

variable {D : Type} [Host D] [IdealHost D]

/-- Equal encodings have equal fields; of the build hashes only those of listed protocols
are encoded. -/
theorem PolicyPreviewFields.bytes_inj {f g : PolicyPreviewFields D}
    (hf : f.protocols.length < 2 ^ 32 ∧ f.allowedDestinations.length < 2 ^ 32 ∧
      f.protocolCaps.length < 2 ^ 32)
    (hg : g.protocols.length < 2 ^ 32 ∧ g.allowedDestinations.length < 2 ^ 32 ∧
      g.protocolCaps.length < 2 ^ 32)
    (h : f.bytes = g.bytes) :
    { f with protocolHashes := g.protocolHashes } = g ∧ f.boundHashes = g.boundHashes := by
  unfold bytes at h
  obtain ⟨h₁, h⟩ := delimits_u64 h
  obtain ⟨h₂, h⟩ := delimits_u64 h
  obtain ⟨h₃, h⟩ := delimits_u16 h
  obtain ⟨h₄, h⟩ := delimits_u16 h
  obtain ⟨h₅, h⟩ := delimits_u8 h
  obtain ⟨h₆, h⟩ := counted_append_inj delimits_pubkey hf.1 hg.1 h
  obtain ⟨h₇, h⟩ := delimits_u8 h
  obtain ⟨h₈, h⟩ := counted_append_inj delimits_pubkey hf.2.1 hg.2.1 h
  obtain ⟨h₉, h⟩ := delimits_u64 h
  obtain ⟨h₁₀, h⟩ := delimits_u64 h
  obtain ⟨h₁₁, h⟩ := delimits_bool h
  obtain ⟨h₁₂, h⟩ := delimits_u8 h
  obtain ⟨h₁₃, h⟩ := delimits_u64 h
  obtain ⟨h₁₄, h⟩ := delimits_u32 h
  obtain ⟨h₁₅, h⟩ := delimits_bool h
  obtain ⟨h₁₆, h⟩ := delimits_u8 h
  obtain ⟨h₁₇, h⟩ := delimits_u64 h
  obtain ⟨h₁₈, h⟩ := delimits_u64 h
  obtain ⟨h₁₉, h⟩ := delimits_bool h
  obtain ⟨h₂₀, h⟩ := IdealHost.digest_delimits h
  obtain ⟨h₂₁, h⟩ := delimits_pubkey h
  obtain ⟨h₂₂, h⟩ := delimits_u64 h
  obtain ⟨h₂₃, h⟩ := delimits_bool h
  obtain ⟨h₂₄, h⟩ := counted_append_inj delimits_u64 hf.2.2 hg.2.2 h
  have hhash := counted_append_inj (x := []) (y := []) IdealHost.digest_delimits
    (f.boundHashes_length ▸ hf.1) (g.boundHashes_length ▸ hg.1) (congrArg (· ++ []) h)
  refine ⟨?_, hhash.1⟩
  cases f
  cases g
  simp_all only

theorem computePolicyPreviewDigest_inj {f g : PolicyPreviewFields D}
    (hf : f.protocols.length < 2 ^ 32 ∧ f.allowedDestinations.length < 2 ^ 32 ∧
      f.protocolCaps.length < 2 ^ 32)
    (hg : g.protocols.length < 2 ^ 32 ∧ g.allowedDestinations.length < 2 ^ 32 ∧
      g.protocolCaps.length < 2 ^ 32)
    (h : computePolicyPreviewDigest f = computePolicyPreviewDigest g) :
    { f with protocolHashes := g.protocolHashes } = g ∧ f.boundHashes = g.boundHashes :=
  PolicyPreviewFields.bytes_inj hf hg (IdealHost.sha256_injective h)

end Injective

section Preimage

/-- Digests that are their own preimages. -/
structure Preimage where
  word : List UInt8
  deriving DecidableEq

/-- A key made of the first bytes of a word. -/
def Pubkey.ofBytes (word : List UInt8) : Pubkey :=
  ⟨(word ++ List.replicate 32 0).take 32, by simp⟩

instance : Host Preimage where
  cluster := .mainnet
  sha256 := Preimage.mk
  digestBytes d := d.word.flatMap (fun b => [1, b]) ++ [0]
  zeroDigest := ⟨[]⟩
  findProgramAddress seeds _ := Pubkey.ofBytes (UInt8.ofNat seeds.length :: seeds.flatten)

/-- An ideal host exists. -/
instance : IdealHost Preimage where
  sha256_injective _ _ h := Preimage.mk.inj h
  digest_delimits := by
    rintro ⟨v⟩ ⟨w⟩ x y h
    suffices hword : v = w ∧ x = y from ⟨congrArg Preimage.mk hword.1, hword.2⟩
    simp only [Host.digestBytes, List.append_assoc, List.cons_append, List.nil_append] at h
    induction v generalizing w with
    | nil =>
      cases w with
      | nil => simpa using h
      | cons b w => simp at h
    | cons a v ih =>
      cases w with
      | nil => simp at h
      | cons b w =>
        simp only [List.flatMap_cons, List.cons_append, List.nil_append, List.cons.injEq,
          true_and] at h
        obtain ⟨rfl, hxy⟩ := ih w h.2
        exact ⟨by rw [h.1], hxy⟩

end Preimage

end Sigil
