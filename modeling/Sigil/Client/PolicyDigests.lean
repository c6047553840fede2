import Sigil.Client.CanonicalEncode
import Sigil.Digest.CosignDigest

/-! # The digests of the client

The client hashes what an owner and a cosigner sign before the program does. Its encoders compute
the size of the buffer first and then write the fields one by one, with defaults of their own for
fields that are left out. On values that fit the program's fields they hash the program's bytes.
-/

namespace Sigil.Client

open Fill Guard SelfDelimiting

section Encoders

/-- The contents of a buffer that has to be filled exactly. -/
def encodeExactly (size : ℕ) (w : Encoder Unit) : Except EncodeError (List UInt8) := do
  let buf ← write 0 size w
  require (buf.off = buf.cells.length) (.sizeMismatch buf.off buf.cells.length)
  return buf.cells

theorem encodeExactly_of_emits {size : ℕ} {w : Encoder Unit} {word : List UInt8}
    (h : Emits 0 w word) (hsize : word.length = size) : encodeExactly size w = .ok word := by
  rw [encodeExactly, ← hsize, h.write_eq]
  exact require_seq_ok_iff.mpr ⟨rfl, rfl⟩

/-- An optional value behind a byte that says whether it is there. -/
def writeOptional {α : Type} (payload : α → Encoder Unit) : Option α → Encoder Unit
  | none => setByte 0
  | some a => do
    setByte 1
    payload a

def optionalSize {α : Type} (size : α → ℕ) (o : Option α) : ℕ := 1 + o.elim 0 size

theorem emits_writeOptional {α β : Type} {payload : α → Encoder Unit} {enc : β → List UInt8}
    {o : Option α} {o' : Option β}
    (h : Option.Rel (fun a b => Emits 0 (payload a) (enc b)) o o') :
    Emits 0 (writeOptional payload o) (optional enc o') := by
  cases h with
  | none => exact emits_setByte rfl
  | some h => exact (emits_setByte (b := 1) rfl).seq h

theorem optional_length {α β : Type} {enc : β → List UInt8} {size : α → ℕ} {o : Option α}
    {o' : Option β} (h : Option.Rel (fun a b => (enc b).length = size a) o o') :
    (optional enc o').length = optionalSize size o := by
  cases h with
  | none => rfl
  | some h =>
    rw [SelfDelimiting.optional, List.length_cons, h, optionalSize, Option.elim_some, Nat.add_comm]

/-- The text is that of the key. -/
def TextOf (s : String) (k : Pubkey) : Prop := base58Decode32 s = .ok k.bytes

/-- The text of the all-zero key, which is that of the system program. -/
def zeroKeyText : String := "11111111111111111111111111111111"

theorem textOf_zeroKeyText : TextOf zeroKeyText Pubkey.default := by
  rw [TextOf, base58Decode32_ok_iff]
  decide +kernel

theorem exists_textOf {s : String} {bytes : List UInt8} (h : base58Decode32 s = .ok bytes) :
    ∃ k, TextOf s k ∧ bytes = k.bytes :=
  ⟨⟨bytes, (base58Decode32_ok_iff.mp h).1⟩, h, rfl⟩

theorem TextOf.eq_iff {s t : String} {j k : Pubkey} (hs : TextOf s j) (ht : TextOf t k) :
    s = t ↔ j = k :=
  Address.text_eq_iff (a := ⟨s, j, hs⟩) (b := ⟨t, k, ht⟩)

theorem mapM_base58Decode32 {l : List String} {ks : List Pubkey} (h : List.Forall₂ TextOf l ks) :
    l.mapM base58Decode32 = .ok (ks.map Pubkey.bytes) :=
  mapM_ok_iff.mpr (List.forall₂_map_right_iff.mpr h)

theorem emits_writeKeys (ks : List Pubkey) :
    Emits 0 (writeList setBytes (ks.map Pubkey.bytes)) (counted Pubkey.bytes ks) :=
  emits_writeList (List.forall₂_map_left_iff.mpr (List.forall₂_same.mpr fun _ _ =>
    emits_setBytes _))

theorem emits_writeCaps {l : List ℤ} {caps : List UInt64}
    (h : List.Forall₂ (fun v n => v = n.toNat) l caps) :
    Emits 0 (writeList writeU64Le l) (counted (fun c => leBytes 8 c.toNat) caps) :=
  emits_writeList (h.imp fun _ _ => emits_writeU64Le)

end Encoders

section AgentSet

structure AgentInput where
  pubkey : String
  capability : ℤ

/-- The first byte that differs decides. -/
def compareRaw : List UInt8 → List UInt8 → Ordering
  | a :: as, b :: bs => if a < b then .lt else if b < a then .gt else compareRaw as bs
  | _, _ => .eq

/-- The order in which the sort leaves two entries; entries that compare equal stay as they are. -/
def rawLe (a b : List UInt8 × UInt8) : Prop := compareRaw a.1 b.1 ≠ .gt

instance : DecidableRel rawLe := fun _ _ => inferInstanceAs (Decidable (_ ≠ _))

def decodeAgent (a : AgentInput) : Except EncodeError (List UInt8 × UInt8) := do
  let raw ← base58Decode32 a.pubkey
  return (raw, lowByte a.capability)

def writeAgent (e : List UInt8 × UInt8) : Encoder Unit := do
  setBytes e.1
  setByte e.2.toNat

def agentSetBytes (agents : List AgentInput) : Except EncodeError (List UInt8) := do
  let decoded ← agents.mapM decodeAgent
  let sorted := decoded.insertionSort rawLe
  let buf ← write 0 (4 + sorted.length * 33) (writeList writeAgent sorted)
  return buf.cells

def computeAgentSetHash (D : Type) [Host D] (agents : List AgentInput) :
    Except EncodeError (List UInt8) := do
  let bytes ← agentSetBytes agents
  return Host.digestBytes (Host.sha256 bytes : D)

structure AgentInput.Represents (a : AgentInput) (entry : AgentEntry) : Prop where
  pubkey : TextOf a.pubkey entry.pubkey
  capability : a.capability = entry.capability.toNat

theorem compareRaw_eq_gt_iff {a b : List UInt8} (h : a.length = b.length) :
    compareRaw a b = .gt ↔ b < a := by
  induction a generalizing b with
  | nil =>
    obtain rfl := List.eq_nil_of_length_eq_zero h.symm
    simp [compareRaw]
  | cons x a ih =>
    cases b with
    | nil => cases h
    | cons y b =>
      rw [compareRaw, List.cons_lt_cons_iff, ← ih (Nat.succ.inj h)]
      split
      · rename_i hlt
        have hne : y ≠ x := (UInt8.ne_of_lt hlt).symm
        simp [hne, UInt8.lt_asymm hlt]
      · split
        · rename_i hgt
          simp [hgt]
        · rename_i hnlt hngt
          have heq : y = x := UInt8.le_antisymm (UInt8.not_lt.mp hnlt) (UInt8.not_lt.mp hngt)
          simp [heq]

theorem rawLe_iff_keyLe {a b : Pubkey × UInt8} :
    rawLe (a.1.bytes, a.2) (b.1.bytes, b.2) ↔ keyLe a b := by
  rw [rawLe, ne_eq, compareRaw_eq_gt_iff (by rw [Pubkey.bytes_length, Pubkey.bytes_length]), keyLe]

theorem decodeAgent_of_represents {a : AgentInput} {entry : AgentEntry} (h : a.Represents entry) :
    decodeAgent a = .ok (entry.pubkey.bytes, entry.capability) := by
  have hkey : base58Decode32 a.pubkey = .ok entry.pubkey.bytes := h.pubkey
  rw [decodeAgent, hkey, h.capability, lowByte_toNat]
  rfl

theorem agentSetBytes_of_represents {agents : List AgentInput} {entries : List AgentEntry}
    (h : List.Forall₂ AgentInput.Represents agents entries) :
    agentSetBytes agents = .ok (Sigil.agentSetBytes entries) := by
  let raw : Pubkey × UInt8 → List UInt8 × UInt8 := fun a => (a.1.bytes, a.2)
  let listed := entries.map fun a => (a.pubkey, a.capability)
  have hdecoded : agents.mapM decodeAgent = .ok (listed.map raw) := by
    rw [mapM_ok_iff, List.map_map, List.forall₂_map_right_iff]
    exact h.imp fun _ _ => decodeAgent_of_represents
  have hsorted : (listed.map raw).insertionSort rawLe = (listed.insertionSort keyLe).map raw :=
    (List.map_insertionSort keyLe rawLe raw _ fun a _ b _ => rawLe_iff_keyLe.symm).symm
  have hemits : Emits 0 (writeList writeAgent ((listed.insertionSort keyLe).map raw))
      (Sigil.agentSetBytes entries) := by
    refine emits_writeList (List.forall₂_map_left_iff.mpr (List.forall₂_same.mpr fun a _ => ?_))
    exact (emits_setBytes _).seq (emits_setByte rfl)
  have hsize : (Sigil.agentSetBytes entries).length =
      4 + ((listed.insertionSort keyLe).map raw).length * 33 := by
    rw [List.length_map]
    exact counted_length fun a _ => by simp
  have hwritten := hemits.write_eq
  rw [hsize, ← hsorted] at hwritten
  exact seq_ok_iff.mpr ⟨_, hdecoded, seq_ok_iff.mpr ⟨_, hwritten, rfl⟩⟩

end AgentSet

section Preview

inductive KeyInput
  | text (s : String)
  | raw (bytes : List UInt8)

/-- The fields of a preview; those that may be left out come with a default. -/
structure PolicyPreviewFields where
  dailySpendingCapUsd : ℤ
  maxTransactionSizeUsd : ℤ
  maxSlippageBps : ℤ
  developerFeeRate : ℤ
  protocolMode : ℤ
  protocols : List String
  destinationMode : ℤ
  allowedDestinations : List String
  timelockDuration : ℤ
  sessionExpirySeconds : ℤ
  observeOnly : Bool
  hasPostAssertions : ℤ
  createdAtSlot : ℤ
  operatingHours : Option ℤ
  autoPromoteGrays : Option Bool
  autoRevokeThreshold : Option ℤ
  stableBalanceFloor : Option ℤ
  perRecipientDailyCapUsd : Option ℤ
  cosignRequired : Option Bool
  agentSetHash : Option (List UInt8)
  cosignSessionPubkey : Option KeyInput
  operatorGrantDelaySeconds : Option ℤ
  hasProtocolCaps : Option Bool
  protocolCaps : Option (List ℤ)
  protocolHashes : Option (List (List UInt8))

/-- The fixed width of each field, lists counting only with their length. -/
def perFieldFixedSizes : List ℕ :=
  [8, 8, 2, 2, 1, 4, 1, 4, 8, 8, 1, 1, 8, 4, 1, 1, 8, 8, 1, 32, 32, 8, 1, 4, 4]

def emptyAgentSetHash (D : Type) [Host D] : List UInt8 :=
  Host.digestBytes (Host.sha256 (List.replicate 4 0) : D)

def cosignSessionBytes : Option KeyInput → Except EncodeError (List UInt8)
  | none => .ok (List.replicate 32 0)
  | some (.raw bytes) => .ok bytes
  | some (.text s) => base58Decode32 s

/-- A protocol without a hash keeps the zeros of the fresh buffer. -/
def writeProtocolHash (hashes : List (List UInt8)) (i : ℕ) : Encoder Unit :=
  match hashes[i]? with
  | none => skip 32
  | some h => do
    require (h.length = 32) (EncodeError.protocolHashLength i h.length)
    setBytes h

def writePreview (D : Type) [Host D] (fields : PolicyPreviewFields)
    (protoBytes destBytes : List (List UInt8)) : Encoder Unit := do
  writeU64Le fields.dailySpendingCapUsd
  writeU64Le fields.maxTransactionSizeUsd
  writeU16Le fields.maxSlippageBps
  writeU16Le fields.developerFeeRate
  setByte fields.protocolMode
  writeList setBytes protoBytes
  setByte fields.destinationMode
  writeList setBytes destBytes
  writeU64Le fields.timelockDuration
  writeU64Le fields.sessionExpirySeconds
  setBool fields.observeOnly
  setByte fields.hasPostAssertions
  writeU64Le fields.createdAtSlot
  writeU32Le (fields.operatingHours.getD 0)
  setBool (fields.autoPromoteGrays.getD false)
  setByte (fields.autoRevokeThreshold.getD 0)
  writeU64Le (fields.stableBalanceFloor.getD 0)
  writeU64Le (fields.perRecipientDailyCapUsd.getD 0)
  setBool (fields.cosignRequired.getD false)
  let agentSetHash := fields.agentSetHash.getD (emptyAgentSetHash D)
  require (agentSetHash.length = 32) (EncodeError.agentSetHashLength agentSetHash.length)
  setBytes agentSetHash
  let session ← cosignSessionBytes fields.cosignSessionPubkey
  require (session.length = 32) (EncodeError.cosignSessionPubkeyLength session.length)
  setBytes session
  writeU64Le (fields.operatorGrantDelaySeconds.getD 0)
  setBool (fields.hasProtocolCaps.getD false)
  writeList writeU64Le (fields.protocolCaps.getD [])
  -- the hashes go by the protocols, however many are given
  writeU32Le protoBytes.length
  (List.range protoBytes.length).forM (writeProtocolHash (fields.protocolHashes.getD []))

def policyPreviewBytes (D : Type) [Host D] (fields : PolicyPreviewFields) :
    Except EncodeError (List UInt8) := do
  let protoBytes ← fields.protocols.mapM base58Decode32
  let destBytes ← fields.allowedDestinations.mapM base58Decode32
  let variableSize := protoBytes.length * 32 + destBytes.length * 32 +
    (fields.protocolCaps.getD []).length * 8 + protoBytes.length * 32
  encodeExactly (perFieldFixedSizes.sum + variableSize) (writePreview D fields protoBytes destBytes)

def computePolicyPreviewDigest (D : Type) [Host D] (fields : PolicyPreviewFields) :
    Except EncodeError D := do
  let bytes ← policyPreviewBytes D fields
  return Host.sha256 bytes

def KeyInput.Names (k : Pubkey) : KeyInput → Prop
  | .text s => TextOf s k
  | .raw bytes => bytes = k.bytes

/-- The client's fields are the program's: numbers and keys have the same values, and a field that
is left out has the value that an unset field has on chain. -/
structure PolicyPreviewFields.Represents {D : Type} [Host D] (t : PolicyPreviewFields)
    (f : Sigil.PolicyPreviewFields D) : Prop where
  dailySpendingCapUsd : t.dailySpendingCapUsd = f.dailySpendingCapUsd.toNat
  maxTransactionSizeUsd : t.maxTransactionSizeUsd = f.maxTransactionSizeUsd.toNat
  maxSlippageBps : t.maxSlippageBps = f.maxSlippageBps.toNat
  developerFeeRate : t.developerFeeRate = f.developerFeeRate.toNat
  protocolMode : t.protocolMode = f.protocolMode.toNat
  protocols : List.Forall₂ TextOf t.protocols f.protocols
  destinationMode : t.destinationMode = f.destinationMode.toNat
  allowedDestinations : List.Forall₂ TextOf t.allowedDestinations f.allowedDestinations
  timelockDuration : t.timelockDuration = f.timelockDuration.toNat
  sessionExpirySeconds : t.sessionExpirySeconds = f.sessionExpirySeconds.toNat
  observeOnly : t.observeOnly = f.observeOnly
  hasPostAssertions : t.hasPostAssertions = f.hasPostAssertions.toNat
  createdAtSlot : t.createdAtSlot = f.createdAtSlot.toNat
  operatingHours : t.operatingHours.getD 0 = f.operatingHours.toNat
  autoPromoteGrays : t.autoPromoteGrays.getD false = f.autoPromoteGrays
  autoRevokeThreshold : t.autoRevokeThreshold.getD 0 = f.autoRevokeThreshold.toNat
  stableBalanceFloor : t.stableBalanceFloor.getD 0 = f.stableBalanceFloor.toNat
  perRecipientDailyCapUsd : t.perRecipientDailyCapUsd.getD 0 = f.perRecipientDailyCapUsd.toNat
  cosignRequired : t.cosignRequired.getD false = f.cosignRequired
  agentSetHash : t.agentSetHash.elim (f.agentSetHash = Sigil.computeAgentSetHash [])
    (· = Host.digestBytes f.agentSetHash)
  cosignSessionPubkey : t.cosignSessionPubkey.elim (f.cosignSessionPubkey = Pubkey.default)
    (KeyInput.Names f.cosignSessionPubkey)
  operatorGrantDelaySeconds : t.operatorGrantDelaySeconds.getD 0 = f.operatorGrantDelaySeconds.toNat
  hasProtocolCaps : t.hasProtocolCaps.getD false = f.hasProtocolCaps
  protocolCaps : List.Forall₂ (fun v n => v = (n.toNat : ℤ)) (t.protocolCaps.getD []) f.protocolCaps
  protocolHashes : ∀ i < f.protocols.length, (t.protocolHashes.getD [])[i]?.getD
    (List.replicate 32 0) = Host.digestBytes (f.protocolHashes.getD i Host.zeroDigest)

variable {D : Type} [Host D] {t : PolicyPreviewFields} {f : Sigil.PolicyPreviewFields D}

theorem PolicyPreviewFields.Represents.agentSetHash_eq (h : t.Represents f) :
    t.agentSetHash.getD (emptyAgentSetHash D) = Host.digestBytes f.agentSetHash := by
  have hhash := h.agentSetHash
  cases hgiven : t.agentSetHash with
  | none =>
    rw [hgiven, Option.elim_none] at hhash
    rw [hhash]
    rfl
  | some bytes =>
    rw [hgiven, Option.elim_some] at hhash
    exact hhash

theorem PolicyPreviewFields.Represents.cosignSession_eq (h : t.Represents f) :
    cosignSessionBytes t.cosignSessionPubkey = .ok f.cosignSessionPubkey.bytes := by
  have hkey := h.cosignSessionPubkey
  rcases hgiven : t.cosignSessionPubkey with _ | s | bytes
  · rw [hgiven, Option.elim_none] at hkey
    rw [hkey]
    rfl
  · rw [hgiven, Option.elim_some] at hkey
    exact hkey
  · rw [hgiven, Option.elim_some] at hkey
    exact congrArg Except.ok hkey

variable [WordHost D]

theorem getD_map_digestBytes (hashes : List D) (i : ℕ) :
    (hashes.map Host.digestBytes)[i]?.getD (List.replicate 32 0) =
      Host.digestBytes (hashes.getD i Host.zeroDigest) := by
  rw [← WordHost.digestBytes_zero (D := D), List.getElem?_map, Option.getD_map,
    List.getD_eq_getElem?_getD]

theorem emits_writeProtocolHash {hashes : List (List UInt8)} {i : ℕ} {d : D}
    (h : hashes[i]?.getD (List.replicate 32 0) = Host.digestBytes d) :
    Emits 0 (writeProtocolHash hashes i) (Host.digestBytes d) := by
  rw [writeProtocolHash, ← h]
  cases hgiven : hashes[i]? with
  | none => exact emits_skip 32
  | some bytes =>
    rw [hgiven, Option.getD_some] at h
    exact .lift (require_of (h ▸ WordHost.digestBytes_length d)) (emits_setBytes _)

theorem emits_writePreview (h : t.Represents f) :
    Emits 0 (writePreview D t (f.protocols.map Pubkey.bytes)
      (f.allowedDestinations.map Pubkey.bytes)) f.bytes := by
  have hhashes : Emits 0 (do
      writeU32Le (f.protocols.map Pubkey.bytes).length
      (List.range (f.protocols.map Pubkey.bytes).length).forM
        (writeProtocolHash (t.protocolHashes.getD [])))
      (counted Host.digestBytes f.boundHashes) := by
    have hrounds := emits_forM (List.forall₂_map_right_iff.mpr (List.forall₂_same.mpr
      fun i hi => emits_writeProtocolHash (h.protocolHashes i (List.mem_range.mp hi))))
    have hcount : Emits 0 (writeU32Le f.protocols.length) (leBytes 4 f.boundHashes.length) := by
      rw [f.boundHashes_length, ← lowBytes_natCast]
      exact emits_put _ _
    rw [List.length_map]
    exact hcount.seq hrounds
  unfold writePreview Sigil.PolicyPreviewFields.bytes
  refine (emits_writeU64Le h.dailySpendingCapUsd).seq ?_
  refine (emits_writeU64Le h.maxTransactionSizeUsd).seq ?_
  refine (emits_writeU16Le h.maxSlippageBps).seq ?_
  refine (emits_writeU16Le h.developerFeeRate).seq ?_
  refine (emits_setByte h.protocolMode).seq ?_
  refine (emits_writeKeys f.protocols).seq ?_
  refine (emits_setByte h.destinationMode).seq ?_
  refine (emits_writeKeys f.allowedDestinations).seq ?_
  refine (emits_writeU64Le h.timelockDuration).seq ?_
  refine (emits_writeU64Le h.sessionExpirySeconds).seq ?_
  refine (emits_setBool h.observeOnly).seq ?_
  refine (emits_setByte h.hasPostAssertions).seq ?_
  refine (emits_writeU64Le h.createdAtSlot).seq ?_
  refine (emits_writeU32Le h.operatingHours).seq ?_
  refine (emits_setBool h.autoPromoteGrays).seq ?_
  refine (emits_setByte h.autoRevokeThreshold).seq ?_
  refine (emits_writeU64Le h.stableBalanceFloor).seq ?_
  refine (emits_writeU64Le h.perRecipientDailyCapUsd).seq ?_
  refine (emits_setBool h.cosignRequired).seq ?_
  rw [h.agentSetHash_eq]
  refine .lift (require_of (WordHost.digestBytes_length _)) ?_
  refine (emits_setBytes _).seq ?_
  refine .lift h.cosignSession_eq ?_
  refine .lift (require_of (Pubkey.bytes_length _)) ?_
  refine (emits_setBytes _).seq ?_
  refine (emits_writeU64Le h.operatorGrantDelaySeconds).seq ?_
  refine (emits_setBool h.hasProtocolCaps).seq ?_
  exact (emits_writeCaps h.protocolCaps).seq hhashes

theorem previewBytes_length (f : Sigil.PolicyPreviewFields D) : f.bytes.length =
    perFieldFixedSizes.sum + (f.protocols.length * 32 + f.allowedDestinations.length * 32 +
      f.protocolCaps.length * 8 + f.protocols.length * 32) := by
  have hcaps : (counted (fun c : UInt64 => leBytes 8 c.toNat) f.protocolCaps).length =
      4 + f.protocolCaps.length * 8 := counted_length fun _ _ => leBytes_length _ _
  have hhashes : (counted Host.digestBytes f.boundHashes).length = 4 + f.protocols.length * 32 := by
    rw [counted_length fun d _ => WordHost.digestBytes_length d, f.boundHashes_length]
  have hkeys (ks : List Pubkey) : (counted Pubkey.bytes ks).length = 4 + ks.length * 32 :=
    counted_length fun k _ => k.bytes_length
  rw [show perFieldFixedSizes.sum = 160 from rfl]
  simp only [Sigil.PolicyPreviewFields.bytes, List.length_append, leBytes_length,
    List.length_singleton, hcaps, hhashes, hkeys, Pubkey.bytes_length, WordHost.digestBytes_length]
  clear hcaps hhashes hkeys
  omega

theorem policyPreviewBytes_of_represents (h : t.Represents f) :
    policyPreviewBytes D t = .ok f.bytes := by
  have hencoded := encodeExactly_of_emits (emits_writePreview h) (previewBytes_length f)
  simp only [policyPreviewBytes, seq_ok_iff]
  refine ⟨_, mapM_base58Decode32 h.protocols, _, mapM_base58Decode32 h.allowedDestinations, ?_⟩
  rw [List.length_map, List.length_map, h.protocolCaps.length_eq]
  exact hencoded

end Preview

section Cosign

/-- The fields that a cosigner signs; `null` and a field that is left out are the same. -/
structure CosignDigestFields where
  cosignSession : String
  dailySpendingCapUsd : Option ℤ
  maxTransactionAmountUsd : Option ℤ
  allowedDestinations : Option (List String)
  protocols : Option (List String)
  stableBalanceFloor : Option ℤ
  perRecipientDailyCapUsd : Option ℤ
  hasProtocolCaps : Option Bool
  protocolCaps : Option (List ℤ)
  cosignRequired : Option Bool

def decodeKeys : Option (List String) → Except EncodeError (Option (List (List UInt8)))
  | none => .ok none
  | some l => do
    let keys ← l.mapM base58Decode32
    return some keys

def writeCosign (fields : CosignDigestFields) (sessionBytes : List UInt8)
    (destBytes protoBytes : Option (List (List UInt8))) : Encoder Unit := do
  setBytes sessionBytes
  writeOptional writeU64Le fields.dailySpendingCapUsd
  writeOptional writeU64Le fields.maxTransactionAmountUsd
  writeOptional (writeList setBytes) destBytes
  writeOptional (writeList setBytes) protoBytes
  writeOptional writeU64Le fields.stableBalanceFloor
  writeOptional writeU64Le fields.perRecipientDailyCapUsd
  writeOptional setBool fields.hasProtocolCaps
  writeOptional (writeList writeU64Le) fields.protocolCaps
  writeOptional setBool fields.cosignRequired

def cosignBytes (fields : CosignDigestFields) : Except EncodeError (List UInt8) := do
  let sessionBytes ← base58Decode32 fields.cosignSession
  let destBytes ← decodeKeys fields.allowedDestinations
  let protoBytes ← decodeKeys fields.protocols
  let fixedSize := 32 + optionalSize (fun _ => 8) fields.dailySpendingCapUsd +
    optionalSize (fun _ => 8) fields.maxTransactionAmountUsd +
    optionalSize (fun l => 4 + l.length * 32) destBytes +
    optionalSize (fun l => 4 + l.length * 32) protoBytes +
    optionalSize (fun _ => 8) fields.stableBalanceFloor +
    optionalSize (fun _ => 8) fields.perRecipientDailyCapUsd +
    optionalSize (fun _ => 1) fields.hasProtocolCaps +
    optionalSize (fun l => 4 + l.length * 8) fields.protocolCaps +
    optionalSize (fun _ => 1) fields.cosignRequired
  encodeExactly fixedSize (writeCosign fields sessionBytes destBytes protoBytes)

def computeCosignDigest (D : Type) [Host D] (fields : CosignDigestFields) :
    Except EncodeError D := do
  let bytes ← cosignBytes fields
  return Host.sha256 bytes

structure CosignDigestFields.Represents {D : Type} (t : CosignDigestFields) (session : Pubkey)
    (u : PolicyUpdate D) : Prop where
  cosignSession : TextOf t.cosignSession session
  dailySpendingCapUsd : Option.Rel (fun v n => v = (n.toNat : ℤ)) t.dailySpendingCapUsd
    u.dailySpendingCapUsd
  maxTransactionAmountUsd : Option.Rel (fun v n => v = (n.toNat : ℤ)) t.maxTransactionAmountUsd
    u.maxTransactionAmountUsd
  allowedDestinations : Option.Rel (List.Forall₂ TextOf) t.allowedDestinations u.allowedDestinations
  protocols : Option.Rel (List.Forall₂ TextOf) t.protocols u.protocols
  stableBalanceFloor : Option.Rel (fun v n => v = (n.toNat : ℤ)) t.stableBalanceFloor
    u.stableBalanceFloor
  perRecipientDailyCapUsd : Option.Rel (fun v n => v = (n.toNat : ℤ)) t.perRecipientDailyCapUsd
    u.perRecipientDailyCapUsd
  hasProtocolCaps : t.hasProtocolCaps = u.hasProtocolCaps
  protocolCaps : Option.Rel (List.Forall₂ fun v n => v = (n.toNat : ℤ)) t.protocolCaps
    u.protocolCaps
  cosignRequired : t.cosignRequired = u.cosignRequired

variable {D : Type} {t : CosignDigestFields} {session : Pubkey} {u : PolicyUpdate D}

theorem decodeKeys_of_rel {o : Option (List String)} {o' : Option (List Pubkey)}
    (h : Option.Rel (List.Forall₂ TextOf) o o') :
    decodeKeys o = .ok (o'.map (List.map Pubkey.bytes)) := by
  cases h with
  | none => rfl
  | some h =>
    rw [decodeKeys, mapM_base58Decode32 h]
    rfl

theorem emits_writeOptionalU64 {o : Option ℤ} {o' : Option UInt64}
    (h : Option.Rel (fun v n => v = n.toNat) o o') :
    Emits 0 (writeOptional writeU64Le o) (optional (fun v => leBytes 8 v.toNat) o') := by
  refine emits_writeOptional ?_
  cases h with
  | none => exact .none
  | some h => exact .some (emits_writeU64Le h)

theorem emits_writeOptionalKeys (o : Option (List Pubkey)) :
    Emits 0 (writeOptional (writeList setBytes) (o.map (List.map Pubkey.bytes)))
      (optional (counted Pubkey.bytes) o) := by
  refine emits_writeOptional ?_
  cases o with
  | none => exact .none
  | some ks => exact .some (emits_writeKeys ks)

theorem emits_writeOptionalBool (o : Option Bool) :
    Emits 0 (writeOptional setBool o) (optional (fun b => [boolByte b]) o) := by
  refine emits_writeOptional ?_
  cases o with
  | none => exact .none
  | some b => exact .some (emits_setBool rfl)

theorem emits_writeOptionalCaps {o : Option (List ℤ)} {o' : Option (List UInt64)}
    (h : Option.Rel (List.Forall₂ fun v n => v = (n.toNat : ℤ)) o o') :
    Emits 0 (writeOptional (writeList writeU64Le) o)
      (optional (counted fun c => leBytes 8 c.toNat) o') := by
  refine emits_writeOptional ?_
  cases h with
  | none => exact .none
  | some h => exact .some (emits_writeCaps h)

theorem emits_writeCosign (h : t.Represents session u) :
    Emits 0 (writeCosign t session.bytes (u.allowedDestinations.map (List.map Pubkey.bytes))
      (u.protocols.map (List.map Pubkey.bytes))) (u.cosignBytes session) := by
  unfold writeCosign PolicyUpdate.cosignBytes
  refine (emits_setBytes _).seq ?_
  refine (emits_writeOptionalU64 h.dailySpendingCapUsd).seq ?_
  refine (emits_writeOptionalU64 h.maxTransactionAmountUsd).seq ?_
  refine (emits_writeOptionalKeys _).seq ?_
  refine (emits_writeOptionalKeys _).seq ?_
  refine (emits_writeOptionalU64 h.stableBalanceFloor).seq ?_
  refine (emits_writeOptionalU64 h.perRecipientDailyCapUsd).seq ?_
  rw [h.hasProtocolCaps, h.cosignRequired]
  refine (emits_writeOptionalBool _).seq ?_
  exact (emits_writeOptionalCaps h.protocolCaps).seq (emits_writeOptionalBool _)

theorem optionalU64_length {o : Option ℤ} {o' : Option UInt64}
    (h : Option.Rel (fun v n => v = (n.toNat : ℤ)) o o') :
    (optional (fun v => leBytes 8 v.toNat) o').length = optionalSize (fun _ => 8) o := by
  refine optional_length ?_
  cases h with
  | none => exact .none
  | some _ => exact .some (leBytes_length _ _)

theorem optionalKeys_length (o : Option (List Pubkey)) :
    (optional (counted Pubkey.bytes) o).length =
      optionalSize (fun l => 4 + l.length * 32) (o.map (List.map Pubkey.bytes)) := by
  refine optional_length ?_
  cases o with
  | none => exact .none
  | some ks =>
    refine .some ?_
    rw [List.length_map]
    exact counted_length fun k _ => k.bytes_length

theorem optionalBool_length (o : Option Bool) :
    (optional (fun b => [boolByte b]) o).length = optionalSize (fun _ => 1) o := by
  cases o <;> rfl

theorem optionalCaps_length {o : Option (List ℤ)} {o' : Option (List UInt64)}
    (h : Option.Rel (List.Forall₂ fun v n => v = (n.toNat : ℤ)) o o') :
    (optional (counted fun c => leBytes 8 c.toNat) o').length =
      optionalSize (fun l => 4 + l.length * 8) o := by
  refine optional_length ?_
  cases h with
  | none => exact .none
  | some h =>
    refine .some ?_
    rw [h.length_eq]
    exact counted_length fun _ _ => leBytes_length _ _

theorem cosignBytes_of_represents (h : t.Represents session u) :
    cosignBytes t = .ok (u.cosignBytes session) := by
  simp only [cosignBytes, seq_ok_iff]
  refine ⟨_, h.cosignSession, _, decodeKeys_of_rel h.allowedDestinations, _,
    decodeKeys_of_rel h.protocols, encodeExactly_of_emits (emits_writeCosign h) ?_⟩
  simp only [PolicyUpdate.cosignBytes, List.length_append, Pubkey.bytes_length,
    optionalU64_length h.dailySpendingCapUsd, optionalU64_length h.maxTransactionAmountUsd,
    optionalKeys_length, optionalU64_length h.stableBalanceFloor,
    optionalU64_length h.perRecipientDailyCapUsd, optionalBool_length,
    optionalCaps_length h.protocolCaps, h.hasProtocolCaps, h.cosignRequired, Nat.add_assoc]

end Cosign

section Agreement

variable {D : Type} [Host D]

theorem computePolicyPreviewDigest_of_represents [WordHost D] {t : PolicyPreviewFields}
    {f : Sigil.PolicyPreviewFields D} (h : t.Represents f) :
    computePolicyPreviewDigest D t = .ok (Sigil.computePolicyPreviewDigest f) := by
  rw [computePolicyPreviewDigest, policyPreviewBytes_of_represents h]
  rfl

theorem computeAgentSetHash_of_represents {agents : List AgentInput} {entries : List AgentEntry}
    (h : List.Forall₂ AgentInput.Represents agents entries) : computeAgentSetHash D agents =
      .ok (Host.digestBytes (Sigil.computeAgentSetHash entries : D)) := by
  rw [computeAgentSetHash, agentSetBytes_of_represents h]
  rfl

theorem computeCosignDigest_of_represents {t : CosignDigestFields} {session : Pubkey}
    {u : PolicyUpdate D} (h : t.Represents session u) :
    computeCosignDigest D t = .ok (Sigil.computeCosignDigest session u) := by
  rw [computeCosignDigest, cosignBytes_of_represents h]
  rfl

/-- On values that fit the program's fields the client hashes the program's bytes. -/
theorem client_digests_agree [WordHost D] :
    (∀ (t : PolicyPreviewFields) (f : Sigil.PolicyPreviewFields D), t.Represents f →
      policyPreviewBytes D t = .ok f.bytes ∧
      Sigil.computePolicyPreviewDigest f = Host.sha256 f.bytes ∧
      computePolicyPreviewDigest D t = .ok (Sigil.computePolicyPreviewDigest f)) ∧
    (∀ (agents : List AgentInput) (entries : List AgentEntry),
      List.Forall₂ AgentInput.Represents agents entries →
      agentSetBytes agents = .ok (Sigil.agentSetBytes entries) ∧
      (Sigil.computeAgentSetHash entries : D) = Host.sha256 (Sigil.agentSetBytes entries) ∧
      computeAgentSetHash D agents =
        .ok (Host.digestBytes (Sigil.computeAgentSetHash entries : D))) ∧
    ∀ (t : CosignDigestFields) (session : Pubkey) (u : PolicyUpdate D), t.Represents session u →
      cosignBytes t = .ok (u.cosignBytes session) ∧
      Sigil.computeCosignDigest session u = Host.sha256 (u.cosignBytes session) ∧
      computeCosignDigest D t = .ok (Sigil.computeCosignDigest session u) := by
  refine ⟨fun t f h => ?_, fun agents entries h => ?_, fun t session u h => ?_⟩
  · exact ⟨policyPreviewBytes_of_represents h, rfl, computePolicyPreviewDigest_of_represents h⟩
  · exact ⟨agentSetBytes_of_represents h, rfl, computeAgentSetHash_of_represents h⟩
  · exact ⟨cosignBytes_of_represents h, rfl,
      computeCosignDigest_of_represents h⟩

end Agreement

section Sample

/-- Digests that are words of 32 bytes, made of the first bytes of what is hashed. -/
structure Word where
  key : Pubkey
  deriving DecidableEq

instance : Host Word where
  cluster := .mainnet
  sha256 bytes := ⟨Pubkey.ofBytes bytes⟩
  digestBytes w := w.key.bytes
  zeroDigest := ⟨Pubkey.default⟩
  findProgramAddress seeds _ := Pubkey.ofBytes (UInt8.ofNat seeds.length :: seeds.flatten)

instance : WordHost Word where
  digestBytes_length w := w.key.bytes_length
  digestBytes_injective v w h := by
    cases v
    cases w
    exact congrArg Word.mk (Pubkey.bytes_injective h)
  exists_digest bytes hlength := ⟨⟨⟨bytes, hlength⟩⟩, rfl⟩
  digestBytes_zero := rfl

def sampleText (n : UInt8) : String := base58Encode (Pubkey.ofBytes [n]).bytes

theorem textOf_sampleText (n : UInt8) : TextOf (sampleText n) (Pubkey.ofBytes [n]) :=
  (Address.ofKey (Pubkey.ofBytes [n])).decoded

def samplePreview : PolicyPreviewFields where
  dailySpendingCapUsd := 1000
  maxTransactionSizeUsd := 400
  maxSlippageBps := 50
  developerFeeRate := 5
  protocolMode := 1
  protocols := [sampleText 3, sampleText 4]
  destinationMode := 0
  allowedDestinations := [sampleText 5]
  timelockDuration := 1800
  sessionExpirySeconds := 30
  observeOnly := false
  hasPostAssertions := 0
  createdAtSlot := 7
  operatingHours := some 0xFFFFFF
  autoPromoteGrays := none
  autoRevokeThreshold := some 5
  stableBalanceFloor := none
  perRecipientDailyCapUsd := some 90
  cosignRequired := none
  agentSetHash := none
  cosignSessionPubkey := some (.text (sampleText 6))
  operatorGrantDelaySeconds := none
  hasProtocolCaps := some true
  protocolCaps := some [70]
  protocolHashes := none

def samplePreviewFields : Sigil.PolicyPreviewFields Word where
  dailySpendingCapUsd := 1000
  maxTransactionSizeUsd := 400
  maxSlippageBps := 50
  developerFeeRate := 5
  protocolMode := 1
  protocols := [Pubkey.ofBytes [3], Pubkey.ofBytes [4]]
  destinationMode := 0
  allowedDestinations := [Pubkey.ofBytes [5]]
  timelockDuration := 1800
  sessionExpirySeconds := 30
  observeOnly := false
  hasPostAssertions := 0
  createdAtSlot := 7
  operatingHours := 0xFFFFFF
  autoPromoteGrays := false
  autoRevokeThreshold := 5
  stableBalanceFloor := 0
  perRecipientDailyCapUsd := 90
  cosignRequired := false
  agentSetHash := Sigil.computeAgentSetHash []
  cosignSessionPubkey := Pubkey.ofBytes [6]
  operatorGrantDelaySeconds := 0
  hasProtocolCaps := true
  protocolCaps := [70]
  protocolHashes := List.replicate maxAllowedProtocols Host.zeroDigest

theorem samplePreview_represents : samplePreview.Represents samplePreviewFields where
  dailySpendingCapUsd := rfl
  maxTransactionSizeUsd := rfl
  maxSlippageBps := rfl
  developerFeeRate := rfl
  protocolMode := rfl
  protocols := .cons (textOf_sampleText 3) (.cons (textOf_sampleText 4) .nil)
  destinationMode := rfl
  allowedDestinations := .cons (textOf_sampleText 5) .nil
  timelockDuration := rfl
  sessionExpirySeconds := rfl
  observeOnly := rfl
  hasPostAssertions := rfl
  createdAtSlot := rfl
  operatingHours := rfl
  autoPromoteGrays := rfl
  autoRevokeThreshold := rfl
  stableBalanceFloor := rfl
  perRecipientDailyCapUsd := rfl
  cosignRequired := rfl
  agentSetHash := rfl
  cosignSessionPubkey := textOf_sampleText 6
  operatorGrantDelaySeconds := rfl
  hasProtocolCaps := rfl
  protocolCaps := .cons rfl .nil
  protocolHashes := by decide +kernel

def sampleCosign : CosignDigestFields where
  cosignSession := sampleText 6
  dailySpendingCapUsd := some 2000
  maxTransactionAmountUsd := none
  allowedDestinations := none
  protocols := some [sampleText 3]
  stableBalanceFloor := none
  perRecipientDailyCapUsd := none
  hasProtocolCaps := some false
  protocolCaps := some []
  cosignRequired := none

def sampleUpdate : PolicyUpdate Word :=
  { PolicyUpdate.none with
    dailySpendingCapUsd := some 2000
    protocols := some [Pubkey.ofBytes [3]]
    hasProtocolCaps := some false
    protocolCaps := some [] }

theorem sampleCosign_represents : sampleCosign.Represents (Pubkey.ofBytes [6]) sampleUpdate where
  cosignSession := textOf_sampleText 6
  dailySpendingCapUsd := .some rfl
  maxTransactionAmountUsd := .none
  allowedDestinations := .none
  protocols := .some (.cons (textOf_sampleText 3) .nil)
  stableBalanceFloor := .none
  perRecipientDailyCapUsd := .none
  hasProtocolCaps := rfl
  protocolCaps := .some .nil
  cosignRequired := rfl

def sampleEntry (n capability : UInt8) : AgentEntry := ⟨Pubkey.ofBytes [n], capability, 0, false, 0⟩

/-- A preview with defaults, two agents out of order and a cosigned update. -/
theorem client_digests_agree_sample :
    policyPreviewBytes Word samplePreview = .ok samplePreviewFields.bytes ∧
    agentSetBytes [⟨sampleText 9, 2⟩, ⟨sampleText 8, 1⟩] =
      .ok (Sigil.agentSetBytes [sampleEntry 9 2, sampleEntry 8 1]) ∧
    cosignBytes sampleCosign = .ok (sampleUpdate.cosignBytes (Pubkey.ofBytes [6])) := by
  obtain ⟨hpreview, hagents, hcosign⟩ := client_digests_agree (D := Word)
  have hlisted : List.Forall₂ AgentInput.Represents [⟨sampleText 9, 2⟩, ⟨sampleText 8, 1⟩]
      [sampleEntry 9 2, sampleEntry 8 1] :=
    .cons ⟨textOf_sampleText 9, rfl⟩ (.cons ⟨textOf_sampleText 8, rfl⟩ .nil)
  exact ⟨(hpreview _ _ samplePreview_represents).1, (hagents _ _ hlisted).1,
    (hcosign _ _ _ sampleCosign_represents).1⟩

end Sample

end Sigil.Client
