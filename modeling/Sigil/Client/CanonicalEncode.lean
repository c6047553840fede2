import Sigil.Library.Fill
import Sigil.Library.Radix
import Sigil.Library.SelfDelimiting
import Sigil.Model.Base

/-! # The encoding primitives of the client

The client keeps keys as base58 text and decodes them itself before it hashes them. The decoder
takes one text to one key and no two texts to the same one. Its cursor writers keep the low bytes of
a number that is too large for its field.
-/

namespace Sigil.Client

open Fill Guard Radix SelfDelimiting

inductive EncodeError
  | emptyInput
  | invalidChar (c : Char)
  | wrongLength (n : ℕ)
  /-- A `RangeError`: the write does not fit in the buffer. -/
  | outOfRange
  | sizeMismatch (encoded expected : ℕ)
  | agentSetHashLength (n : ℕ)
  | cosignSessionPubkeyLength (n : ℕ)
  | protocolHashLength (i n : ℕ)
  deriving DecidableEq

def base58Alphabet : List Char :=
  "123456789ABCDEFGHJKLMNPQRSTUVWXYZabcdefghijkmnopqrstuvwxyz".toList

/-- The value of a character, `none` when it is not in the alphabet. -/
def base58Index (c : Char) : Option ℕ := base58Alphabet.idxOf? c

/-- The zeros in front are the characters `1`, whose value is zero. The carry stays below
`58 * 256`, so the source's 32-bit operations on it are exact. -/
def base58Decode32 (s : String) : Except EncodeError (List UInt8) := do
  require (s.toList ≠ []) .emptyInput
  let digits ← s.toList.mapM fun c => okOr (.invalidChar c) (base58Index c)
  let out := (recode 256 58 digits).map UInt8.ofNat
  require (out.length = 32) (.wrongLength out.length)
  return out

/-- The text of a key, as the decoders of accounts return it. -/
def base58Encode (bytes : List UInt8) : String :=
  String.ofList ((recode 58 256 (bytes.map UInt8.toNat)).map fun d => base58Alphabet.getD d '1')

section Base58

theorem base58Index_eq_some_iff {c : Char} {d : ℕ} :
    base58Index c = some d ↔ d < 58 ∧ base58Alphabet.getD d '1' = c := by
  constructor
  · intro h
    rw [base58Index, List.idxOf?, List.findIdx?_eq_some_iff_getElem] at h
    obtain ⟨hd, hc, -⟩ := h
    have hlength : base58Alphabet.length = 58 := by decide +kernel
    refine ⟨hlength ▸ hd, ?_⟩
    rw [List.getD_eq_getElem?_getD, List.getElem?_eq_getElem hd, Option.getD_some]
    exact eq_of_beq hc
  · have hindex : ∀ d < 58, base58Index (base58Alphabet.getD d '1') = some d := by decide +kernel
    rintro ⟨hd, rfl⟩
    exact hindex d hd

theorem forall₂_base58Index_iff {cs : List Char} {ds : List ℕ} :
    List.Forall₂ (fun c d => okOr (EncodeError.invalidChar c) (base58Index c) = .ok d) cs ds ↔
      (∀ d ∈ ds, d < 58) ∧ ds.map (fun d => base58Alphabet.getD d '1') = cs := by
  induction ds generalizing cs with
  | nil => simp [eq_comm]
  | cons d ds ih =>
    have hindex (c : Char) : okOr (EncodeError.invalidChar c) (base58Index c) = .ok d ↔
        d < 58 ∧ base58Alphabet.getD d '1' = c := by
      rw [okOr_ok_iff, base58Index_eq_some_iff]
    simp only [List.forall₂_cons_right_iff, hindex, ih, List.forall_mem_cons, List.map_cons]
    constructor
    · rintro ⟨c, cs, ⟨hd, rfl⟩, ⟨hds, rfl⟩, rfl⟩
      exact ⟨⟨hd, hds⟩, rfl⟩
    · rintro ⟨⟨hd, hds⟩, rfl⟩
      exact ⟨_, _, ⟨hd, rfl⟩, ⟨hds, rfl⟩, rfl⟩

theorem map_ofNat_toNat {ds : List ℕ} (h : ∀ d ∈ ds, d < 256) :
    (ds.map UInt8.ofNat).map UInt8.toNat = ds := by
  rw [List.map_map]
  refine (List.map_congr_left fun d hd => ?_).trans (List.map_id ds)
  exact UInt8.toNat_ofNat_of_lt (h d hd)

theorem base58Decode32_ok_iff {s : String} {out : List UInt8} :
    base58Decode32 s = .ok out ↔ out.length = 32 ∧ base58Encode out = s := by
  simp only [base58Decode32, seq_ok_iff, mapM_ok_iff, forall₂_base58Index_iff,
    require_ok_iff, exists_and_left, exists_const, pure_ok_iff]
  constructor
  · rintro ⟨-, digits, ⟨hdigits, htext⟩, hlength, rfl⟩
    refine ⟨hlength, ?_⟩
    rw [base58Encode, map_ofNat_toNat (recode_lt (by decide) (by decide) digits),
      recode_recode (by decide) (by decide) hdigits, htext, String.ofList_toList]
  · rintro ⟨hlength, rfl⟩
    have hbytes : ∀ d ∈ out.map UInt8.toNat, d < 256 := by
      simp only [List.mem_map, forall_exists_index, and_imp, forall_apply_eq_imp_iff₂]
      exact fun x _ => x.toNat_lt
    have hback := recode_recode (B := 58) (by decide) (by decide : 1 < 256) hbytes
    have hout : (recode 256 58 (recode 58 256 (out.map UInt8.toNat))).map UInt8.ofNat = out := by
      rw [hback, List.map_map]
      exact (List.map_congr_left fun x _ => UInt8.ofNat_toNat).trans (List.map_id out)
    have hsome : recode 58 256 (out.map UInt8.toNat) ≠ [] := by
      intro hnil
      rw [hnil] at hout
      rw [← hout] at hlength
      cases hlength
    refine ⟨?_, _, ⟨recode_lt (by decide) (by decide) _, (String.toList_ofList).symm⟩, ?_, hout⟩
    · rw [base58Encode, String.toList_ofList]
      exact fun h => hsome (List.map_eq_nil_iff.mp h)
    · rw [hout]
      exact hlength

/-- The standard base58 text of bytes: a `1` for each zero in front, then the digits of the number
that the bytes denote, the highest first. -/
def standardBase58 (bytes : List UInt8) : String :=
  String.ofList (List.replicate (bytes.takeWhile (· = 0)).length '1' ++
    (Nat.digits 58 (Nat.ofDigits 256 (bytes.map UInt8.toNat).reverse)).reverse.map fun d =>
      base58Alphabet.getD d '1')

theorem leadingZeros_map_toNat (bytes : List UInt8) :
    leadingZeros (bytes.map UInt8.toNat) = (bytes.takeWhile (· = 0)).length := by
  have hzero : ((fun d : ℕ => decide (d = 0)) ∘ UInt8.toNat) = fun b : UInt8 => decide (b = 0) := by
    funext b
    rw [Function.comp_apply, decide_eq_decide, ← UInt8.toNat_inj, UInt8.toNat_zero]
  rw [leadingZeros, List.takeWhile_map, List.length_map, hzero]

theorem base58Encode_eq (bytes : List UInt8) : base58Encode bytes = standardBase58 bytes := by
  rw [base58Encode, standardBase58, recode, convert_eq (by decide) (by decide), List.map_append,
    List.map_replicate, leadingZeros_map_toNat]
  rfl

/-- The decoder accepts exactly the standard texts of the words of 32 bytes, each for its word:
texts and keys determine each other. -/
theorem base58Decode32_bijective :
    (∀ s out, base58Decode32 s = .ok out ↔ out.length = 32 ∧ standardBase58 out = s) ∧
    (∀ s s' out, base58Decode32 s = .ok out → base58Decode32 s' = .ok out → s = s') ∧
    ∀ out : List UInt8, out.length = 32 → ∃! s, base58Decode32 s = .ok out := by
  have hdecode : ∀ s out,
      base58Decode32 s = .ok out ↔ out.length = 32 ∧ standardBase58 out = s := by
    intro s out
    rw [base58Decode32_ok_iff, base58Encode_eq]
  refine ⟨hdecode, ?_, ?_⟩
  · intro s s' out hs hs'
    exact ((hdecode s out).mp hs).2.symm.trans ((hdecode s' out).mp hs').2
  · intro out hlength
    refine ⟨standardBase58 out, (hdecode _ _).mpr ⟨hlength, rfl⟩, ?_⟩
    intro s hs
    exact ((hdecode s out).mp hs).2.symm

end Base58

/-- An address of the client: the base58 text of a key. -/
structure Address where
  text : String
  key : Pubkey
  decoded : base58Decode32 text = .ok key.bytes

namespace Address

def ofKey (key : Pubkey) : Address where
  text := base58Encode key.bytes
  key := key
  decoded := base58Decode32_ok_iff.mpr ⟨key.bytes_length, rfl⟩

theorem text_eq_iff {a b : Address} : a.text = b.text ↔ a.key = b.key := by
  constructor
  · intro h
    have hbytes := a.decoded.symm.trans ((congrArg base58Decode32 h).trans b.decoded)
    exact Pubkey.bytes_injective (Except.ok.inj hbytes)
  · intro h
    rw [← (base58Decode32_ok_iff.mp a.decoded).2, h, (base58Decode32_ok_iff.mp b.decoded).2]

end Address

section Writers

/-- A sequence of writes to the buffer of an encoder. -/
abbrev Encoder := Fill.Writer EncodeError UInt8

/-- The byte that is stored for a number. -/
def lowByte (v : ℤ) : UInt8 := UInt8.ofNat (v % 256).toNat

/-- The bytes that a `DataView` stores for a number. -/
def lowBytes (w : ℕ) (v : ℤ) : List UInt8 := leBytes w (v % 256 ^ w).toNat

/-- `buf.set(bytes, off)`, and the cursor moves by the length of what was written. -/
def setBytes (bytes : List UInt8) : Encoder Unit := put .outOfRange bytes

/-- `buf[off++] = v`. -/
def setByte (v : ℤ) : Encoder Unit := poke (lowByte v)

def setBool (b : Bool) : Encoder Unit := setByte (if b then 1 else 0)

def writeU8 (v : ℤ) : Encoder Unit := put .outOfRange [lowByte v]

def writeU16Le (v : ℤ) : Encoder Unit := put .outOfRange (lowBytes 2 v)

def writeU32Le (v : ℤ) : Encoder Unit := put .outOfRange (lowBytes 4 v)

def writeU64Le (v : ℤ) : Encoder Unit := put .outOfRange (lowBytes 8 v)

/-- The length of a list in front of its entries. -/
def writeList {α : Type} (entry : α → Encoder Unit) (l : List α) : Encoder Unit := do
  writeU32Le l.length
  l.forM entry

theorem lowBytes_natCast (w n : ℕ) : lowBytes w n = leBytes w n := by
  rw [lowBytes, ← leBytes_mod w n]
  norm_cast

theorem emits_setBytes (bytes : List UInt8) : Emits 0 (setBytes bytes) bytes := emits_put _ _

theorem lowByte_toNat (b : UInt8) : lowByte b.toNat = b := by
  rw [lowByte, Int.emod_eq_of_lt (Int.natCast_nonneg _) (by exact_mod_cast b.toNat_lt),
    Int.toNat_natCast, UInt8.ofNat_toNat]

theorem emits_setByte {v : ℤ} {b : UInt8} (h : v = b.toNat) : Emits 0 (setByte v) [b] := by
  rw [h, setByte, lowByte_toNat]
  exact emits_poke _

theorem emits_setBool {b b' : Bool} (h : b = b') : Emits 0 (setBool b) [boolByte b'] := by
  subst h
  refine emits_setByte ?_
  cases b <;> rfl

theorem emits_writeU16Le {v : ℤ} {n : UInt16} (h : v = n.toNat) :
    Emits 0 (writeU16Le v) (leBytes 2 n.toNat) := by
  rw [h, ← lowBytes_natCast]
  exact emits_put _ _

theorem emits_writeU32Le {v : ℤ} {n : UInt32} (h : v = n.toNat) :
    Emits 0 (writeU32Le v) (leBytes 4 n.toNat) := by
  rw [h, ← lowBytes_natCast]
  exact emits_put _ _

theorem emits_writeU64Le {v : ℤ} {n : UInt64} (h : v = n.toNat) :
    Emits 0 (writeU64Le v) (leBytes 8 n.toNat) := by
  rw [h, ← lowBytes_natCast]
  exact emits_put _ _

theorem emits_writeList {α β : Type} {entry : α → Encoder Unit} {enc : β → List UInt8}
    {l : List α} {l' : List β} (h : List.Forall₂ (fun a b => Emits 0 (entry a) (enc b)) l l') :
    Emits 0 (writeList entry l) (counted enc l') := by
  have hcount : Emits 0 (writeU32Le l.length) (leBytes 4 l'.length) := by
    rw [← h.length_eq, ← lowBytes_natCast]
    exact emits_put _ _
  exact hcount.seq (emits_forM h)

end Writers

/-- A host whose digests are the words of 32 bytes. -/
class WordHost (D : Type) [Host D] : Prop where
  digestBytes_length : ∀ d : D, (Host.digestBytes d).length = 32
  digestBytes_injective : Function.Injective (Host.digestBytes : D → List UInt8)
  exists_digest : ∀ bytes : List UInt8, bytes.length = 32 → ∃ d : D, Host.digestBytes d = bytes
  digestBytes_zero : Host.digestBytes (Host.zeroDigest : D) = List.replicate 32 0

end Sigil.Client
