import Sigil.Client.PolicyDigests
import Sigil.Instructions.PostAssertions

/-! # The client's check of assertions

The client checks a list of assertions before it sends them, with a validator of its own. It accepts
what the program accepts, except that it looks at the operator of every entry and the program only
at those of the modes that compare bytes.
-/

namespace Sigil.Client

open Guard SelfDelimiting

section Validator

/-- An assertion as the caller builds it. Numbers are those of the language, not of the account. -/
structure AssertionInput where
  targetAccount : String
  offset : ℤ
  valueLen : ℤ
  operator : ℤ
  expectedValue : List UInt8
  assertionMode : ℤ
  auxValue : List UInt8
  auxByte : ℤ

inductive PostAssertionValidationCode
  | entriesNotAnArray
  | entriesContainNull
  | entryCountOutOfRange
  | valueLenOutOfRange
  | expectedValueTooShort
  | operatorOutOfRange
  | assertionModeOutOfRange
  | offsetOutOfRange
  | deltaModeValueLenTooLarge
  | legacyModeAuxValueMustBeZero
  | legacyModeAuxByteMustBeZero
  | mintDeltaCapScopeOutOfRange
  | mintDeltaCapZeroMaxNetDecrease
  | mintDeltaCapMintTooShort
  | ataAuthorityPinDefaultTarget
  | ataAuthorityPinAuxMustBeZero
  | outputBalanceFloorDefaultTarget
  | outputBalanceFloorMintTooShort
  | outputBalanceFloorZeroMinIncrease
  | outputBalanceFloorAuxByteMustBeZero
  | declarationDefaultRecipient
  | declarationMintTooShort
  | declarationZeroMint
  | declarationMetaIndexTooLarge
  | declarationAuxValueMustBeZero
  deriving DecidableEq

/-- The code of a failure and the index of the entry, if it is one of an entry. -/
structure PostAssertionValidationError where
  validationCode : PostAssertionValidationCode
  entryIndex : Option ℕ
  deriving DecidableEq

def maxOperatorValue : ℤ := 6

def maxAssertionModeValue : ℤ := 7

def deltaMaxValueLen : ℤ := 8

def maxMetaIndex : ℤ := 63

def maxMintDeltaCapScope : ℤ := 1

def pubkeyBytes : ℕ := 32

/-- An address that is missing is the empty text here. -/
def isZeroPubkeyAddress (addr : String) : Bool := addr = zeroKeyText || addr = ""

def isZeroPubkeyBytes (bytes : List UInt8) : Bool :=
  if bytes.length < pubkeyBytes then true else (bytes.take pubkeyBytes).all (· = 0)

def isZeroAuxValue (aux : List UInt8) : Bool :=
  if aux.length ≠ 8 then false else (aux.take 8).all (· = 0)

/-- The loop from the last byte to the first. -/
def readAuxValueU64 (aux : List UInt8) : ℕ :=
  [7, 6, 5, 4, 3, 2, 1, 0].foldl (fun v i => v <<< 8 ||| (aux.getD i 0).toNat) 0

abbrev Checked := Except PostAssertionValidationError Unit

def checkEntry (p : Prop) [Decidable p] (code : PostAssertionValidationCode)
    (index : ℕ) : Checked :=
  require p ⟨code, some index⟩

def requireUintInRange (value max : ℤ) (code : PostAssertionValidationCode) (index : ℕ) : Checked :=
  checkEntry (0 ≤ value ∧ value ≤ max) code index

variable (entry : AssertionInput) (index : ℕ)

def validatePhase6Entry : Checked := do
  requireUintInRange entry.auxByte 0xff .assertionModeOutOfRange index
  match entry.assertionMode with
  | 4 => do
    checkEntry (pubkeyBytes ≤ entry.expectedValue.length) .mintDeltaCapMintTooShort index
    checkEntry (entry.auxByte ≤ maxMintDeltaCapScope) .mintDeltaCapScopeOutOfRange index
    checkEntry (readAuxValueU64 entry.auxValue ≠ 0) .mintDeltaCapZeroMaxNetDecrease index
  | 5 => do
    checkEntry (¬ isZeroPubkeyAddress entry.targetAccount) .ataAuthorityPinDefaultTarget index
    checkEntry (isZeroAuxValue entry.auxValue) .ataAuthorityPinAuxMustBeZero index
    checkEntry (entry.auxByte = 0) .ataAuthorityPinAuxMustBeZero index
  | 6 => do
    checkEntry (¬ isZeroPubkeyAddress entry.targetAccount) .outputBalanceFloorDefaultTarget index
    checkEntry (pubkeyBytes ≤ entry.expectedValue.length) .outputBalanceFloorMintTooShort index
    checkEntry (readAuxValueU64 entry.auxValue ≠ 0) .outputBalanceFloorZeroMinIncrease index
    checkEntry (entry.auxByte = 0) .outputBalanceFloorAuxByteMustBeZero index
  | 7 => do
    checkEntry (¬ isZeroPubkeyAddress entry.targetAccount) .declarationDefaultRecipient index
    checkEntry (pubkeyBytes ≤ entry.expectedValue.length) .declarationMintTooShort index
    checkEntry (¬ isZeroPubkeyBytes entry.expectedValue) .declarationZeroMint index
    checkEntry (entry.auxByte ≤ maxMetaIndex) .declarationMetaIndexTooLarge index
    checkEntry (isZeroAuxValue entry.auxValue) .declarationAuxValueMustBeZero index
  | _ => .error ⟨.assertionModeOutOfRange, some index⟩

def validateLegacyEntry : Checked := do
  requireUintInRange entry.valueLen maxConstraintValueLen .valueLenOutOfRange index
  checkEntry (entry.valueLen ≠ 0) .valueLenOutOfRange index
  checkEntry (entry.valueLen ≤ entry.expectedValue.length) .expectedValueTooShort index
  checkEntry (1 ≤ entry.assertionMode ∧ entry.assertionMode ≤ 3 →
    entry.valueLen ≤ deltaMaxValueLen) .deltaModeValueLenTooLarge index
  checkEntry (isZeroAuxValue entry.auxValue) .legacyModeAuxValueMustBeZero index
  checkEntry (entry.auxByte = 0) .legacyModeAuxByteMustBeZero index

def validateSingleEntry : Checked := do
  requireUintInRange entry.offset 0xffff .offsetOutOfRange index
  requireUintInRange entry.operator maxOperatorValue .operatorOutOfRange index
  requireUintInRange entry.assertionMode maxAssertionModeValue .assertionModeOutOfRange index
  if 4 ≤ entry.assertionMode then validatePhase6Entry entry index
  else validateLegacyEntry entry index

/-- What is not an array is `none`, and so is an entry that is missing. -/
def validatePostAssertionEntries (entries : Option (List (Option AssertionInput))) : Checked := do
  let entries ← okOr ⟨.entriesNotAnArray, none⟩ entries
  require (¬ (entries.length = 0 ∨ maxPostAssertionEntries < entries.length))
    ⟨.entryCountOutOfRange, none⟩
  entries.zipIdx.forM fun (entry, index) => do
    let entry ← okOr ⟨.entriesContainNull, some index⟩ entry
    validateSingleEntry entry index

end Validator

section Agreement

/-- The well-typed input that stands for an entry of the program. -/
structure AssertionInput.Represents (t : AssertionInput) (e : PostAssertionEntry) : Prop where
  targetAccount : TextOf t.targetAccount e.targetAccount
  offset : t.offset = e.offset.toNat
  valueLen : t.valueLen = e.valueLen.toNat
  operator : t.operator = e.operator.toNat
  expectedValue : t.expectedValue = e.expectedValue
  assertionMode : t.assertionMode = e.assertionMode.toNat
  auxValue : t.auxValue = e.auxValue.toList
  auxByte : t.auxByte = e.auxByte.toNat

/-- Fields in their ranges, bytes of the declared size and an address that is one. -/
structure AssertionInput.WellTyped (t : AssertionInput) : Prop where
  targetAccount : ∃ bytes, base58Decode32 t.targetAccount = .ok bytes
  offset : 0 ≤ t.offset ∧ t.offset < 2 ^ 16
  valueLen : 0 ≤ t.valueLen ∧ t.valueLen < 2 ^ 8
  operator : 0 ≤ t.operator ∧ t.operator < 2 ^ 8
  assertionMode : 0 ≤ t.assertionMode ∧ t.assertionMode < 2 ^ 8
  auxValue : t.auxValue.length = 8
  auxByte : 0 ≤ t.auxByte ∧ t.auxByte < 2 ^ 8

variable {t : AssertionInput} {e : PostAssertionEntry} {index : ℕ}

theorem checkEntry_ok_iff {p : Prop} [Decidable p] {code : PostAssertionValidationCode} {u : Unit} :
    checkEntry p code index = .ok u ↔ p :=
  require_ok_iff

theorem ofNat8_toNat {v : ℤ} (h : 0 ≤ v ∧ v < 2 ^ 8) : v = (UInt8.ofNat v.toNat).toNat := by
  rw [UInt8.toNat_ofNat_of_lt' (by rw [UInt8.size]; omega)]
  omega

theorem AssertionInput.WellTyped.exists_represents (h : t.WellTyped) : ∃ e, t.Represents e := by
  obtain ⟨bytes, hbytes⟩ := h.targetAccount
  obtain ⟨k, hk, -⟩ := exists_textOf hbytes
  have hoffset : t.offset = (UInt16.ofNat t.offset.toNat).toNat := by
    have := h.offset
    rw [UInt16.toNat_ofNat_of_lt' (by rw [UInt16.size]; omega)]
    omega
  exact ⟨⟨k, .ofNat t.offset.toNat, .ofNat t.valueLen.toNat, .ofNat t.operator.toNat,
    t.expectedValue, .ofNat t.assertionMode.toNat, ⟨t.auxValue, h.auxValue⟩,
    .ofNat t.auxByte.toNat⟩, hk, hoffset, ofNat8_toNat h.valueLen, ofNat8_toNat h.operator, rfl,
    ofNat8_toNat h.assertionMode, rfl, ofNat8_toNat h.auxByte⟩

theorem AssertionInput.Represents.isZeroPubkeyAddress_iff (h : t.Represents e) :
    isZeroPubkeyAddress t.targetAccount ↔ e.targetAccount = Pubkey.default := by
  have hsome : t.targetAccount ≠ "" := by
    intro hempty
    have htext := h.targetAccount
    rw [hempty] at htext
    cases htext
  simp only [isZeroPubkeyAddress, Bool.or_eq_true, decide_eq_true_eq, hsome, or_false]
  exact h.targetAccount.eq_iff textOf_zeroKeyText

theorem eq_replicate_zero_iff {bytes : List UInt8} {n : ℕ} (h : bytes.length = n) :
    bytes = List.replicate n 0 ↔ ∀ b ∈ bytes, b = 0 := by
  rw [List.eq_replicate_iff]
  exact and_iff_right h

theorem readAuxValueU64_eq {aux : List UInt8} (h : aux.length = 8) :
    readAuxValueU64 aux = ofLeBytes aux := by
  match aux, h with
  | [b₀, b₁, b₂, b₃, b₄, b₅, b₆, b₇], _ =>
    have hor (v : ℕ) (b : UInt8) : v <<< 8 ||| b.toNat = v * 256 + b.toNat := by
      rw [← Nat.shiftLeft_add_eq_or_of_lt b.toNat_lt, Nat.shiftLeft_eq]
    simp only [readAuxValueU64, List.foldl_cons, List.foldl_nil, hor, ofLeBytes,
      List.getD_cons_zero, List.getD_cons_succ]
    omega

theorem AssertionInput.Represents.isZeroAuxValue_iff (h : t.Represents e) :
    isZeroAuxValue t.auxValue ↔ e.auxIsZero = true := by
  have hlength : e.auxValue.toList.length = 8 := e.auxValue.toList_length
  rw [h.auxValue, isZeroAuxValue, if_neg (not_not.mpr hlength), List.take_of_length_le hlength.le,
    PostAssertionEntry.auxIsZero, decide_eq_true_eq, ← List.Vector.toList_injective.eq_iff]
  change _ ↔ e.auxValue.toList = List.replicate 8 0
  rw [eq_replicate_zero_iff hlength]
  simp

theorem AssertionInput.Represents.readAuxValueU64_iff (h : t.Represents e) :
    readAuxValueU64 t.auxValue ≠ 0 ↔ 0 < e.auxAmount := by
  have hlength : e.auxValue.toList.length = 8 := e.auxValue.toList_length
  have hamount : e.auxAmount.toNat = ofLeBytes e.auxValue.toList := u64At_toNat hlength.le
  rw [h.auxValue, readAuxValueU64_eq hlength, ← hamount, UInt64.lt_iff_toNat_lt, UInt64.toNat_zero]
  exact Nat.pos_iff_ne_zero.symm

theorem AssertionInput.Represents.isZeroPubkeyBytes_iff (h : t.Represents e)
    (hlength : 32 ≤ e.expectedValue.length) :
    isZeroPubkeyBytes t.expectedValue ↔ e.mint = Pubkey.default := by
  have hbytes : e.mint.bytes = e.expectedValue.take 32 := by
    change (e.expectedValue.drop 0 ++ List.replicate 32 0).take 32 = _
    rw [List.drop_zero, List.take_append_of_le_length hlength]
  have htake : (e.expectedValue.take 32).length = 32 := List.length_take_of_le hlength
  rw [h.expectedValue, isZeroPubkeyBytes, pubkeyBytes, if_neg (Nat.not_lt.mpr hlength),
    ← Pubkey.bytes_injective.eq_iff, hbytes]
  change _ ↔ e.expectedValue.take 32 = List.replicate 32 0
  rw [eq_replicate_zero_iff htake]
  simp

theorem AssertionInput.Represents.auxByte_le_iff (h : t.Represents e) {n : ℕ} {b : UInt8}
    (hb : b.toNat = n) : t.auxByte ≤ n ↔ e.auxByte ≤ b := by
  rw [h.auxByte, UInt8.le_iff_toNat_le, hb]
  exact Int.ofNat_le

theorem AssertionInput.Represents.auxByte_eq_zero_iff (h : t.Represents e) :
    t.auxByte = 0 ↔ e.auxByte = 0 := by
  rw [h.auxByte, ← UInt8.toNat_inj, UInt8.toNat_zero]
  omega

theorem tryFrom_operator_isSome_iff {v : UInt8} :
    (ConstraintOperator.tryFrom v).isSome = true ↔ v ≤ 6 := by
  rw [ConstraintOperator.tryFrom, Option.isSome_iff_ne_none, Ne, List.getElem?_eq_none_iff,
    UInt8.le_iff_toNat_le]
  change ¬ 7 ≤ v.toNat ↔ v.toNat ≤ 6
  omega

theorem AssertionInput.Represents.validateLegacyEntry_ok_iff (h : t.Represents e)
    (hop : e.operator ≤ 6) :
    validateLegacyEntry t index = .ok () ↔ e.validateBytes = .ok () := by
  have hlen := h.valueLen
  have hmode := h.assertionMode
  have hvalue : ((0 ≤ t.valueLen ∧ t.valueLen ≤ maxConstraintValueLen) ∧ t.valueLen ≠ 0) ↔
      0 < e.valueLen ∧ e.valueLen.toNat ≤ maxConstraintValueLen := by
    rw [UInt8.lt_iff_toNat_lt, UInt8.toNat_zero]
    omega
  have hdelta : (1 ≤ t.assertionMode ∧ t.assertionMode ≤ 3 → t.valueLen ≤ deltaMaxValueLen) ↔
      (1 ≤ e.assertionMode ∧ e.assertionMode ≤ 3 → e.valueLen ≤ 8) := by
    rw [UInt8.le_iff_toNat_le, UInt8.le_iff_toNat_le, UInt8.le_iff_toNat_le, deltaMaxValueLen]
    change _ ↔ (1 ≤ e.assertionMode.toNat ∧ e.assertionMode.toNat ≤ 3 → e.valueLen.toNat ≤ 8)
    omega
  have hexpected : t.valueLen ≤ t.expectedValue.length ↔
      e.valueLen.toNat ≤ e.expectedValue.length := by
    rw [h.expectedValue]
    omega
  simp only [validateLegacyEntry, PostAssertionEntry.validateBytes, requireUintInRange, seq_ok_iff,
    checkEntry_ok_iff, ensure_ok_iff, exists_and_left, exists_const, hexpected, hdelta,
    h.isZeroAuxValue_iff, h.auxByte_eq_zero_iff, tryFrom_operator_isSome_iff, hop,
    true_and, ← hvalue, and_assoc]

def modeCode : AssertionMode → ℤ
  | .absolute => 0
  | .maxDecrease => 1
  | .maxIncrease => 2
  | .noChange => 3
  | .mintDeltaCap => 4
  | .ataAuthorityPin => 5
  | .outputBalanceFloor => 6
  | .declarationConsistency => 7

theorem toNat_of_tryFrom {v : UInt8} {mode : AssertionMode}
    (h : AssertionMode.tryFrom v = some mode) : (v.toNat : ℤ) = modeCode mode := by
  rw [AssertionMode.tryFrom, List.getElem?_eq_some_iff] at h
  obtain ⟨hlt, hmode⟩ := h
  generalize v.toNat = n at hlt hmode
  change n < 8 at hlt
  interval_cases n <;> exact congrArg modeCode hmode

theorem AssertionInput.Represents.validatePhase6Entry_ok_iff (h : t.Represents e)
    {mode : AssertionMode} (hmode : AssertionMode.tryFrom e.assertionMode = some mode)
    (hphase6 : 4 ≤ modeCode mode) :
    validatePhase6Entry t index = .ok () ↔ e.validate = .ok () := by
  have hnumber : t.assertionMode = modeCode mode := by
    rw [h.assertionMode, toNat_of_tryFrom hmode]
  have haux : 0 ≤ t.auxByte ∧ t.auxByte ≤ 0xff := by
    have := e.auxByte.toNat_lt
    rw [h.auxByte]
    omega
  have hscope : t.auxByte ≤ maxMintDeltaCapScope ↔ e.auxByte ≤ 1 := h.auxByte_le_iff rfl
  have hindex : t.auxByte ≤ maxMetaIndex ↔ e.auxByte < 64 := by
    rw [h.auxByte, maxMetaIndex, UInt8.lt_iff_toNat_lt]
    change _ ↔ e.auxByte.toNat < 64
    omega
  have hmint : 32 ≤ e.expectedValue.length →
      (isZeroPubkeyBytes e.expectedValue ↔ e.mint = Pubkey.default) := by
    intro hlength
    rw [← h.expectedValue]
    exact h.isZeroPubkeyBytes_iff hlength
  cases mode with
  | absolute | maxDecrease | maxIncrease | noChange => exact absurd hphase6 (by decide)
  | _ =>
    simp only [modeCode] at hnumber
    simp only [validatePhase6Entry, requireUintInRange, PostAssertionEntry.validate, hmode, hnumber,
      someOr, seq_ok_iff, checkEntry_ok_iff, okOr_ok_iff, Option.some.injEq, exists_eq_left',
      exists_and_left, exists_const, haux, hscope, hindex, h.expectedValue,
      h.isZeroPubkeyAddress_iff, h.isZeroAuxValue_iff, h.readAuxValueU64_iff,
      h.auxByte_eq_zero_iff, pubkeyBytes]
    -- The mint is read only once it is known to be there.
    simp +contextual only [ensure_ok_iff, exists_and_left, exists_const, ne_eq, true_and, hmint,
      and_congr_right_iff, implies_true]

/-- One entry passes the client's check when it passes the program's and has a known operator. -/
theorem AssertionInput.Represents.validateSingleEntry_ok_iff (h : t.Represents e) :
    validateSingleEntry t index = .ok () ↔ e.validate = .ok () ∧ e.operator ≤ 6 := by
  have hoffset : 0 ≤ t.offset ∧ t.offset ≤ 0xffff := by
    have := e.offset.toNat_lt
    rw [h.offset]
    omega
  have hop : 0 ≤ t.operator ∧ t.operator ≤ maxOperatorValue ↔ e.operator ≤ 6 := by
    rw [h.operator, maxOperatorValue, UInt8.le_iff_toNat_le]
    change _ ↔ e.operator.toNat ≤ 6
    omega
  simp only [validateSingleEntry, requireUintInRange, seq_ok_iff, checkEntry_ok_iff,
    exists_and_left, exists_const, hoffset, hop, true_and]
  rw [and_comm (b := e.operator ≤ 6)]
  refine and_congr_right fun hop => ?_
  cases hmode : AssertionMode.tryFrom e.assertionMode with
  | none =>
    have hlarge : ¬ t.assertionMode ≤ maxAssertionModeValue := by
      rw [AssertionMode.tryFrom, List.getElem?_eq_none_iff] at hmode
      change 8 ≤ e.assertionMode.toNat at hmode
      rw [h.assertionMode, maxAssertionModeValue]
      omega
    rw [PostAssertionEntry.validate, hmode]
    exact ⟨fun hin => absurd hin.1.2 hlarge, fun hvalid => nomatch hvalid⟩
  | some mode =>
    have hnumber : t.assertionMode = modeCode mode := by
      rw [h.assertionMode, toNat_of_tryFrom hmode]
    rw [and_iff_right (by rw [hnumber]; cases mode <;> decide)]
    split
    next hphase6 => exact h.validatePhase6Entry_ok_iff hmode (hnumber ▸ hphase6)
    next hlegacy =>
      rw [h.validateLegacyEntry_ok_iff hop, PostAssertionEntry.validate, hmode]
      cases mode with
      | absolute | maxDecrease | maxIncrease | noChange => exact Iff.rfl
      | _ => exact absurd (hnumber ▸ (by decide)) hlegacy

theorem forM_validateSingleEntry_ok_iff {ts : List AssertionInput} {es : List PostAssertionEntry}
    (h : List.Forall₂ AssertionInput.Represents ts es) (start : ℕ) :
    ((ts.map some).zipIdx start).forM (fun (entry, index) => do
        let entry ← okOr ⟨.entriesContainNull, some index⟩ entry
        validateSingleEntry entry index) = (.ok () : Checked) ↔
      ∀ e ∈ es, e.validate = .ok () ∧ e.operator ≤ 6 := by
  induction h generalizing start with
  | nil => exact iff_of_true rfl fun e he => absurd he List.not_mem_nil
  | cons h _ ih =>
    simp only [List.map_cons, List.zipIdx_cons, List.forM, seq_ok_iff, okOr_ok_iff,
      Option.some.injEq, exists_eq_left', exists_and_left, exists_const,
      h.validateSingleEntry_ok_iff, ih (start + 1), List.forall_mem_cons]

theorem exists_forall₂_represents {ts : List AssertionInput} (h : ∀ t ∈ ts, t.WellTyped) :
    ∃ es, List.Forall₂ AssertionInput.Represents ts es := by
  induction ts with
  | nil => exact ⟨[], .nil⟩
  | cons t ts ih =>
    obtain ⟨htyped, hrest⟩ := List.forall_mem_cons.mp h
    obtain ⟨e, he⟩ := htyped.exists_represents
    obtain ⟨es, hes⟩ := ih hrest
    exact ⟨e :: es, .cons he hes⟩

/-- Every list of well-typed inputs stands for a list of entries, and the two validators agree on
them but for the operators: the program reads those of the first four modes only. -/
theorem validatePostAssertionEntries_ok_iff {ts : List AssertionInput}
    (htyped : ∀ t ∈ ts, t.WellTyped) :
    (∃ es, List.Forall₂ AssertionInput.Represents ts es) ∧
      ∀ es, List.Forall₂ AssertionInput.Represents ts es →
        (validatePostAssertionEntries (some (ts.map some)) = .ok () ↔
          validateEntries es = .ok () ∧ ∀ e ∈ es, e.operator ≤ 6) := by
  refine ⟨exists_forall₂_represents htyped, fun es h => ?_⟩
  have hcount : ¬ ((ts.map some).length = 0 ∨ maxPostAssertionEntries < (ts.map some).length) ↔
      es ≠ [] ∧ es.length ≤ maxPostAssertionEntries := by
    rw [List.length_map, h.length_eq, List.length_eq_zero_iff, not_or, Nat.not_lt]
  simp only [validatePostAssertionEntries, validateEntries, seq_ok_iff, okOr_ok_iff,
    Option.some.injEq, exists_eq_left', exists_and_left, exists_const, require_ok_iff,
    ensure_ok_iff, hcount, forM_validateSingleEntry_ok_iff h 0, and_assoc]
  rw [forM_ok_iff, ← forall₂_and]

/-- A cap on what one mint may lose, with an operator that the program does not read. -/
def looseCap (operator : UInt8) : PostAssertionEntry where
  targetAccount := Pubkey.default
  offset := 0
  valueLen := 0
  operator := operator
  expectedValue := List.replicate 32 1
  assertionMode := 4
  auxValue := ⟨[5, 0, 0, 0, 0, 0, 0, 0], rfl⟩
  auxByte := 1

def looseCapInput (operator : ℤ) : AssertionInput where
  targetAccount := zeroKeyText
  offset := 0
  valueLen := 0
  operator := operator
  expectedValue := List.replicate 32 1
  assertionMode := 4
  auxValue := [5, 0, 0, 0, 0, 0, 0, 0]
  auxByte := 1

theorem looseCapInput_represents (operator : UInt8) :
    (looseCapInput operator.toNat).Represents (looseCap operator) where
  targetAccount := textOf_zeroKeyText
  offset := rfl
  valueLen := rfl
  operator := rfl
  expectedValue := rfl
  assertionMode := rfl
  auxValue := rfl
  auxByte := rfl

theorem looseCapInput_wellTyped : (looseCapInput 7).WellTyped where
  targetAccount := ⟨_, textOf_zeroKeyText⟩
  offset := by decide
  valueLen := by decide
  operator := by decide
  assertionMode := by decide
  auxValue := rfl
  auxByte := by decide

/-- The program takes an operator that it does not read and the client does not. -/
theorem validatePostAssertionEntries_looseCap :
    validateEntries [looseCap 7] = .ok () ∧
      validatePostAssertionEntries (some [some (looseCapInput 7)]) ≠ .ok () := by
  have hagree := (validatePostAssertionEntries_ok_iff
    (List.forall_mem_singleton.mpr looseCapInput_wellTyped)).2 [looseCap 7]
    (.cons (looseCapInput_represents 7) .nil)
  refine ⟨by decide +kernel, fun haccepted => ?_⟩
  exact absurd ((hagree.mp haccepted).2 _ List.mem_cons_self) (by decide)

end Agreement

end Sigil.Client
