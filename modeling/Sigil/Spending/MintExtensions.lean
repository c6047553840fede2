import Sigil.Library.TypeLengthValue
import Sigil.Instructions.Funds

/-! # Extensions of a mint

A mint of the newer token program that has extensions lists them as type-length-value records.
Such a mint is accepted when the bytes in front of the records are in order, the records can be
read to the end, their types are on the allowlist, and there are at most 64 headers to look at.
The header whose type of zero ends the list is one of them: 64 extensions are accepted at the very
end of the account and rejected when one more header follows.
-/

namespace Sigil

open Guard TypeLengthValue

section Records

variable {n cursor : ℕ} {data word : List UInt8}

/-- The extensions can be read with at most `n` headers, and are all on the allowlist. -/
def AllowedExtensions (n : ℕ) (word : List UInt8) : Prop :=
  ∃ (rs : List (Record 2 2)) (rest : List UInt8), Reads word rs rest ∧ headers rs rest ≤ n ∧
    ∀ r ∈ rs, isAllowlistedExtension r.kind = true

theorem AllowedExtensions.of_short (h : word.length < 4) : AllowedExtensions n word := by
  refine ⟨[], word, .nil (.inl h), ?_, List.forall_mem_nil _⟩
  simp [headers, h]

theorem AllowedExtensions.of_zero (h : kindAt 2 word = 0) : AllowedExtensions (n + 1) word := by
  refine ⟨[], word, .nil (.inr h), ?_, List.forall_mem_nil _⟩
  unfold headers
  split
  · exact Nat.zero_le _
  · exact Nat.succ_le_succ (Nat.zero_le n)

theorem allowedExtensions_zero_iff : AllowedExtensions 0 word ↔ word.length < 4 := by
  refine ⟨?_, .of_short⟩
  rintro ⟨rs, rest, hreads, hheaders, -⟩
  obtain ⟨hrs, hrest⟩ := Nat.add_eq_zero_iff.mp (Nat.le_zero.mp hheaders)
  obtain rfl := List.eq_nil_of_length_eq_zero hrs
  obtain rfl : word = rest := hreads.word
  by_contra hlong
  simp [hlong] at hrest

theorem allowedExtensions_succ_iff (hgoes : ¬ Stops 2 2 word) :
    AllowedExtensions (n + 1) word ↔ isAllowlistedExtension (kindAt 2 word) = true ∧
      4 + lengthAt 2 2 word ≤ word.length ∧
      AllowedExtensions n (word.drop (4 + lengthAt 2 2 word)) := by
  constructor
  · rintro ⟨rs, rest, hreads, hheaders, hallowed⟩
    obtain ⟨r, rs, rfl, hkind, hfits, htail⟩ := hreads.exists_cons hgoes
    obtain ⟨hr, hrs⟩ := List.forall_mem_cons.mp hallowed
    refine ⟨hkind ▸ hr, hfits, rs, rest, htail, ?_, hrs⟩
    simp only [headers, List.length_cons] at hheaders ⊢
    omega
  · rintro ⟨hr, hfits, rs, rest, htail, hheaders, hrs⟩
    obtain ⟨r, hkind, hreads⟩ := htail.exists_of_drop hgoes hfits
    refine ⟨r :: rs, rest, hreads, ?_, List.forall_mem_cons.mpr ⟨hkind ▸ hr, hrs⟩⟩
    simp only [headers, List.length_cons] at hheaders ⊢
    omega

theorem u16At_eq_lengthAt : u16At data (cursor + 2) = lengthAt 2 2 (data.drop cursor) := by
  rw [u16At, lengthAt, List.drop_drop]

theorem length_drop_lt_iff : (data.drop cursor).length < 4 ↔ data.length < cursor + 4 := by
  rw [List.length_drop]
  omega

theorem walkExtensions_ok_iff (data : List UInt8) (fuel cursor : ℕ) :
    walkExtensions data fuel cursor = .ok () ↔ AllowedExtensions fuel (data.drop cursor) := by
  induction fuel generalizing cursor with
  | zero => rw [walkExtensions, ensure_ok_iff, allowedExtensions_zero_iff, length_drop_lt_iff]
  | succ fuel ih =>
    rw [walkExtensions]
    split_ifs with hshort hzero
    · exact iff_of_true rfl (.of_short (length_drop_lt_iff.mpr hshort))
    · exact iff_of_true rfl (.of_zero hzero)
    · have hgoes : ¬ Stops 2 2 (data.drop cursor) := by
        rintro (hlow | hnone)
        · exact hshort (length_drop_lt_iff.mp hlow)
        · exact hzero hnone
      have hnext : cursor + 4 + u16At data (cursor + 2) ≤ data.length ↔
          4 + lengthAt 2 2 (data.drop cursor) ≤ (data.drop cursor).length := by
        rw [u16At_eq_lengthAt, List.length_drop]
        omega
      have hdrop : (data.drop cursor).drop (4 + lengthAt 2 2 (data.drop cursor)) =
          data.drop (cursor + 4 + u16At data (cursor + 2)) := by
        rw [u16At_eq_lengthAt, List.drop_drop, Nat.add_assoc]
      simp only [seq_ok_iff, ensure_ok_iff, exists_and_left, exists_const, ih]
      rw [allowedExtensions_succ_iff hgoes, hdrop, ← hnext]
      rfl

end Records

section Loop

/-- The loop over the records: where it is, how many headers it has looked at, and its result once
it is left. -/
structure TlvLoop where
  cursor : ℕ
  iterCount : ℕ
  outcome : Option (Result Unit)

namespace TlvLoop

def start : TlvLoop := ⟨token2022AccountTypeIndex + 1, 0, none⟩

def leave (s : TlvLoop) (r : Result Unit) : TlvLoop := { s with outcome := some r }

def count (s : TlvLoop) : TlvLoop := { s with iterCount := s.iterCount + 1 }

/-- One pass through the loop, with its exits. -/
def pass (data : List UInt8) (s : TlvLoop) : TlvLoop :=
  if data.length < s.cursor + 4 then s.leave (.ok ())
  else if maxTlvIterations ≤ s.iterCount then s.leave (fail .errToken2022ExtensionForbidden)
  else if u16At data s.cursor = 0 then s.count.leave (.ok ())
  else if isAllowlistedExtension (u16At data s.cursor) = false then
    s.count.leave (fail .errToken2022ExtensionForbidden)
  else if data.length < s.cursor + 4 + u16At data (s.cursor + 2) then
    s.count.leave (fail .errToken2022ExtensionForbidden)
  else { s.count with cursor := s.cursor + 4 + u16At data (s.cursor + 2) }

/-- The loop goes on until it has a result. -/
def Pass (data : List UInt8) (s s' : TlvLoop) : Prop := s.outcome = none ∧ s' = s.pass data

variable {data : List UInt8} {s s' : TlvLoop}

theorem Pass.progress (h : Pass data s s') (hgoes : s'.outcome = none) :
    s.cursor + 4 ≤ s'.cursor ∧ s'.cursor ≤ data.length := by
  obtain ⟨-, rfl⟩ := h
  unfold pass at hgoes ⊢
  split_ifs at hgoes ⊢ with hshort hmany hzero hforbidden hpast
  all_goals first | cases hgoes | exact ⟨Nat.le_add_right _ _, not_lt.mp hpast⟩

theorem Pass.iterCount_le (h : Pass data s s') (hs : s.iterCount ≤ maxTlvIterations) :
    s'.iterCount ≤ maxTlvIterations := by
  obtain ⟨-, rfl⟩ := h
  unfold pass
  split_ifs with hshort hmany
  all_goals simp only [leave, count]; omega

theorem pass_spec (data : List UInt8) {fuel : ℕ} (hnone : s.outcome = none)
    (hfuel : s.iterCount + fuel = maxTlvIterations) :
    (s.pass data).outcome = some (walkExtensions data fuel s.cursor) ∨
      ∃ rest, fuel = rest + 1 ∧ (s.pass data).outcome = none ∧
        (s.pass data).iterCount + rest = maxTlvIterations ∧
        walkExtensions data fuel s.cursor = walkExtensions data rest (s.pass data).cursor := by
  cases fuel with
  | zero =>
    have hmany : maxTlvIterations ≤ s.iterCount := hfuel.ge
    rw [walkExtensions, pass]
    split_ifs with hshort
    · rw [ensure_of hshort]
      exact .inl rfl
    · rw [ensure_of_not hshort]
      exact .inl rfl
  | succ rest =>
    have hmany : ¬ maxTlvIterations ≤ s.iterCount := by omega
    rw [walkExtensions, pass]
    split_ifs with hshort hzero hforbidden hpast
    · exact .inl rfl
    · exact .inl rfl
    · rw [ensure_of_not (ne_true_of_eq_false hforbidden)]
      exact .inl rfl
    all_goals
      rw [ensure_of (eq_true_of_ne_false hforbidden), ok_seq]
      dsimp only
    · rw [ensure_of_not (not_le.mpr hpast)]
      exact .inl rfl
    · refine .inr ⟨rest, rfl, hnone, ?_, ?_⟩
      · simp only [count]
        omega
      · rw [ensure_of (not_lt.mp hpast), ok_seq]

theorem exists_result {fuel : ℕ} (hnone : s.outcome = none)
    (hfuel : s.iterCount + fuel = maxTlvIterations) :
    ∃ s', Relation.ReflTransGen (Pass data) s s' ∧
      s'.outcome = some (walkExtensions data fuel s.cursor) := by
  induction fuel generalizing s with
  | zero =>
    rcases pass_spec data hnone hfuel with hresult | ⟨rest, hrest, -⟩
    · exact ⟨_, .single ⟨hnone, rfl⟩, hresult⟩
    · cases hrest
  | succ fuel ih =>
    rcases pass_spec data hnone hfuel with hresult | ⟨rest, hrest, hgoes, hleft, hwalk⟩
    · exact ⟨_, .single ⟨hnone, rfl⟩, hresult⟩
    · obtain rfl := Nat.succ.inj hrest
      obtain ⟨s', hpasses, hresult⟩ := ih hgoes hleft
      exact ⟨s', .head ⟨hnone, rfl⟩ hpasses, hwalk ▸ hresult⟩

theorem iterCount_le (h : Relation.ReflTransGen (Pass data) start s) :
    s.iterCount ≤ maxTlvIterations := by
  induction h with
  | refl => exact Nat.zero_le _
  | tail _ hpass ih => exact hpass.iterCount_le ih

end TlvLoop

end Loop

/-- An account of a mint with extensions: zeros up to the account type, which is that of a mint,
and then allowed extensions. -/
structure ExtendedMint (data : List UInt8) : Prop where
  long : token2022AccountTypeIndex < data.length
  padding : ∀ b ∈ (data.take token2022AccountTypeIndex).drop token2022MintBaseLen, b = 0
  accountType : data.getD token2022AccountTypeIndex 0 = 1
  extensions : AllowedExtensions maxTlvIterations (data.drop (token2022AccountTypeIndex + 1))

/-- A mint of the newer token program is accepted when it has no extensions or allowed ones; the
loop that reads them goes forward, looks at no more than 64 headers, and ends. -/
theorem enforceToken2022ExtensionAllowlist_ok_iff (mint : AccountInfo) :
    (enforceToken2022ExtensionAllowlist mint = .ok () ↔
      mint.owner ≠ token2022ProgramId ∨ mint.data.length ≤ token2022MintBaseLen ∨
        ExtendedMint mint.data) ∧
    (∀ s s', TlvLoop.Pass mint.data s s' → s'.outcome = none →
      s.cursor + 4 ≤ s'.cursor ∧ s'.cursor ≤ mint.data.length) ∧
    (∀ s, Relation.ReflTransGen (TlvLoop.Pass mint.data) .start s →
      s.iterCount ≤ maxTlvIterations) ∧
    ∃ s, Relation.ReflTransGen (TlvLoop.Pass mint.data) .start s ∧
      s.outcome =
        some (walkExtensions mint.data maxTlvIterations (token2022AccountTypeIndex + 1)) := by
  refine ⟨?_, fun s s' h hgoes => h.progress hgoes, fun s => TlvLoop.iterCount_le,
    TlvLoop.exists_result rfl (Nat.zero_add _)⟩
  unfold enforceToken2022ExtensionAllowlist
  split_ifs with howner hbase
  · exact iff_of_true rfl (.inl howner)
  · exact iff_of_true rfl (.inr (.inl hbase))
  · simp only [seq_ok_iff, ensure_ok_iff, exists_and_left, exists_const, walkExtensions_ok_iff]
    constructor
    · rintro ⟨hlong, hpadding, htype, hextensions⟩
      exact .inr (.inr ⟨hlong, hpadding, htype, hextensions⟩)
    · rintro (hother | hshort | ⟨hlong, hpadding, htype, hextensions⟩)
      · exact absurd hother howner
      · exact absurd hshort hbase
      · exact ⟨hlong, hpadding, htype, hextensions⟩

section Sample

/-- The extension that asks for a memo, without data. -/
def memoTransfer : Record 2 2 := ⟨8, [], by decide, by decide⟩

/-- A mint with 64 extensions, and a header of zeros after them. -/
def crowdedMint : AccountInfo :=
  ⟨token2022ProgramId, List.replicate 165 0 ++ 1 :: ((List.replicate 64 memoTransfer).flatMap
    Record.encode ++ [0, 0, 0, 0])⟩

theorem reads_crowdedMint :
    Reads (crowdedMint.data.drop (token2022AccountTypeIndex + 1))
      (List.replicate 64 memoTransfer) [0, 0, 0, 0] where
  word := by decide +kernel
  kinds := by decide +kernel
  stops := .inr (by decide +kernel)

/-- A mint whose extensions are 64 and all on the allowlist, with everything else in order, is
rejected: the header that ends the list is one too many. -/
theorem crowdedMint_rejected :
    token2022AccountTypeIndex < crowdedMint.data.length ∧
      (∀ b ∈ (crowdedMint.data.take token2022AccountTypeIndex).drop token2022MintBaseLen, b = 0) ∧
      crowdedMint.data.getD token2022AccountTypeIndex 0 = 1 ∧
      (∃ (rs : List (Record 2 2)) (rest : List UInt8),
        Reads (crowdedMint.data.drop (token2022AccountTypeIndex + 1)) rs rest) ∧
      (∀ (rs : List (Record 2 2)) (rest : List UInt8),
        Reads (crowdedMint.data.drop (token2022AccountTypeIndex + 1)) rs rest →
          rs.length = maxTlvIterations ∧ ∀ r ∈ rs, isAllowlistedExtension r.kind = true) ∧
      enforceToken2022ExtensionAllowlist crowdedMint = fail .errToken2022ExtensionForbidden := by
  refine ⟨by decide +kernel, by decide +kernel, by decide +kernel, ⟨_, _, reads_crowdedMint⟩, ?_,
    by decide +kernel⟩
  intro rs rest hreads
  obtain ⟨rfl, -⟩ := hreads.unique reads_crowdedMint
  decide +kernel

end Sample

end Sigil
