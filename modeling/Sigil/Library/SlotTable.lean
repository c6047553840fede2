import Mathlib.Data.Fintype.Card
import Mathlib.Logic.Function.Basic

/-! # Tables of slots

A table has a fixed number of slots; each is vacant or belongs to a key. A tidy table gives a key
one slot at most, knows no key that is not registered, and keeps nothing in a vacant slot. As long
as there are no more registered keys than slots, a registered key without a slot finds a vacant
one. A table that never gives a slot back serves as many keys as it has slots, and no more.
-/

namespace SlotTable

variable {ι κ σ : Type*} {key : σ → κ} {vacant s : σ} {keys keys' : List κ} {t : ι → σ} {k : κ}
  {i j : ι}

def OneEach (free : κ) (t : ι → κ) : Prop := ∀ i j, t i ≠ free → t i = t j → i = j

theorem OneEach.claim [DecidableEq ι] {free : κ} {t : ι → κ} (h : OneEach free t)
    (hk : ∀ j, t j ≠ k) : OneEach free (Function.update t i k) := by
  intro j j' hj hsame
  by_cases hi : j = i <;> by_cases hi' : j' = i
  · rw [hi, hi']
  · rw [hi, Function.update_self, Function.update_of_ne hi'] at hsame
    exact absurd hsame.symm (hk j')
  · rw [hi', Function.update_self, Function.update_of_ne hi] at hsame
    exact absurd hsame (hk j)
  · rw [Function.update_of_ne hi] at hj
    rw [Function.update_of_ne hi, Function.update_of_ne hi'] at hsame
    exact h j j' hj hsame

/-- The table is tidy for the registered keys. -/
structure Tidy (key : σ → κ) (vacant : σ) (keys : List κ) (t : ι → σ) : Prop where
  distinct : ∀ i j, key (t i) ≠ key vacant → key (t i) = key (t j) → i = j
  registered : ∀ i, key (t i) ≠ key vacant → key (t i) ∈ keys
  clean : ∀ i, key (t i) = key vacant → t i = vacant

theorem Tidy.mono (h : Tidy key vacant keys t)
    (hkeys : ∀ i, key (t i) ∈ keys → key (t i) ∈ keys') : Tidy key vacant keys' t where
  distinct := h.distinct
  registered i hi := hkeys i (h.registered i hi)
  clean := h.clean

theorem tidy_const (keys : List κ) : Tidy key vacant keys fun _ : ι => vacant where
  distinct _ _ hi := absurd rfl hi
  registered _ hi := absurd rfl hi
  clean _ _ := rfl

theorem Tidy.exists_vacant [Fintype ι] (h : Tidy key vacant keys t)
    (hroom : keys.length ≤ Fintype.card ι) (hk : k ∈ keys) (hnone : ∀ i, key (t i) ≠ k) :
    ∃ i, key (t i) = key vacant := by
  classical
  by_contra hnone_vacant
  have hfull : ∀ i, key (t i) ≠ key vacant := fun i hi => hnone_vacant ⟨i, hi⟩
  -- otherwise the slots are as many different keys, among the registered ones without `k`
  have hinjective : Function.Injective fun i => key (t i) :=
    fun i j hij => h.distinct i j (hfull i) hij
  have hsubset : Finset.univ.image (fun i => key (t i)) ⊆ keys.toFinset.erase k := by
    intro x hx
    obtain ⟨i, -, rfl⟩ := Finset.mem_image.mp hx
    exact Finset.mem_erase.mpr ⟨hnone i, List.mem_toFinset.mpr (h.registered i (hfull i))⟩
  have hcard := Finset.card_le_card hsubset
  rw [Finset.card_image_of_injective _ hinjective, Finset.card_univ,
    Finset.card_erase_of_mem (List.mem_toFinset.mpr hk)] at hcard
  have hpos := Finset.card_pos.mpr ⟨k, List.mem_toFinset.mpr hk⟩
  have hlength := List.toFinset_card_le keys
  omega

theorem Tidy.congr {t' : ι → σ} (h : Tidy key vacant keys t)
    (hkey : ∀ i, key (t' i) = key (t i))
    (hvacant : ∀ i, key (t i) = key vacant → t' i = t i) : Tidy key vacant keys t' where
  distinct i j := by
    rw [hkey, hkey]
    exact h.distinct i j
  registered i := by
    rw [hkey]
    exact h.registered i
  clean i hi := by
    rw [hkey] at hi
    exact (hvacant i hi).trans (h.clean i hi)

variable [DecidableEq ι]

theorem Tidy.claim (h : Tidy key vacant keys t) (hk : key s ∈ keys)
    (hnone : ∀ j, key (t j) ≠ key s) (hs : key s ≠ key vacant) :
    Tidy key vacant keys (Function.update t i s) where
  distinct := by
    have hclaim := OneEach.claim (t := fun j => key (t j)) (i := i) h.distinct hnone
    intro j j'
    simpa only [Function.apply_update fun _ => key] using hclaim j j'
  registered j hj := by
    by_cases hi : j = i
    · rw [hi, Function.update_self]
      exact hk
    · rw [Function.update_of_ne hi] at hj ⊢
      exact h.registered j hj
  clean j hj := by
    by_cases hi : j = i
    · rw [hi, Function.update_self] at hj
      exact absurd hj hs
    · rw [Function.update_of_ne hi] at hj ⊢
      exact h.clean j hj

theorem Tidy.release (h : Tidy key vacant keys t)
    (hkeys : ∀ j, key (t j) ∈ keys → j ≠ i → key (t j) ∈ keys') :
    Tidy key vacant keys' (Function.update t i vacant) where
  distinct j j' hj hsame := by
    by_cases hi : j = i
    · rw [hi, Function.update_self] at hj
      exact absurd rfl hj
    · rw [Function.update_of_ne hi] at hj hsame
      by_cases hi' : j' = i
      · rw [hi', Function.update_self] at hsame
        exact absurd hsame hj
      · rw [Function.update_of_ne hi'] at hsame
        exact h.distinct j j' hj hsame
  registered j hj := by
    by_cases hi : j = i
    · rw [hi, Function.update_self] at hj
      exact absurd rfl hj
    · rw [Function.update_of_ne hi] at hj ⊢
      exact hkeys j (h.registered j hj) hi
  clean j hj := by
    by_cases hi : j = i
    · rw [hi, Function.update_self]
    · rw [Function.update_of_ne hi] at hj ⊢
      exact h.clean j hj

section Taken

variable {free : κ} {t : ι → κ}

variable [Fintype ι] [DecidableEq κ]

def taken (free : κ) (t : ι → κ) : Finset κ := (Finset.univ.image t).erase free

omit [DecidableEq ι] in
theorem mem_taken : k ∈ taken free t ↔ k ≠ free ∧ ∃ i, t i = k := by simp [taken]

theorem taken_claim (hi : t i = free) (hk : k ≠ free) :
    taken free (Function.update t i k) = insert k (taken free t) := by
  ext x
  simp only [mem_taken, Finset.mem_insert]
  constructor
  · rintro ⟨hx, j, rfl⟩
    by_cases hj : j = i
    · rw [hj, Function.update_self]
      exact .inl rfl
    · rw [Function.update_of_ne hj] at hx ⊢
      exact .inr ⟨hx, j, rfl⟩
  · rintro (rfl | ⟨hx, j, rfl⟩)
    · exact ⟨hk, i, Function.update_self ..⟩
    · have hj : j ≠ i := fun hj => hx (hj ▸ hi)
      exact ⟨hx, j, Function.update_of_ne hj ..⟩

omit [DecidableEq ι] in
theorem OneEach.card_taken_lt_iff (h : OneEach free t) :
    (taken free t).card < Fintype.card ι ↔ ∃ i, t i = free := by
  constructor
  · intro hlt
    by_contra hnone
    have hfull : ∀ i, t i ≠ free := fun i hi => hnone ⟨i, hi⟩
    have hinjective : Function.Injective t := fun i j hij => h i j (hfull i) hij
    have htaken : taken free t = Finset.univ.image t :=
      Finset.erase_eq_of_notMem (by simpa using hfull)
    rw [htaken, Finset.card_image_of_injective _ hinjective, Finset.card_univ] at hlt
    exact lt_irrefl _ hlt
  · rintro ⟨i, hi⟩
    have hmem : free ∈ Finset.univ.image t := Finset.mem_image.mpr ⟨i, Finset.mem_univ i, hi⟩
    calc (taken free t).card < (Finset.univ.image t).card := Finset.card_erase_lt_of_mem hmem
      _ ≤ Fintype.card ι := Finset.card_image_le

end Taken

end SlotTable
