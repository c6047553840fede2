import Mathlib.Algebra.BigOperators.Fin
import Mathlib.Algebra.Order.BigOperators.Group.Finset
import Mathlib.Data.Int.ConditionallyCompleteOrder
import Mathlib.Data.Int.Interval
import Mathlib.Tactic.Linarith

/-! # Histories and epochs

A history lists recorded amounts under their keys, newest first. An epoch function sorts
the keys into consecutive epochs, and a ring of `n` slots stores one epoch per slot. The
main result bounds what a history that was gated on its last `n` epochs can hold in any
`n` consecutive epochs.
-/

namespace EpochHistory

open Finset

variable {κ : Type*} {ep : κ → ℤ} {n : ℤ} {cap : ℕ} {h : List (κ × ℕ)}

section Total

variable {p q : κ → Prop} [DecidablePred p] [DecidablePred q]

/-- The amount recorded under the keys that satisfy `p`. -/
def total (p : κ → Prop) [DecidablePred p] : List (κ × ℕ) → ℕ
  | [] => 0
  | (k, x) :: h => (if p k then x else 0) + total p h

@[simp] theorem total_nil : total p [] = 0 := rfl

@[simp] theorem total_cons (k : κ) (x : ℕ) :
    total p ((k, x) :: h) = (if p k then x else 0) + total p h := rfl

theorem total_mono (hpq : ∀ y ∈ h, p y.1 → q y.1) : total p h ≤ total q h := by
  induction h with
  | nil => simp
  | cons y h ih =>
    obtain ⟨k, x⟩ := y
    have ih := ih fun y hy => hpq y (List.mem_cons_of_mem _ hy)
    have hk : p k → q k := hpq (k, x) List.mem_cons_self
    by_cases hp : p k
    · simp only [total_cons, hp, hk hp, if_true]
      omega
    · simp only [total_cons, hp, if_false]
      omega

theorem total_congr (hpq : ∀ y ∈ h, p y.1 ↔ q y.1) : total p h = total q h :=
  le_antisymm (total_mono fun y hy => (hpq y hy).mp) (total_mono fun y hy => (hpq y hy).mpr)

theorem total_eq_zero (hp : ∀ y ∈ h, ¬ p y.1) : total p h = 0 := by
  induction h with
  | nil => rfl
  | cons y h ih =>
    obtain ⟨k, x⟩ := y
    have hk : ¬ p k := hp (k, x) List.mem_cons_self
    simp [hk, ih fun y hy => hp y (List.mem_cons_of_mem _ hy)]

theorem total_or_le : total (fun k => p k ∨ q k) h ≤ total p h + total q h := by
  induction h with
  | nil => simp
  | cons y h ih =>
    obtain ⟨k, x⟩ := y
    by_cases hp : p k <;> by_cases hq : q k <;> simp [hp, hq] <;> omega

theorem total_add_le {r : κ → Prop} [DecidablePred r] (hpq : ∀ y ∈ h, p y.1 → ¬ q y.1)
    (hr : ∀ y ∈ h, p y.1 ∨ q y.1 → r y.1) : total p h + total q h ≤ total r h := by
  induction h with
  | nil => simp
  | cons y h ih =>
    obtain ⟨k, x⟩ := y
    have ih := ih (fun y hy => hpq y (List.mem_cons_of_mem _ hy))
      fun y hy => hr y (List.mem_cons_of_mem _ hy)
    have hone := hpq (k, x) List.mem_cons_self
    have hin := hr (k, x) List.mem_cons_self
    simp only [total_cons]
    by_cases hp : p k
    · rw [if_pos hp, if_neg (hone hp), if_pos (hin (.inl hp))]
      omega
    · by_cases hq : q k
      · rw [if_neg hp, if_pos hq, if_pos (hin (.inr hq))]
        omega
      · rw [if_neg hp, if_neg hq]
        omega

theorem total_append {h' : List (κ × ℕ)} : total p (h ++ h') = total p h + total p h' := by
  induction h with
  | nil => simp
  | cons y h ih =>
    obtain ⟨k, x⟩ := y
    rw [List.cons_append, total_cons, total_cons, ih, Nat.add_assoc]

theorem total_map {ι : Type*} (f : ι → κ) (h : List (ι × ℕ)) :
    total p (h.map fun y => (f y.1, y.2)) = total (fun i => p (f i)) h := by
  induction h with
  | nil => rfl
  | cons y h ih =>
    obtain ⟨i, x⟩ := y
    rw [List.map_cons, total_cons, total_cons, ih]

theorem sum_total (a b : ℤ) :
    ∑ e ∈ Icc a b, total (fun k => ep k = e) h = total (fun k => a ≤ ep k ∧ ep k ≤ b) h := by
  induction h with
  | nil => simp
  | cons y h ih =>
    obtain ⟨k, x⟩ := y
    simp only [total_cons, sum_add_distrib, ih, sum_ite_eq, mem_Icc]

theorem total_window_split {a b : ℤ} (hab : a < b) :
    total (fun k => a < ep k ∧ ep k ≤ b) h =
      total (fun k => a < ep k ∧ ep k ≤ b - 1) h + total (fun k => ep k = b) h := by
  induction h with
  | nil => simp
  | cons y h ih =>
    obtain ⟨k, x⟩ := y
    simp only [total_cons, ih]
    by_cases hb : ep k = b
    · rw [if_pos (by omega), if_neg (by omega), if_pos hb]
      omega
    · by_cases hk : a < ep k ∧ ep k ≤ b - 1
      · rw [if_pos (by omega), if_pos hk, if_neg hb]
        omega
      · rw [if_neg (by omega), if_neg hk, if_neg hb]
        omega

end Total

/-- Each entry was admitted while it and the `n` epochs up to its own fitted in `cap`. -/
inductive Gated (ep : κ → ℤ) (n : ℤ) (cap : ℕ) : List (κ × ℕ) → Prop
  | nil : Gated ep n cap []
  | cons {h : List (κ × ℕ)} {k : κ} {x : ℕ} : Gated ep n cap h → (∀ y ∈ h, ep y.1 ≤ ep k) →
      (x = 0 ∨ total (fun j => ep k - n < ep j ∧ ep j ≤ ep k) h + x ≤ cap) →
      Gated ep n cap ((k, x) :: h)

inductive GatedBy (ep : κ → ℤ) (n : ℤ) (cap : κ → ℕ) : List (κ × ℕ) → Prop
  | nil : GatedBy ep n cap []
  | cons {h : List (κ × ℕ)} {k : κ} {x : ℕ} : GatedBy ep n cap h → (∀ y ∈ h, ep y.1 ≤ ep k) →
      (x = 0 ∨ total (fun j => ep k - n < ep j ∧ ep j ≤ ep k) h + x ≤ cap k) →
      GatedBy ep n cap ((k, x) :: h)

theorem GatedBy.total_le {caps : κ → ℕ} {p : κ → Prop} [DecidablePred p] {a : ℤ} {C : ℕ}
    (hg : GatedBy ep n caps h)
    (hp : ∀ y ∈ h, p y.1 → (a ≤ ep y.1 ∧ ep y.1 < a + n) ∧ caps y.1 ≤ C) : total p h ≤ C := by
  induction hg with
  | nil => exact Nat.zero_le _
  | @cons h k x hg hle hgate ih =>
    have hrest := fun y hy => hp y (List.mem_cons_of_mem _ hy)
    have ih := ih hrest
    rw [total_cons]
    split
    · rename_i hk
      obtain ⟨hin, hcap⟩ := hp (k, x) List.mem_cons_self hk
      rcases hgate with rfl | hgate
      · omega
      · have hold : total p h ≤ total (fun j => ep k - n < ep j ∧ ep j ≤ ep k) h := by
          refine total_mono fun y hy hpy => ⟨?_, hle y hy⟩
          have hfirst := (hrest y hy hpy).1.1
          have hlast := hin.2
          simp only at hlast
          omega
        simp only at hcap
        omega
    · omega

theorem GatedBy.of_append {caps : κ → ℕ} {old : List (κ × ℕ)} (hg : GatedBy ep n caps (h ++ old)) :
    GatedBy ep n caps h := by
  induction h with
  | nil => exact .nil
  | cons y h ih =>
    obtain ⟨k, x⟩ := y
    rw [List.cons_append] at hg
    obtain _ | ⟨hg, hle, hgate⟩ := hg
    refine .cons (ih hg) (fun z hz => hle z (List.mem_append_left _ hz)) (hgate.imp_right ?_)
    rw [total_append]
    omega

theorem Gated.gatedBy (hg : Gated ep n cap h) : GatedBy ep n (fun _ => cap) h := by
  induction hg with
  | nil => exact .nil
  | cons _ hle hgate ih => exact .cons ih hle hgate

theorem Gated.total_window_le (hg : Gated ep n cap h) (a : ℤ) :
    total (fun k => a ≤ ep k ∧ ep k < a + n) h ≤ cap :=
  hg.gatedBy.total_le fun _ _ hin => ⟨hin, le_rfl⟩

theorem Gated.total_succ_window_le (hg : Gated ep n cap h) (hn : 0 < n) (a : ℤ) :
    total (fun k => a ≤ ep k ∧ ep k ≤ a + n) h ≤ 2 * cap := by
  have h₁ := hg.total_window_le a
  have h₂ := hg.total_window_le (a + 1)
  have hcover : total (fun k => a ≤ ep k ∧ ep k ≤ a + n) h ≤
      total (fun k => (a ≤ ep k ∧ ep k < a + n) ∨ (a + 1 ≤ ep k ∧ ep k < a + 1 + n)) h :=
    total_mono fun y _ hy => by omega
  have := hcover.trans total_or_le
  omega

/-- A stretch of time as long as `n` epochs of `len` meets one epoch more, and holds at most twice
the largest of its caps. -/
theorem GatedBy.total_stretch_le {caps : κ → ℕ} {time : κ → ℤ} {len : ℤ} {C : ℕ}
    (hg : GatedBy ep n caps h) (hn : 0 < n) (hlen : 0 < len) (hep : ∀ k, ep k = time k / len)
    (u : ℤ)
    (hcap : ∀ y ∈ h, u ≤ time y.1 → time y.1 ≤ u + len * n → caps y.1 ≤ C) :
    total (fun k => u ≤ time k ∧ time k ≤ u + len * n) h ≤ 2 * C := by
  have hepochs : ∀ k, u ≤ time k → time k ≤ u + len * n → u / len ≤ ep k ∧ ep k ≤ u / len + n := by
    intro k hu hle
    rw [hep]
    refine ⟨Int.ediv_le_ediv hlen hu, ?_⟩
    calc time k / len ≤ (u + len * n) / len := Int.ediv_le_ediv hlen hle
      _ = u / len + n := Int.add_mul_ediv_left _ _ hlen.ne'
  -- the epochs of the stretch but the last one, and the last one
  have hfirst : total (fun k => (u ≤ time k ∧ time k ≤ u + len * n) ∧ ep k < u / len + n) h ≤ C :=
    hg.total_le (a := u / len) fun y hy hin =>
      ⟨⟨(hepochs _ hin.1.1 hin.1.2).1, hin.2⟩, hcap y hy hin.1.1 hin.1.2⟩
  have hlast : total (fun k => (u ≤ time k ∧ time k ≤ u + len * n) ∧ ep k = u / len + n) h ≤ C :=
    hg.total_le (a := u / len + n) fun y hy hin =>
      ⟨⟨hin.2.ge, by rw [hin.2]; omega⟩, hcap y hy hin.1.1 hin.1.2⟩
  calc total (fun k => u ≤ time k ∧ time k ≤ u + len * n) h
      ≤ total (fun k => ((u ≤ time k ∧ time k ≤ u + len * n) ∧ ep k < u / len + n) ∨
          ((u ≤ time k ∧ time k ≤ u + len * n) ∧ ep k = u / len + n)) h :=
        total_mono fun y _ hin => by
          rcases (hepochs _ hin.1 hin.2).2.lt_or_eq with hlt | heq
          · exact .inl ⟨hin, hlt⟩
          · exact .inr ⟨hin, heq⟩
    _ ≤ C + C := total_or_le.trans (Nat.add_le_add hfirst hlast)
    _ = 2 * C := (Nat.two_mul C).symm

section Slot

variable {m : ℕ} [NeZero m]

/-- The slot of an epoch in a ring of `m` slots. -/
def slot (m : ℕ) [NeZero m] (e : ℤ) : Fin m :=
  ⟨(e % m).toNat, by
    have hm : (0 : ℤ) < m := by exact_mod_cast Nat.pos_of_neZero m
    have := Int.emod_lt_of_pos e hm
    have := Int.emod_nonneg e hm.ne'
    omega⟩

theorem slot_eq_iff {j k : ℤ} : slot m j = slot m k ↔ j % m = k % m := by
  have hm : (m : ℤ) ≠ 0 := by exact_mod_cast NeZero.ne m
  have hj := Int.emod_nonneg j hm
  have hk := Int.emod_nonneg k hm
  simp only [slot, Fin.mk.injEq]
  omega

theorem slot_val_eq_iff {e : ℤ} {i : Fin m} : slot m e = i ↔ e % m = (i.val : ℤ) := by
  have hm : (m : ℤ) ≠ 0 := by exact_mod_cast NeZero.ne m
  have he := Int.emod_nonneg e hm
  simp only [slot, Fin.ext_iff]
  omega

theorem eq_of_slot_eq {j k : ℤ} (hjk : slot m j = slot m k) (h₁ : j < k + m) (h₂ : k < j + m) :
    j = k := by
  have hdvd : (m : ℤ) ∣ j - k :=
    Int.dvd_of_emod_eq_zero (Int.emod_eq_emod_iff_emod_sub_eq_zero.mp (slot_eq_iff.mp hjk))
  have := Int.eq_zero_of_abs_lt_dvd hdvd (abs_lt.mpr ⟨by omega, by omega⟩)
  omega

@[simp] theorem slot_sub_size (e : ℤ) : slot m (e - m) = slot m e := by
  rw [slot_eq_iff, Int.sub_emod_right]

theorem sum_slots (f : Fin m → ℕ) (e : ℤ) :
    ∑ i, f i = ∑ k ∈ Icc (e - m + 1) e, f (slot m k) := by
  symm
  refine sum_bij (fun k _ => slot m k) (fun _ _ => mem_univ _) ?_ ?_ fun _ _ => rfl
  · intro j hj k hk hjk
    rw [mem_Icc] at hj hk
    exact eq_of_slot_eq hjk (by omega) (by omega)
  · intro i _
    -- the representative of `i` in the window ending at `e`
    refine ⟨e - (e - i.val) % m, ?_, ?_⟩
    · have hm : (0 : ℤ) < m := by exact_mod_cast Nat.pos_of_neZero m
      have := Int.emod_lt_of_pos (e - i.val) hm
      have := Int.emod_nonneg (e - i.val) hm.ne'
      rw [mem_Icc]
      omega
    · rw [slot_val_eq_iff, Int.sub_emod_emod, sub_sub_cancel]
      exact Int.emod_eq_of_lt (by omega) (by exact_mod_cast i.isLt)

end Slot

end EpochHistory
