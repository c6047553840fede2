import Mathlib.Algebra.Ring.Nat
import Mathlib.Data.Fin.Basic
import Mathlib.Logic.Function.Basic

/-! # Circular logs

A log of `n` cells is written in turn, from the first cell to the last and then from the first
again. It holds the newest `n` entries of its history, and they are read off it in order.
-/

namespace CircularLog

variable {α : Type*} {n : ℕ} [NeZero n] {cells : Fin n → α} {h : List α} {x : α}

/-- The cell of the `k`-th write. -/
def cell (n : ℕ) [NeZero n] (k : ℕ) : Fin n := Fin.ofNat n k

theorem cell_eq_iff {j k : ℕ} : cell n j = cell n k ↔ j % n = k % n := by
  simp [cell, Fin.ext_iff]

theorem cell_ne {j k : ℕ} (hjk : j < k) (hk : k < j + n) : cell n j ≠ cell n k := by
  intro heq
  have hmod : (k - j) % n = 0 := Nat.sub_mod_eq_zero_of_mod_eq (cell_eq_iff.mp heq).symm
  rw [Nat.mod_eq_of_lt (by omega)] at hmod
  omega

@[simp] theorem cell_mod (k : ℕ) : cell n (k % n) = cell n k := cell_eq_iff.mpr (Nat.mod_mod k n)

theorem cell_mod_add (j k : ℕ) : cell n (j % n + k) = cell n (j + k) :=
  cell_eq_iff.mpr (Nat.mod_add_mod j n k)

/-- The cells hold the newest entries of the history, each where it was written. -/
def Holds (cells : Fin n → α) (h : List α) : Prop :=
  ∀ i, h.length ≤ i + n → ∀ y, h[i]? = some y → cells (cell n i) = y

theorem holds_nil : Holds cells [] := by
  intro i _ y hy
  cases hy

theorem Holds.push (hh : Holds cells h) :
    Holds (Function.update cells (cell n h.length) x) (h ++ [x]) := by
  intro i hi y hy
  rw [List.length_append, List.length_singleton] at hi
  rcases Nat.lt_trichotomy i h.length with hold | hnew | hbeyond
  · rw [List.getElem?_append_left hold] at hy
    rw [Function.update_of_ne (cell_ne hold (by omega))]
    exact hh i (by omega) y hy
  · rw [hnew, List.getElem?_concat_length] at hy
    rw [hnew, Function.update_self]
    exact Option.some.inj hy
  · rw [List.getElem?_eq_none (by rw [List.length_append, List.length_singleton]; omega)] at hy
    cases hy

theorem Holds.read (hh : Holds cells h) {count : ℕ} (hcount : count ≤ h.length) (hn : count ≤ n) :
    (List.range count).map (fun k => cells (cell n (h.length - count + k))) =
      h.drop (h.length - count) := by
  apply List.ext_getElem?
  intro k
  rw [List.getElem?_drop, List.getElem?_map]
  rcases Nat.lt_or_ge k count with hk | hk
  · have hin : h.length - count + k < h.length := by omega
    rw [List.getElem?_range hk, List.getElem?_eq_getElem hin, Option.map_some]
    exact congrArg some (hh _ (by omega) _ (List.getElem?_eq_getElem hin))
  · rw [List.getElem?_eq_none (by rw [List.length_range]; exact hk),
      List.getElem?_eq_none (by omega), Option.map_none]

end CircularLog
