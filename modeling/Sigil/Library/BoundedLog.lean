import Mathlib.Data.List.Basic

/-! # Logs of bounded length

A log that is cut to its newest entries after every addition holds the newest entries of all that
was added. What it forgets was added before what it keeps.
-/

namespace BoundedLog

variable {α : Type*} {n : ℕ} {xs ys : List α} {x : α}

/-- The newest `n` entries. -/
def keepLast (n : ℕ) (xs : List α) : List α :=
  if n < xs.length then xs.drop (xs.length - n) else xs

def forgotten (n : ℕ) (xs : List α) : List α := xs.take (xs.length - n)

theorem keepLast_eq_drop (n : ℕ) (xs : List α) : keepLast n xs = xs.drop (xs.length - n) := by
  unfold keepLast
  split
  · rfl
  · rename_i hshort
    rw [Nat.sub_eq_zero_of_le (Nat.le_of_not_lt hshort), List.drop_zero]

theorem forgotten_append_keepLast (n : ℕ) (xs : List α) : forgotten n xs ++ keepLast n xs = xs := by
  rw [keepLast_eq_drop]
  exact List.take_append_drop _ _

theorem length_keepLast (n : ℕ) (xs : List α) : (keepLast n xs).length = min n xs.length := by
  rw [keepLast_eq_drop, List.length_drop]
  omega

theorem length_keepLast_le (n : ℕ) (xs : List α) : (keepLast n xs).length ≤ n := by
  rw [length_keepLast]
  exact Nat.min_le_left _ _

theorem keepLast_of_le (h : xs.length ≤ n) : keepLast n xs = xs := if_neg (Nat.not_lt.mpr h)

theorem forgotten_of_le (h : xs.length ≤ n) : forgotten n xs = [] := by
  rw [forgotten, Nat.sub_eq_zero_of_le h, List.take_zero]

theorem keepLast_append (n : ℕ) (xs ys : List α) :
    keepLast n (keepLast n xs ++ ys) = keepLast n (xs ++ ys) := by
  have hcut : keepLast n xs ++ ys = (xs ++ ys).drop (xs.length - n) := by
    rw [keepLast_eq_drop, List.drop_append_of_le_length (by omega)]
  rw [keepLast_eq_drop n (xs ++ ys), keepLast_eq_drop, hcut, List.drop_drop, List.length_drop,
    List.length_append]
  congr 1
  omega

theorem keepLast_append_of_length (h : ys.length = n) : keepLast n (xs ++ ys) = ys := by
  rw [keepLast_eq_drop, List.length_append, h, Nat.add_sub_cancel, List.drop_left]

theorem rel_of_forgotten {r : α → α → Prop} (h : xs.Pairwise r) {y : α} (hx : x ∈ forgotten n xs)
    (hy : y ∈ keepLast n xs) : r x y := by
  rw [← forgotten_append_keepLast n xs] at h
  exact (List.pairwise_append.mp h).2.2 x hx y hy

end BoundedLog
