import Mathlib.Algebra.Order.Ring.Int
import Mathlib.Algebra.Order.Ring.Nat
import Mathlib.Data.Int.Order.Basic
import Mathlib.Data.Nat.Basic
import Mathlib.Tactic.Common

/-! # Fixed-width arithmetic

Checked and saturating operations on 64-bit words. Unsigned words are `UInt64`;
signed words are integers, and each operation says what happens at the ends of
the 64-bit range.
-/

namespace Machine

section Unsigned

def checkedAdd (a b : UInt64) : Option UInt64 :=
  if a.toNat + b.toNat < 2 ^ 64 then some (UInt64.ofNat (a.toNat + b.toNat)) else none

def checkedSub (a b : UInt64) : Option UInt64 :=
  if b.toNat ≤ a.toNat then some (UInt64.ofNat (a.toNat - b.toNat)) else none

def checkedMul (a b : UInt64) : Option UInt64 :=
  if a.toNat * b.toNat < 2 ^ 64 then some (UInt64.ofNat (a.toNat * b.toNat)) else none

def saturatingSub (a b : UInt64) : UInt64 := UInt64.ofNat (a.toNat - b.toNat)

variable {a b c : UInt64}

theorem checkedAdd_eq_some : checkedAdd a b = some c ↔ c.toNat = a.toNat + b.toNat := by
  have hc := c.toNat_lt
  unfold checkedAdd
  split
  · rename_i h
    rw [Option.some.injEq, ← UInt64.toNat_inj, UInt64.toNat_ofNat_of_lt' h]
    exact eq_comm
  · simp only [reduceCtorEq, false_iff]
    omega

theorem checkedAdd_eq_none : checkedAdd a b = none ↔ 2 ^ 64 ≤ a.toNat + b.toNat := by
  unfold checkedAdd
  split <;> simp <;> omega

theorem checkedSub_eq_some : checkedSub a b = some c ↔ c.toNat + b.toNat = a.toNat := by
  have ha := a.toNat_lt
  unfold checkedSub
  split
  · rename_i h
    rw [Option.some.injEq, ← UInt64.toNat_inj,
      UInt64.toNat_ofNat_of_lt' (by unfold UInt64.size; omega)]
    omega
  · simp only [reduceCtorEq, false_iff]
    omega

@[simp] theorem saturatingSub_toNat : (saturatingSub a b).toNat = a.toNat - b.toNat := by
  have ha := a.toNat_lt
  exact UInt64.toNat_ofNat_of_lt' (by unfold UInt64.size; omega)

/-- Addition of wide unsigned words that stops at the 128-bit maximum. -/
def saturatingAdd128 (m n : ℕ) : ℕ := min (m + n) (2 ^ 128 - 1)

/-- Multiplication of wide unsigned words that stops at the 128-bit maximum. -/
def saturatingMul128 (m n : ℕ) : ℕ := min (m * n) (2 ^ 128 - 1)

theorem saturatingAdd128_lt (m n : ℕ) : saturatingAdd128 m n < 2 ^ 128 := by
  unfold saturatingAdd128
  omega

theorem foldl_saturatingAdd128 {α : Type*} (f : α → ℕ) (l : List α) {m : ℕ} (hm : m < 2 ^ 128) :
    l.foldl (fun total a => saturatingAdd128 total (f a)) m =
      min (m + (l.map f).sum) (2 ^ 128 - 1) := by
  induction l generalizing m with
  | nil => simp only [List.foldl_nil, List.map_nil, List.sum_nil]; omega
  | cons a l ih =>
    rw [List.foldl_cons, ih (saturatingAdd128_lt m (f a)), List.map_cons, List.sum_cons]
    unfold saturatingAdd128
    omega

theorem saturatingMul128_of_lt {m n : ℕ} (h : m * n < 2 ^ 128) : saturatingMul128 m n = m * n := by
  unfold saturatingMul128; omega

def capToU64 (n : ℕ) : UInt64 := UInt64.ofNat (min n (2 ^ 64 - 1))

@[simp] theorem capToU64_toNat (n : ℕ) : (capToU64 n).toNat = min n (2 ^ 64 - 1) :=
  UInt64.toNat_ofNat_of_lt' (by unfold UInt64.size; omega)

end Unsigned

section Signed

/-- The range of a signed 64-bit word. -/
def InI64 (z : ℤ) : Prop := -2 ^ 63 ≤ z ∧ z < 2 ^ 63

theorem inI64_toNat32 (n : UInt32) : InI64 n.toNat := by
  have hlt := n.toNat_lt
  constructor <;> omega

instance (z : ℤ) : Decidable (InI64 z) := inferInstanceAs (Decidable (_ ∧ _))

def clampI64 (z : ℤ) : ℤ := max (-2 ^ 63) (min z (2 ^ 63 - 1))

def saturatingAddI64 (y z : ℤ) : ℤ := clampI64 (y + z)

def saturatingSubI64 (y z : ℤ) : ℤ := clampI64 (y - z)

def saturatingMulI64 (y z : ℤ) : ℤ := clampI64 (y * z)

def checkedAddI64 (y z : ℤ) : Option ℤ := if InI64 (y + z) then some (y + z) else none

def checkedSubI64 (y z : ℤ) : Option ℤ := if InI64 (y - z) then some (y - z) else none

/-- An unsigned word read as a signed one. -/
def castI64 (x : UInt64) : ℤ := if x.toNat < 2 ^ 63 then x.toNat else x.toNat - 2 ^ 64

/-- An unsigned word as a signed one when it fits. -/
def tryI64 (x : UInt64) : Option ℤ := if x.toNat < 2 ^ 63 then some x.toNat else none

theorem clampI64_of_inI64 {z : ℤ} (h : InI64 z) : clampI64 z = z := by
  unfold InI64 at h; unfold clampI64; omega

theorem saturatingAddI64_of_inI64 {y z : ℤ} (h : InI64 (y + z)) : saturatingAddI64 y z = y + z :=
  clampI64_of_inI64 h

theorem le_saturatingAddI64 {y : ℤ} (h : InI64 y) (n : ℕ) : y ≤ saturatingAddI64 y n := by
  unfold InI64 at h
  unfold saturatingAddI64 clampI64
  omega

theorem saturatingSubI64_of_inI64 {y z : ℤ} (h : InI64 (y - z)) : saturatingSubI64 y z = y - z :=
  clampI64_of_inI64 h

theorem saturatingMulI64_of_inI64 {y z : ℤ} (h : InI64 (y * z)) : saturatingMulI64 y z = y * z :=
  clampI64_of_inI64 h

theorem checkedAddI64_eq_some {x y z : ℤ} :
    checkedAddI64 y z = some x ↔ x = y + z ∧ InI64 (y + z) := by
  unfold checkedAddI64
  split <;> simp_all [eq_comm]

theorem checkedSubI64_eq_some {x y z : ℤ} :
    checkedSubI64 y z = some x ↔ x = y - z ∧ InI64 (y - z) := by
  unfold checkedSubI64
  split <;> simp_all [eq_comm]

theorem tryI64_eq_some {x : UInt64} {z : ℤ} (h : tryI64 x = some z) : z = x.toNat := by
  unfold tryI64 at h
  split at h
  · exact (Option.some.inj h).symm
  · cases h

end Signed

end Machine
