import Mathlib.Data.Nat.Order.Lemmas
import Mathlib.Order.Compare
import Mathlib.Tactic.Ring
import Sigil.Library.SelfDelimiting

/-! # The order of numbers given by bytes

Two numbers that are given byte by byte, least significant first, are compared from the most
significant byte down. A number given by fewer bytes is extended: with zeros, or, when the bytes
are read in two's complement, with copies of the sign.
-/

namespace ByteOrder

open SelfDelimiting

section Below

variable {f g : ℕ → UInt8} {n : ℕ}

/-- The number with the bytes `f 0`, ..., `f (n - 1)`. -/
def valueBelow (f : ℕ → UInt8) : ℕ → ℕ
  | 0 => 0
  | n + 1 => valueBelow f n + 256 ^ n * (f n).toNat

theorem valueBelow_lt (f : ℕ → UInt8) (n : ℕ) : valueBelow f n < 256 ^ n := by
  induction n with
  | zero => simp [valueBelow]
  | succ n ih =>
    have hbyte : (f n).toNat + 1 ≤ 256 := (f n).toNat_lt
    calc valueBelow f n + 256 ^ n * (f n).toNat
        < 256 ^ n + 256 ^ n * (f n).toNat := by omega
      _ = 256 ^ n * ((f n).toNat + 1) := by ring
      _ ≤ 256 ^ n * 256 := Nat.mul_le_mul_left _ hbyte
      _ = 256 ^ (n + 1) := (pow_succ _ _).symm

theorem valueBelow_succ' (f : ℕ → UInt8) (n : ℕ) :
    valueBelow f (n + 1) = (f 0).toNat + 256 * valueBelow (fun i => f (i + 1)) n := by
  induction n with
  | zero => simp [valueBelow]
  | succ n ih =>
    rw [valueBelow, ih, valueBelow]
    ring

theorem valueBelow_succ_lt (h : f n < g n) : valueBelow f (n + 1) < valueBelow g (n + 1) := by
  have hbyte : (f n).toNat + 1 ≤ (g n).toNat := UInt8.lt_iff_toNat_lt.mp h
  calc valueBelow f n + 256 ^ n * (f n).toNat
      < 256 ^ n + 256 ^ n * (f n).toNat := by
        have := valueBelow_lt f n
        omega
    _ = 256 ^ n * ((f n).toNat + 1) := by ring
    _ ≤ 256 ^ n * (g n).toNat := Nat.mul_le_mul_left _ hbyte
    _ ≤ valueBelow g n + 256 ^ n * (g n).toNat := Nat.le_add_left _ _

theorem compare_valueBelow_succ (f g : ℕ → UInt8) (n : ℕ) :
    compare (valueBelow f (n + 1)) (valueBelow g (n + 1)) =
      if g n < f n then .gt else if f n < g n then .lt
      else compare (valueBelow f n) (valueBelow g n) := by
  split
  · rename_i hgt
    exact compare_gt_iff_gt.mpr (valueBelow_succ_lt hgt)
  split
  · rename_i hlt
    exact compare_lt_iff_lt.mpr (valueBelow_succ_lt hlt)
  · rename_i hgt hlt
    have heq : (f n).toNat = (g n).toNat := by
      rw [UInt8.lt_iff_toNat_lt] at hgt hlt
      omega
    rcases lt_trichotomy (valueBelow f n) (valueBelow g n) with h | h | h
    · rw [compare_lt_iff_lt.mpr h, compare_lt_iff_lt]
      simpa only [valueBelow, heq, add_lt_add_iff_right] using h
    · rw [compare_eq_iff_eq.mpr h, compare_eq_iff_eq]
      simp only [valueBelow, heq, h]
    · rw [compare_gt_iff_gt.mpr h, compare_gt_iff_gt]
      simpa only [valueBelow, heq, gt_iff_lt, add_lt_add_iff_right] using h

end Below

section Extended

variable (bs : List UInt8) {pad : UInt8} {n : ℕ}

theorem valueBelow_getD (pad : UInt8) : valueBelow (bs.getD · pad) bs.length = ofLeBytes bs := by
  induction bs with
  | nil => rfl
  | cons b bs ih =>
    rw [List.length_cons, valueBelow_succ', ofLeBytes, ← ih]
    rfl

theorem valueBelow_getD_zero (h : bs.length ≤ n) : valueBelow (bs.getD · 0) n = ofLeBytes bs := by
  induction n, h using Nat.le_induction with
  | base => exact valueBelow_getD bs 0
  | succ n hn ih =>
    rw [valueBelow, ih, List.getD_eq_getElem?_getD, List.getElem?_eq_none hn]
    simp

theorem valueBelow_getD_ones (h : bs.length ≤ n) :
    valueBelow (bs.getD · 0xFF) n + 256 ^ bs.length = ofLeBytes bs + 256 ^ n := by
  induction n, h using Nat.le_induction with
  | base => rw [valueBelow_getD]
  | succ n hn ih =>
    have hpad : (0xFF : UInt8).toNat = 255 := rfl
    rw [valueBelow, List.getD_eq_getElem?_getD, List.getElem?_eq_none hn, Option.getD_none, hpad,
      pow_succ]
    omega

end Extended

section Signed

variable (bs : List UInt8)

theorem ofLeBytes_append (xs ys : List UInt8) :
    ofLeBytes (xs ++ ys) = ofLeBytes xs + 256 ^ xs.length * ofLeBytes ys := by
  induction xs with
  | nil => simp [ofLeBytes]
  | cons x xs ih =>
    rw [List.cons_append, ofLeBytes, ih, ofLeBytes, List.length_cons, pow_succ]
    ring

/-- The number that bytes denote in two's complement, least significant first. -/
def signedOfLeBytes : ℤ := (BitVec.ofNat (8 * bs.length) (ofLeBytes bs)).toInt

theorem two_pow_width : 2 ^ (8 * bs.length) = 256 ^ bs.length := by rw [pow_mul]; rfl

theorem signedOfLeBytes_eq : signedOfLeBytes bs =
    if 256 ^ bs.length ≤ 2 * ofLeBytes bs then (ofLeBytes bs : ℤ) - 256 ^ bs.length
    else ofLeBytes bs := by
  have hlt := ofLeBytes_lt bs
  rw [← two_pow_width] at hlt ⊢
  rw [signedOfLeBytes, BitVec.toInt_eq_toNat_cond, BitVec.toNat_ofNat, Nat.mod_eq_of_lt hlt]
  by_cases hneg : 2 ^ (8 * bs.length) ≤ 2 * ofLeBytes bs
  · rw [if_neg hneg.not_gt, if_pos hneg, two_pow_width]
    push_cast
    rfl
  · rw [if_pos (not_le.mp hneg), if_neg hneg]

theorem and_0x80_ne_zero_iff (b : UInt8) : b &&& 0x80 ≠ 0 ↔ 128 ≤ b.toNat := by
  have hall : ∀ i : Fin 256, UInt8.ofNat i.val &&& 0x80 ≠ 0 ↔ 128 ≤ i.val := by decide +kernel
  have hb := hall ⟨b.toNat, b.toNat_lt⟩
  rwa [UInt8.ofNat_toNat] at hb

theorem getLast?_any_0x80_iff : (bs.getLast?.any fun b => b &&& 0x80 ≠ 0) = true ↔
    256 ^ bs.length ≤ 2 * ofLeBytes bs := by
  rcases bs.eq_nil_or_concat' with rfl | ⟨low, top, rfl⟩
  · simp [ofLeBytes]
  have hlow := ofLeBytes_lt low
  have htop : top.toNat < 256 := top.toNat_lt
  have hvalue : ofLeBytes [top] = top.toNat := by simp [ofLeBytes]
  rw [List.getLast?_concat, Option.any_some, decide_eq_true_iff, and_0x80_ne_zero_iff,
    ofLeBytes_append, hvalue, List.length_append, List.length_singleton, pow_succ]
  generalize 256 ^ low.length = p at hlow ⊢
  constructor
  · intro h
    have : p * 128 ≤ p * top.toNat := Nat.mul_le_mul_left _ h
    omega
  · intro h
    by_contra hlt
    have : p * top.toNat ≤ p * 127 := Nat.mul_le_mul_left _ (by omega)
    omega

end Signed

end ByteOrder
