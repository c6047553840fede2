import Mathlib.Data.Nat.Digits.Lemmas
import Mathlib.Data.List.TakeWhile

/-! # Changing the base of a number

A number in base `b` is turned into base `B` one digit at a time: multiply what there is by `b`,
add the digit, and carry. Leading zeros are kept by counting them, so that the change of base is
undone by the change back.
-/

namespace Radix

variable {B b : ℕ}

/-- The digits of what is left of a carry, the lowest first. -/
def spill (B : ℕ) : ℕ → ℕ → List ℕ
  | 0, _ => []
  | fuel + 1, carry => if carry = 0 then [] else carry % B :: spill B fuel (carry / B)

/-- Multiply a number by `b` and add a carry, digit by digit from the lowest. -/
def mulAdd (B b : ℕ) : List ℕ → ℕ → List ℕ
  | [], carry => spill B carry carry
  | d :: ds, carry => (carry + d * b) % B :: mulAdd B b ds ((carry + d * b) / B)

/-- The digits in base `B`, the lowest first, of a number given in base `b`, the highest first. -/
def convert (B b : ℕ) (ds : List ℕ) : List ℕ := ds.foldl (mulAdd B b) []

def leadingZeros (ds : List ℕ) : ℕ := (ds.takeWhile (· = 0)).length

/-- The number in the other base, both with the highest digit first, behind as many zeros. -/
def recode (B b : ℕ) (ds : List ℕ) : List ℕ :=
  List.replicate (leadingZeros ds) 0 ++ (convert B b ds).reverse

section Convert

theorem spill_eq (hB : 1 < B) {fuel carry : ℕ} (h : carry ≤ fuel) :
    spill B fuel carry = Nat.digits B carry := by
  induction fuel generalizing carry with
  | zero =>
    obtain rfl : carry = 0 := Nat.le_zero.mp h
    simp [spill]
  | succ fuel ih =>
    rcases Nat.eq_zero_or_pos carry with rfl | hpos
    · simp [spill]
    · have hlt : carry / B < carry := Nat.div_lt_self hpos hB
      rw [spill, if_neg hpos.ne', ih (by omega), Nat.digits_def' hB hpos]

theorem mulAdd_digits (hB : 1 < B) (hb : 0 < b) (n carry : ℕ) :
    mulAdd B b (Nat.digits B n) carry = Nat.digits B (n * b + carry) := by
  induction n using Nat.strongRecOn generalizing carry with
  | _ n ih =>
    rcases Nat.eq_zero_or_pos n with rfl | hpos
    · simp [mulAdd, spill_eq hB le_rfl]
    · have hsum : n * b + carry = carry + n % B * b + B * (n / B * b) := by
        have hn := Nat.mod_add_div n B
        calc n * b + carry = (n % B + B * (n / B)) * b + carry := by rw [hn]
          _ = carry + n % B * b + B * (n / B * b) := by ring
      have hmul : 0 < n * b := Nat.mul_pos hpos hb
      have hquot : (n * b + carry) / B = n / B * b + (carry + n % B * b) / B := by
        rw [hsum, Nat.add_mul_div_left _ _ (by omega), Nat.add_comm]
      have hmod : (n * b + carry) % B = (carry + n % B * b) % B := by
        rw [hsum, Nat.add_mul_mod_self_left]
      rw [Nat.digits_def' hB hpos, mulAdd, ih _ (Nat.div_lt_self hpos hB),
        Nat.digits_def' hB (by omega : 0 < n * b + carry), hquot, hmod]

theorem convert_eq (hB : 1 < B) (hb : 0 < b) (ds : List ℕ) :
    convert B b ds = Nat.digits B (Nat.ofDigits b ds.reverse) := by
  unfold convert
  induction ds using List.reverseRecOn with
  | nil => simp
  | append_singleton ds d ih =>
    rw [List.foldl_append, ih, List.foldl_cons, List.foldl_nil, mulAdd_digits hB hb,
      List.reverse_append, List.reverse_singleton, List.singleton_append, Nat.ofDigits_cons,
      Nat.mul_comm, Nat.add_comm]

end Convert

section Recode

theorem exists_leadingZeros (ds : List ℕ) : ∃ rest : List ℕ,
    ds = List.replicate (leadingZeros ds) 0 ++ rest ∧ rest.head? ≠ some 0 := by
  refine ⟨ds.dropWhile (· = 0), ?_, ?_⟩
  · have hzeros : ds.takeWhile (· = 0) = List.replicate (leadingZeros ds) 0 := by
      refine List.eq_replicate_iff.mpr ⟨rfl, fun x hx => ?_⟩
      have hx := List.mem_takeWhile_imp hx
      exact of_decide_eq_true hx
    rw [← hzeros, List.takeWhile_append_dropWhile]
  · intro hhead
    have hnot := List.head?_dropWhile_not (· = 0) ds
    rw [hhead] at hnot
    simp at hnot

theorem leadingZeros_replicate_append {n : ℕ} {rest : List ℕ} (h : rest.head? ≠ some 0) :
    leadingZeros (List.replicate n 0 ++ rest) = n := by
  have hrest : rest.takeWhile (· = 0) = [] := by
    cases rest with
    | nil => rfl
    | cons d ds => exact List.takeWhile_cons_of_neg (by simpa using h)
  unfold leadingZeros
  rw [List.takeWhile_append_of_pos (by simp), hrest, List.append_nil, List.length_replicate]

theorem recode_replicate_append (hB : 1 < B) (hb : 0 < b) {n : ℕ} {rest : List ℕ}
    (h : rest.head? ≠ some 0) :
    recode B b (List.replicate n 0 ++ rest) =
      List.replicate n 0 ++ (Nat.digits B (Nat.ofDigits b rest.reverse)).reverse := by
  rw [recode, leadingZeros_replicate_append h, convert_eq hB hb, List.reverse_append,
    List.reverse_replicate, Nat.ofDigits_append_replicate_zero]

theorem head?_reverse_digits_ne (b n : ℕ) : (Nat.digits b n).reverse.head? ≠ some 0 := by
  rw [List.head?_reverse]
  intro hlast
  rcases Nat.eq_zero_or_pos n with rfl | hpos
  · simp at hlast
  · rw [List.getLast?_eq_getLast_of_ne_nil (Nat.digits_ne_nil_iff_ne_zero.mpr hpos.ne')] at hlast
    exact Nat.getLast_digit_ne_zero b hpos.ne' (Option.some.inj hlast)

theorem recode_recode (hB : 1 < B) (hb : 1 < b) {ds : List ℕ} (hds : ∀ d ∈ ds, d < b) :
    recode b B (recode B b ds) = ds := by
  obtain ⟨rest, hsplit, hhead⟩ := exists_leadingZeros ds
  have hback : Nat.digits b (Nat.ofDigits b rest.reverse) = rest.reverse := by
    refine Nat.digits_ofDigits b hb _ ?_ ?_
    · intro d hd
      refine hds d ?_
      rw [hsplit]
      exact List.mem_append_right _ (List.mem_reverse.mp hd)
    · intro hne hzero
      refine hhead ?_
      rw [← List.getLast?_reverse, List.getLast?_eq_getLast_of_ne_nil hne, hzero]
  rw [hsplit, recode_replicate_append hB (Nat.zero_lt_of_lt hb) hhead,
    recode_replicate_append hb (Nat.zero_lt_of_lt hB) (head?_reverse_digits_ne B _),
    List.reverse_reverse, Nat.ofDigits_digits, hback, List.reverse_reverse]

theorem recode_lt (hB : 1 < B) (hb : 0 < b) (ds : List ℕ) : ∀ d ∈ recode B b ds, d < B := by
  intro d hd
  rw [recode, convert_eq hB hb, List.mem_append, List.mem_reverse] at hd
  rcases hd with hzero | hdigit
  · rw [List.eq_of_mem_replicate hzero]
    omega
  · exact Nat.digits_lt_base hB hdigit

end Recode

end Radix
