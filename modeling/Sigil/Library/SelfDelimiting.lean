import Mathlib.Algebra.Order.Ring.Nat
import Mathlib.Data.List.Sort
import Mathlib.Logic.Function.Basic
import Mathlib.Tactic.Common

/-! # Self-delimiting encodings

An encoding is self-delimiting when a value can be read off the front of any longer word.
Words of fixed width are, and so are sequences of such encodings; a list is once its length
is known, and an optional value behind a byte that says whether it is there. A set is encoded as
the list of its elements in order.
-/

namespace SelfDelimiting

variable {α β γ : Type*}

/-- Equal words that start with encoded values start with the same value. -/
def Delimits (enc : α → List β) : Prop :=
  ∀ ⦃a b x y⦄, enc a ++ x = enc b ++ y → a = b ∧ x = y

variable {enc : α → List β}

theorem delimits_of_length {n : ℕ} (hlen : ∀ a, (enc a).length = n)
    (hinj : Function.Injective enc) : Delimits enc := by
  intro a b x y hab
  obtain ⟨hword, hrest⟩ := List.append_inj hab (by rw [hlen, hlen])
  exact ⟨hinj hword, hrest⟩

theorem Delimits.comp (h : Delimits enc) {f : γ → α} (hf : Function.Injective f) :
    Delimits (enc ∘ f) := by
  intro a b x y hab
  obtain ⟨hword, hrest⟩ := h hab
  exact ⟨hf hword, hrest⟩

theorem Delimits.flatMap_inj (h : Delimits enc) {l l' : List α} {x y : List β}
    (hlen : l.length = l'.length) (heq : l.flatMap enc ++ x = l'.flatMap enc ++ y) :
    l = l' ∧ x = y := by
  induction l generalizing l' with
  | nil =>
    obtain rfl : l' = [] := List.eq_nil_of_length_eq_zero hlen.symm
    exact ⟨rfl, heq⟩
  | cons a l ih =>
    cases l' with
    | nil => simp at hlen
    | cons b l' =>
      simp only [List.flatMap_cons, List.append_assoc] at heq
      obtain ⟨rfl, hrest⟩ := h heq
      obtain ⟨rfl, hxy⟩ := ih (by simpa using hlen) hrest
      exact ⟨rfl, hxy⟩

section Bytes

/-- The low `w` bytes of a number, least significant first. -/
def leBytes : ℕ → ℕ → List UInt8
  | 0, _ => []
  | w + 1, n => UInt8.ofNat (n % 256) :: leBytes w (n / 256)

@[simp] theorem leBytes_length (w n : ℕ) : (leBytes w n).length = w := by
  induction w generalizing n with
  | zero => rfl
  | succ w ih => simp [leBytes, ih]

theorem leBytes_mod (w n : ℕ) : leBytes w (n % 256 ^ w) = leBytes w n := by
  induction w generalizing n with
  | zero => rfl
  | succ w ih =>
    rw [leBytes, leBytes, Nat.pow_succ', Nat.mod_mul_right_mod, Nat.mod_mul_right_div_self, ih]

theorem leBytes_inj {w m n : ℕ} (hm : m < 256 ^ w) (hn : n < 256 ^ w)
    (h : leBytes w m = leBytes w n) : m = n := by
  induction w generalizing m n with
  | zero => simp at hm hn; omega
  | succ w ih =>
    simp only [leBytes, List.cons.injEq] at h
    have hlow : m % 256 = n % 256 := by
      have := congrArg UInt8.toNat h.1
      simpa using this
    have hhigh := ih (by rw [Nat.pow_succ] at hm; omega) (by rw [Nat.pow_succ] at hn; omega) h.2
    omega

theorem leBytes_append_inj {w m n : ℕ} {x y : List UInt8} (hm : m < 256 ^ w) (hn : n < 256 ^ w)
    (h : leBytes w m ++ x = leBytes w n ++ y) : m = n ∧ x = y := by
  obtain ⟨hword, hrest⟩ := List.append_inj h (by simp)
  exact ⟨leBytes_inj hm hn hword, hrest⟩

/-- The number that bytes denote, least significant first. -/
def ofLeBytes : List UInt8 → ℕ
  | [] => 0
  | b :: bs => b.toNat + 256 * ofLeBytes bs

theorem ofLeBytes_lt (bs : List UInt8) : ofLeBytes bs < 256 ^ bs.length := by
  induction bs with
  | nil => simp [ofLeBytes]
  | cons b bs ih =>
    have hb : b.toNat < 256 := b.toNat_lt
    rw [ofLeBytes, List.length_cons, Nat.pow_succ]
    omega

theorem ofLeBytes_leBytes {w n : ℕ} (h : n < 256 ^ w) : ofLeBytes (leBytes w n) = n := by
  induction w generalizing n with
  | zero => simp at h; simp [leBytes, ofLeBytes, h]
  | succ w ih =>
    have hhigh : n / 256 < 256 ^ w := by rw [Nat.pow_succ] at h; omega
    have hlow : (UInt8.ofNat (n % 256)).toNat = n % 256 := by simp
    rw [leBytes, ofLeBytes, ih hhigh, hlow]
    omega

theorem leBytes_ofLeBytes {w : ℕ} {bs : List UInt8} (h : bs.length = w) :
    leBytes w (ofLeBytes bs) = bs := by
  subst h
  induction bs with
  | nil => rfl
  | cons b bs ih =>
    have hb : b.toNat < 256 := b.toNat_lt
    have hlow : (b.toNat + 256 * ofLeBytes bs) % 256 = b.toNat := by omega
    have hhigh : (b.toNat + 256 * ofLeBytes bs) / 256 = ofLeBytes bs := by omega
    rw [List.length_cons, ofLeBytes, leBytes, hlow, hhigh, ih, UInt8.ofNat_toNat]

theorem delimits_u64 : Delimits fun v : UInt64 => leBytes 8 v.toNat :=
  delimits_of_length (fun _ => leBytes_length 8 _) fun a b h =>
    UInt64.toNat_inj.mp (leBytes_inj a.toNat_lt b.toNat_lt h)

theorem delimits_u32 : Delimits fun v : UInt32 => leBytes 4 v.toNat :=
  delimits_of_length (fun _ => leBytes_length 4 _) fun a b h =>
    UInt32.toNat_inj.mp (leBytes_inj a.toNat_lt b.toNat_lt h)

theorem delimits_u16 : Delimits fun v : UInt16 => leBytes 2 v.toNat :=
  delimits_of_length (fun _ => leBytes_length 2 _) fun a b h =>
    UInt16.toNat_inj.mp (leBytes_inj a.toNat_lt b.toNat_lt h)

theorem delimits_u8 : Delimits fun v : UInt8 => [v] :=
  delimits_of_length (fun _ => rfl) fun _ _ h => (List.cons.inj h).1

def boolByte (b : Bool) : UInt8 := if b then 1 else 0

theorem boolByte_injective : Function.Injective boolByte := by
  intro a b
  cases a <;> cases b <;> simp [boolByte]

theorem delimits_bool : Delimits fun b : Bool => [boolByte b] :=
  delimits_u8.comp boolByte_injective

/-- A list behind its length in four bytes. -/
def counted (enc : α → List UInt8) (l : List α) : List UInt8 :=
  leBytes 4 l.length ++ l.flatMap enc

theorem counted_length {enc : α → List UInt8} {n : ℕ} {l : List α}
    (h : ∀ a ∈ l, (enc a).length = n) : (counted enc l).length = 4 + l.length * n := by
  rw [counted, List.length_append, leBytes_length, List.length_flatMap,
    List.map_congr_left h, List.map_const', List.sum_replicate_nat]

theorem counted_append_inj {enc : α → List UInt8} (h : Delimits enc) {l l' : List α}
    {x y : List UInt8} (hl : l.length < 2 ^ 32) (hl' : l'.length < 2 ^ 32)
    (heq : counted enc l ++ x = counted enc l' ++ y) : l = l' ∧ x = y := by
  simp only [counted, List.append_assoc] at heq
  obtain ⟨hlen, hrest⟩ := leBytes_append_inj (by omega) (by omega) heq
  exact h.flatMap_inj hlen hrest

/-- A byte that says whether a value follows. -/
def optional (enc : α → List UInt8) : Option α → List UInt8
  | none => [0]
  | some a => 1 :: enc a

theorem optional_append_inj {enc : α → List UInt8} {o o' : Option α} {x y : List UInt8}
    (h : ∀ a ∈ o, ∀ b ∈ o', enc a ++ x = enc b ++ y → a = b ∧ x = y)
    (heq : optional enc o ++ x = optional enc o' ++ y) : o = o' ∧ x = y := by
  cases o with
  | none =>
    cases o' with
    | none => exact ⟨rfl, (List.cons.inj heq).2⟩
    | some b => exact absurd (List.cons.inj heq).1 (by decide)
  | some a =>
    cases o' with
    | none => exact absurd (List.cons.inj heq).1 (by decide)
    | some b =>
      obtain ⟨rfl, hrest⟩ := h a rfl b rfl (List.cons.inj heq).2
      exact ⟨rfl, hrest⟩

theorem Delimits.optional {enc : α → List UInt8} (h : Delimits enc) : Delimits (optional enc) :=
  fun _ _ _ _ => optional_append_inj fun _ _ _ _ heq => h heq

theorem optional_counted_append_inj {enc : α → List UInt8} (h : Delimits enc)
    {o o' : Option (List α)} {x y : List UInt8} (ho : ∀ l ∈ o, l.length < 2 ^ 32)
    (ho' : ∀ l ∈ o', l.length < 2 ^ 32)
    (heq : optional (counted enc) o ++ x = optional (counted enc) o' ++ y) : o = o' ∧ x = y :=
  optional_append_inj (fun l hl l' hl' => counted_append_inj h (ho l hl) (ho' l' hl')) heq

end Bytes

section Sorted

variable {κ : Type*} {r : α → α → Prop} [DecidableRel r] [Std.Total r] [IsTrans α r] {key : α → κ}

/-- Lists with distinct keys are the same in order exactly when they have the same elements. -/
theorem insertionSort_eq_iff (hr : ∀ a b, r a b → r b a → key a = key b) {l l' : List α}
    (hl : (l.map key).Nodup) (hl' : (l'.map key).Nodup) :
    l.insertionSort r = l'.insertionSort r ↔ ∀ a, a ∈ l ↔ a ∈ l' := by
  have hsort := List.perm_insertionSort r l
  have hsort' := List.perm_insertionSort r l'
  rw [← List.perm_ext_iff_of_nodup hl.of_map hl'.of_map]
  constructor
  · intro heq
    rw [heq] at hsort
    exact hsort.symm.trans hsort'
  · intro hperm
    refine List.Perm.eq_of_pairwise ?_ (List.pairwise_insertionSort r l)
      (List.pairwise_insertionSort r l') ((hsort.trans hperm).trans hsort'.symm)
    intro a b ha hb hab hba
    have hb' : b ∈ l := hperm.symm.subset (hsort'.subset hb)
    exact List.inj_on_of_nodup_map hl (hsort.subset ha) hb' (hr a b hab hba)

end Sorted

end SelfDelimiting
