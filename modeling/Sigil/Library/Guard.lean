import Mathlib.Data.List.Forall2
import Mathlib.Data.Option.Basic
import Mathlib.Tactic.Common

/-! # Guarded computations

A handler is a computation in `Except` that passes a sequence of guards and then
returns. The lemmas peel a successful run into the guards it passed, and a failed one into those
it passed and the one it did not. Which errors a computation can fail with is settled part by part.
-/

namespace Guard

universe u v

variable {ε : Type u} {α β : Type v}

def require (p : Prop) [Decidable p] (e : ε) : Except ε Unit :=
  if p then .ok () else .error e

/-- The value of an option, or the error `e`. -/
def okOr (e : ε) : Option α → Except ε α
  | some a => .ok a
  | none => .error e

@[simp] theorem require_ok_iff {p : Prop} [Decidable p] {e : ε} {u : Unit} :
    require p e = .ok u ↔ p := by
  unfold require
  split <;> simp_all

theorem require_of {p : Prop} [Decidable p] {e : ε} (h : p) : require p e = .ok () :=
  require_ok_iff.mpr h

@[simp] theorem okOr_ok_iff {e : ε} {x : Option α} {a : α} : okOr e x = .ok a ↔ x = some a := by
  cases x <;> simp [okOr]

/-- A sequence succeeds when its first part does and the rest does on the value handed over. -/
theorem seq_ok_iff {x : Except ε α} {f : α → Except ε β} {b : β} :
    x >>= f = .ok b ↔ ∃ a, x = .ok a ∧ f a = .ok b := by
  rcases x with e | a
  · simp only [bind, Except.bind, reduceCtorEq, false_and, exists_false]
  · simp only [bind, Except.bind, Except.ok.injEq, exists_eq_left']

theorem ok_seq (a : α) (f : α → Except ε β) : (Except.ok a >>= f) = f a := rfl

theorem require_seq_ok_iff {β : Type} {p : Prop} [Decidable p] {e : ε} {f : Unit → Except ε β}
    {b : β} : require p e >>= f = .ok b ↔ p ∧ f () = .ok b := by
  rw [seq_ok_iff]
  exact ⟨fun ⟨_, h, hf⟩ => ⟨require_ok_iff.mp h, hf⟩, fun ⟨h, hf⟩ => ⟨(), require_of h, hf⟩⟩

theorem okOr_seq_ok_iff {e : ε} {x : Option α} {f : α → Except ε β} {b : β} :
    okOr e x >>= f = .ok b ↔ ∃ a, x = some a ∧ f a = .ok b := by
  simp only [seq_ok_iff, okOr_ok_iff]

@[simp] theorem require_error_iff {p : Prop} [Decidable p] {e e' : ε} :
    require p e = .error e' ↔ ¬ p ∧ e = e' := by
  unfold require
  split <;> simp_all

@[simp] theorem okOr_error_iff {e e' : ε} {x : Option α} :
    okOr e x = .error e' ↔ x = none ∧ e = e' := by
  cases x <;> simp [okOr]

theorem seq_error_iff {x : Except ε α} {f : α → Except ε β} {e : ε} :
    x >>= f = .error e ↔ x = .error e ∨ ∃ a, x = .ok a ∧ f a = .error e := by
  rcases x with e' | a
  · simp only [bind, Except.bind, Except.error.injEq, reduceCtorEq, false_and, exists_false,
      or_false]
  · simp only [bind, Except.bind, reduceCtorEq, false_or, Except.ok.injEq, exists_eq_left']

theorem toOption_eq_some_iff {x : Except ε α} {a : α} : x.toOption = some a ↔ x = .ok a := by
  cases x <;> simp [Except.toOption]

theorem map_seq {γ : Type v} (g : β → γ) (x : Except ε α) (f : α → Except ε β) :
    g <$> (x >>= f) = x >>= fun a => g <$> f a := by
  cases x <;> rfl

/-- The second computation succeeds wherever the first does, with the same value. -/
def Extends (x y : Except ε α) : Prop := ∀ a, x = .ok a → y = .ok a

theorem Extends.refl (x : Except ε α) : Extends x x := fun _ => id

theorem Extends.seq {x y : Except ε α} {f g : α → Except ε β} (h : Extends x y)
    (hrest : ∀ a, Extends (f a) (g a)) : Extends (x >>= f) (y >>= g) := by
  intro b hb
  obtain ⟨a, ha, hb⟩ := seq_ok_iff.mp hb
  exact seq_ok_iff.mpr ⟨a, h a ha, hrest a b hb⟩

theorem Extends.ite {p : Prop} [Decidable p] {x y x' y' : Except ε α} (h : Extends x y)
    (h' : Extends x' y') : Extends (if p then x else x') (if p then y else y') := by
  split
  · exact h
  · exact h'

theorem Extends.require {p q : Prop} [Decidable p] [Decidable q] {e : ε} (h : p → q) :
    Extends (Guard.require p e) (Guard.require q e) :=
  fun _ hp => require_of (h (require_ok_iff.mp hp))

theorem forM_ok_iff {γ : Type} {f : γ → Except ε PUnit} {l : List γ} {u : PUnit} :
    l.forM f = .ok u ↔ ∀ x ∈ l, f x = .ok ⟨⟩ := by
  induction l with
  | nil => simp [pure, Except.pure]
  | cons x l ih =>
    rw [List.forM, seq_ok_iff, List.forall_mem_cons]
    exact ⟨fun ⟨_, hx, hl⟩ => ⟨hx, ih.mp hl⟩, fun ⟨hx, hl⟩ => ⟨_, hx, ih.mpr hl⟩⟩

theorem mapM_ok_iff {γ : Type} {f : γ → Except ε α} {l : List γ} {l' : List α} :
    l.mapM f = .ok l' ↔ List.Forall₂ (fun x y => f x = .ok y) l l' := by
  induction l generalizing l' with
  | nil => simp [pure, Except.pure, eq_comm]
  | cons x l ih =>
    simp only [List.mapM_cons, seq_ok_iff, ih, List.forall₂_cons_left_iff]
    constructor
    · rintro ⟨y, hy, ys, hys, hl'⟩
      exact ⟨y, ys, hy, hys, (Except.ok.inj hl').symm⟩
    · rintro ⟨y, ys, hy, hys, rfl⟩
      exact ⟨y, hy, ys, hys, rfl⟩

theorem Extends.forM {γ : Type} {f g : γ → Except ε PUnit} {l : List γ}
    (h : ∀ x, Extends (f x) (g x)) : Extends (l.forM f) (l.forM g) :=
  fun _ hf => forM_ok_iff.mpr fun x hx => h x _ (forM_ok_iff.mp hf x hx)

theorem Extends.mapM {γ : Type} {f g : γ → Except ε α} {l : List γ}
    (h : ∀ x, Extends (f x) (g x)) : Extends (l.mapM f) (l.mapM g) :=
  fun _ hf => mapM_ok_iff.mpr ((mapM_ok_iff.mp hf).imp fun x y => h x y)

theorem forall₂_of_mapM_zipIdx {γ : Type} {f : γ × ℕ → Except ε α} {l : List γ} {l' : List α}
    {n : ℕ} (h : (l.zipIdx n).mapM f = .ok l') :
    List.Forall₂ (fun x y => ∃ i, f (x, i) = .ok y) l l' := by
  rw [mapM_ok_iff] at h
  induction l generalizing n l' with
  | nil =>
    cases h
    exact .nil
  | cons x l ih =>
    rw [List.zipIdx_cons] at h
    obtain ⟨y, ys, hy, hys, rfl⟩ := List.forall₂_cons_left_iff.mp h
    exact .cons ⟨n, hy⟩ (ih hys)

theorem mapM_ok_getElem? {γ : Type} {f : γ → Except ε α} {l : List γ} {l' : List α}
    (h : l.mapM f = .ok l') {i : ℕ} {x : γ} (hx : l[i]? = some x) :
    ∃ y, l'[i]? = some y ∧ f x = .ok y := by
  rw [mapM_ok_iff] at h
  induction h generalizing i with
  | nil => simp at hx
  | @cons z y l ys hy _ ih =>
    cases i with
    | zero =>
      cases hx
      exact ⟨y, rfl, hy⟩
    | succ i => exact ih hx

theorem foldlM_invariant {γ : Type} {f : β → γ → Except ε β} {P : β → Prop} {l : List γ} {b b' : β}
    (h : l.foldlM f b = .ok b') (hstep : ∀ b x b', P b → f b x = .ok b' → P b') (hb : P b) :
    P b' := by
  induction l generalizing b with
  | nil =>
    cases h
    exact hb
  | cons x l ih =>
    rw [List.foldlM_cons, seq_ok_iff] at h
    obtain ⟨middle, hfirst, hrest⟩ := h
    exact ih hrest (hstep b x middle hb hfirst)

theorem foldlM_error {γ : Type} {f : β → γ → Except ε β} {l : List γ} {b : β} {e : ε}
    (h : l.foldlM f b = .error e) :
    ∃ front x back b', l = front ++ x :: back ∧ front.foldlM f b = .ok b' ∧ f b' x = .error e := by
  induction l generalizing b with
  | nil => cases h
  | cons x l ih =>
    rw [List.foldlM_cons, seq_error_iff] at h
    rcases h with hfirst | ⟨middle, hfirst, hrest⟩
    · exact ⟨[], x, l, b, rfl, rfl, hfirst⟩
    · obtain ⟨front, y, back, b', rfl, hfront, hy⟩ := ih hrest
      refine ⟨x :: front, y, back, b', rfl, ?_, hy⟩
      rw [List.foldlM_cons, hfirst]
      exact hfront

/-- Where the computation succeeds, `p` holds. -/
def Ensures {ε α : Type} (p : Prop) (x : Except ε α) : Prop :=
  ∀ a, x = .ok a → p

section Ensures

variable {ε α β : Type} {p q : Prop} {f : α → Except ε β}

theorem Ensures.require [Decidable q] {e : ε} {f : Unit → Except ε β} (h : q → p) :
    Ensures p (require q e >>= f) :=
  fun _ hb => h (require_seq_ok_iff.mp hb).1

theorem Ensures.okOr {e : ε} {x : Option α} {a : α} (hx : x = some a) (h : Ensures p (f a)) :
    Ensures p (okOr e x >>= f) := by
  subst hx
  exact h

theorem Ensures.later {x : Except ε α} (h : ∀ a, Ensures p (f a)) : Ensures p (x >>= f) := by
  intro b hb
  obtain ⟨a, -, ha⟩ := seq_ok_iff.mp hb
  exact h a b ha

end Ensures

/-- The computation fails with no error in `bad`. -/
def Spares (bad : ε → Prop) (x : Except ε α) : Prop :=
  ∀ e, x = .error e → ¬ bad e

section Spares

variable {bad : ε → Prop}

@[simp] theorem spares_ok (a : α) : Spares bad (.ok a) := fun _ h => nomatch h

@[simp] theorem spares_pure (a : α) : Spares bad (pure a) := spares_ok a

@[simp] theorem spares_error_iff {e : ε} : Spares bad (.error e : Except ε α) ↔ ¬ bad e :=
  ⟨fun h => h e rfl, fun h _ he => Except.error.inj he ▸ h⟩

@[simp] theorem spares_require_iff {p : Prop} [Decidable p] {e : ε} :
    Spares bad (require p e) ↔ (¬ p → ¬ bad e) := by
  by_cases hp : p <;> simp [require, hp]

@[simp] theorem spares_okOr_iff {e : ε} {x : Option α} :
    Spares bad (okOr e x) ↔ (x = none → ¬ bad e) := by
  cases x <;> simp [okOr]

@[simp] theorem spares_seq_iff {x : Except ε α} {f : α → Except ε β} :
    Spares bad (x >>= f) ↔ Spares bad x ∧ ∀ a, x = .ok a → Spares bad (f a) := by
  rcases x with e | a <;> simp [bind, Except.bind]

theorem Spares.seq {x : Except ε α} {f : α → Except ε β} (hx : Spares bad x)
    (hf : ∀ a, Spares bad (f a)) : Spares bad (x >>= f) :=
  spares_seq_iff.mpr ⟨hx, fun a _ => hf a⟩

@[simp] theorem spares_map_iff {x : Except ε α} {f : α → β} :
    Spares bad (f <$> x) ↔ Spares bad x := by
  rcases x with e | a <;> simp [Functor.map, Except.map]

@[simp] theorem spares_ite_iff {p : Prop} [Decidable p] {x y : Except ε α} :
    Spares bad (if p then x else y) ↔ (p → Spares bad x) ∧ (¬ p → Spares bad y) := by
  by_cases hp : p <;> simp [hp]

theorem spares_forM {γ : Type} {f : γ → Except ε PUnit} {l : List γ}
    (h : ∀ x ∈ l, Spares bad (f x)) : Spares bad (l.forM f) := by
  induction l with
  | nil => exact spares_pure _
  | cons x l ih =>
    rw [List.forM, spares_seq_iff]
    exact ⟨h x List.mem_cons_self, fun _ _ => ih fun y hy => h y (List.mem_cons_of_mem x hy)⟩

theorem spares_mapM {γ : Type v} {f : γ → Except ε α} {l : List γ}
    (h : ∀ x ∈ l, Spares bad (f x)) : Spares bad (l.mapM f) := by
  induction l with
  | nil => exact spares_pure _
  | cons x l ih =>
    rw [List.mapM_cons, spares_seq_iff]
    refine ⟨h x List.mem_cons_self, fun _ _ => ?_⟩
    rw [spares_seq_iff]
    exact ⟨ih fun y hy => h y (List.mem_cons_of_mem x hy), fun _ _ => spares_pure _⟩

theorem spares_foldlM {γ : Type} {f : α → γ → Except ε α} {l : List γ}
    (h : ∀ a, ∀ x ∈ l, Spares bad (f a x)) (a : α) : Spares bad (l.foldlM f a) := by
  induction l generalizing a with
  | nil => exact spares_pure _
  | cons x l ih =>
    rw [List.foldlM_cons, spares_seq_iff]
    exact ⟨h a x List.mem_cons_self,
      fun b _ => ih (fun c y hy => h c y (List.mem_cons_of_mem x hy)) b⟩

end Spares

theorem mapError_ok_iff {ε' : Type} {f : ε → ε'} {x : Except ε α} {a : α} :
    x.mapError f = .ok a ↔ x = .ok a := by
  cases x <;> simp [Except.mapError]

theorem pure_ok_iff {a b : α} : (pure a : Except ε α) = .ok b ↔ a = b :=
  Except.ok.injEq a b ▸ Iff.rfl

end Guard
