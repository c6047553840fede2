import Mathlib.Data.List.Forall2
import Mathlib.Tactic.Common

/-! # Filling a buffer from the front

A buffer of a size that was computed beforehand is allocated and then written at a cursor that only
moves forward. Each writer emits a word: it puts that word behind what is there already. Writers in
a row emit their words in a row, so the contents of the buffer can be read off the program text.
-/

namespace Fill

variable {ε α β γ : Type}

structure Buffer (α : Type) where
  cells : List α
  off : ℕ

abbrev Writer (ε α : Type) := StateT (Buffer α) (Except ε)

/-- A word that does not fit is refused. -/
def put (e : ε) (word : List α) : Writer ε α Unit := fun b =>
  if b.off + word.length ≤ b.cells.length then
    .ok ((), ⟨b.cells.take b.off ++ (word ++ b.cells.drop (b.off + word.length)),
      b.off + word.length⟩)
  else .error e

/-- Past the end nothing is written, and the cursor moves all the same. -/
def poke (a : α) : Writer ε α Unit := fun b => .ok ((), ⟨b.cells.set b.off a, b.off + 1⟩)

def skip (n : ℕ) : Writer ε α Unit := fun b => .ok ((), ⟨b.cells, b.off + n⟩)

def write (zero : α) (size : ℕ) (w : Writer ε α Unit) : Except ε (Buffer α) :=
  Prod.snd <$> w ⟨List.replicate size zero, 0⟩

/-- The buffer whose first cells hold a word. -/
def holding (zero : α) (size : ℕ) (word : List α) : Buffer α :=
  ⟨word ++ List.replicate (size - word.length) zero, word.length⟩

/-- The program writes the word behind whatever the buffer holds, if there is room for it. -/
def Emits (zero : α) (w : Writer ε α Unit) (word : List α) : Prop :=
  ∀ ⦃held : List α⦄ ⦃size : ℕ⦄, (held ++ word).length ≤ size →
    w (holding zero size held) = .ok ((), holding zero size (held ++ word))

variable {zero : α} {w w' : Writer ε α Unit} {word word' : List α}

theorem drop_replicate_tail {held : List α} {size n : ℕ} (h : held.length + n ≤ size) :
    (held ++ List.replicate (size - held.length) zero).drop (held.length + n) =
      List.replicate (size - (held.length + n)) zero := by
  rw [List.drop_append, List.drop_replicate, List.drop_of_length_le (by omega), List.nil_append]
  congr 1
  omega

theorem emits_put (e : ε) (word : List α) : Emits zero (put e word) word := by
  intro held size hroom
  rw [List.length_append] at hroom
  have hfits : held.length + word.length ≤
      (held ++ List.replicate (size - held.length) zero).length := by
    rw [List.length_append, List.length_replicate]
    omega
  unfold put holding
  rw [if_pos hfits]
  simp only [drop_replicate_tail hroom, List.take_left', List.append_assoc, List.length_append]

theorem emits_poke (a : α) : Emits zero (poke a : Writer ε α Unit) [a] := by
  intro held size hroom
  rw [List.length_append, List.length_singleton] at hroom
  obtain ⟨n, rfl⟩ := Nat.exists_eq_add_of_lt hroom
  have hone : held.length + n + 1 - held.length = n + 1 := by omega
  have hrest : held.length + n + 1 - (held.length + 1) = n := by omega
  simp only [poke, holding, List.length_append, List.length_singleton, hone, hrest,
    List.replicate_succ, List.set_append_right _ _ (Nat.le_refl _), Nat.sub_self,
    List.set_cons_zero, List.append_assoc, List.singleton_append]

theorem emits_skip (n : ℕ) : Emits zero (skip n : Writer ε α Unit) (List.replicate n zero) := by
  intro held size hroom
  rw [List.length_append, List.length_replicate] at hroom
  have hsplit : size - held.length = n + (size - (held.length + n)) := by omega
  simp only [skip, holding, List.length_append, List.length_replicate, List.append_assoc,
    ← List.replicate_add, ← hsplit]

theorem emits_pure : Emits zero (pure () : Writer ε α Unit) [] := by
  intro held size _
  rw [List.append_nil]
  rfl

theorem Emits.seq (h : Emits zero w word) (h' : Emits zero w' word') :
    Emits zero (w >>= fun _ => w') (word ++ word') := by
  intro held size hroom
  rw [← List.append_assoc] at hroom ⊢
  have hfirst : (held ++ word).length ≤ size := by
    rw [List.length_append] at hroom
    omega
  have hrun := h hfirst
  have hrun' := h' hroom
  show (w (holding zero size held) >>= fun r => w' r.2) = _
  rw [hrun]
  exact hrun'

theorem Emits.lift {x : Except ε β} {b : β} {f : β → Writer ε α Unit} (hx : x = .ok b)
    (h : Emits zero (f b) word) : Emits zero ((liftM x : Writer ε α β) >>= f) word := by
  intro held size hroom
  subst hx
  exact h hroom

theorem emits_forM {l : List β} {l' : List γ} {f : β → Writer ε α Unit} {enc : γ → List α}
    (h : List.Forall₂ (fun b c => Emits zero (f b) (enc c)) l l') :
    Emits zero (l.forM f) (l'.flatMap enc) := by
  induction h with
  | nil => exact emits_pure
  | cons hb _ ih =>
    rw [List.flatMap_cons]
    exact hb.seq ih

theorem Emits.write_eq (h : Emits zero w word) :
    write zero word.length w = .ok ⟨word, word.length⟩ := by
  have hrun : w (holding zero word.length []) = _ := h (Nat.le_refl _)
  simp only [holding, List.nil_append, List.length_nil, Nat.sub_zero, Nat.sub_self,
    List.replicate_zero, List.append_nil] at hrun
  rw [write, hrun]
  rfl

end Fill
