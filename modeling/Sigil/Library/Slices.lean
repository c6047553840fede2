import Sigil.Library.Guard

/-! # Slices

A slice outside of its data stops the program that takes it. A computation over slices returns a
value or an error, or it panics, and `Returns` says that it does not panic and what it returns.
-/

namespace Slices

variable {ε α β γ : Type}

/-- A computation that can fail and can panic. -/
abbrev Panicking (ε α : Type) := ExceptT ε Option α

/-- A part that takes no slice. -/
def decided (r : Except ε α) : Panicking ε α := ExceptT.mk (some r)

def halt : Panicking ε α := ExceptT.mk none

def index (data : List α) (i : ℕ) : Panicking ε α := (data[i]?).elim halt pure

def slice (data : List α) (start stop : ℕ) : Panicking ε (List α) :=
  if start ≤ stop ∧ stop ≤ data.length then pure ((data.drop start).take (stop - start)) else halt

/-- Overwrite the first elements, up to `stop`, with a source of the same length. -/
def copyFromSlice (data : List α) (stop : ℕ) (source : List α) : Panicking ε (List α) :=
  if stop ≤ data.length ∧ source.length = stop then pure (source ++ data.drop stop) else halt

/-- The computation does not panic, and it ends with `r`. -/
def Returns (x : Panicking ε α) (r : Except ε α) : Prop := x.run = some r

theorem returns_decided (r : Except ε α) : Returns (decided r) r := rfl

theorem returns_pure (a : α) : Returns (pure a : Panicking ε α) (.ok a) := rfl

theorem Returns.seq {x : Panicking ε α} {r : Except ε α} {f : α → Panicking ε β}
    {g : α → Except ε β} (h : Returns x r) (hrest : ∀ a, r = .ok a → Returns (f a) (g a)) :
    Returns (x >>= f) (r >>= g) := by
  unfold Returns at h
  change (x.run >>= ExceptT.bindCont f) = _
  rw [h]
  cases r with
  | error e => rfl
  | ok a => exact hrest a rfl

theorem Returns.ok_seq {x : Panicking ε α} {a : α} {f : α → Panicking ε β} {r : Except ε β}
    (h : Returns x (.ok a)) (hrest : Returns (f a) r) : Returns (x >>= f) r :=
  h.seq (g := fun _ => r) fun b hb => by
    cases hb
    exact hrest

theorem Returns.error_seq {x : Panicking ε α} {e : ε} {f : α → Panicking ε β}
    (h : Returns x (.error e)) : Returns (x >>= f) (.error e) :=
  h.seq (g := fun _ => .error e) fun _ ha => by cases ha

theorem returns_index {data : List α} {i : ℕ} {a : α} (h : data[i]? = some a) :
    Returns (index data i : Panicking ε α) (.ok a) := by
  rw [index, h]
  rfl

theorem returns_index_ofFn {n i : ℕ} (f : Fin n → α) (hi : i < n) :
    Returns (index (List.ofFn f) i : Panicking ε α) (.ok (f ⟨i, hi⟩)) :=
  returns_index (by rw [List.getElem?_ofFn, dif_pos hi])

theorem returns_slice {data : List α} {start stop : ℕ} (hle : start ≤ stop)
    (h : stop ≤ data.length) :
    Returns (slice data start stop : Panicking ε _) (.ok ((data.drop start).take (stop - start))) :=
  by
    rw [slice, if_pos ⟨hle, h⟩]
    rfl

theorem returns_copyFromSlice {data source : List α} {stop : ℕ} (h : stop ≤ data.length)
    (hsource : source.length = stop) :
    Returns (copyFromSlice data stop source : Panicking ε _) (.ok (source ++ data.drop stop)) := by
  rw [copyFromSlice, if_pos ⟨h, hsource⟩]
  rfl

end Slices
