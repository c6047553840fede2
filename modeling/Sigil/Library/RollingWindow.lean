import Sigil.Library.EpochHistory
import Sigil.Library.Trace

/-! # Limits over a rolling window

A log admits an amount if it fits beside what the log shows of the window up to then. If the log
shows every amount it admitted for as long as a window may reach back to it, no window holds more
than the limit.
-/

namespace RollingWindow

open EpochHistory Trace

variable {σ α : Type*}

/-- The amounts of a run under their times, newest first. A label may stand for none. -/
def history (event : α → Option (ℤ × ℕ)) (as : List α) : List (ℤ × ℕ) := as.reverse.filterMap event

/-- One step of a log: `now` is its clock and `seen s τ` what it shows since the time `τ`. -/
structure Admits (now : σ → ℤ) (seen : σ → ℤ → ℕ) (event : α → Option (ℤ × ℕ)) (window : ℤ)
    (cap : ℕ) (s : σ) (a : α) (s' : σ) : Prop where
  now_le : now s ≤ now s'
  event_ge : ∀ y ∈ event a, now s ≤ y.1
  admitted : ∀ y ∈ event a, y.2 = 0 ∨ seen s (y.1 - window) + y.2 ≤ cap
  shown : ∀ τ, now s' - window ≤ τ → total (τ ≤ ·) (event a).toList + seen s τ ≤ seen s' τ

variable {now : σ → ℤ} {seen : σ → ℤ → ℕ} {event : α → Option (ℤ × ℕ)} {window : ℤ} {cap : ℕ}
  {s s' : σ} {a : α} {as : List α}

theorem total_history_snoc (p : ℤ → Prop) [DecidablePred p] : total p (history event (as ++ [a])) =
    total p (event a).toList + total p (history event as) := by
  cases ha : event a with
  | none => simp [history, ha]
  | some y =>
    obtain ⟨t, x⟩ := y
    simp [history, ha]

theorem total_history_le_seen (h : Run (Admits now seen event window cap) s as s') {τ : ℤ}
    (hτ : now s' - window ≤ τ) : total (τ ≤ ·) (history event as) ≤ seen s' τ := by
  refine h.induct (P := fun as m => ∀ τ, now m - window ≤ τ →
    total (τ ≤ ·) (history event as) ≤ seen m τ) ?_ ?_ τ hτ
  · intro τ _
    exact Nat.zero_le _
  · intro as m a m' _ ih hstep τ hτ
    have hnow := hstep.now_le
    rw [total_history_snoc]
    exact (Nat.add_le_add_left (ih τ (by omega)) _).trans (hstep.shown τ hτ)

theorem total_history_le (h : Run (Admits now seen event window cap) s as s') {start stop : ℤ}
    (hwindow : stop ≤ start + window) :
    total (fun t => start ≤ t ∧ t ≤ stop) (history event as) ≤ cap := by
  refine h.induct (P := fun as _ => total (fun t => start ≤ t ∧ t ≤ stop) (history event as) ≤ cap)
    (Nat.zero_le _) ?_
  intro as m a m' hrun ih hstep
  rw [total_history_snoc]
  cases ha : event a with
  | none => simpa using ih
  | some y =>
    obtain ⟨t, x⟩ := y
    by_cases hin : start ≤ t ∧ t ≤ stop
    · have hnow : now m ≤ t := hstep.event_ge (t, x) ha
      have hfits : x = 0 ∨ seen m (t - window) + x ≤ cap := hstep.admitted (t, x) ha
      rcases hfits with rfl | hfits
      · simpa using ih
      · -- the window lies within the one that ends at the new amount
        have hprior : total (fun t => start ≤ t ∧ t ≤ stop) (history event as) ≤
            total (t - window ≤ ·) (history event as) := total_mono fun y _ hy => by omega
        have hcover : total (t - window ≤ ·) (history event as) ≤ seen m (t - window) :=
          total_history_le_seen hrun (by omega)
        simp only [Option.toList_some, total_cons, if_pos hin, total_nil]
        omega
    · simpa [hin] using ih

end RollingWindow
