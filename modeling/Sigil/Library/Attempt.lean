import Mathlib.Data.List.Induction
import Mathlib.Tactic.Common

/-! # Runs of attempts

A step may refuse an input; a run then goes on from the same state. The run keeps the
inputs that were taken, newest first.
-/

namespace Attempt

variable {σ α ε : Type*}

/-- The state after a list of inputs and the inputs that were taken. -/
def run (step : σ → α → Except ε σ) (s : σ) (inputs : List α) : σ × List α :=
  inputs.foldl (fun st a => match step st.1 a with
    | .ok s' => (s', a :: st.2)
    | .error _ => st) (s, [])

variable {step : σ → α → Except ε σ} {s : σ} {inputs : List α}

theorem run_append_singleton (a : α) :
    run step s (inputs ++ [a]) = match step (run step s inputs).1 a with
      | .ok s' => (s', a :: (run step s inputs).2)
      | .error _ => run step s inputs := by
  simp only [run, List.foldl_append, List.foldl_cons, List.foldl_nil]

theorem mem_of_mem_run {a : α} (ha : a ∈ (run step s inputs).2) : a ∈ inputs := by
  induction inputs using List.reverseRecOn with
  | nil => exact ha
  | append_singleton inputs b ih =>
    rw [run_append_singleton] at ha
    split at ha
    · rcases List.mem_cons.mp ha with rfl | ha
      · simp
      · exact List.mem_append_left _ (ih ha)
    · exact List.mem_append_left _ (ih ha)

/-- What holds at the start and is kept by every taken input holds after the run. Each taken
input comes after the inputs taken before it in the order `r` of the list. -/
theorem run_induction {r : α → α → Prop} {P : σ → List α → Prop} (hr : inputs.Pairwise r)
    (h₀ : P s []) (hstep : ∀ s taken a s', P s taken → (∀ b ∈ taken, r b a) →
      step s a = .ok s' → P s' (a :: taken)) :
    P (run step s inputs).1 (run step s inputs).2 := by
  induction inputs using List.reverseRecOn with
  | nil => exact h₀
  | append_singleton inputs a ih =>
    rw [List.pairwise_append] at hr
    rw [run_append_singleton]
    split
    · rename_i s' hs'
      refine hstep _ _ a s' (ih hr.1) (fun b hb => ?_) hs'
      exact hr.2.2 b (mem_of_mem_run hb) a (List.mem_singleton_self a)
    · exact ih hr.1

end Attempt
