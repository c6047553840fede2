import Mathlib.Data.List.Induction
import Mathlib.Tactic.Common

/-! # Runs of a labelled transition system

A run takes one step for each of its labels. Properties of runs are proved by induction on the
last step, so that they can speak of the labels seen so far.
-/

namespace Trace

variable {σ α : Type*}

/-- The labels lead from the first state to the last. -/
inductive Run (step : σ → α → σ → Prop) : σ → List α → σ → Prop
  | nil (s : σ) : Run step s [] s
  | snoc {s m s' : σ} {as : List α} {a : α} :
      Run step s as m → step m a s' → Run step s (as ++ [a]) s'

namespace Run

variable {step : σ → α → σ → Prop} {s m s' : σ} {a : α} {as bs : List α}

theorem single (h : step s a s') : Run step s [a] s' := snoc (nil s) h

theorem append (h₁ : Run step s as m) (h₂ : Run step m bs s') : Run step s (as ++ bs) s' := by
  induction h₂ with
  | nil => rwa [List.append_nil]
  | snoc _ hstep ih =>
    rw [← List.append_assoc]
    exact snoc ih hstep

theorem map {τ : Type*} {step' : τ → α → τ → Prop} (f : σ → τ) (h : Run step s as s')
    (hstep : ∀ s a s', step s a s' → step' (f s) a (f s')) : Run step' (f s) as (f s') := by
  induction h with
  | nil => exact nil _
  | snoc _ hlast ih => exact snoc ih (hstep _ _ _ hlast)

theorem mono {step' : σ → α → σ → Prop} (h : Run step s as s')
    (hstep : ∀ s a s', step s a s' → step' s a s') : Run step' s as s' :=
  h.map id hstep

theorem nil_inv (h : Run step s [] s') : s' = s := by
  generalize hl : ([] : List α) = l at h
  cases h with
  | nil => rfl
  | snoc => simp at hl

theorem snoc_inv (h : Run step s (as ++ [a]) s') : ∃ m, Run step s as m ∧ step m a s' := by
  generalize hl : as ++ [a] = l at h
  cases h with
  | nil => simp at hl
  | snoc hrun hstep =>
    obtain ⟨rfl, hlast⟩ := List.append_inj' hl rfl
    obtain rfl := List.singleton_inj.mp hlast
    exact ⟨_, hrun, hstep⟩

theorem append_inv (h : Run step s (as ++ bs) s') : ∃ m, Run step s as m ∧ Run step m bs s' := by
  induction bs using List.reverseRecOn generalizing s' with
  | nil => exact ⟨s', by rwa [List.append_nil] at h, nil s'⟩
  | append_singleton bs b ih =>
    rw [← List.append_assoc] at h
    obtain ⟨m', hrun, hstep⟩ := h.snoc_inv
    obtain ⟨m, h₁, h₂⟩ := ih hrun
    exact ⟨m, h₁, snoc h₂ hstep⟩

theorem cons_inv (h : Run step s (a :: as) s') : ∃ m, step s a m ∧ Run step m as s' := by
  have hsplit : Run step s (([] ++ [a]) ++ as) s' := h
  obtain ⟨m, hfirst, hrest⟩ := hsplit.append_inv
  obtain ⟨s₁, hnil, hstep⟩ := hfirst.snoc_inv
  obtain rfl := hnil.nil_inv
  exact ⟨m, hstep, hrest⟩

theorem exists_split (h : Run step s as s') (ha : a ∈ as) : ∃ front back m m',
    as = front ++ a :: back ∧ Run step s front m ∧ step m a m' ∧ Run step m' back s' := by
  obtain ⟨front, back, rfl⟩ := List.append_of_mem ha
  obtain ⟨m, hfront, hrest⟩ := h.append_inv
  obtain ⟨m', hstep, hback⟩ := hrest.cons_inv
  exact ⟨front, back, m, m', rfl, hfront, hstep, hback⟩

theorem exists_step (h : Run step s as s') (ha : a ∈ as) : ∃ m m', step m a m' := by
  obtain ⟨-, -, m, m', -, -, hstep, -⟩ := h.exists_split ha
  exact ⟨m, m', hstep⟩

/-- What holds at the end of a run and did not at its start was gained at a step, and holds ever
since. -/
theorem exists_gain {P : σ → Prop} (h : Run step s as s') (h₀ : ¬ P s) (h₁ : P s') :
    ∃ front a back m m', as = front ++ a :: back ∧ Run step s front m ∧ ¬ P m ∧ step m a m' ∧
      P m' ∧ Run (fun m a m' => P m ∧ step m a m') m' back s' := by
  induction h with
  | nil => exact absurd h₁ h₀
  | @snoc m s' as a hrun hstep ih =>
    by_cases hm : P m
    · obtain ⟨front, b, back, m₁, m₂, rfl, hfront, hnot, hgain, hhas, hback⟩ := ih hm
      exact ⟨front, b, back ++ [a], m₁, m₂, by simp, hfront, hnot, hgain, hhas,
        hback.snoc ⟨hm, hstep⟩⟩
    · exact ⟨as, a, [], m, s', rfl, hrun, hm, hstep, h₁, nil _⟩

theorem induct {P : List α → σ → Prop} (h : Run step s as s') (h₀ : P [] s)
    (hstep : ∀ as m a m', Run step s as m → P as m → step m a m' → P (as ++ [a]) m') :
    P as s' := by
  induction h with
  | nil => exact h₀
  | snoc hrun hlast ih => exact hstep _ _ _ _ hrun ih hlast

theorem invariant {P : σ → Prop} (h : Run step s as s')
    (hstep : ∀ m a m', P m → step m a m' → P m') (h₀ : P s) : P s' :=
  h.induct (P := fun _ => P) h₀ fun _ m a m' _ => hstep m a m'

theorem invariant_of {P : σ → Prop} {Q : α → Prop} (h : Run step s as s')
    (hstep : ∀ m a m', Q a → P m → step m a m' → P m') (hQ : ∀ a ∈ as, Q a) (h₀ : P s) :
    P s' := by
  refine h.induct (P := fun as m => (∀ a ∈ as, Q a) → P m) (fun _ => h₀) ?_ hQ
  intro as m a m' _ ih hlast hall
  have hprior : ∀ b ∈ as, Q b := fun b hb => hall b (List.mem_append_left _ hb)
  exact hstep m a m' (hall a (by simp)) (ih hprior) hlast

/-- When each step raises a counter or spares a view, the counter never falls, and where it is the
same the view is the same. -/
theorem stamped {β : Type*} (counter : σ → ℕ) (view : σ → β) (h : Run step s as s')
    (hstep : ∀ m a m', step m a m' →
      counter m < counter m' ∨ counter m' = counter m ∧ view m' = view m) :
    counter s < counter s' ∨ counter s' = counter s ∧ view s' = view s := by
  refine h.invariant (P := fun m => counter s < counter m ∨ counter m = counter s ∧
    view m = view s) ?_ (.inr ⟨rfl, rfl⟩)
  rintro m a m' (hless | ⟨hcounter, hview⟩) hlast
  · rcases hstep m a m' hlast with hmore | ⟨hsame, -⟩
    · exact .inl (Nat.lt_trans hless hmore)
    · exact .inl (hsame ▸ hless)
  · rcases hstep m a m' hlast with hmore | ⟨hsame, hspared⟩
    · exact .inl (hcounter ▸ hmore)
    · exact .inr ⟨hsame.trans hcounter, hspared.trans hview⟩

end Run

theorem exists_last_split {p : α → Prop} {as : List α} (h : ∃ a ∈ as, p a) :
    ∃ front a rest, as = front ++ a :: rest ∧ p a ∧ ∀ b ∈ rest, ¬ p b := by
  induction as using List.reverseRecOn with
  | nil => simp at h
  | append_singleton as b ih =>
    by_cases hb : p b
    · exact ⟨as, b, [], rfl, hb, by simp⟩
    · obtain ⟨front, a, rest, rfl, ha, hrest⟩ := ih (by
        obtain ⟨a, ha, hpa⟩ := h
        rcases List.mem_append.mp ha with ha | ha
        · exact ⟨a, ha, hpa⟩
        · exact absurd (List.mem_singleton.mp ha ▸ hpa) hb)
      refine ⟨front, a, rest ++ [b], by simp, ha, fun c hc => ?_⟩
      rcases List.mem_append.mp hc with hc | hc
      · exact hrest c hc
      · exact List.mem_singleton.mp hc ▸ hb

end Trace
