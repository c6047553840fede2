import Mathlib.Data.List.Basic

/-! # Records found by their key

A list of records in which the first one with a key counts. Changing that record in place is seen
by a search for its key and by no other, and keeps the keys as they are. A walk that remembers the
record with the smallest weight ends without one only if no record qualifies.
-/

namespace FirstMatch

variable {α κ : Type*} [DecidableEq κ] (key : α → κ)

abbrev modifyFirst (k : κ) (f : α → α) (l : List α) : List α :=
  l.modify (l.findIdx fun x => key x = k) f

variable {key} {k k' : κ} {f : α → α} {x : α} {l : List α}

theorem modifyFirst_cons_of_pos (hx : key x = k) :
    modifyFirst key k f (x :: l) = f x :: l := by
  rw [modifyFirst, List.findIdx_cons, decide_eq_true hx, cond_true, List.modify_zero_cons]

theorem modifyFirst_cons_of_neg (hx : key x ≠ k) :
    modifyFirst key k f (x :: l) = x :: modifyFirst key k f l := by
  rw [modifyFirst, List.findIdx_cons, decide_eq_false hx, cond_false, List.modify_succ_cons]

variable (key)

theorem map_modifyFirst {β : Type*} {g : α → β}
    (hg : ∀ x ∈ l.find? fun x => key x = k, g (f x) = g x) :
    (modifyFirst key k f l).map g = l.map g := by
  induction l with
  | nil => rfl
  | cons x l ih =>
    by_cases hx : key x = k
    · rw [List.find?_cons_of_pos (by simp [hx])] at hg
      rw [modifyFirst_cons_of_pos hx, List.map_cons, List.map_cons, hg x rfl]
    · rw [List.find?_cons_of_neg (by simp [hx])] at hg
      rw [modifyFirst_cons_of_neg hx, List.map_cons, List.map_cons, ih hg]

theorem mem_modifyFirst {y : α} (h : y ∈ modifyFirst key k f l) :
    y ∈ l ∨ ∃ x, (l.find? fun x => key x = k) = some x ∧ y = f x := by
  induction l with
  | nil => exact absurd h List.not_mem_nil
  | cons x l ih =>
    by_cases hx : key x = k
    · rw [modifyFirst_cons_of_pos hx] at h
      rcases List.mem_cons.mp h with rfl | hy
      · exact .inr ⟨x, List.find?_cons_of_pos (by simp [hx]), rfl⟩
      · exact .inl (List.mem_cons_of_mem x hy)
    · rw [modifyFirst_cons_of_neg hx] at h
      rw [List.find?_cons_of_neg (by simp [hx])]
      rcases List.mem_cons.mp h with rfl | hy
      · exact .inl List.mem_cons_self
      · exact (ih hy).imp_left (List.mem_cons_of_mem x)

theorem mem_modifyFirst_of_nodup {y : α} (hl : (l.map key).Nodup)
    (h : y ∈ modifyFirst key k f l) :
    y ∈ l ∧ key y ≠ k ∨ ∃ x, (l.find? fun x => key x = k) = some x ∧ y = f x := by
  induction l with
  | nil => exact absurd h List.not_mem_nil
  | cons x l ih =>
    obtain ⟨hnew, hrest⟩ := List.nodup_cons.mp hl
    by_cases hx : key x = k
    · rw [modifyFirst_cons_of_pos hx] at h
      rcases List.mem_cons.mp h with rfl | hy
      · exact .inr ⟨x, List.find?_cons_of_pos (by simp [hx]), rfl⟩
      · refine .inl ⟨List.mem_cons_of_mem x hy, fun hky => hnew ?_⟩
        exact List.mem_map.mpr ⟨y, hy, hky.trans hx.symm⟩
    · rw [modifyFirst_cons_of_neg hx] at h
      rw [List.find?_cons_of_neg (by simp [hx])]
      rcases List.mem_cons.mp h with rfl | hy
      · exact .inl ⟨List.mem_cons_self, hx⟩
      · exact (ih hrest hy).imp_left fun hold => ⟨List.mem_cons_of_mem x hold.1, hold.2⟩

theorem find?_eq_some_iff_of_nodup (hl : (l.map key).Nodup) :
    (l.find? fun x => key x = k) = some x ↔ x ∈ l ∧ key x = k := by
  constructor
  · intro h
    exact ⟨List.mem_of_find?_eq_some h, by simpa using List.find?_some h⟩
  · rintro ⟨hmem, hx⟩
    induction l with
    | nil => cases hmem
    | cons y l ih =>
      obtain ⟨hnew, hrest⟩ := List.nodup_cons.mp hl
      rcases List.mem_cons.mp hmem with rfl | hmem
      · exact List.find?_cons_of_pos (by simp [hx])
      · have hother : key y ≠ k := fun hy => hnew (hy ▸ hx ▸ List.mem_map_of_mem hmem)
        rw [List.find?_cons_of_neg (by simp [hother])]
        exact ih hrest hmem

theorem find?_modifyFirst_self (hf : ∀ x, key (f x) = key x) :
    (modifyFirst key k f l).find? (fun x => key x = k) =
      (l.find? fun x => key x = k).map f := by
  induction l with
  | nil => rfl
  | cons x l ih =>
    by_cases hx : key x = k
    · rw [modifyFirst_cons_of_pos hx, List.find?_cons_of_pos (by simp [hf, hx]),
        List.find?_cons_of_pos (by simp [hx]), Option.map_some]
    · rw [modifyFirst_cons_of_neg hx, List.find?_cons_of_neg (by simp [hx]),
        List.find?_cons_of_neg (by simp [hx]), ih]

theorem find?_modifyFirst_of_ne (hf : ∀ x, key (f x) = key x) (hk : k' ≠ k) :
    (modifyFirst key k f l).find? (fun x => key x = k') = l.find? fun x => key x = k' := by
  induction l with
  | nil => rfl
  | cons x l ih =>
    by_cases hx : key x = k
    · have hne : key x ≠ k' := fun hx' => hk (hx'.symm.trans hx)
      rw [modifyFirst_cons_of_pos hx, List.find?_cons_of_neg (by simp [hf, hne]),
        List.find?_cons_of_neg (by simp [hne])]
    · rw [modifyFirst_cons_of_neg hx, List.find?_cons, List.find?_cons, ih]

section Smallest

variable {ω : Type*} [LT ω] [DecidableLT ω] {p : α → Prop} [DecidablePred p] {weight : α → ω}
  {best : Option α × ω}

/-- The walk over a list for the first record with a property that has the smallest weight. -/
abbrev smallest (p : α → Prop) [DecidablePred p] (weight : α → ω) (best : Option α × ω)
    (l : List α) : Option α × ω :=
  l.foldl (fun best x => if p x ∧ weight x < best.2 then (some x, weight x) else best) best

omit [DecidableEq κ] in
theorem of_smallest_eq_some (h : (smallest p weight best l).1 = some x) :
    best.1 = some x ∨ p x := by
  induction l generalizing best with
  | nil => exact .inl h
  | cons y l ih =>
    rw [smallest, List.foldl_cons] at h
    rcases ih h with hbest | hp
    · split at hbest
      · rename_i hy
        cases hbest
        exact .inr hy.1
      · exact .inl hbest
    · exact .inr hp

omit [DecidableEq κ] in
theorem of_smallest_eq_none (h : (smallest p weight best l).1 = none) :
    best.1 = none ∧ ∀ x ∈ l, p x → ¬ weight x < best.2 := by
  induction l generalizing best with
  | nil => exact ⟨h, fun x hx => absurd hx List.not_mem_nil⟩
  | cons y l ih =>
    rw [smallest, List.foldl_cons] at h
    by_cases hy : p y ∧ weight y < best.2
    · rw [if_pos hy] at h
      cases (ih h).1
    · rw [if_neg hy] at h
      obtain ⟨hnone, hrest⟩ := ih h
      exact ⟨hnone, List.forall_mem_cons.mpr ⟨fun hp hlt => hy ⟨hp, hlt⟩, hrest⟩⟩

end Smallest

end FirstMatch
