import Sigil.Library.EpochHistory

/-! # Windows of fixed width

Amounts are recorded under a time and a key. The first amount of a key opens a window; later ones
are added to it while it lasts, and the first one after its end opens the next. The main result
bounds what a key can have in any stretch as long as a window, when no window holds more than a cap.
-/

namespace FixedWindow

open EpochHistory

variable {ι : Type*} [DecidableEq ι] {width : ℤ} {key : ι} {h : List ((ℤ × ι) × ℕ)} {s : ℤ} {x : ℕ}

section Window

variable (width key) in
/-- The start and the sum of the last window of a key, over a history with the newest first. -/
def window : List ((ℤ × ι) × ℕ) → Option (ℤ × ℕ)
  | [] => none
  | ((time, k), x) :: h =>
    if k = key then
      match window h with
      | some (start, sum) => if time - start < width then some (start, sum + x) else some (time, x)
      | none => some (time, x)
    else window h

/-- The newest entry is the latest one. -/
def Ordered (h : List ((ℤ × ι) × ℕ)) : Prop := h.Pairwise fun y z => z.1.1 ≤ y.1.1

omit [DecidableEq ι] in
theorem ordered_cons {y : (ℤ × ι) × ℕ} :
    Ordered (y :: h) ↔ (∀ z ∈ h, z.1.1 ≤ y.1.1) ∧ Ordered h := List.pairwise_cons

theorem window_cons_of_ne {time : ℤ} {k : ι} (hk : k ≠ key) :
    window width key (((time, k), x) :: h) = window width key h := by
  rw [window, if_neg hk]

theorem window_cons_of_lt {time start : ℤ} {sum : ℕ} (hw : window width key h = some (start, sum))
    (hlt : time - start < width) :
    window width key (((time, key), x) :: h) = some (start, sum + x) := by
  simp [window, hw, hlt]

theorem window_cons_of_le {time : ℤ}
    (hw : ∀ start sum, window width key h = some (start, sum) → start + width ≤ time) :
    window width key (((time, key), x) :: h) = some (time, x) := by
  cases hwindow : window width key h with
  | none => simp [window, hwindow]
  | some w =>
    have hend := hw w.1 w.2 hwindow
    have hnot : ¬ time - w.1 < width := by omega
    simp [window, hwindow, hnot]

theorem window_cons_cases {time start : ℤ} {sum : ℕ}
    (hw : window width key (((time, key), x) :: h) = some (start, sum)) :
    (∃ sum', window width key h = some (start, sum') ∧ time - start < width ∧ sum = sum' + x) ∨
      start = time ∧ sum = x ∧
        ∀ start' sum', window width key h = some (start', sum') → start' + width ≤ time := by
  rw [window, if_pos rfl] at hw
  split at hw
  · rename_i start' sum' hwindow
    split at hw
    · rename_i hlt
      obtain ⟨rfl, rfl⟩ := Prod.mk.inj (Option.some.inj hw)
      exact .inl ⟨sum', hwindow, hlt, rfl⟩
    · rename_i hnot
      obtain ⟨rfl, rfl⟩ := Prod.mk.inj (Option.some.inj hw)
      refine .inr ⟨rfl, rfl, fun start'' sum'' hsome => ?_⟩
      obtain ⟨rfl, rfl⟩ := Prod.mk.inj (Option.some.inj (hwindow.symm.trans hsome))
      omega
  · rename_i hnone
    obtain ⟨rfl, rfl⟩ := Prod.mk.inj (Option.some.inj hw)
    exact .inr ⟨rfl, rfl, fun start'' sum'' hsome => by cases hnone.symm.trans hsome⟩

theorem window_ne_none {y : (ℤ × ι) × ℕ} (hy : y ∈ h) (hkey : y.1.2 = key) :
    window width key h ≠ none := by
  induction h with
  | nil => cases hy
  | cons z h ih =>
    obtain ⟨⟨time, k⟩, x⟩ := z
    by_cases hk : k = key
    · subst hk
      rw [window, if_pos rfl]
      split
      · split <;> simp
      · simp
    · rw [window_cons_of_ne hk]
      rcases List.mem_cons.mp hy with rfl | hy
      · exact absurd hkey hk
      · exact ih hy

theorem exists_start (hw : window width key h = some (s, x)) : ∃ y ∈ h, y.1 = (s, key) := by
  induction h generalizing x with
  | nil => cases hw
  | cons z h ih =>
    obtain ⟨⟨time, k⟩, amount⟩ := z
    by_cases hk : k = key
    · subst hk
      rcases window_cons_cases hw with ⟨sum', hwindow, -, -⟩ | ⟨rfl, -, -⟩
      · obtain ⟨y, hy, hstart⟩ := ih hwindow
        exact ⟨y, List.mem_cons_of_mem _ hy, hstart⟩
      · exact ⟨_, List.mem_cons_self, rfl⟩
    · rw [window_cons_of_ne hk] at hw
      obtain ⟨y, hy, hstart⟩ := ih hw
      exact ⟨y, List.mem_cons_of_mem _ hy, hstart⟩

theorem Ordered.start_le {time : ℤ} {k : ι} {amount : ℕ} (ho : Ordered (((time, k), amount) :: h))
    (hw : window width key h = some (s, x)) : s ≤ time := by
  obtain ⟨y, hy, hstart⟩ := exists_start hw
  have hle := (ordered_cons.mp ho).1 y hy
  rwa [hstart] at hle

theorem Ordered.lt_end (ho : Ordered h) (hwidth : 0 < width)
    (hw : window width key h = some (s, x)) : ∀ y ∈ h, y.1.2 = key → y.1.1 < s + width := by
  induction h generalizing s x with
  | nil => nofun
  | cons z h ih =>
    obtain ⟨⟨time, k⟩, amount⟩ := z
    obtain ⟨hlast, hrest⟩ := ordered_cons.mp ho
    intro y hy hkey
    by_cases hk : k = key
    · subst hk
      rcases window_cons_cases hw with ⟨sum', hwindow, hlt, -⟩ | ⟨rfl, -, -⟩
      · rcases List.mem_cons.mp hy with rfl | hy
        · change time < s + width
          omega
        · exact ih hrest hwindow y hy hkey
      · rcases List.mem_cons.mp hy with rfl | hy
        · exact Int.lt_add_of_pos_right _ hwidth
        · have hle := hlast y hy
          exact lt_of_le_of_lt hle (Int.lt_add_of_pos_right _ hwidth)
    · rw [window_cons_of_ne hk] at hw
      rcases List.mem_cons.mp hy with rfl | hy
      · exact absurd hkey hk
      · exact ih hrest hw y hy hkey

theorem Ordered.window_sum (ho : Ordered h) (hwidth : 0 < width)
    (hw : window width key h = some (s, x)) :
    x = total (fun k => k.2 = key ∧ s ≤ k.1) h := by
  induction h generalizing s x with
  | nil => cases hw
  | cons z h ih =>
    obtain ⟨⟨time, k⟩, amount⟩ := z
    have hrest := (ordered_cons.mp ho).2
    by_cases hk : k = key
    · subst hk
      rcases window_cons_cases hw with ⟨sum', hwindow, -, rfl⟩ | ⟨rfl, rfl, hold⟩
      · rw [total_cons, if_pos ⟨rfl, ho.start_le hwindow⟩, ← ih hrest hwindow, Nat.add_comm]
      · -- everything recorded before for the key is from windows that are over
        have hzero : total (fun j : ℤ × ι => j.2 = k ∧ s ≤ j.1) h = 0 := by
          refine total_eq_zero fun y hy hin => ?_
          have hsome : window width k h ≠ none := window_ne_none hy hin.1
          obtain ⟨⟨start, sum⟩, hwindow⟩ := Option.ne_none_iff_exists'.mp hsome
          have hbefore := hrest.lt_end hwidth hwindow y hy hin.1
          have hover := hold start sum hwindow
          have hafter := hin.2
          omega
        rw [total_cons, if_pos ⟨rfl, le_rfl⟩, hzero, Nat.add_zero]
    · rw [window_cons_of_ne hk] at hw
      rw [total_cons, if_neg fun hin => hk hin.1, Nat.zero_add]
      exact ih hrest hw

end Window

section Gate

variable {cap : ℕ}

variable (width key) in
/-- What counts against a cap at a time: the last window, if it is not over. -/
def current (now : ℤ) (h : List ((ℤ × ι) × ℕ)) : ℕ :=
  match window width key h with
  | some (start, sum) => if now - start < width then sum else 0
  | none => 0

variable (width) in
/-- Each entry fitted under the cap when it was recorded. -/
def Gated (cap : ℕ) : List ((ℤ × ι) × ℕ) → Prop
  | [] => True
  | ((time, k), x) :: h => current width k time h + x ≤ cap ∧ Gated cap h

end Gate

section Stretch

/-! ## Caps that change

Each entry is held against the cap of its time. What a key has in a stretch as long as a window is
then bounded by the caps that its entries of the stretch were held against.
-/

variable {cap : ℕ} {u : ℤ}

variable (width key) in
/-- The entries of a key in the stretch from `u` on fitted under the cap when they were recorded. -/
def GatedIn (cap : ℕ) (u : ℤ) : List ((ℤ × ι) × ℕ) → Prop
  | [] => True
  | ((time, k), x) :: h =>
    (k = key → u ≤ time → time ≤ u + width → current width key time h + x ≤ cap) ∧
      GatedIn cap u h

/-- The key has nothing after the stretch. -/
def EndsIn (width : ℤ) (key : ι) (u : ℤ) (h : List ((ℤ × ι) × ℕ)) : Prop :=
  ∀ y ∈ h, y.1.2 = key → y.1.1 ≤ u + width

theorem exists_window_cons (width : ℤ) (key : ι) (h : List ((ℤ × ι) × ℕ)) (time : ℤ) (x : ℕ) :
    ∃ start, window width key (((time, key), x) :: h) =
      some (start, current width key time h + x) := by
  unfold current
  cases hw : window width key h with
  | none => exact ⟨time, by simp [window, hw]⟩
  | some w =>
    by_cases hlt : time - w.1 < width
    · exact ⟨w.1, by simp [window, hw, hlt]⟩
    · exact ⟨time, by simp [window, hw, hlt]⟩

theorem GatedIn.window_le (hg : GatedIn width key cap u h) (ho : Ordered h)
    (hend : EndsIn width key u h) (hw : window width key h = some (s, x)) {y : (ℤ × ι) × ℕ}
    (hy : y ∈ h) (hkey : y.1.2 = key) (hu : u ≤ y.1.1) : x ≤ cap := by
  induction h with
  | nil => cases hw
  | cons z h ih =>
    obtain ⟨⟨time, k⟩, amount⟩ := z
    obtain ⟨hgate, hgated⟩ := hg
    obtain ⟨hlast, hrest⟩ := ordered_cons.mp ho
    by_cases hk : k = key
    · subst hk
      have hlatest : u ≤ time := by
        rcases List.mem_cons.mp hy with rfl | hy
        · exact hu
        · exact hu.trans (hlast y hy)
      obtain ⟨start, hwindow⟩ := exists_window_cons width k h time amount
      obtain ⟨rfl, rfl⟩ := Prod.mk.inj (Option.some.inj (hw.symm.trans hwindow))
      exact hgate rfl hlatest (hend _ List.mem_cons_self rfl)
    · rw [window_cons_of_ne hk] at hw
      rcases List.mem_cons.mp hy with rfl | hy
      · exact absurd hkey hk
      · exact ih hgated hrest (fun y hy => hend y (List.mem_cons_of_mem _ hy)) hw hy

/-- What the windows before the last one hold in the stretch, if it begins at most a window's width
before the last one. -/
theorem GatedIn.total_before_le (hg : GatedIn width key cap u h) (ho : Ordered h)
    (hend : EndsIn width key u h) (hwidth : 0 < width) (hw : window width key h = some (s, x))
    (hu : s - width ≤ u) : total (fun k => k.2 = key ∧ u ≤ k.1 ∧ k.1 < s) h ≤ cap := by
  induction h generalizing x with
  | nil => cases hw
  | cons z h ih =>
    obtain ⟨⟨time, k⟩, amount⟩ := z
    obtain ⟨-, hgated⟩ := hg
    have hrest := (ordered_cons.mp ho).2
    have hend' : EndsIn width key u h := fun y hy => hend y (List.mem_cons_of_mem _ hy)
    by_cases hk : k = key
    · subst hk
      rcases window_cons_cases hw with ⟨sum, hwindow, -, -⟩ | ⟨rfl, rfl, hold⟩
      · have hstart := ho.start_le hwindow
        rw [total_cons, if_neg (by simp only; omega), Nat.zero_add]
        exact ih hgated hrest hend' hwindow
      · rw [total_cons, if_neg (by simp), Nat.zero_add]
        by_cases hlate : ∃ y ∈ h, y.1.2 = k ∧ u ≤ y.1.1
        · obtain ⟨y, hy, hkey, hyu⟩ := hlate
          have hsome : window width k h ≠ none := window_ne_none hy hkey
          obtain ⟨⟨start, sum⟩, hwindow⟩ := Option.ne_none_iff_exists'.mp hsome
          have hover := hold start sum hwindow
          calc total (fun j : ℤ × ι => j.2 = k ∧ u ≤ j.1 ∧ j.1 < s) h
              ≤ total (fun j : ℤ × ι => j.2 = k ∧ start ≤ j.1) h :=
                total_mono fun y _ hin => ⟨hin.1, by omega⟩
            _ = sum := (hrest.window_sum hwidth hwindow).symm
            _ ≤ cap := hgated.window_le hrest hend' hwindow hy hkey hyu
        · have hzero : total (fun j : ℤ × ι => j.2 = k ∧ u ≤ j.1 ∧ j.1 < s) h = 0 :=
            total_eq_zero fun y hy hin => hlate ⟨y, hy, hin.1, hin.2.1⟩
          exact hzero.trans_le (Nat.zero_le _)
    · rw [window_cons_of_ne hk] at hw
      rw [total_cons, if_neg fun hin => hk hin.1, Nat.zero_add]
      exact ih hgated hrest hend' hw

theorem GatedIn.total_from_le (hg : GatedIn width key cap u h) (ho : Ordered h)
    (hend : EndsIn width key u h) (hwidth : 0 < width) :
    total (fun k => k.2 = key ∧ u ≤ k.1) h ≤ 2 * cap := by
  by_cases hlate : ∃ y ∈ h, y.1.2 = key ∧ u ≤ y.1.1
  · obtain ⟨z, hz, hkey, hzu⟩ := hlate
    have hsome : window width key h ≠ none := window_ne_none hz hkey
    obtain ⟨⟨start, sum⟩, hwindow⟩ := Option.ne_none_iff_exists'.mp hsome
    obtain ⟨y, hy, hstart⟩ := exists_start hwindow
    have hreach : start ≤ u + width := by
      have hle := hend y hy (by rw [hstart])
      rwa [hstart] at hle
    calc total (fun k => k.2 = key ∧ u ≤ k.1) h
        ≤ total (fun k => (k.2 = key ∧ u ≤ k.1 ∧ k.1 < start) ∨ k.2 = key ∧ start ≤ k.1) h :=
          total_mono fun w _ hin => by
            rcases lt_or_ge w.1.1 start with hlt | hge
            · exact .inl ⟨hin.1, hin.2, hlt⟩
            · exact .inr ⟨hin.1, hge⟩
      _ ≤ total (fun k => k.2 = key ∧ u ≤ k.1 ∧ k.1 < start) h +
            total (fun k => k.2 = key ∧ start ≤ k.1) h := total_or_le
      _ ≤ cap + cap := Nat.add_le_add (hg.total_before_le ho hend hwidth hwindow (by omega))
          ((ho.window_sum hwidth hwindow).symm.trans_le
            (hg.window_le ho hend hwindow hz hkey hzu))
      _ = 2 * cap := (Nat.two_mul cap).symm
  · have hzero : total (fun k => k.2 = key ∧ u ≤ k.1) h = 0 :=
      total_eq_zero fun y hy hin => hlate ⟨y, hy, hin⟩
    exact hzero.trans_le (Nat.zero_le _)

/-- A stretch as long as a window holds at most twice the cap of a key, when the entries of the
stretch were held against no more than that cap. -/
theorem GatedIn.total_stretch_le (hg : GatedIn width key cap u h) (ho : Ordered h)
    (hwidth : 0 < width) :
    total (fun k => k.2 = key ∧ u ≤ k.1 ∧ k.1 ≤ u + width) h ≤ 2 * cap := by
  induction h with
  | nil => exact Nat.zero_le _
  | cons z h ih =>
    obtain ⟨⟨time, k⟩, amount⟩ := z
    obtain ⟨hlast, hrest⟩ := ordered_cons.mp ho
    by_cases htime : time ≤ u + width
    · have hend : EndsIn width key u (((time, k), amount) :: h) := by
        intro y hy _
        rcases List.mem_cons.mp hy with rfl | hy
        · exact htime
        · exact (hlast y hy).trans htime
      exact (total_mono fun y _ hin => ⟨hin.1, hin.2.1⟩).trans (hg.total_from_le ho hend hwidth)
    · rw [total_cons, if_neg fun hin => htime hin.2.2, Nat.zero_add]
      exact ih hg.2 hrest

theorem Gated.gatedIn (hg : Gated width cap h) (u : ℤ) : GatedIn width key cap u h := by
  induction h with
  | nil => trivial
  | cons z h ih =>
    obtain ⟨⟨time, k⟩, x⟩ := z
    exact ⟨fun hk _ _ => hk ▸ hg.1, ih hg.2⟩

theorem Gated.total_stretch_le (hg : Gated width cap h) (ho : Ordered h) (hwidth : 0 < width)
    (u : ℤ) : total (fun k => k.2 = key ∧ u ≤ k.1 ∧ k.1 ≤ u + width) h ≤ 2 * cap :=
  (hg.gatedIn u).total_stretch_le ho hwidth

end Stretch

section Entries

/-! ## Entries read from records

Some of a list of records have an entry, and each record with a cap had room for its entry.
-/

variable {ε : Type*} {entry : ε → Option ((ℤ × ι) × ℕ)} {caps : ε → ℕ} {es : List ε} {C : ℕ} {u : ℤ}

/-- The entry of each record that has a cap fitted under it. -/
def GatedEach (width : ℤ) (entry : ε → Option ((ℤ × ι) × ℕ)) (caps : ε → ℕ) : List ε → Prop
  | [] => True
  | e :: es => (∀ time k x, entry e = some ((time, k), x) → 0 < caps e →
      current width k time (es.filterMap entry) + x ≤ caps e) ∧ GatedEach width entry caps es

theorem GatedEach.gatedIn (hg : GatedEach width entry caps es)
    (hcap : ∀ e ∈ es, ∀ time x, entry e = some ((time, key), x) → u ≤ time → time ≤ u + width →
      0 < caps e ∧ caps e ≤ C) : GatedIn width key C u (es.filterMap entry) := by
  induction es with
  | nil => trivial
  | cons e es ih =>
    obtain ⟨hgate, hrest⟩ := hg
    have ih := ih hrest fun e he => hcap e (List.mem_cons_of_mem _ he)
    cases hentry : entry e with
    | none => rwa [List.filterMap_cons_none hentry]
    | some y =>
      obtain ⟨⟨time, k⟩, x⟩ := y
      rw [List.filterMap_cons_some hentry]
      refine ⟨fun hk hu hle => ?_, ih⟩
      subst hk
      obtain ⟨hpos, hC⟩ := hcap e List.mem_cons_self time x hentry hu hle
      exact (hgate time k x hentry hpos).trans hC

variable (key u) in
/-- The records of a key within a stretch as long as a window amount to at most twice the largest of
their caps. -/
theorem GatedEach.total_le {p : ε → Prop} [DecidablePred p] {amount : ε → ℕ}
    (hg : GatedEach width entry caps es) (ho : Ordered (es.filterMap entry)) (hwidth : 0 < width)
    (hp : ∀ e ∈ es, p e → ∃ time, entry e = some ((time, key), amount e) ∧ u ≤ time ∧
      time ≤ u + width)
    (hcap : ∀ e ∈ es, ∀ time x, entry e = some ((time, key), x) → u ≤ time → time ≤ u + width →
      0 < caps e ∧ caps e ≤ C) :
    total p (es.map fun e => (e, amount e)) ≤ 2 * C := by
  refine le_trans ?_ ((hg.gatedIn hcap).total_stretch_le ho hwidth)
  clear hg ho hcap
  induction es with
  | nil => exact Nat.zero_le _
  | cons e es ih =>
    have ih := ih fun e he => hp e (List.mem_cons_of_mem _ he)
    rw [List.map_cons, total_cons]
    split
    · rename_i hpe
      obtain ⟨time, hentry, hu, hle⟩ := hp e List.mem_cons_self hpe
      rw [List.filterMap_cons_some hentry, total_cons, if_pos ⟨rfl, hu, hle⟩]
      exact Nat.add_le_add_left ih _
    · rw [Nat.zero_add]
      cases hentry : entry e with
      | none => rwa [List.filterMap_cons_none hentry]
      | some y =>
        obtain ⟨k, x⟩ := y
        rw [List.filterMap_cons_some hentry, total_cons]
        exact ih.trans (Nat.le_add_left _ _)

end Entries

end FixedWindow
