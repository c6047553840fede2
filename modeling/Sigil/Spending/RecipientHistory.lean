import Sigil.Library.Attempt
import Sigil.Library.FirstMatch
import Sigil.Library.FixedWindow
import Sigil.State.SpendCaps

/-! # The counters per recipient against the recorded history

The tracker has ten counters for recipients. Each is the window of its recipient in the history of
recorded spends, and a recipient without a counter has no window that still lasts: a counter is
given to another recipient only when its window is over.
-/

namespace Sigil

open Machine Guard EpochHistory FixedWindow

theorem PerRecipientCounter.isExpired_iff {c : PerRecipientCounter} {now : ℤ} :
    c.isExpired now = true ↔ c.windowStart + rollingWindowSeconds ≤ now := by
  rw [isExpired, decide_eq_true_iff, saturatingSubI64, clampI64, rollingWindowSeconds]
  omega

theorem PerRecipientCounter.isExpired_eq_false_iff {c : PerRecipientCounter} {now : ℤ} :
    c.isExpired now = false ↔ now - c.windowStart < rollingWindowSeconds := by
  rw [← Bool.not_eq_true, isExpired_iff]
  omega

namespace SpendTracker

variable {t t' : SpendTracker} {clock : Clock} {recipient : Pubkey} {x : UInt64}
  {i : Fin maxPerRecipientEntries}

def Active (t : SpendTracker) (i : Fin maxPerRecipientEntries) : Prop := i.val < t.perRecipientCount

theorem findRecipient_eq_some (h : t.findRecipient recipient = some i) :
    t.Active i ∧ (t.perRecipient i).recipient = recipient := by
  have hfound : i.val < min t.perRecipientCount maxPerRecipientEntries ∧
      (t.perRecipient i).recipient = recipient := by
    simpa using (Fin.find?_eq_some_iff.mp h).1
  exact ⟨hfound.1.trans_le (Nat.min_le_left _ _), hfound.2⟩

theorem findRecipient_eq_none (h : t.findRecipient recipient = none) :
    ∀ i, t.Active i → (t.perRecipient i).recipient ≠ recipient := by
  intro i hi hrecipient
  have hnone := Fin.find?_eq_none_iff.mp h i
  simp only [decide_eq_false_iff_not] at hnone
  exact hnone ⟨lt_min hi i.isLt, hrecipient⟩

theorem oldestExpired_eq_some {now : ℤ} (h : t.oldestExpired now = some i) :
    (t.perRecipient i).isExpired now = true := by
  rcases FirstMatch.of_smallest_eq_some h with hnone | hexpired
  · cases hnone
  · exact hexpired

theorem oldestExpired_eq_none (h : t.oldestExpired clock.unixTimestamp = none) :
    ∀ i, (t.perRecipient i).isExpired clock.unixTimestamp = false := by
  intro i
  by_contra hexpired
  rw [Bool.not_eq_false] at hexpired
  -- an expired window starts before the largest time there is
  have hstart := (FirstMatch.of_smallest_eq_none h).2 i (List.mem_finRange i) hexpired
  have hend := PerRecipientCounter.isExpired_iff.mp hexpired
  have hnow := clock.inI64.2
  unfold rollingWindowSeconds at hend
  omega

theorem setRecipient_self (t : SpendTracker) (i : Fin maxPerRecipientEntries)
    (c : PerRecipientCounter) : (t.setRecipient i c).perRecipient i = c := Function.update_self ..

theorem setRecipient_of_ne (t : SpendTracker) {i j : Fin maxPerRecipientEntries}
    (c : PerRecipientCounter) (hne : j ≠ i) :
    (t.setRecipient i c).perRecipient j = t.perRecipient j := Function.update_of_ne hne ..

/-- What recording a spend does: it goes on with the window of the recipient, or it opens one in
a counter that is free, expired, or the recipient's own. -/
inductive RecipientRecorded (t : SpendTracker) (clock : Clock) (recipient : Pubkey) (x : UInt64) :
    SpendTracker → Prop
  | accumulated {i : Fin maxPerRecipientEntries} {sum : UInt64} (hi : t.Active i)
      (hrecipient : (t.perRecipient i).recipient = recipient)
      (hlasts : (t.perRecipient i).isExpired clock.unixTimestamp = false)
      (hsum : sum.toNat = (t.perRecipient i).windowSpendUsd.toNat + x.toNat) :
      RecipientRecorded t clock recipient x
        (t.setRecipient i { t.perRecipient i with windowSpendUsd := sum })
  | opened {i : Fin maxPerRecipientEntries} {n : ℕ} (hi : i.val < n) (hle : t.perRecipientCount ≤ n)
      (hmax : n ≤ maxPerRecipientEntries) (hnew : ∀ j : Fin maxPerRecipientEntries, j.val < n →
        t.Active j ∨ j = i)
      (hother : ∀ j, t.Active j → (t.perRecipient j).recipient = recipient → j = i)
      (hover : t.Active i → (t.perRecipient i).isExpired clock.unixTimestamp = true) :
      RecipientRecorded t clock recipient x
        { t.setRecipient i ⟨recipient, clock.unixTimestamp, x⟩ with perRecipientCount := n }

theorem recordRecipientSpend_ok (h : t.recordRecipientSpend clock recipient x = .ok t')
    (hcount : t.perRecipientCount ≤ maxPerRecipientEntries)
    (hdistinct : ∀ i j, t.Active i → t.Active j →
      (t.perRecipient i).recipient = (t.perRecipient j).recipient → i = j) :
    0 < clock.unixTimestamp ∧ t.RecipientRecorded clock recipient x t' := by
  simp only [recordRecipientSpend, seq_ok_iff, ensure_ok_iff, exists_and_left, exists_const] at h
  obtain ⟨hpos, h⟩ := h
  refine ⟨hpos, ?_⟩
  cases hfind : t.findRecipient recipient with
  | some i =>
    obtain ⟨hi, hrecipient⟩ := findRecipient_eq_some hfind
    simp only [hfind] at h
    split at h
    · rename_i hover
      obtain rfl := pure_ok_iff.mp h
      exact .opened hi le_rfl hcount (fun j hj => .inl hj)
        (fun j hj hsame => hdistinct j i hj hi (hsame.trans hrecipient.symm)) fun _ => hover
    · rename_i hlasts
      simp only [PerRecipientCounter.accumulate, seq_ok_iff, someOr_ok_iff, checkedAdd_eq_some,
        pure_ok_iff] at h
      obtain ⟨c, ⟨sum, hsum, rfl⟩, rfl⟩ := h
      exact .accumulated hi hrecipient (Bool.eq_false_iff.mpr hlasts) hsum
  | none =>
    have hnone := findRecipient_eq_none hfind
    simp only [hfind] at h
    split at h
    · rename_i hlt
      obtain rfl := pure_ok_iff.mp h
      refine .opened (Nat.lt_succ_self _) (Nat.le_succ _) hlt (fun j hj => ?_)
        (fun j hj hsame => absurd hsame (hnone j hj)) fun hactive =>
          absurd hactive (Nat.lt_irrefl _)
      rcases Nat.lt_succ_iff_lt_or_eq.mp hj with hj | hj
      · exact .inl hj
      · exact .inr (Fin.ext hj)
    · rename_i hfull
      simp only [seq_ok_iff, someOr_ok_iff, pure_ok_iff] at h
      obtain ⟨i, hi, rfl⟩ := h
      exact .opened (i.isLt.trans_le (Nat.not_lt.mp hfull)) le_rfl hcount (fun j hj => .inl hj)
        (fun j hj hsame => absurd hsame (hnone j hj)) fun _ => oldestExpired_eq_some hi

/-- A spend is refused only when its sum does not fit in a word, or when ten other recipients have
windows that still last. -/
theorem recordRecipientSpend_error {e : ProgramError} (hpos : 0 < clock.unixTimestamp)
    (hcount : t.perRecipientCount ≤ maxPerRecipientEntries)
    (h : t.recordRecipientSpend clock recipient x = .error e) :
    (e = .sigil .overflow ∧ ∃ i, t.Active i ∧ (t.perRecipient i).recipient = recipient ∧
      2 ^ 64 ≤ (t.perRecipient i).windowSpendUsd.toNat + x.toNat) ∨
    e = .sigil .errRecipientCapExceeded ∧ t.perRecipientCount = maxPerRecipientEntries ∧
      ∀ i, (t.perRecipient i).recipient ≠ recipient ∧
        (t.perRecipient i).isExpired clock.unixTimestamp = false := by
  rw [recordRecipientSpend, ensure_of hpos, ok_seq] at h
  cases hfind : t.findRecipient recipient with
  | some i =>
    obtain ⟨hi, hrecipient⟩ := findRecipient_eq_some hfind
    simp only [hfind] at h
    split at h
    · cases h
    · refine .inl ?_
      simp only [PerRecipientCounter.accumulate, seq_error_iff, someOr_error_iff] at h
      rcases h with (⟨hnone, rfl⟩ | ⟨sum, -, hpure⟩) | ⟨c, -, hpure⟩
      · refine ⟨rfl, i, hi, hrecipient, ?_⟩
        by_contra hfits
        have hsum : checkedAdd _ _ = some (UInt64.ofNat
            ((t.perRecipient i).windowSpendUsd.toNat + x.toNat)) :=
          checkedAdd_eq_some.mpr (UInt64.toNat_ofNat_of_lt' (Nat.not_le.mp hfits))
        cases hnone.symm.trans hsum
      · cases hpure
      · cases hpure
  | none =>
    have hnone := findRecipient_eq_none hfind
    simp only [hfind] at h
    split at h
    · cases h
    · rename_i hfull
      refine .inr ?_
      have hten : t.perRecipientCount = maxPerRecipientEntries :=
        le_antisymm hcount (Nat.not_lt.mp hfull)
      simp only [seq_error_iff, someOr_error_iff] at h
      rcases h with ⟨hoverflow, rfl⟩ | ⟨i, -, hpure⟩
      · exact ⟨rfl, hten, fun i => ⟨hnone i (i.isLt.trans_eq hten.symm),
          oldestExpired_eq_none hoverflow i⟩⟩
      · cases hpure

structure TracksRecipients (t : SpendTracker) (h : List ((ℤ × Pubkey) × ℕ)) : Prop where
  count : t.perRecipientCount ≤ maxPerRecipientEntries
  distinct : ∀ i j, t.Active i → t.Active j →
    (t.perRecipient i).recipient = (t.perRecipient j).recipient → i = j
  window : ∀ i, t.Active i →
    FixedWindow.window rollingWindowSeconds (t.perRecipient i).recipient h =
      some ((t.perRecipient i).windowStart, (t.perRecipient i).windowSpendUsd.toNat)
  /-- A recipient without a counter has a window that some later spend came after. -/
  absent : ∀ recipient s sum, FixedWindow.window rollingWindowSeconds recipient h = some (s, sum) →
    (∀ i, t.Active i → (t.perRecipient i).recipient ≠ recipient) →
    ∃ y ∈ h, s + rollingWindowSeconds ≤ y.1.1

theorem tracksRecipients_empty (v : Pubkey) : (empty v).TracksRecipients [] where
  count := Nat.zero_le _
  distinct _ _ hi := absurd hi (Nat.not_lt_zero _)
  window _ hi := absurd hi (Nat.not_lt_zero _)
  absent _ _ _ hw := by cases hw

theorem TracksRecipients.step {h : List ((ℤ × Pubkey) × ℕ)} (ht : t.TracksRecipients h)
    (hlast : ∀ y ∈ h, y.1.1 ≤ clock.unixTimestamp)
    (hstep : t.RecipientRecorded clock recipient x t') :
    t'.TracksRecipients (((clock.unixTimestamp, recipient), x.toNat) :: h) := by
  cases hstep with
  | @accumulated i sum hi hrecipient hlasts hsum =>
    have hsame : ∀ j,
        ((t.setRecipient i { t.perRecipient i with windowSpendUsd := sum }).perRecipient
          j).recipient = (t.perRecipient j).recipient := by
      intro j
      rcases eq_or_ne j i with rfl | hne
      · rw [setRecipient_self]
      · rw [setRecipient_of_ne t _ hne]
    refine ⟨ht.count, fun j k hj hk => ?_, fun j hj => ?_, fun other s total hw hnone => ?_⟩
    · rw [hsame, hsame]
      exact ht.distinct j k hj hk
    · rw [hsame]
      rcases eq_or_ne j i with rfl | hne
      · rw [setRecipient_self, ← hrecipient, hsum]
        exact window_cons_of_lt (ht.window j hj)
          (PerRecipientCounter.isExpired_eq_false_iff.mp hlasts)
      · rw [setRecipient_of_ne t _ hne, window_cons_of_ne]
        · exact ht.window j hj
        · exact fun heq => hne (ht.distinct j i hj hi (heq.symm.trans hrecipient.symm))
    · have hother : recipient ≠ other :=
        fun heq => hnone i hi ((hsame i).trans (hrecipient.trans heq))
      rw [window_cons_of_ne hother] at hw
      obtain ⟨y, hy, hend⟩ := ht.absent other s total hw fun j hj => hsame j ▸ hnone j hj
      exact ⟨y, List.mem_cons_of_mem _ hy, hend⟩
  | @opened i n hi hle hmax hnew hother hover =>
    have hsame : ∀ j, j ≠ i →
        (t.setRecipient i ⟨recipient, clock.unixTimestamp, x⟩).perRecipient j =
          t.perRecipient j := fun j hne => t.setRecipient_of_ne _ hne
    have hfresh : (t.setRecipient i ⟨recipient, clock.unixTimestamp, x⟩).perRecipient i =
        ⟨recipient, clock.unixTimestamp, x⟩ := t.setRecipient_self i _
    have hactive : ∀ j : Fin maxPerRecipientEntries, j.val < n → j ≠ i →
        t.Active j ∧ (t.perRecipient j).recipient ≠ recipient := by
      intro j hj hne
      have hold := (hnew j hj).resolve_right hne
      exact ⟨hold, fun heq => hne (hother j hold heq)⟩
    -- the window that the recipient had is over
    have hclosed : ∀ start sum, FixedWindow.window rollingWindowSeconds recipient h =
        some (start, sum) → start + rollingWindowSeconds ≤ clock.unixTimestamp := by
      intro start sum hw
      by_cases hcounter : ∃ j, t.Active j ∧ (t.perRecipient j).recipient = recipient
      · obtain ⟨j, hj, hrecipient⟩ := hcounter
        obtain rfl := hother j hj hrecipient
        have hwindow := ht.window j hj
        rw [hrecipient, hw] at hwindow
        obtain ⟨rfl, -⟩ := Prod.mk.inj (Option.some.inj hwindow)
        exact PerRecipientCounter.isExpired_iff.mp (hover hj)
      · obtain ⟨y, hy, hend⟩ :=
          ht.absent recipient start sum hw fun j hj heq => hcounter ⟨j, hj, heq⟩
        exact hend.trans (hlast y hy)
    refine ⟨hmax, fun j k hj hk hjk => ?_, fun j hj => ?_, fun other s total hw hnone => ?_⟩
    · rcases eq_or_ne j i with rfl | hji <;> rcases eq_or_ne k j with rfl | hkj
      · rfl
      · rw [hfresh, hsame k hkj] at hjk
        exact absurd hjk.symm (hactive k hk hkj).2
      · rfl
      · rcases eq_or_ne k i with rfl | hki
        · rw [hfresh, hsame j hji] at hjk
          exact absurd hjk (hactive j hj hji).2
        · rw [hsame j hji, hsame k hki] at hjk
          exact ht.distinct j k (hactive j hj hji).1 (hactive k hk hki).1 hjk
    · rcases eq_or_ne j i with rfl | hne
      · rw [hfresh]
        exact window_cons_of_le hclosed
      · rw [hsame j hne, window_cons_of_ne (hactive j hj hne).2.symm]
        exact ht.window j (hactive j hj hne).1
    · have hne : recipient ≠ other := fun heq => hnone i hi (by rw [hfresh, heq])
      rw [window_cons_of_ne hne] at hw
      by_cases hcounter : ∃ j, t.Active j ∧ (t.perRecipient j).recipient = other
      · -- its counter was given away, so its window is over
        obtain ⟨j, hj, hrecipient⟩ := hcounter
        obtain rfl : j = i := by
          by_contra hji
          exact hnone j (hj.trans_le hle) (by rw [hsame j hji, hrecipient])
        have hwindow := ht.window j hj
        rw [hrecipient, hw] at hwindow
        obtain ⟨rfl, -⟩ := Prod.mk.inj (Option.some.inj hwindow)
        exact ⟨_, List.mem_cons_self, PerRecipientCounter.isExpired_iff.mp (hover hj)⟩
      · obtain ⟨y, hy, hend⟩ := ht.absent other s total hw fun j hj heq => hcounter ⟨j, hj, heq⟩
        exact ⟨y, List.mem_cons_of_mem _ hy, hend⟩

/-- A counter whose window lasts keeps its recipient and its start, and its sum does not fall. -/
theorem RecipientRecorded.kept (hstep : t.RecipientRecorded clock recipient x t') :
    t.perRecipientCount ≤ t'.perRecipientCount ∧
      ∀ i, t.Active i → (t.perRecipient i).isExpired clock.unixTimestamp = false →
        t'.Active i ∧ (t'.perRecipient i).recipient = (t.perRecipient i).recipient ∧
          (t'.perRecipient i).windowStart = (t.perRecipient i).windowStart ∧
          (t.perRecipient i).windowSpendUsd ≤ (t'.perRecipient i).windowSpendUsd := by
  cases hstep with
  | @accumulated k sum hk hrecipient hlasts hsum =>
    refine ⟨le_rfl, fun i hi _ => ⟨hi, ?_⟩⟩
    rcases eq_or_ne i k with rfl | hne
    · rw [setRecipient_self]
      exact ⟨rfl, rfl, UInt64.le_iff_toNat_le.mpr (by rw [hsum]; exact Nat.le_add_right _ _)⟩
    · rw [setRecipient_of_ne t _ hne]
      exact ⟨rfl, rfl, UInt64.le_refl _⟩
  | @opened k n hk hle hmax hnew hother hover =>
    refine ⟨hle, fun i hi hlasts => ⟨hi.trans_le hle, ?_⟩⟩
    have hne : i ≠ k := by
      rintro rfl
      cases hlasts.symm.trans (hover hi)
    rw [setRecipient_of_ne t _ hne]
    exact ⟨rfl, rfl, UInt64.le_refl _⟩

section Runs

def recordTo (t : SpendTracker) (spend : Clock × Pubkey × UInt64) : Result SpendTracker :=
  t.recordRecipientSpend spend.1 spend.2.1 spend.2.2

def gatedRecordTo (cap : UInt64) (t : SpendTracker) (spend : Clock × Pubkey × UInt64) :
    Result SpendTracker := do
  checkCap .errRecipientCapExceeded (t.getRecipientSpend spend.1 spend.2.1) spend.2.2 cap
  t.recordTo spend

def recipientAmounts (h : List (Clock × Pubkey × UInt64)) : List ((ℤ × Pubkey) × ℕ) :=
  h.map fun spend => ((spend.1.unixTimestamp, spend.2.1), spend.2.2.toNat)

variable {h spends : List (Clock × Pubkey × UInt64)} {spend : Clock × Pubkey × UInt64}

theorem ordered_recipientAmounts_cons (ho : Ordered (recipientAmounts h))
    (hlast : ∀ y ∈ h, y.1.unixTimestamp ≤ spend.1.unixTimestamp) :
    Ordered (recipientAmounts (spend :: h)) := by
  refine ordered_cons.mpr ⟨fun z hz => ?_, ho⟩
  obtain ⟨y, hy, rfl⟩ := List.mem_map.mp hz
  exact hlast y hy

theorem TracksRecipients.record (ht : t.TracksRecipients (recipientAmounts h))
    (hlast : ∀ y ∈ h, y.1.unixTimestamp ≤ spend.1.unixTimestamp)
    (hstep : t.recordTo spend = .ok t') : t'.TracksRecipients (recipientAmounts (spend :: h)) := by
  refine ht.step (fun z hz => ?_) (recordRecipientSpend_ok hstep ht.count ht.distinct).2
  obtain ⟨y, hy, rfl⟩ := List.mem_map.mp hz
  exact hlast y hy

theorem TracksRecipients.getRecipientSpend_eq {h : List ((ℤ × Pubkey) × ℕ)}
    (ht : t.TracksRecipients h) (hpos : 0 < clock.unixTimestamp)
    (hlast : ∀ y ∈ h, y.1.1 ≤ clock.unixTimestamp) :
    (t.getRecipientSpend clock recipient).toNat =
      current rollingWindowSeconds recipient clock.unixTimestamp h := by
  rw [getRecipientSpend, if_neg (not_le.mpr hpos), current]
  cases hfind : t.findRecipient recipient with
  | some i =>
    obtain ⟨hi, hrecipient⟩ := findRecipient_eq_some hfind
    have hwindow := ht.window i hi
    rw [hrecipient] at hwindow
    simp only [hwindow]
    cases hexpired : (t.perRecipient i).isExpired clock.unixTimestamp with
    | true =>
      have hover := PerRecipientCounter.isExpired_iff.mp hexpired
      rw [if_pos rfl, if_neg (by omega)]
      rfl
    | false =>
      rw [if_neg (by decide), if_pos (PerRecipientCounter.isExpired_eq_false_iff.mp hexpired)]
  | none =>
    cases hwindow : FixedWindow.window rollingWindowSeconds recipient h with
    | none => rfl
    | some w =>
      obtain ⟨y, hy, hend⟩ := ht.absent recipient w.1 w.2 hwindow (findRecipient_eq_none hfind)
      have hover := hend.trans (hlast y hy)
      simp only
      rw [if_neg (by omega)]
      rfl

theorem recordTo_run (v : Pubkey)
    (hmono : spends.Pairwise fun a b => a.1.unixTimestamp ≤ b.1.unixTimestamp) :
    (Attempt.run recordTo (empty v) spends).1.TracksRecipients
        (recipientAmounts (Attempt.run recordTo (empty v) spends).2) ∧
      Ordered (recipientAmounts (Attempt.run recordTo (empty v) spends).2) := by
  refine Attempt.run_induction (P := fun (t : SpendTracker) h =>
    t.TracksRecipients (recipientAmounts h) ∧ Ordered (recipientAmounts h)) hmono
    ⟨tracksRecipients_empty v, .nil⟩ ?_
  rintro t taken spend t' ⟨ht, ho⟩ hlast hstep
  exact ⟨ht.record hlast hstep, ordered_recipientAmounts_cons ho hlast⟩

theorem gatedRecordTo_run (cap : UInt64) (v : Pubkey)
    (hmono : spends.Pairwise fun a b => a.1.unixTimestamp ≤ b.1.unixTimestamp) :
    Ordered (recipientAmounts (Attempt.run (gatedRecordTo cap) (empty v) spends).2) ∧
      Gated rollingWindowSeconds cap.toNat
        (recipientAmounts (Attempt.run (gatedRecordTo cap) (empty v) spends).2) := by
  let P (t : SpendTracker) (h : List (Clock × Pubkey × UInt64)) : Prop :=
    t.TracksRecipients (recipientAmounts h) ∧ Ordered (recipientAmounts h) ∧
      Gated rollingWindowSeconds cap.toNat (recipientAmounts h)
  suffices hrun : P (Attempt.run (gatedRecordTo cap) (empty v) spends).1
      (Attempt.run (gatedRecordTo cap) (empty v) spends).2 from hrun.2
  refine Attempt.run_induction hmono ⟨tracksRecipients_empty v, .nil, trivial⟩ ?_
  rintro t taken spend t' ⟨ht, ho, hg⟩ hlast hstep
  simp only [gatedRecordTo, seq_ok_iff, checkCap_ok_iff, exists_and_left, exists_const] at hstep
  obtain ⟨hcap, hstep⟩ := hstep
  have hpos := (recordRecipientSpend_ok hstep ht.count ht.distinct).1
  refine ⟨ht.record hlast hstep, ordered_recipientAmounts_cons ho hlast, ?_, hg⟩
  rwa [ht.getRecipientSpend_eq hpos fun z hz => ?_] at hcap
  obtain ⟨y, hy, rfl⟩ := List.mem_map.mp hz
  exact hlast y hy

end Runs

end SpendTracker

/-- Along every sequence of calls at nondecreasing clocks the counters per recipient are exact: ten
at most, one for a recipient, each with all that was recorded since its window began. A call never
touches another window that lasts, and is refused only by an overflow or by ten such windows of
other recipients. When every call is gated by a cap, no day holds more than twice the cap. -/
theorem recipient_counters_exact :
    (∀ (v : Pubkey) (spends : List (Clock × Pubkey × UInt64)),
      spends.Pairwise (fun a b => a.1.unixTimestamp ≤ b.1.unixTimestamp) →
      let t := (Attempt.run SpendTracker.recordTo (SpendTracker.empty v) spends).1
      let recorded := SpendTracker.recipientAmounts
        (Attempt.run SpendTracker.recordTo (SpendTracker.empty v) spends).2
      t.perRecipientCount ≤ 10 ∧
      (∀ i j, t.Active i → t.Active j →
        (t.perRecipient i).recipient = (t.perRecipient j).recipient → i = j) ∧
      (∀ i, t.Active i → (t.perRecipient i).windowSpendUsd.toNat =
        total (fun k => k.2 = (t.perRecipient i).recipient ∧ (t.perRecipient i).windowStart ≤ k.1)
          recorded) ∧
      ∀ (clock : Clock) (recipient : Pubkey) (x : UInt64), 0 < clock.unixTimestamp →
        (∀ t', t.recordRecipientSpend clock recipient x = .ok t' →
          t.perRecipientCount ≤ t'.perRecipientCount ∧
          ∀ i, t.Active i → clock.unixTimestamp < (t.perRecipient i).windowStart + 86400 →
            t'.Active i ∧ (t'.perRecipient i).recipient = (t.perRecipient i).recipient ∧
            (t'.perRecipient i).windowStart = (t.perRecipient i).windowStart ∧
            (t.perRecipient i).windowSpendUsd ≤ (t'.perRecipient i).windowSpendUsd) ∧
        ∀ e, t.recordRecipientSpend clock recipient x = .error e →
          (e = .sigil .overflow ∧ ∃ i, t.Active i ∧ (t.perRecipient i).recipient = recipient ∧
            2 ^ 64 ≤ (t.perRecipient i).windowSpendUsd.toNat + x.toNat) ∨
          e = .sigil .errRecipientCapExceeded ∧ t.perRecipientCount = 10 ∧
            ∀ i, (t.perRecipient i).recipient ≠ recipient ∧
              clock.unixTimestamp < (t.perRecipient i).windowStart + 86400) ∧
    ∀ (cap : UInt64) (v : Pubkey) (spends : List (Clock × Pubkey × UInt64)),
      spends.Pairwise (fun a b => a.1.unixTimestamp ≤ b.1.unixTimestamp) →
      ∀ (recipient : Pubkey) (u : ℤ),
        total (fun k => k.2 = recipient ∧ u ≤ k.1 ∧ k.1 ≤ u + 86400) (SpendTracker.recipientAmounts
          (Attempt.run (SpendTracker.gatedRecordTo cap) (SpendTracker.empty v) spends).2) ≤
            2 * cap.toNat := by
  have hlasts : ∀ {c : PerRecipientCounter} {now : ℤ},
      c.isExpired now = false ↔ now < c.windowStart + 86400 := by
    intro c now
    rw [PerRecipientCounter.isExpired_eq_false_iff, rollingWindowSeconds]
    omega
  constructor
  · intro v spends hmono t recorded
    obtain ⟨ht, ho⟩ := SpendTracker.recordTo_run v hmono
    refine ⟨ht.count, ht.distinct, fun i hi => ?_, fun clock recipient x hpos => ⟨?_, ?_⟩⟩
    · exact ho.window_sum (by decide) (ht.window i hi)
    · intro t' hok
      have hkept := (SpendTracker.recordRecipientSpend_ok hok ht.count ht.distinct).2.kept
      exact ⟨hkept.1, fun i hi hnow => hkept.2 i hi (hlasts.mpr hnow)⟩
    · intro e herror
      refine (SpendTracker.recordRecipientSpend_error hpos ht.count herror).imp id ?_
      rintro ⟨he, hfull, hall⟩
      exact ⟨he, hfull, fun i => ⟨(hall i).1, hlasts.mp (hall i).2⟩⟩
  · intro cap v spends hmono recipient u
    obtain ⟨ho, hg⟩ := SpendTracker.gatedRecordTo_run cap v hmono
    exact hg.total_stretch_le ho (by decide) u

/-- Sixty and thirty units to one recipient under a cap of a hundred. -/
theorem recipient_counters_exact_two_spends :
    total (fun k => k.2 = Pubkey.default ∧ 700 ≤ k.1 ∧ k.1 ≤ 700 + 86400)
      (SpendTracker.recipientAmounts (Attempt.run (SpendTracker.gatedRecordTo 100)
        (SpendTracker.empty Pubkey.default) [(⟨0, 700, by decide⟩, Pubkey.default, 60),
          (⟨1, 800, by decide⟩, Pubkey.default, 30)]).2) ≤ 200 ∧
    ((Attempt.run SpendTracker.recordTo (SpendTracker.empty Pubkey.default)
      [(⟨0, 700, by decide⟩, Pubkey.default, 60),
        (⟨1, 800, by decide⟩, Pubkey.default, 30)]).1.perRecipientCount ≤ 10) :=
  ⟨recipient_counters_exact.2 100 _ _ (by simp) _ _,
    (recipient_counters_exact.1 Pubkey.default _ (by simp)).1⟩

end Sigil
