import Sigil.Spending.TrackerHistory

/-! # Recording and the rolling figure

A day touches 145 epochs and the ring has 144 slots, so a write can land on a bucket that
the rolling figure still counts. These results say exactly when recording a spend raises
the figure by the spend, and when the figure agrees with the history.
-/

namespace Sigil.SpendTracker

open EpochHistory Finset

/-- The trackers that recording spends at nondecreasing clocks can reach, with the spends
recorded, newest first. -/
inductive Recorded (v : Pubkey) : List (Clock × UInt64) → SpendTracker → Prop
  | empty : Recorded v [] (empty v)
  | record {h : List (Clock × UInt64)} {t t' : SpendTracker} {clock : Clock} {x : UInt64} :
      Recorded v h t → (∀ y ∈ h, y.1.unixTimestamp ≤ clock.unixTimestamp) →
      t.recordSpend clock x = .ok t' → Recorded v ((clock, x) :: h) t'

def amounts (h : List (Clock × UInt64)) : List (ℤ × ℕ) :=
  h.map fun y => (y.1.unixTimestamp, y.2.toNat)

/-- The bucket a write at `now` lands on holds the epoch a day earlier, with an amount of
which at least one unit still counts. -/
def OverwritesCounted (t : SpendTracker) (now : ℤ) : Prop :=
  let b := t.buckets (slot numEpochs (epochOf now))
  b.epochId = epochOf now - numEpochs ∧ 600 ≤ b.usdAmount.toNat * (600 - now % 600).toNat

instance (t : SpendTracker) (now : ℤ) : Decidable (t.OverwritesCounted now) :=
  inferInstanceAs (Decidable (_ ∧ _))

/-- Nothing was written in the epoch of `now`, or what was recorded in the epoch a day earlier
is worth at most one unit at `now`. -/
def OldestEpochCounted (t : SpendTracker) (h : List (ℤ × ℕ)) (now : ℤ) : Prop :=
  t.lastWriteEpoch ≠ epochOf now ∨
    total (fun k => epochOf k = epochOf now - numEpochs) h * (600 - now % 600).toNat ≤ 600

variable {v : Pubkey} {h : List (Clock × UInt64)} {t t' : SpendTracker} {clock : Clock}
  {x : UInt64}

theorem oldestShare_eq_zero_iff (now : ℤ) :
    t.oldestShare now = 0 ↔ ¬ t.OverwritesCounted now := by
  simp only [oldestShare, OverwritesCounted]
  split
  · rename_i hid
    rw [Nat.div_eq_zero_iff, and_iff_right hid]
    omega
  · rename_i hid
    simp only [hid, false_and, not_false_eq_true]

theorem Recorded.last_le (hr : Recorded v h t) {now : ℤ} (hpos : 0 < now)
    (hle : ∀ y ∈ h, y.1.unixTimestamp ≤ now) : t.lastWriteEpoch ≤ epochOf now := by
  cases hr with
  | empty =>
    have := epochOf_bounds now
    change 0 ≤ epochOf now
    omega
  | record hr hmono hrec =>
    rw [lastWriteEpoch_of_recordSpend hrec]
    exact epochOf_mono (hle _ List.mem_cons_self)

theorem Recorded.tracks (hr : Recorded v h t) : Tracks t (amounts h) := by
  induction hr with
  | empty => exact tracks_empty
  | record hr hmono hrec ih => exact ih.record (hr.last_le (recordSpend_ok hrec).1 hmono) hrec

theorem Tracks.rollingTotal_record {h : List (ℤ × ℕ)} (ht : Tracks t h)
    (hle : t.lastWriteEpoch ≤ epochOf clock.unixTimestamp)
    (hr : t.recordSpend clock x = .ok t') :
    t'.rollingTotal clock.unixTimestamp + t.oldestShare clock.unixTimestamp =
      t.rollingTotal clock.unixTimestamp + x.toNat := by
  have ht' := ht.record hle hr
  have hlast := lastWriteEpoch_of_recordSpend hr
  have hpos := (recordSpend_ok hr).1
  have hsum : ∀ k ∈ Icc (epochOf clock.unixTimestamp - 143) (epochOf clock.unixTimestamp),
      t'.read k = t.read k + if epochOf clock.unixTimestamp = k then x.toNat else 0 := by
    intro k hk
    rw [mem_Icc] at hk
    rw [ht'.read_eq (by omega), total_cons, ht.read_eq (by omega), add_comm]
  rw [ht'.rollingTotal_eq hpos clock.inI64 hlast.le, ht'.oldestShare_eq_zero hlast,
    ht.rollingTotal_eq hpos clock.inI64 hle, sum_congr rfl hsum, sum_add_distrib, sum_ite_eq,
    if_pos (mem_Icc.mpr ⟨by omega, le_rfl⟩)]
  omega

/-- Absent saturation, recording a spend at `clock` raises the rolling figure by exactly the
spend unless it writes over a bucket that still counts, and the figure is within one unit of
the weighted history unless that has happened in the current epoch. -/
theorem recordSpend_exact_iff (hr : Recorded v h t) (hpos : 0 < clock.unixTimestamp)
    (hmono : ∀ y ∈ h, y.1.unixTimestamp ≤ clock.unixTimestamp) :
    (∀ x t', t.recordSpend clock x = .ok t' →
      t.rollingTotal clock.unixTimestamp + x.toNat < 2 ^ 64 →
      ((t'.getRolling24hUsd clock).toNat = (t.getRolling24hUsd clock).toNat + x.toNat ↔
        ¬ t.OverwritesCounted clock.unixTimestamp)) ∧
    (t.rollingTotal clock.unixTimestamp < 2 ^ 64 →
      ((600 * (t.getRolling24hUsd clock).toNat ≤
          weightedTotal clock.unixTimestamp (amounts h) + 600 ∧
        weightedTotal clock.unixTimestamp (amounts h) ≤
          600 * (t.getRolling24hUsd clock).toNat + 600) ↔
        t.OldestEpochCounted (amounts h) clock.unixTimestamp)) := by
  have ht := hr.tracks
  have hle := hr.last_le hpos hmono
  have hnow := ht.getRolling24hUsd_toNat hpos hle
  constructor
  · intro x t' hrec hsat
    have hnext := ht.rollingTotal_record hle hrec
    have hlast := lastWriteEpoch_of_recordSpend hrec
    rw [(ht.record hle hrec).getRolling24hUsd_toNat hpos hlast.le, hnow,
      ← oldestShare_eq_zero_iff]
    omega
  · intro hsat
    have hmono' : ∀ y ∈ amounts h, y.1 ≤ clock.unixTimestamp := by
      intro y hy
      obtain ⟨z, hz, rfl⟩ := List.mem_map.mp hy
      exact hmono z hz
    have hread : ∑ k ∈ Icc (epochOf clock.unixTimestamp - 143) (epochOf clock.unixTimestamp),
        t.read k = ∑ k ∈ Icc (epochOf clock.unixTimestamp - 143) (epochOf clock.unixTimestamp),
          total (fun j => epochOf j = k) (amounts h) := by
      refine sum_congr rfl fun k hk => ht.read_eq ?_
      rw [mem_Icc] at hk
      omega
    have hroll := ht.rollingTotal_eq hpos clock.inI64 hle
    rw [hread] at hroll
    rw [hnow, weightedTotal_eq hmono', OldestEpochCounted, numEpochs_eq]
    by_cases hlast : t.lastWriteEpoch = epochOf clock.unixTimestamp
    · rw [ht.oldestShare_eq_zero hlast] at hroll
      simp only [hlast, ne_eq, not_true_eq_false, false_or]
      omega
    · rw [ht.oldestShare_eq hle hlast] at hroll
      simp only [hlast, ne_eq, not_false_eq_true, true_or, iff_true]
      omega

theorem recordSpend_exact_next_epoch :
    ∃ t t', Recorded Pubkey.default [(⟨0, 300, by decide⟩, 1000)] t ∧
      t.recordSpend ⟨1, 900, by decide⟩ 5 = .ok t' ∧
      (t'.getRolling24hUsd ⟨1, 900, by decide⟩).toNat =
        (t.getRolling24hUsd ⟨1, 900, by decide⟩).toNat + (5 : UInt64).toNat := by
  have hr : Recorded Pubkey.default [(⟨0, 300, by decide⟩, 1000)] _ :=
    .record .empty (by simp) rfl
  refine ⟨_, _, hr, rfl, ?_⟩
  have hpos : 0 < (Clock.mk 1 900 (by decide)).unixTimestamp := by decide
  have hexact := recordSpend_exact_iff hr hpos (by simp)
  exact (hexact.1 5 _ rfl (by decide +kernel)).mpr (by decide +kernel)

/-- A thousand units recorded at second 300 still count for 998 at second 86401; recording
five more there leaves a figure of five. -/
theorem recordSpend_drops_counted :
    ∃ t t', Recorded Pubkey.default [(⟨0, 300, by decide⟩, 1000)] t ∧
      t.recordSpend ⟨1, 86401, by decide⟩ 5 = .ok t' ∧
      t.rollingTotal 86401 + 5 < 2 ^ 64 ∧
      t.getRolling24hUsd ⟨1, 86401, by decide⟩ = 998 ∧
      t'.getRolling24hUsd ⟨1, 86401, by decide⟩ = 5 := by
  refine ⟨_, _, .record .empty (by simp) rfl, rfl, ?_, ?_, ?_⟩
  · decide +kernel
  · decide +kernel
  · decide +kernel

end Sigil.SpendTracker
