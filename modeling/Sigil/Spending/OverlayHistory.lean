import Sigil.State.AgentSpendOverlay

/-! # An overlay slot against its history

The hourly ring of a slot holds the last 24 epochs as they were recorded, so the rolling
figure of the slot covers them.
-/

namespace Sigil

open Machine EpochHistory

def hourOf (ts : ℤ) : ℤ := ts / overlayEpochDuration

theorem hourOf_bounds (ts : ℤ) : hourOf ts * 3600 ≤ ts ∧ ts < hourOf ts * 3600 + 3600 := by
  unfold hourOf overlayEpochDuration; omega

theorem hourOf_mono {ts ts' : ℤ} (hle : ts ≤ ts') : hourOf ts ≤ hourOf ts' := by
  have := hourOf_bounds ts
  have := hourOf_bounds ts'
  omega

theorem overlayNumEpochs_eq : (overlayNumEpochs : ℤ) = 24 := rfl

namespace AgentContributionEntry

variable {entry entry' : AgentContributionEntry} {h : List (ℤ × ℕ)} {clock : Clock}
  {x : UInt64} {now : ℤ}

/-- The ring of a slot holds the history `h`. -/
structure Tracks (entry : AgentContributionEntry) (h : List (ℤ × ℕ)) : Prop where
  last_nonneg : 0 ≤ entry.lastWriteEpoch
  held : ∀ e, 0 ≤ e → entry.lastWriteEpoch - 24 < e → e ≤ entry.lastWriteEpoch →
    (entry.contributions (slot overlayNumEpochs e)).toNat = total (fun k => hourOf k = e) h
  pos : ∀ y ∈ h, 0 < y.1
  history_le : ∀ y ∈ h, hourOf y.1 ≤ entry.lastWriteEpoch

theorem tracks_claimed (agent : Pubkey) : Tracks { empty with agent := agent } [] where
  last_nonneg := le_rfl
  held _ _ _ _ := rfl
  pos := by simp
  history_le := by simp

theorem Tracks.total_eq_zero_of_gt (ht : Tracks entry h) {e : ℤ}
    (he : entry.lastWriteEpoch < e) : total (fun k => hourOf k = e) h = 0 := by
  refine total_eq_zero fun y hy hye => ?_
  have := ht.history_le y hy
  omega

theorem foldl_update_zero (f : ℕ → Fin overlayNumEpochs) (c : Fin overlayNumEpochs → UInt64)
    (n : ℕ) (i : Fin overlayNumEpochs) :
    (List.range n).foldl (fun c k => Function.update c (f k) 0) c i =
      if ∃ k < n, f k = i then 0 else c i := by
  induction n with
  | zero => simp
  | succ n ih =>
    rw [List.range_succ, List.foldl_append, List.foldl_cons, List.foldl_nil]
    by_cases hn : f n = i
    · rw [← hn, Function.update_self, if_pos ⟨n, by omega, rfl⟩]
    · rw [Function.update_of_ne (Ne.symm hn), ih]
      refine if_congr ?_ rfl rfl
      constructor
      · rintro ⟨k, hk, hki⟩
        exact ⟨k, by omega, hki⟩
      · rintro ⟨k, hk, hki⟩
        exact ⟨k, lt_of_le_of_ne (by omega) fun hkn => hn (hkn ▸ hki), hki⟩

/-- After the gap is zeroed the ring has the written epochs as before and nothing for the
epochs that passed without a write. -/
theorem Tracks.zeroGapBuckets_apply (ht : Tracks entry h) (hi : InI64 now)
    (hle : entry.lastWriteEpoch ≤ hourOf now) {e : ℤ} (he : hourOf now - 24 < e)
    (he' : e ≤ hourOf now) :
    (entry.zeroGapBuckets (hourOf now)).contributions (slot overlayNumEpochs e) =
      if e ≤ entry.lastWriteEpoch then entry.contributions (slot overlayNumEpochs e) else 0 := by
  have hb := hourOf_bounds now
  have h0 := ht.last_nonneg
  have hn := overlayNumEpochs_eq
  unfold InI64 at hi
  have hgap : saturatingSubI64 (hourOf now) entry.lastWriteEpoch =
      hourOf now - entry.lastWriteEpoch :=
    saturatingSubI64_of_inI64 ⟨by omega, by omega⟩
  simp only [zeroGapBuckets, hgap]
  split
  · rw [if_pos (by omega)]
  · split
    · rw [if_neg (by omega)]
    · simp only
      rw [foldl_update_zero
        (fun k => slot overlayNumEpochs (saturatingAddI64 entry.lastWriteEpoch (k + 1)))]
      have hadd : ∀ k < (hourOf now - entry.lastWriteEpoch).toNat,
          saturatingAddI64 entry.lastWriteEpoch (k + 1) = entry.lastWriteEpoch + (k + 1) :=
        fun k hk => saturatingAddI64_of_inI64 ⟨by omega, by omega⟩
      by_cases hlast : e ≤ entry.lastWriteEpoch
      · rw [if_pos hlast, if_neg]
        rintro ⟨k, hk, hke⟩
        rw [hadd k hk] at hke
        have := eq_of_slot_eq hke (by omega) (by omega)
        omega
      · rw [if_neg hlast, if_pos]
        refine ⟨(e - entry.lastWriteEpoch - 1).toNat, by omega, ?_⟩
        rw [hadd _ (by omega)]
        congr 1
        omega

theorem record_ok (hr : entry.record clock x = .ok entry') :
    0 < clock.unixTimestamp ∧ ∃ amount : UInt64,
      amount.toNat = ((entry.zeroGapBuckets (hourOf clock.unixTimestamp)).contributions
        (slot overlayNumEpochs (hourOf clock.unixTimestamp))).toNat + x.toNat ∧
      entry'.contributions =
        Function.update (entry.zeroGapBuckets (hourOf clock.unixTimestamp)).contributions
          (slot overlayNumEpochs (hourOf clock.unixTimestamp)) amount ∧
      entry'.lastWriteEpoch = hourOf clock.unixTimestamp := by
  simp only [AgentContributionEntry.record, ensure_seq_ok_iff, someOr_seq_ok_iff,
    checkedAdd_eq_some] at hr
  obtain ⟨hpos, amount, hamount, heq⟩ := hr
  rw [← Except.ok.inj heq]
  exact ⟨hpos, amount, hamount, rfl, rfl⟩

theorem Tracks.zeroGapBuckets_total (ht : Tracks entry h)
    (hle : entry.lastWriteEpoch ≤ hourOf clock.unixTimestamp) {e : ℤ} (he0 : 0 ≤ e)
    (he : hourOf clock.unixTimestamp - 24 < e) (he' : e ≤ hourOf clock.unixTimestamp) :
    ((entry.zeroGapBuckets (hourOf clock.unixTimestamp)).contributions
      (slot overlayNumEpochs e)).toNat = total (fun k => hourOf k = e) h := by
  rw [ht.zeroGapBuckets_apply clock.inI64 hle he he']
  split
  · rename_i hold
    exact ht.held e he0 (by omega) hold
  · rename_i hnew
    rw [ht.total_eq_zero_of_gt (by omega)]
    rfl

theorem Tracks.record (ht : Tracks entry h)
    (hle : entry.lastWriteEpoch ≤ hourOf clock.unixTimestamp)
    (hr : entry.record clock x = .ok entry') :
    Tracks entry' ((clock.unixTimestamp, x.toNat) :: h) := by
  obtain ⟨hpos, amount, hamount, hcontr, hlast⟩ := record_ok hr
  have hb := hourOf_bounds clock.unixTimestamp
  have hn := overlayNumEpochs_eq
  have h0 := ht.last_nonneg
  constructor
  · omega
  · intro e he0 he he'
    rw [hlast] at he he'
    rw [hcontr, total_cons]
    by_cases hcur : e = hourOf clock.unixTimestamp
    · rw [if_pos hcur.symm, hcur, Function.update_self, hamount,
        ht.zeroGapBuckets_total hle (by omega) (by omega) le_rfl, add_comm]
    · rw [if_neg (Ne.symm hcur), zero_add, Function.update_of_ne,
        ht.zeroGapBuckets_total hle he0 he he']
      intro hslot
      exact hcur (eq_of_slot_eq hslot (by omega) (by omega))
  · intro y hy
    rcases List.mem_cons.mp hy with rfl | hy
    · exact hpos
    · exact ht.pos y hy
  · intro y hy
    rw [hlast]
    rcases List.mem_cons.mp hy with rfl | hy
    · exact le_rfl
    · exact (ht.history_le y hy).trans hle

theorem acc_le_rollingLoop (currentEpoch windowStart : ℤ) (ks : List ℕ) {acc : ℕ}
    (hacc : acc < 2 ^ 128) : acc ≤ entry.rollingLoop currentEpoch windowStart ks acc := by
  induction ks generalizing acc with
  | nil => exact le_rfl
  | cons k ks ih =>
    have hgrow (m : ℕ) :
        acc ≤ entry.rollingLoop currentEpoch windowStart ks (saturatingAdd128 acc m) := by
      refine le_trans ?_ (ih (saturatingAdd128_lt acc m))
      unfold saturatingAdd128
      omega
    simp only [rollingLoop]
    split_ifs
    exacts [le_rfl, le_rfl, ih hacc, ih hacc, hgrow _, hgrow _]

theorem Tracks.le_rollingLoop (ht : Tracks entry h) (hi : InI64 now)
    (hle : entry.lastWriteEpoch ≤ hourOf now) (n j acc : ℕ) (hj : j + n = 24)
    (hacc : acc < 2 ^ 128) :
    min (acc + total (fun k => hourOf now - 24 < hourOf k ∧
        hourOf k ≤ entry.lastWriteEpoch - j) h) (2 ^ 128 - 1) ≤
      entry.rollingLoop (hourOf now) (now - 86400) (List.range' j n) acc := by
  have hb := hourOf_bounds now
  have h0 := ht.last_nonneg
  unfold InI64 at hi
  induction n generalizing j acc with
  | zero =>
    rw [total_eq_zero fun y hy hw => by omega]
    simp only [List.range'_zero, rollingLoop]
    omega
  | succ n ih =>
    by_cases hin : hourOf now - 24 < entry.lastWriteEpoch - j
    swap
    · -- an older epoch can only add to what was counted
      rw [total_eq_zero fun y hy hw => by omega, add_zero]
      exact (min_le_left _ _).trans (acc_le_rollingLoop _ _ _ hacc)
    have hepoch : saturatingSubI64 entry.lastWriteEpoch j = entry.lastWriteEpoch - j :=
      saturatingSubI64_of_inI64 ⟨by omega, by omega⟩
    simp only [List.range'_succ, rollingLoop, hepoch, overlayEpochDuration]
    by_cases hneg : entry.lastWriteEpoch - j < 0
    · rw [if_pos hneg, total_eq_zero]
      · omega
      · intro y hy hw
        have := ht.pos y hy
        have := hourOf_bounds y.1
        omega
    have hstart : saturatingMulI64 (entry.lastWriteEpoch - j) 3600 =
        (entry.lastWriteEpoch - j) * 3600 :=
      saturatingMulI64_of_inI64 ⟨by omega, by omega⟩
    have hend : ¬ saturatingAddI64 ((entry.lastWriteEpoch - j) * 3600) 3600 ≤ now - 86400 := by
      unfold saturatingAddI64 clampI64
      omega
    -- an epoch of the window counts in full
    have hheld := ht.held (entry.lastWriteEpoch - j) (by omega) (by omega) (by omega)
    have ih := fun acc' => ih (j + 1) acc' (by omega)
    rw [show entry.lastWriteEpoch - ((j + 1 : ℕ) : ℤ) = entry.lastWriteEpoch - j - 1 by omega] at ih
    rw [hstart, if_neg hneg, if_neg hend, if_neg (by omega), total_window_split hin, ← hheld]
    split_ifs with hzero hwhole
    · rw [hzero]
      exact ih acc hacc
    · refine le_trans ?_ (ih _ (saturatingAdd128_lt _ _))
      unfold saturatingAdd128
      omega
    · omega

theorem Tracks.le_rolling24hUsd (ht : Tracks entry h) (hpos : 0 < clock.unixTimestamp)
    (hle : entry.lastWriteEpoch ≤ hourOf clock.unixTimestamp) :
    min (total (fun k => hourOf clock.unixTimestamp - 24 < hourOf k ∧
        hourOf k ≤ hourOf clock.unixTimestamp) h) (2 ^ 64 - 1) ≤
      (entry.rolling24hUsd clock).toNat := by
  have hb := hourOf_bounds clock.unixTimestamp
  have h0 := ht.last_nonneg
  have hi := clock.inI64
  unfold InI64 at hi
  have hsub : saturatingSubI64 (clock.unixTimestamp / overlayEpochDuration)
      entry.lastWriteEpoch = hourOf clock.unixTimestamp - entry.lastWriteEpoch :=
    saturatingSubI64_of_inI64 ⟨by change _ ≤ hourOf _ - _; omega,
      by change hourOf _ - _ < _; omega⟩
  have hws : saturatingSubI64 clock.unixTimestamp overlayRollingWindowSeconds =
      clock.unixTimestamp - 86400 :=
    saturatingSubI64_of_inI64 ⟨by simp only [overlayRollingWindowSeconds]; omega,
      by simp only [overlayRollingWindowSeconds]; omega⟩
  -- nothing was recorded after the last write
  have hlast : total (fun k => hourOf clock.unixTimestamp - 24 < hourOf k ∧
        hourOf k ≤ hourOf clock.unixTimestamp) h =
      total (fun k => hourOf clock.unixTimestamp - 24 < hourOf k ∧
        hourOf k ≤ entry.lastWriteEpoch - (0 : ℕ)) h := by
    refine total_congr fun y hy => ?_
    have := ht.history_le y hy
    omega
  have hloop := ht.le_rollingLoop clock.inI64 hle 24 0 0 rfl (by norm_num)
  unfold rolling24hUsd
  simp only [hsub, hws]
  rw [hlast, if_neg (by omega)]
  split
  · rename_i hstale
    rw [total_eq_zero]
    · simp
    · intro y hy hw
      have := overlayNumEpochs_eq
      omega
  · rw [capToU64_toNat, List.range_eq_range']
    change _ ≤ min (entry.rollingLoop (hourOf clock.unixTimestamp) _ (List.range' 0 24) 0) _
    omega

end AgentContributionEntry

end Sigil
