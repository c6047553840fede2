import Mathlib.Tactic.Ring
import Sigil.State.Tracker

/-! # The tracker against the recorded history

`Tracks` relates the ring of buckets to the history of recorded spends. From it the
rolling figure is computed exactly: the epochs of the window as recorded, and the share
of the epoch before them as long as its bucket has not been written over.
-/

namespace Sigil

open Machine EpochHistory Finset

def epochOf (ts : ℤ) : ℤ := ts / epochDuration

theorem epochOf_bounds (ts : ℤ) : epochOf ts * 600 ≤ ts ∧ ts < epochOf ts * 600 + 600 := by
  unfold epochOf epochDuration; omega

theorem numEpochs_eq : (numEpochs : ℤ) = 144 := rfl

theorem epochOf_mono {ts ts' : ℤ} (hle : ts ≤ ts') : epochOf ts ≤ epochOf ts' := by
  have := epochOf_bounds ts
  have := epochOf_bounds ts'
  omega

namespace SpendTracker

variable {t t' : SpendTracker} {h : List (ℤ × ℕ)} {clock : Clock} {x : UInt64} {v : Pubkey}

/-- What the ring holds for epoch `e`. -/
def read (t : SpendTracker) (e : ℤ) : ℕ :=
  let b := t.buckets (slot numEpochs e)
  if b.epochId = e then b.usdAmount.toNat else 0

/-- What the bucket about to be reused for epoch `e` still adds to the rolling figure. -/
def oldestShare (t : SpendTracker) (now : ℤ) : ℕ :=
  let b := t.buckets (slot numEpochs (epochOf now))
  if b.epochId = epochOf now - numEpochs then b.usdAmount.toNat * (600 - now % 600).toNat / 600
  else 0

/-- The ring `t` holds the history `h`: a bucket belongs to an epoch of its slot and has all
of that epoch, and an epoch later than its slot's bucket was never written. -/
structure Tracks (t : SpendTracker) (h : List (ℤ × ℕ)) : Prop where
  placed : ∀ i, slot numEpochs (t.buckets i).epochId = i ∨
    (t.buckets i).epochId = 0 ∧ (t.buckets i).usdAmount = 0
  nonneg : ∀ i, 0 ≤ (t.buckets i).epochId
  le_last : ∀ i, (t.buckets i).epochId ≤ t.lastWriteEpoch
  held : ∀ i, slot numEpochs (t.buckets i).epochId = i →
    (t.buckets i).usdAmount.toNat = total (fun k => epochOf k = (t.buckets i).epochId) h
  unwritten : ∀ e, (t.buckets (slot numEpochs e)).epochId < e →
    total (fun k => epochOf k = e) h = 0
  last_slot : (t.buckets (slot numEpochs t.lastWriteEpoch)).epochId = t.lastWriteEpoch
  pos : ∀ y ∈ h, 0 < y.1
  history_le : ∀ y ∈ h, epochOf y.1 ≤ t.lastWriteEpoch

theorem tracks_empty : Tracks (empty v) [] where
  placed _ := Or.inr ⟨rfl, rfl⟩
  nonneg _ := le_rfl
  le_last _ := le_rfl
  held _ _ := rfl
  unwritten _ _ := rfl
  last_slot := rfl
  pos := by simp
  history_le := by simp

/-- What a successful recording does: the bucket of the current epoch grows by the amount,
starting from nothing when its slot held another epoch. -/
theorem recordSpend_ok (hr : t.recordSpend clock x = .ok t') :
    0 < clock.unixTimestamp ∧ ∃ amount : UInt64,
      amount.toNat = t.read (epochOf clock.unixTimestamp) + x.toNat ∧
      t' = { t with
        buckets := Function.update t.buckets (slot numEpochs (epochOf clock.unixTimestamp))
          ⟨epochOf clock.unixTimestamp, amount⟩
        lastWriteEpoch := epochOf clock.unixTimestamp } := by
  simp only [recordSpend, ensure_seq_ok_iff, someOr_seq_ok_iff, checkedAdd_eq_some] at hr
  obtain ⟨hpos, amount, hamount, heq⟩ := hr
  refine ⟨hpos, amount, ?_, ?_⟩
  · rw [hamount, read, epochOf]
    split <;> simp_all
  · rw [← Except.ok.inj heq]
    unfold epochOf
    split <;> simp_all

theorem lastWriteEpoch_of_recordSpend (hr : t.recordSpend clock x = .ok t') :
    t'.lastWriteEpoch = epochOf clock.unixTimestamp := by
  obtain ⟨-, amount, -, rfl⟩ := recordSpend_ok hr
  rfl

theorem Tracks.read_eq (ht : Tracks t h) {e : ℤ} (he : t.lastWriteEpoch - 144 < e) :
    t.read e = total (fun k => epochOf k = e) h := by
  unfold read
  rcases lt_trichotomy (t.buckets (slot numEpochs e)).epochId e with hlt | heq | hgt
  · rw [if_neg hlt.ne, ht.unwritten e hlt]
  · have hheld := ht.held (slot numEpochs e) (by rw [heq])
    rw [if_pos heq, hheld, heq]
  · rw [if_neg hgt.ne', total_eq_zero]
    intro y hy hye
    have hy0 := ht.pos y hy
    have hyb := epochOf_bounds y.1
    have hlast := ht.le_last (slot numEpochs e)
    have hn := numEpochs_eq
    rcases ht.placed (slot numEpochs e) with hslot | ⟨hzero, -⟩
    · have := eq_of_slot_eq hslot (by omega) (by omega)
      omega
    · omega

theorem Tracks.record (ht : Tracks t h)
    (hle : t.lastWriteEpoch ≤ epochOf clock.unixTimestamp)
    (hr : t.recordSpend clock x = .ok t') :
    Tracks t' ((clock.unixTimestamp, x.toNat) :: h) := by
  obtain ⟨hpos, amount, hamount, rfl⟩ := recordSpend_ok hr
  have hb := epochOf_bounds clock.unixTimestamp
  rw [ht.read_eq (by omega)] at hamount
  set e := epochOf clock.unixTimestamp with he
  have hcase : ∀ i, (i = slot numEpochs e ∧ Function.update t.buckets (slot numEpochs e)
      ⟨e, amount⟩ i = ⟨e, amount⟩) ∨ (i ≠ slot numEpochs e ∧
      Function.update t.buckets (slot numEpochs e) ⟨e, amount⟩ i = t.buckets i) := by
    intro i
    by_cases hi : i = slot numEpochs e
    · exact Or.inl ⟨hi, by rw [hi, Function.update_self]⟩
    · exact Or.inr ⟨hi, Function.update_of_ne hi _ _⟩
  constructor
  · intro i
    rcases hcase i with ⟨hi, hbi⟩ | ⟨-, hbi⟩
    · simp only [hbi]
      exact Or.inl hi.symm
    · simp only [hbi]
      exact ht.placed i
  · intro i
    rcases hcase i with ⟨-, hbi⟩ | ⟨-, hbi⟩
    · simp only [hbi]
      omega
    · simp only [hbi]
      exact ht.nonneg i
  · intro i
    rcases hcase i with ⟨-, hbi⟩ | ⟨-, hbi⟩
    · simp only [hbi, le_refl]
    · simp only [hbi]
      exact (ht.le_last i).trans hle
  · intro i hi
    rcases hcase i with ⟨-, hbi⟩ | ⟨hne, hbi⟩
    · simp only [hbi, total_cons, ← he, if_true, hamount]
      omega
    · simp only [hbi] at hi ⊢
      have hide : ¬ epochOf clock.unixTimestamp = (t.buckets i).epochId := by
        intro heq
        exact hne (by rw [← hi, ← heq])
      rw [total_cons, if_neg hide, zero_add, ht.held i hi]
  · intro e' he'
    rcases hcase (slot numEpochs e') with ⟨-, hbi⟩ | ⟨hne, hbi⟩
    · simp only [hbi] at he'
      rw [total_cons, if_neg (by omega), zero_add, total_eq_zero]
      intro y hy hye
      have := ht.history_le y hy
      omega
    · simp only [hbi] at he'
      have hide : ¬ epochOf clock.unixTimestamp = e' := by
        rintro rfl
        exact hne rfl
      rw [total_cons, if_neg hide, zero_add, ht.unwritten e' he']
  · simp only [Function.update_self]
  · intro y hy
    rcases List.mem_cons.mp hy with rfl | hy
    · exact hpos
    · exact ht.pos y hy
  · intro y hy
    rcases List.mem_cons.mp hy with rfl | hy
    · exact le_rfl
    · exact (ht.history_le y hy).trans hle

section Rolling

variable {now : ℤ} {b : EpochBucket}

/-- A bucket of the window counts in full, the one just before it for the seconds of it
that are still in the window, and an older one not at all. -/
theorem rollingAmount_eq (hnow : 0 < now) (hi : InI64 now) (h0 : 0 ≤ b.epochId)
    (hle : b.epochId ≤ epochOf now) :
    b.rollingAmount (epochOf now) (now - 86400) =
      if epochOf now - 144 < b.epochId then b.usdAmount.toNat
      else if b.epochId = epochOf now - 144 then b.usdAmount.toNat * (600 - now % 600).toNat / 600
      else 0 := by
  have hb := epochOf_bounds now
  have hmod : now % 600 = now - epochOf now * 600 := by unfold epochOf epochDuration; omega
  unfold InI64 at hi
  have hstart : saturatingMulI64 b.epochId 600 = b.epochId * 600 :=
    saturatingMulI64_of_inI64 ⟨by omega, by omega⟩
  have hend : saturatingAddI64 (b.epochId * 600) 600 ≤ now - 86400 ↔
      b.epochId * 600 + 600 ≤ now - 86400 := by
    unfold saturatingAddI64 clampI64; omega
  have hcur : ¬ epochOf now < b.epochId := not_lt.mpr hle
  by_cases hzero : b.usdAmount = 0
  · simp [EpochBucket.rollingAmount, hzero]
  · simp only [EpochBucket.rollingAmount, epochDuration, hstart, hend, hcur, or_false,
      if_neg hzero]
    rcases lt_trichotomy b.epochId (epochOf now - 144) with hlt | heq | hgt
    · rw [if_pos (by omega), if_neg (by omega), if_neg (by omega)]
    · have hend' : saturatingAddI64 (b.epochId * 600) 600 = b.epochId * 600 + 600 :=
        saturatingAddI64_of_inI64 ⟨by omega, by omega⟩
      have hov : (b.epochId * 600 + 600 - (now - 86400)).toNat = (600 - now % 600).toNat := by
        omega
      have hamt := b.usdAmount.toNat_lt
      have hlive : ¬ b.epochId * 600 + 600 ≤ now - 86400 := by omega
      have hbefore : ¬ epochOf now - 144 < b.epochId := by omega
      rw [if_neg hlive, if_neg hbefore, if_pos heq, hend', hov]
      split
      · have hwhole : (600 - now % 600).toNat = 600 := by omega
        rw [hwhole, Nat.mul_div_cancel _ (by norm_num)]
      · rw [saturatingMul128_of_lt]
        have hpart : (600 - now % 600).toNat ≤ 600 := by omega
        nlinarith
    · rw [if_neg (by omega), if_pos (by omega), if_pos (by omega)]

/-- In the window of the current epoch only the slot of the current epoch can also hold the
epoch before the window. -/
theorem Tracks.rollingAmount_slot (ht : Tracks t h) (hnow : 0 < now) (hi : InI64 now)
    (hle : t.lastWriteEpoch ≤ epochOf now) {k : ℤ} (hk : epochOf now - 144 < k)
    (hk' : k ≤ epochOf now) :
    (t.buckets (slot numEpochs k)).rollingAmount (epochOf now) (now - 86400) =
      t.read k + if k = epochOf now then t.oldestShare now else 0 := by
  have hlast := (ht.le_last (slot numEpochs k)).trans hle
  have hn := numEpochs_eq
  rw [rollingAmount_eq hnow hi (ht.nonneg _) hlast]
  unfold read oldestShare
  rcases ht.placed (slot numEpochs k) with hslot | ⟨hid, hzero⟩
  · by_cases hin : epochOf now - 144 < (t.buckets (slot numEpochs k)).epochId
    · have hid := eq_of_slot_eq hslot (by omega) (by omega)
      have hshare : ¬ (t.buckets (slot numEpochs k)).epochId = epochOf now - numEpochs := by omega
      rw [if_pos hin, if_pos hid]
      split
      · rename_i hke
        rw [← hke, if_neg (hke ▸ hshare), add_zero]
      · rw [add_zero]
    · have hid : ¬ (t.buckets (slot numEpochs k)).epochId = k := by omega
      rw [if_neg hin, if_neg hid, zero_add]
      by_cases hke : k = epochOf now
      · rw [if_pos hke, ← hke, hn]
      · rw [if_neg hke, if_neg]
        intro heq
        -- the slot of `epochOf now - 144` is the slot of `epochOf now`
        rw [heq, show epochOf now - 144 = epochOf now - numEpochs by rw [hn], slot_sub_size]
          at hslot
        exact hke (eq_of_slot_eq hslot.symm (by omega) (by omega))
  · have hread : (t.buckets (slot numEpochs k)).usdAmount.toNat = 0 := by rw [hzero]; rfl
    simp only [hread, zero_mul, Nat.zero_div, ite_self, zero_add]
    split
    · rename_i hke
      rw [← hke, hread]
      simp
    · rfl

theorem usdAmount_le (b : EpochBucket) (hnow : 0 < now) (hi : InI64 now) (h0 : 0 ≤ b.epochId)
    (hle : b.epochId ≤ epochOf now) :
    b.rollingAmount (epochOf now) (now - 86400) ≤ b.usdAmount.toNat := by
  rw [rollingAmount_eq hnow hi h0 hle]
  split
  · exact le_rfl
  · split
    · have hpart : (600 - now % 600).toNat ≤ 600 := by omega
      exact Nat.div_le_of_le_mul (by nlinarith)
    · exact Nat.zero_le _

/-- The rolling figure before narrowing: the recorded epochs of the window and the share of
the epoch before it that the ring still holds. -/
theorem Tracks.rollingTotal_eq (ht : Tracks t h) (hnow : 0 < now) (hi : InI64 now)
    (hle : t.lastWriteEpoch ≤ epochOf now) :
    t.rollingTotal now =
      ∑ k ∈ Icc (epochOf now - 143) (epochOf now), t.read k + t.oldestShare now := by
  have hi' := hi
  unfold InI64 at hi'
  have hws : saturatingSubI64 now rollingWindowSeconds = now - 86400 :=
    saturatingSubI64_of_inI64 ⟨by simp only [rollingWindowSeconds]; omega,
      by simp only [rollingWindowSeconds]; omega⟩
  have hsum : ((List.ofFn t.buckets).map
      fun b => b.rollingAmount (epochOf now) (now - 86400)).sum =
      ∑ i, (t.buckets i).rollingAmount (epochOf now) (now - 86400) := by
    rw [List.map_ofFn, List.sum_ofFn]
    rfl
  have hbound : ∑ i, (t.buckets i).rollingAmount (epochOf now) (now - 86400) ≤
      ∑ _i : Fin numEpochs, 2 ^ 64 :=
    sum_le_sum fun i _ => (usdAmount_le _ hnow hi (ht.nonneg i) ((ht.le_last i).trans hle)).trans
      (t.buckets i).usdAmount.toNat_lt.le
  rw [sum_const, card_univ, Fintype.card_fin, smul_eq_mul] at hbound
  change _ ≤ 144 * 2 ^ 64 at hbound
  have htotal : t.rollingTotal now =
      ∑ i, (t.buckets i).rollingAmount (epochOf now) (now - 86400) := by
    unfold rollingTotal
    simp only [hws]
    rw [foldl_saturatingAdd128 _ _ (by norm_num)]
    change min (0 + ((List.ofFn t.buckets).map
      fun b => b.rollingAmount (epochOf now) (now - 86400)).sum) _ = _
    rw [hsum]
    omega
  have hwin : epochOf now - (numEpochs : ℤ) + 1 = epochOf now - 143 := by
    rw [numEpochs_eq]; omega
  rw [htotal, sum_slots _ (epochOf now), hwin]
  calc ∑ k ∈ Icc (epochOf now - 143) (epochOf now),
        (t.buckets (slot numEpochs k)).rollingAmount (epochOf now) (now - 86400)
      = ∑ k ∈ Icc (epochOf now - 143) (epochOf now),
          (t.read k + if k = epochOf now then t.oldestShare now else 0) := by
        refine sum_congr rfl fun k hk => ?_
        rw [mem_Icc] at hk
        exact ht.rollingAmount_slot hnow hi hle (by omega) hk.2
    _ = ∑ k ∈ Icc (epochOf now - 143) (epochOf now), t.read k + t.oldestShare now := by
        rw [sum_add_distrib, sum_ite_eq', if_pos (mem_Icc.mpr ⟨by omega, le_rfl⟩)]

/-- The rolling figure is the total narrowed to a word; the early exit for a ring that was
not written for a day changes nothing. -/
theorem Tracks.getRolling24hUsd_toNat (ht : Tracks t h) (hnow : 0 < clock.unixTimestamp)
    (hle : t.lastWriteEpoch ≤ epochOf clock.unixTimestamp) :
    (t.getRolling24hUsd clock).toNat =
      min (t.rollingTotal clock.unixTimestamp) (2 ^ 64 - 1) := by
  unfold getRolling24hUsd
  rw [if_neg (by omega)]
  split
  · rename_i hstale
    have hgap : epochOf clock.unixTimestamp - t.lastWriteEpoch > 144 := by
      change (144 : ℤ) < clampI64 (epochOf clock.unixTimestamp - t.lastWriteEpoch) at hstale
      unfold clampI64 at hstale
      omega
    have hread : ∀ k ∈ Icc (epochOf clock.unixTimestamp - 143) (epochOf clock.unixTimestamp),
        t.read k = 0 := by
      intro k hk
      rw [mem_Icc] at hk
      have := ht.le_last (slot numEpochs k)
      exact if_neg (by omega)
    have hshare : t.oldestShare clock.unixTimestamp = 0 := by
      have := ht.le_last (slot numEpochs (epochOf clock.unixTimestamp))
      have := numEpochs_eq
      exact if_neg (by omega)
    rw [ht.rollingTotal_eq hnow clock.inI64 hle, sum_eq_zero hread, hshare]
    rfl
  · rw [capToU64_toNat]

end Rolling

section Share

variable {now : ℤ}

theorem Tracks.oldestShare_eq (ht : Tracks t h)
    (hle : t.lastWriteEpoch ≤ epochOf now) (hne : t.lastWriteEpoch ≠ epochOf now) :
    t.oldestShare now =
      total (fun k => epochOf k = epochOf now - 144) h * (600 - now % 600).toNat / 600 := by
  have hn := numEpochs_eq
  have hslot : slot numEpochs (epochOf now - 144) = slot numEpochs (epochOf now) := by
    rw [show epochOf now - 144 = epochOf now - numEpochs by rw [hn], slot_sub_size]
  have hlast := ht.le_last (slot numEpochs (epochOf now))
  unfold oldestShare
  by_cases hid : (t.buckets (slot numEpochs (epochOf now))).epochId = epochOf now - 144
  · rw [if_pos (by rw [hid, hn]), ht.held _ (by rw [hid, hslot]), hid]
  · have hzero : total (fun k => epochOf k = epochOf now - 144) h = 0 := by
      rcases lt_or_ge (t.buckets (slot numEpochs (epochOf now))).epochId (epochOf now - 144)
        with hold | hge
      · exact ht.unwritten _ (by rw [hslot]; exact hold)
      · refine total_eq_zero fun y hy hye => ?_
        have hy0 := ht.pos y hy
        have hyb := epochOf_bounds y.1
        rcases ht.placed (slot numEpochs (epochOf now)) with hplaced | ⟨hstart, -⟩
        · exact hid (eq_of_slot_eq (hplaced.trans hslot.symm) (by omega) (by omega))
        · omega
    rw [if_neg (by rw [hn]; exact hid), hzero, Nat.zero_mul, Nat.zero_div]

theorem Tracks.oldestShare_eq_zero (ht : Tracks t h) (heq : t.lastWriteEpoch = epochOf now) :
    t.oldestShare now = 0 := by
  have hslot := ht.last_slot
  rw [heq] at hslot
  exact if_neg (by rw [hslot, numEpochs_eq]; omega)

/-- Seconds of epoch `e` that are not yet older than a day. -/
def weight (now e : ℤ) : ℕ := (min 600 (e * 600 + 600 - (now - 86400))).toNat

/-- The amounts of the history, each for the share of its epoch still inside the last day,
in units of one 600th. -/
def weightedTotal (now : ℤ) (h : List (ℤ × ℕ)) : ℕ :=
  (h.map fun y => y.2 * weight now (epochOf y.1)).sum

theorem weightedTotal_eq (hle : ∀ y ∈ h, y.1 ≤ now) :
    weightedTotal now h =
      600 * ∑ k ∈ Icc (epochOf now - 143) (epochOf now), total (fun j => epochOf j = k) h +
        total (fun j => epochOf j = epochOf now - 144) h * (600 - now % 600).toNat := by
  rw [sum_total]
  have hb := epochOf_bounds now
  have hmod : now % 600 = now - epochOf now * 600 := by unfold epochOf epochDuration; omega
  induction h with
  | nil => simp [weightedTotal]
  | cons y h ih =>
    obtain ⟨ts, x⟩ := y
    have ih := ih fun y hy => hle y (List.mem_cons_of_mem _ hy)
    have hts : epochOf ts ≤ epochOf now := epochOf_mono (hle (ts, x) List.mem_cons_self)
    have hcons : weightedTotal now ((ts, x) :: h) =
        x * weight now (epochOf ts) + weightedTotal now h := rfl
    rw [hcons, ih, total_cons, total_cons]
    rcases lt_trichotomy (epochOf ts) (epochOf now - 144) with hlt | heq | hgt
    · have hw : weight now (epochOf ts) = 0 := by unfold weight; omega
      rw [hw, if_neg (by omega), if_neg (by omega)]
      ring
    · have hw : weight now (epochOf ts) = (600 - now % 600).toNat := by unfold weight; omega
      rw [hw, if_neg (by omega), if_pos heq]
      ring
    · have hw : weight now (epochOf ts) = 600 := by unfold weight; omega
      rw [hw, if_pos (by omega), if_neg (by omega)]
      ring

end Share

end SpendTracker

end Sigil
