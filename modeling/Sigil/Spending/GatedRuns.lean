import Sigil.Library.Attempt
import Sigil.State.SpendCaps
import Sigil.Spending.RollingFigure
import Sigil.Spending.OverlayHistory

/-! # Runs of gated spends

Every accepted spend passed the cap check against the rolling figure. Over a whole run
this bounds what any 144 consecutive epochs of the tracker, or any 24 of an agent's slot,
can hold.
-/

namespace Sigil

open EpochHistory Finset

def SpendTracker.gatedSpend (cap : UInt64) (t : SpendTracker) (spend : Clock × UInt64) :
    Result SpendTracker := do
  t.checkDailyCap spend.1 spend.2 cap
  t.recordSpend spend.1 spend.2

def AgentSpendOverlay.gatedCharge (limits : Fin maxOverlayEntries → UInt64)
    (o : AgentSpendOverlay) (spend : Fin maxOverlayEntries × Clock × UInt64) :
    Result AgentSpendOverlay :=
  o.chargeSlot spend.2.1 spend.1 spend.2.2 (limits spend.1)

def AgentSpendOverlay.slotAmounts (i : Fin maxOverlayEntries)
    (h : List (Fin maxOverlayEntries × Clock × UInt64)) : List (ℤ × ℕ) :=
  SpendTracker.amounts ((h.filter fun y => y.1 = i).map Prod.snd)

/-- An amount that fits on top of a figure cut off at the word size fits on top of the
figure, or is zero. -/
theorem eq_zero_or_add_le {figure covered amount : ℕ} {cap : UInt64}
    (hcov : min covered (2 ^ 64 - 1) ≤ figure) (hle : figure + amount ≤ cap.toNat) :
    amount = 0 ∨ covered + amount ≤ cap.toNat := by
  have := cap.toNat_lt
  omega

theorem total_day_le {h : List (ℤ × ℕ)} (len : ℤ) (n : ℕ) (u : ℤ) (hlen : 0 < len)
    (hday : len * n = 86400) :
    total (fun ts => u ≤ ts ∧ ts ≤ u + 86400) h ≤
      total (fun ts => u / len ≤ ts / len ∧ ts / len ≤ u / len + n) h := by
  refine total_mono fun y _ hy => ⟨Int.ediv_le_ediv hlen hy.1, ?_⟩
  calc y.1 / len ≤ (u + len * n) / len := Int.ediv_le_ediv hlen (by omega)
    _ = u / len + n := Int.add_mul_ediv_left _ _ hlen.ne'

namespace SpendTracker

variable {v : Pubkey} {t t' : SpendTracker} {h : List (Clock × UInt64)} {cap : UInt64}
  {spend : Clock × UInt64}

theorem gatedSpend_ok_iff : t.gatedSpend cap spend = .ok t' ↔
    (t.getRolling24hUsd spend.1).toNat + spend.2.toNat ≤ cap.toNat ∧
      t.recordSpend spend.1 spend.2 = .ok t' := by
  unfold gatedSpend checkDailyCap
  rw [Guard.seq_ok_iff]
  simp only [checkCap_ok_iff]
  exact ⟨fun ⟨_, hcap, hrec⟩ => ⟨hcap, hrec⟩, fun ⟨hcap, hrec⟩ => ⟨(), hcap, hrec⟩⟩

theorem Tracks.le_getRolling24hUsd {h : List (ℤ × ℕ)} (ht : Tracks t h) {clock : Clock}
    (hpos : 0 < clock.unixTimestamp) (hle : t.lastWriteEpoch ≤ epochOf clock.unixTimestamp) :
    min (total (fun ts => epochOf clock.unixTimestamp - 144 < epochOf ts ∧
        epochOf ts ≤ epochOf clock.unixTimestamp) h) (2 ^ 64 - 1) ≤
      (t.getRolling24hUsd clock).toNat := by
  have hread : ∑ k ∈ Icc (epochOf clock.unixTimestamp - 143) (epochOf clock.unixTimestamp),
      t.read k = total (fun ts => epochOf clock.unixTimestamp - 144 < epochOf ts ∧
        epochOf ts ≤ epochOf clock.unixTimestamp) h := by
    rw [sum_congr rfl fun k hk => ht.read_eq (by rw [mem_Icc] at hk; omega), sum_total]
    exact total_congr fun y _ => by omega
  rw [ht.getRolling24hUsd_toNat hpos hle, ht.rollingTotal_eq hpos clock.inI64 hle, hread]
  omega

theorem Recorded.le_getRolling24hUsd (hr : Recorded v h t) {clock : Clock}
    (hpos : 0 < clock.unixTimestamp) (hmono : ∀ y ∈ h, y.1.unixTimestamp ≤ clock.unixTimestamp) :
    min (total (fun ts => epochOf clock.unixTimestamp - 144 < epochOf ts ∧
        epochOf ts ≤ epochOf clock.unixTimestamp) (amounts h)) (2 ^ 64 - 1) ≤
      (t.getRolling24hUsd clock).toNat :=
  hr.tracks.le_getRolling24hUsd hpos (hr.last_le hpos hmono)

theorem gatedSpend_run (cap : UInt64) (v : Pubkey) {spends : List (Clock × UInt64)}
    (hmono : spends.Pairwise fun a b => a.1.unixTimestamp ≤ b.1.unixTimestamp) :
    Recorded v (Attempt.run (gatedSpend cap) (empty v) spends).2
        (Attempt.run (gatedSpend cap) (empty v) spends).1 ∧
      Gated epochOf 144 cap.toNat
        (amounts (Attempt.run (gatedSpend cap) (empty v) spends).2) := by
  refine Attempt.run_induction
    (P := fun t h => Recorded v h t ∧ Gated epochOf 144 cap.toNat (amounts h)) hmono
    ⟨.empty, .nil⟩ ?_
  rintro t taken spend t' ⟨hr, hg⟩ hle hstep
  obtain ⟨hcap, hrec⟩ := gatedSpend_ok_iff.mp hstep
  refine ⟨.record hr hle hrec, .cons hg ?_ ?_⟩
  · intro y hy
    obtain ⟨z, hz, rfl⟩ := List.mem_map.mp hy
    exact epochOf_mono (hle z hz)
  · exact eq_zero_or_add_le (hr.le_getRolling24hUsd (recordSpend_ok hrec).1 hle) hcap

end SpendTracker

namespace AgentSpendOverlay

variable {o o' : AgentSpendOverlay} {limits : Fin maxOverlayEntries → UInt64}
  {spend : Fin maxOverlayEntries × Clock × UInt64} {i : Fin maxOverlayEntries}

theorem recordAgentContribution_ok {clock : Clock} {x : UInt64}
    (hr : o.recordAgentContribution clock i x = .ok o') :
    (o.entries i).record clock x = .ok (o'.entries i) ∧ ∀ j ≠ i, o'.entries j = o.entries j := by
  simp only [recordAgentContribution, Guard.seq_ok_iff] at hr
  obtain ⟨entry, hentry, heq⟩ := hr
  rw [← Except.ok.inj heq]
  refine ⟨by simp only [hentry, Function.update_self], fun j hj => ?_⟩
  exact Function.update_of_ne hj _ _

theorem gatedCharge_ok (hg : o.gatedCharge limits spend = .ok o') :
    (limits spend.1 ≠ 0 → (o.getAgentRolling24hUsd spend.2.1 spend.1).toNat + spend.2.2.toNat ≤
        (limits spend.1).toNat) ∧
      o.recordAgentContribution spend.2.1 spend.1 spend.2.2 = .ok o' := by
  simp only [gatedCharge, chargeSlot, Guard.seq_ok_iff] at hg
  obtain ⟨u, hcheck, hrec⟩ := hg
  refine ⟨fun hlimit => ?_, hrec⟩
  have hpos : 0 < limits spend.1 := UInt64.pos_iff_ne_zero.mpr hlimit
  rw [checkAgentLimit, if_pos hpos, checkCap_ok_iff] at hcheck
  exact hcheck

/-- The slot `i` holds its part of the history, which was gated on its last 24 epochs. -/
def SlotGated (limit : UInt64) (i : Fin maxOverlayEntries) (o : AgentSpendOverlay)
    (h : List (Fin maxOverlayEntries × Clock × UInt64)) : Prop :=
  (o.entries i).Tracks (slotAmounts i h) ∧ Gated hourOf 24 limit.toNat (slotAmounts i h) ∧
    ((o.entries i).lastWriteEpoch = 0 ∨
      ∃ y ∈ h, (o.entries i).lastWriteEpoch = hourOf y.2.1.unixTimestamp)

theorem slotAmounts_cons_self {h : List (Fin maxOverlayEntries × Clock × UInt64)}
    (hi : spend.1 = i) : slotAmounts i (spend :: h) =
      (spend.2.1.unixTimestamp, spend.2.2.toNat) :: slotAmounts i h := by
  simp [slotAmounts, SpendTracker.amounts, hi]

theorem slotAmounts_cons_of_ne {h : List (Fin maxOverlayEntries × Clock × UInt64)}
    (hi : spend.1 ≠ i) : slotAmounts i (spend :: h) = slotAmounts i h := by
  simp [slotAmounts, SpendTracker.amounts, hi]

theorem SlotGated.step {h : List (Fin maxOverlayEntries × Clock × UInt64)}
    (hs : SlotGated (limits i) i o h) (hlimit : limits i ≠ 0)
    (hle : ∀ y ∈ h, y.2.1.unixTimestamp ≤ spend.2.1.unixTimestamp)
    (hg : o.gatedCharge limits spend = .ok o') : SlotGated (limits i) i o' (spend :: h) := by
  obtain ⟨ht, hgated, hlast⟩ := hs
  obtain ⟨hcap, hrec⟩ := gatedCharge_ok hg
  obtain ⟨hentry, hother⟩ := recordAgentContribution_ok hrec
  by_cases hi : spend.1 = i
  · subst hi
    obtain ⟨hpos, amount, -, -, hlast'⟩ := AgentContributionEntry.record_ok hentry
    have hb := hourOf_bounds spend.2.1.unixTimestamp
    have hwrite : (o.entries spend.1).lastWriteEpoch ≤ hourOf spend.2.1.unixTimestamp := by
      rcases hlast with hzero | ⟨y, hy, hy'⟩
      · omega
      · rw [hy']
        exact hourOf_mono (hle y hy)
    unfold SlotGated
    rw [slotAmounts_cons_self rfl]
    refine ⟨ht.record hwrite hentry, .cons hgated ?_ ?_, Or.inr ⟨spend, by simp, hlast'⟩⟩
    · intro y hy
      exact (ht.history_le y hy).trans hwrite
    · exact eq_zero_or_add_le (ht.le_rolling24hUsd hpos hwrite) (hcap hlimit)
  · unfold SlotGated
    rw [slotAmounts_cons_of_ne hi, hother i (Ne.symm hi)]
    refine ⟨ht, hgated, hlast.imp_right ?_⟩
    rintro ⟨y, hy, hy'⟩
    exact ⟨y, List.mem_cons_of_mem _ hy, hy'⟩

theorem gatedCharge_run {agent : Pubkey}
    {spends : List (Fin maxOverlayEntries × Clock × UInt64)}
    (hclaimed : o.entries i = { AgentContributionEntry.empty with agent := agent })
    (hlimit : limits i ≠ 0)
    (hmono : spends.Pairwise fun a b => a.2.1.unixTimestamp ≤ b.2.1.unixTimestamp) :
    Gated hourOf 24 (limits i).toNat
      (slotAmounts i (Attempt.run (gatedCharge limits) o spends).2) := by
  have hrun : SlotGated (limits i) i (Attempt.run (gatedCharge limits) o spends).1
      (Attempt.run (gatedCharge limits) o spends).2 := by
    refine Attempt.run_induction (P := SlotGated (limits i) i) hmono ?_ ?_
    · unfold SlotGated
      rw [hclaimed]
      exact ⟨AgentContributionEntry.tracks_claimed agent, .nil, Or.inl rfl⟩
    · intro o taken spend o' hs hle hstep
      exact hs.step hlimit hle hstep
  exact hrun.2.1

end AgentSpendOverlay

/-- Along every run of spends at nondecreasing clocks, each accepted only within the rolling
cap, any 144 consecutive ten-minute epochs hold at most the cap and any day at most twice
the cap; the same holds for an agent's slot with 24 hourly epochs and its non-zero limit. -/
theorem gated_runs_within_caps :
    (∀ (cap : UInt64) (v : Pubkey) (spends : List (Clock × UInt64)),
      spends.Pairwise (fun a b => a.1.unixTimestamp ≤ b.1.unixTimestamp) →
      let accepted := SpendTracker.amounts
        (Attempt.run (SpendTracker.gatedSpend cap) (SpendTracker.empty v) spends).2
      (∀ a, total (fun ts => a ≤ epochOf ts ∧ epochOf ts < a + 144) accepted ≤ cap.toNat) ∧
      ∀ u, total (fun ts => u ≤ ts ∧ ts ≤ u + 86400) accepted ≤ 2 * cap.toNat) ∧
    (∀ (limits : Fin maxOverlayEntries → UInt64) (o : AgentSpendOverlay)
        (i : Fin maxOverlayEntries) (agent : Pubkey)
        (spends : List (Fin maxOverlayEntries × Clock × UInt64)),
      o.entries i = { AgentContributionEntry.empty with agent := agent } → limits i ≠ 0 →
      spends.Pairwise (fun a b => a.2.1.unixTimestamp ≤ b.2.1.unixTimestamp) →
      let accepted := AgentSpendOverlay.slotAmounts i
        (Attempt.run (AgentSpendOverlay.gatedCharge limits) o spends).2
      (∀ a, total (fun ts => a ≤ hourOf ts ∧ hourOf ts < a + 24) accepted ≤ (limits i).toNat) ∧
      ∀ u, total (fun ts => u ≤ ts ∧ ts ≤ u + 86400) accepted ≤ 2 * (limits i).toNat) := by
  constructor
  · intro cap v spends hmono
    have hg := (SpendTracker.gatedSpend_run cap v hmono).2
    refine ⟨fun a => hg.total_window_le a, fun u => ?_⟩
    exact (total_day_le 600 144 u (by norm_num) (by norm_num)).trans
      (hg.total_succ_window_le (by norm_num) _)
  · intro limits o i agent spends hclaimed hlimit hmono
    have hg := AgentSpendOverlay.gatedCharge_run hclaimed hlimit hmono
    refine ⟨fun a => hg.total_window_le a, fun u => ?_⟩
    exact (total_day_le 3600 24 u (by norm_num) (by norm_num)).trans
      (hg.total_succ_window_le (by norm_num) _)

/-- Sixty and fifty units within ten minutes under a cap of a hundred. -/
theorem gated_runs_within_caps_two_spends :
    total (fun ts => 1 ≤ epochOf ts ∧ epochOf ts < 1 + 144) (SpendTracker.amounts
      (Attempt.run (SpendTracker.gatedSpend 100) (SpendTracker.empty Pubkey.default)
        [(⟨0, 700, by decide⟩, 60), (⟨1, 800, by decide⟩, 50)]).2) ≤ 100 ∧
    total (fun ts => 0 ≤ hourOf ts ∧ hourOf ts < 0 + 24) (AgentSpendOverlay.slotAmounts 0
      (Attempt.run (AgentSpendOverlay.gatedCharge fun _ => 100)
        (AgentSpendOverlay.empty Pubkey.default)
        [(0, ⟨0, 700, by decide⟩, 60), (0, ⟨1, 800, by decide⟩, 50)]).2) ≤ 100 :=
  ⟨(gated_runs_within_caps.1 100 _ _ (by simp)).1 1,
    (gated_runs_within_caps.2 _ _ 0 Pubkey.default _ rfl (by decide) (by simp)).1 0⟩

end Sigil
