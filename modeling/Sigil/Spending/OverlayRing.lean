import Sigil.Spending.GatedRuns

/-! # What the ring of a slot represents

The buckets of a slot stand for the last 24 hours that were written, each for exactly one of them,
and hold what was recorded in it. Nothing older is left, and an amount is refused only when its
bucket would overflow.
-/

namespace Sigil

open EpochHistory Guard Machine

theorem existsUnique_epoch (last : ℤ) (idx : Fin overlayNumEpochs) :
    ∃! e : ℤ, (last - 24 < e ∧ e ≤ last) ∧ slot overlayNumEpochs e = idx := by
  have hn := overlayNumEpochs_eq
  refine ⟨last - (last - idx.val) % 24, ⟨by omega, ?_⟩, ?_⟩
  · rw [slot_val_eq_iff, hn]
    have := idx.isLt
    omega
  · rintro e ⟨⟨he, he'⟩, hslot⟩
    rw [slot_val_eq_iff, hn] at hslot
    omega

namespace AgentContributionEntry

variable {entry entry' : AgentContributionEntry} {h : List (ℤ × ℕ)} {clock : Clock} {x : UInt64}

/-- The ring holds the history, and nothing for the epochs before the first. -/
structure RingOf (entry : AgentContributionEntry) (h : List (ℤ × ℕ)) : Prop
    extends Tracks entry h where
  blank : ∀ e < 0, entry.lastWriteEpoch - 24 < e →
    entry.contributions (slot overlayNumEpochs e) = 0

theorem ringOf_claimed (agent : Pubkey) : RingOf { empty with agent := agent } [] where
  toTracks := tracks_claimed agent
  blank _ _ _ := rfl

theorem RingOf.record_error_iff (hr : RingOf entry h)
    (hle : entry.lastWriteEpoch ≤ hourOf clock.unixTimestamp) (hpos : 0 < clock.unixTimestamp)
    {err : ProgramError} : entry.record clock x = .error err ↔
      err = .sigil .overflow ∧
        2 ^ 64 ≤ total (fun k => hourOf k = hourOf clock.unixTimestamp) h + x.toNat := by
  have hb := hourOf_bounds clock.unixTimestamp
  have hbucket := hr.toTracks.zeroGapBuckets_total hle (e := hourOf clock.unixTimestamp) (by omega)
    (by omega) le_rfl
  rw [← hbucket, ← checkedAdd_eq_none, and_comm, eq_comm (a := err)]
  simp only [AgentContributionEntry.record, seq_error_iff, ensure_error_iff, someOr_error_iff, hpos,
    not_true_eq_false, false_and, false_or, ensure_ok_iff, true_and, exists_const]
  exact ⟨fun h => h.elim id (by rintro ⟨a, -, ⟨⟩⟩), .inl⟩

theorem RingOf.record (hr : RingOf entry h)
    (hle : entry.lastWriteEpoch ≤ hourOf clock.unixTimestamp)
    (hrec : entry.record clock x = .ok entry') :
    RingOf entry' ((clock.unixTimestamp, x.toNat) :: h) where
  toTracks := hr.toTracks.record hle hrec
  blank := by
    obtain ⟨hpos, amount, -, hcontr, hlast⟩ := record_ok hrec
    have hb := hourOf_bounds clock.unixTimestamp
    have hn := overlayNumEpochs_eq
    have h0 := hr.last_nonneg
    intro e he he'
    rw [hlast] at he'
    have hne : slot overlayNumEpochs e ≠ slot overlayNumEpochs (hourOf clock.unixTimestamp) := by
      intro heq
      have := eq_of_slot_eq heq (by omega) (by omega)
      omega
    rw [hcontr, Function.update_of_ne hne,
      hr.toTracks.zeroGapBuckets_apply clock.inI64 hle he' (by omega), if_pos (by omega)]
    exact hr.blank e he (by omega)

end AgentContributionEntry

namespace AgentSpendOverlay

variable {o : AgentSpendOverlay} {i : Fin maxOverlayEntries} {agent : Pubkey}
  {calls : List (Clock × UInt64)}

/-- One call for the slot `i`. -/
def recordAt (i : Fin maxOverlayEntries) (o : AgentSpendOverlay) (call : Clock × UInt64) :
    Result AgentSpendOverlay :=
  o.recordAgentContribution call.1 i call.2

/-- The hour of the last call, and the first hour of all before any call. -/
def lastHour (calls : List (Clock × UInt64)) : ℤ :=
  calls.getLast?.elim 0 fun call => hourOf call.1.unixTimestamp

theorem recordAt_error_iff {call : Clock × UInt64} {err : ProgramError} :
    recordAt i o call = .error err ↔ (o.entries i).record call.1 call.2 = .error err := by
  simp only [recordAt, recordAgentContribution, seq_error_iff]
  exact ⟨fun h => h.elim id (by rintro ⟨a, -, ⟨⟩⟩), .inl⟩

/-- The slot after a run of calls: its ring holds what was taken, up to the hour of the last
call. -/
structure After (i : Fin maxOverlayEntries) (calls : List (Clock × UInt64)) (o : AgentSpendOverlay)
    (taken : List (Clock × UInt64)) : Prop where
  ring : (o.entries i).RingOf (SpendTracker.amounts taken)
  last : (o.entries i).lastWriteEpoch = lastHour calls

theorem lastHour_le {clock : Clock} (hpos : 0 < clock.unixTimestamp)
    (hmono : ∀ call ∈ calls, call.1.unixTimestamp ≤ clock.unixTimestamp) :
    lastHour calls ≤ hourOf clock.unixTimestamp := by
  unfold lastHour
  cases hlast : calls.getLast? with
  | none =>
    have := hourOf_bounds clock.unixTimestamp
    simp only [Option.elim_none]
    omega
  | some call => exact hourOf_mono (hmono call (List.mem_of_getLast? hlast))

@[simp] theorem lastHour_append_singleton (call : Clock × UInt64) :
    lastHour (calls ++ [call]) = hourOf call.1.unixTimestamp := by
  simp [lastHour]

theorem After.last_of_error {o : AgentSpendOverlay} {taken : List (Clock × UInt64)}
    (ha : After i calls o taken) {call : Clock × UInt64} (hpos : 0 < call.1.unixTimestamp)
    (hmono : ∀ c ∈ calls, c.1.unixTimestamp ≤ call.1.unixTimestamp) {err : ProgramError}
    (herr : recordAt i o call = .error err) : lastHour calls = hourOf call.1.unixTimestamp := by
  have hle : (o.entries i).lastWriteEpoch ≤ hourOf call.1.unixTimestamp :=
    ha.last ▸ lastHour_le hpos hmono
  obtain ⟨-, hfull⟩ := (ha.ring.record_error_iff hle hpos).mp (recordAt_error_iff.mp herr)
  have hfits := call.2.toNat_lt
  by_contra hne
  rw [ha.ring.total_eq_zero_of_gt (lt_of_le_of_ne hle (ha.last ▸ hne))] at hfull
  omega

theorem after_run (hclaimed : o.entries i = { AgentContributionEntry.empty with agent := agent })
    (hpos : ∀ call ∈ calls, 0 < call.1.unixTimestamp)
    (hmono : calls.Pairwise fun a b => a.1.unixTimestamp ≤ b.1.unixTimestamp) :
    After i calls (Attempt.run (recordAt i) o calls).1 (Attempt.run (recordAt i) o calls).2 := by
  induction calls using List.reverseRecOn with
  | nil =>
    refine ⟨?_, ?_⟩
    · change (o.entries i).RingOf []
      rw [hclaimed]
      exact AgentContributionEntry.ringOf_claimed agent
    · change (o.entries i).lastWriteEpoch = 0
      rw [hclaimed]
      rfl
  | append_singleton calls call ih =>
    rw [List.pairwise_append] at hmono
    have hbefore : ∀ c ∈ calls, c.1.unixTimestamp ≤ call.1.unixTimestamp :=
      fun c hc => hmono.2.2 c hc call (List.mem_singleton_self call)
    have hcall : 0 < call.1.unixTimestamp := hpos call (by simp)
    have ha := ih (fun c hc => hpos c (List.mem_append_left _ hc)) hmono.1
    rw [Attempt.run_append_singleton]
    split
    · rename_i o' hok
      have hrec := (recordAgentContribution_ok hok).1
      refine ⟨ha.ring.record (ha.last ▸ lastHour_le hcall hbefore) hrec, ?_⟩
      obtain ⟨-, -, -, -, hlast⟩ := AgentContributionEntry.record_ok hrec
      rw [hlast, lastHour_append_singleton]
    · rename_i err herr
      refine ⟨ha.ring, ?_⟩
      rw [ha.last, ha.last_of_error hcall hbefore herr, lastHour_append_singleton]

end AgentSpendOverlay

open AgentSpendOverlay in
/-- After any calls for a slot that was free, each bucket stands for one hour of the last 24 and
holds exactly what was recorded in it; and a further call fails only by overflow of its bucket. -/
theorem overlay_ring_represents {o : AgentSpendOverlay} {i : Fin maxOverlayEntries} {agent : Pubkey}
    {calls : List (Clock × UInt64)}
    (hclaimed : o.entries i = { AgentContributionEntry.empty with agent := agent })
    (hpos : ∀ call ∈ calls, 0 < call.1.unixTimestamp)
    (hmono : calls.Pairwise fun a b => a.1.unixTimestamp ≤ b.1.unixTimestamp) :
    let final := Attempt.run (recordAt i) o calls
    (∀ e, lastHour calls - 24 < e → e ≤ lastHour calls → 0 ≤ e →
      ((final.1.entries i).contributions (slot overlayNumEpochs e)).toNat =
        total (fun ts => hourOf ts = e) (SpendTracker.amounts final.2)) ∧
    (∀ idx, ∃! e, (lastHour calls - 24 < e ∧ e ≤ lastHour calls) ∧ slot overlayNumEpochs e = idx) ∧
    (∀ e, lastHour calls - 24 < e → e < 0 →
      (final.1.entries i).contributions (slot overlayNumEpochs e) = 0) ∧
    ∀ clock x err, 0 < clock.unixTimestamp →
      (∀ call ∈ calls, call.1.unixTimestamp ≤ clock.unixTimestamp) →
      (final.1.recordAgentContribution clock i x = .error err ↔
        err = .sigil .overflow ∧ 2 ^ 64 ≤ total (fun ts => hourOf ts = hourOf clock.unixTimestamp)
          (SpendTracker.amounts final.2) + x.toNat) := by
  intro final
  obtain ⟨hring, hlast⟩ := after_run hclaimed hpos hmono
  refine ⟨?_, fun idx => existsUnique_epoch _ idx, ?_, ?_⟩
  · intro e he he' he0
    exact hring.held e he0 (hlast ▸ he) (hlast ▸ he')
  · intro e he he0
    exact hring.blank e he0 (hlast ▸ he)
  · intro clock x err hclock hafter
    change recordAt i final.1 (clock, x) = .error err ↔ _
    rw [recordAt_error_iff]
    exact hring.record_error_iff (hlast ▸ lastHour_le hclock hafter) hclock

def clockAt (time : UInt32) : Clock := ⟨0, time.toNat, inI64_toNat32 time⟩

/-- An amount in the first hour, and two in one hour more than a day later. -/
def gapCalls : List (Clock × UInt64) := [(clockAt 100, 5), (clockAt 108000, 7), (clockAt 108200, 2)]

open AgentSpendOverlay in
/-- The bucket of the first hour has gone over to the hour 24, in which nothing was recorded. -/
theorem overlay_ring_represents_gap :
    let o := (Attempt.run (recordAt 0) (AgentSpendOverlay.empty Pubkey.default) gapCalls).1
    ((o.entries 0).contributions (slot overlayNumEpochs 30)).toNat = 9 ∧
      slot overlayNumEpochs 24 = slot overlayNumEpochs 0 ∧
      ((o.entries 0).contributions (slot overlayNumEpochs 24)).toNat = 0 := by
  intro o
  have hclaimed : (AgentSpendOverlay.empty Pubkey.default).entries 0 =
      { AgentContributionEntry.empty with agent := Pubkey.default } := rfl
  have hpos : ∀ call ∈ gapCalls, 0 < call.1.unixTimestamp := by decide
  have hheld := (overlay_ring_represents hclaimed hpos (by decide)).1
  exact ⟨(hheld 30 (by decide) (by decide) (by decide)).trans (by decide), by decide,
    (hheld 24 (by decide) (by decide) (by decide)).trans (by decide)⟩

end Sigil
