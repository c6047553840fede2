import Sigil.Session.AgentGuards
import Sigil.Session.OverlaySlots
import Sigil.Spending.BookedSpends
import Sigil.Spending.GatedRuns

/-! # The rolling caps along runs of the program

The daily cap of a vault and the limit of an agent are checked at each spend, against rings that
every other instruction leaves alone. Along a run with a clock that does not go back, whatever the
order of its instructions, the spends of any 144 consecutive epochs stay within the daily caps they
were held against, and those of an agent in any 24 hours of the clock within its limits.
-/

namespace Sigil

open Machine Guard EpochHistory Trace

section Clock

variable {D : Type} {as : List (Action D)} {env : Env} {c : Call D} {ep : ℤ → ℤ} {last : ℤ}

/-- An epoch that is not after the actions, as any later clock sees it. -/
def NotAfter (ep : ℤ → ℤ) (as : List (Action D)) (last : ℤ) : Prop :=
  ∀ now, 0 < now → (∀ t ∈ as.filterMap Action.time, t ≤ now) → last ≤ ep now

theorem NotAfter.append (h : NotAfter ep as last) (bs : List (Action D)) :
    NotAfter ep (as ++ bs) last := by
  intro now hpos hall
  refine h now hpos fun t ht => hall t ?_
  rw [List.filterMap_append]
  exact List.mem_append_left _ ht

theorem notAfter_zero (hep : ∀ now, 0 < now → 0 ≤ ep now) (as : List (Action D)) :
    NotAfter ep as 0 := fun now hpos _ => hep now hpos

theorem notAfter_now (hep : ∀ {t t' : ℤ}, t ≤ t' → ep t ≤ ep t') (as : List (Action D)) :
    NotAfter ep (as ++ [.call env c]) (ep env.clock.unixTimestamp) :=
  fun now _ hall => hep (hall _ (by simp [Action.time]))

theorem Chronological.time_le (h : Chronological (as ++ [.call env c])) :
    ∀ t ∈ as.filterMap Action.time, t ≤ env.clock.unixTimestamp := by
  unfold Chronological at h
  rw [List.filterMap_append, List.pairwise_append] at h
  exact fun t ht => h.2.2 t ht _ (by simp [Action.time])

theorem NotAfter.le (h : NotAfter ep as last) (hclock : Chronological (as ++ [.call env c]))
    (hpos : 0 < env.clock.unixTimestamp) : last ≤ ep env.clock.unixTimestamp :=
  h _ hpos hclock.time_le

theorem epochOf_nonneg {now : ℤ} (hpos : 0 < now) : 0 ≤ epochOf now := by
  have := epochOf_bounds now
  omega

theorem hourOf_nonneg {now : ℤ} (hpos : 0 < now) : 0 ≤ hourOf now := by
  have := hourOf_bounds now
  omega

end Clock

section Amounts

def charges (h : List Spend) : List (Spend × ℕ) := h.map fun p => (p, p.amount.toNat)

def chargeTimes (h : List Spend) : List (ℤ × ℕ) := (charges h).map fun y => (y.1.time, y.2)

variable {h : List Spend} {p : Spend}

theorem charges_cons : charges (p :: h) = (p, p.amount.toNat) :: charges h := rfl

theorem chargeTimes_cons : chargeTimes (p :: h) = (p.time, p.amount.toNat) :: chargeTimes h := rfl

theorem mem_charges {y : Spend × ℕ} (hy : y ∈ charges h) : y.1 ∈ h := by
  obtain ⟨p, hp, rfl⟩ := List.mem_map.mp hy
  exact hp

theorem total_chargeTimes {q : ℤ → Prop} [DecidablePred q] :
    total q (chargeTimes h) = total (fun p => q p.time) (charges h) :=
  total_map Spend.time (charges h)

end Amounts

section Ring

namespace SpendTracker

variable {t t' : SpendTracker} {hist : List (ℤ × ℕ)}

theorem Tracks.congr (h : t.Tracks hist) (hring : t'.ring = t.ring) : t'.Tracks hist := by
  obtain ⟨hbuckets, hlast⟩ := Prod.mk.inj hring
  constructor
  · rw [hbuckets]
    exact h.placed
  · rw [hbuckets]
    exact h.nonneg
  · rw [hbuckets, hlast]
    exact h.le_last
  · rw [hbuckets]
    exact h.held
  · rw [hbuckets]
    exact h.unwritten
  · rw [hbuckets, hlast]
    exact h.last_slot
  · exact h.pos
  · rw [hlast]
    exact h.history_le

end SpendTracker

variable {D : Type} {as : List (Action D)} {h : List Spend} {t t' : SpendTracker}
  {a a' : VaultAccounts D} {env : Env} {c : Call D} {p : Spend}

/-- The ring holds the spends since the vault was created, each of them admitted under the daily
cap of its time. -/
structure RingHolds (as : List (Action D)) (h : List Spend) (t : SpendTracker) : Prop where
  tracks : t.Tracks (chargeTimes h)
  gated : GatedBy (fun p => epochOf p.time) 144 (fun p => p.dailyCap.toNat) (charges h)
  last : NotAfter epochOf as t.lastWriteEpoch

theorem ringHolds_new (as : List (Action D)) (v : Pubkey) : RingHolds as [] (.empty v) where
  tracks := SpendTracker.tracks_empty
  gated := .nil
  last := notAfter_zero (fun _ => epochOf_nonneg) as

theorem RingHolds.append (hr : RingHolds as h t) (bs : List (Action D)) :
    RingHolds (as ++ bs) h t :=
  ⟨hr.tracks, hr.gated, hr.last.append bs⟩

theorem RingHolds.booked (hr : RingHolds as h a.tracker)
    (hclock : Chronological (as ++ [.call env c])) (hb : Booked env.clock p a a') :
    RingHolds (as ++ [.call env c]) (p :: h) a'.tracker := by
  obtain ⟨t, hrecord, hring⟩ := hb.ring
  have hpos := (SpendTracker.recordSpend_ok hrecord).1
  have hle := hr.last.le hclock hpos
  have htime := hb.time
  refine ⟨?_, ?_, ?_⟩
  · rw [chargeTimes_cons, htime]
    exact (hr.tracks.record hle hrecord).congr hring
  · have hcovers := hr.tracks.le_getRolling24hUsd hpos hle
    rw [total_chargeTimes] at hcovers
    have hdaily := hb.counters.daily
    rw [← hb.dailyCap] at hdaily
    refine .cons hr.gated (fun y hy => ?_) ?_
    · rw [htime]
      exact (hr.tracks.history_le _ (List.mem_map_of_mem hy)).trans hle
    · rw [htime]
      exact eq_zero_or_add_le hcovers hdaily
  · have hlast : a'.tracker.lastWriteEpoch = t.lastWriteEpoch := congrArg Prod.snd hring
    rw [hlast, SpendTracker.lastWriteEpoch_of_recordSpend hrecord]
    exact notAfter_now (fun hle => epochOf_mono hle) as

end Ring

section Run

variable {D : Type} [Host D] [DecidableEq D] {l₀ l : Ledger D} {as : List (Action D)}
  {h : List Spend}

theorem book_of_live {env : Env} {c : Call D} {l l' : Ledger D} {a : VaultAccounts D}
    (hexec : exec env l c = .ok l') (ha : l.live = some a) :
    Action.book l h (.call env c) = (l.spendOf env c).toList ++ h := by
  cases c <;> try rfl
  obtain ⟨hnone, -⟩ := initializeVault_ok hexec
  exact nomatch hnone.symm.trans ha

/-- What holds of a new tracker and is kept by every booked spend holds of the tracker along every
run, together with the spends since the vault was created. -/
theorem tracker_of_booked_run {P : List (Action D) → List Spend → SpendTracker → Prop}
    (h₀ : l₀.Genesis) (hrun : Run BookedStep (l₀, []) as (l, h)) (hclock : Chronological as)
    (hnew : ∀ as v, P as [] (.empty v)) (hkept : ∀ as x h t, P as h t → P (as ++ [x]) h t)
    (hbooked : ∀ {as env c h p} {a a' : VaultAccounts D}, Chronological (as ++ [.call env c]) →
      Booked env.clock p a a' → P as h a.tracker → P (as ++ [.call env c]) (p :: h) a'.tracker) :
    ∀ a ∈ l.live, P as h a.tracker := by
  refine hrun.induct (P := fun as s => Chronological as → ∀ a ∈ s.1.live, P as s.2 a.tracker)
    (by simp [h₀.live]) ?_ hclock
  rintro as ⟨m, h⟩ x ⟨m', h'⟩ - ih ⟨hstep, rfl⟩ hclock a' ha'
  have ih := ih hclock.of_append
  cases hstep with
  | foreign => exact hkept _ _ _ _ (ih a' ha')
  | @call env c _ _ hexec =>
    rcases exec_exists_live hexec with ⟨a, ha⟩ | ⟨owner, feeDestination, args, rfl⟩
    · change P _ (Action.book m h (.call env c)) _
      rw [book_of_live hexec ha]
      rcases exec_booked hexec ha ha' with ⟨p, hp, hb⟩ | ⟨hnone, hsame⟩
      · rw [hp]
        exact hbooked hclock hb (ih a ha)
      · rw [hnone, hsame]
        exact hkept _ _ _ _ (ih a ha)
    · obtain ⟨-, -, -, -, -, -, rfl⟩ := initializeVault_ok hexec
      cases ha'
      exact hnew _ _

theorem ringHolds_run (h₀ : l₀.Genesis) (hrun : Run BookedStep (l₀, []) as (l, h))
    (hclock : Chronological as) : ∀ a ∈ l.live, RingHolds as h a.tracker :=
  tracker_of_booked_run h₀ hrun hclock ringHolds_new (fun _ x _ _ hr => hr.append [x])
    fun hclock hb hr => hr.booked hclock hb

theorem history_of_booked_run {Q : List Spend → Prop} (hnil : Q [])
    (hlive : ∀ {as l h}, Run BookedStep (l₀, []) as (l, h) → Chronological as →
      ∀ a : VaultAccounts D, l.live = some a → Q h)
    (hrun : Run BookedStep (l₀, []) as (l, h)) (hclock : Chronological as) : Q h := by
  refine hrun.induct (P := fun as s => Chronological as → Q s.2) (fun _ => hnil) ?_ hclock
  rintro as ⟨m, h⟩ x ⟨m', h'⟩ hprior ih hlast hclock
  cases ha' : m'.live with
  | some a' => exact hlive (hprior.snoc hlast) hclock a' ha'
  | none =>
    have ih := ih hclock.of_append
    obtain ⟨hstep, rfl⟩ := hlast
    cases hstep with
    | foreign => exact ih
    | @call env c _ _ hexec =>
      -- only closing leaves no vault behind, and it books nothing
      rcases exec_exists_live hexec with ⟨a, ha⟩ | ⟨owner, feeDestination, args, rfl⟩
      · rcases exec_exists_after hexec ha with ⟨b, hb⟩ | ⟨owner, remaining, rfl⟩
        · exact nomatch ha'.symm.trans hb
        · exact ih
      · obtain ⟨-, -, -, -, -, -, rfl⟩ := initializeVault_ok hexec
        cases ha'

theorem gated_run (h₀ : l₀.Genesis) (hrun : Run BookedStep (l₀, []) as (l, h))
    (hclock : Chronological as) :
    GatedBy (fun p => epochOf p.time) 144 (fun p => p.dailyCap.toNat) (charges h) :=
  history_of_booked_run (Q := fun h => GatedBy _ _ _ (charges h)) .nil
    (fun hrun hclock a ha => (ringHolds_run h₀ hrun hclock a ha).gated) hrun hclock

/-- In every run with a clock that does not go back, the spends that a vault has booked in any 144
consecutive epochs of ten minutes stay within the largest of the daily caps they were held against,
and those of any day within twice that cap. -/
theorem spends_within_daily_cap (h₀ : l₀.Genesis) (hrun : Run BookedStep (l₀, []) as (l, h))
    (hclock : Chronological as) (cap : ℕ) :
    (∀ first : ℤ, (∀ p ∈ h, first ≤ epochOf p.time → epochOf p.time < first + 144 →
        p.dailyCap.toNat ≤ cap) →
      total (fun p => first ≤ epochOf p.time ∧ epochOf p.time < first + 144) (charges h) ≤ cap) ∧
    ∀ u : ℤ, (∀ p ∈ h, u ≤ p.time → p.time ≤ u + 86400 → p.dailyCap.toNat ≤ cap) →
      total (fun p => u ≤ p.time ∧ p.time ≤ u + 86400) (charges h) ≤ 2 * cap := by
  have hgated := gated_run h₀ hrun hclock
  refine ⟨fun first hcap => hgated.total_le fun y hy hin =>
    ⟨hin, hcap y.1 (mem_charges hy) hin.1 hin.2⟩, fun u hcap => ?_⟩
  exact hgated.total_stretch_le (by norm_num) (by norm_num : (0 : ℤ) < 600) (fun _ => rfl) u
    fun y hy => hcap y.1 (mem_charges hy)

end Run

theorem chronological_metered :
    Chronological (meteredSetup.map SampleEvent.action ++
      meteredSpends.map SampleEvent.action) := by
  unfold Chronological
  decide +kernel

theorem spends_within_daily_cap_metered :
    ∃ as l, Run BookedStep (emptyLedger, []) as (l, meteredBook) ∧
      total (fun p => 0 ≤ epochOf p.time ∧ epochOf p.time < 0 + 144) (charges meteredBook) ≤ 1000 ∧
      total (fun p => 1500 ≤ p.time ∧ p.time ≤ 1500 + 86400) (charges meteredBook) ≤ 2 * 1000 := by
  obtain ⟨hsetup, m, hspends⟩ := run_metered
  have hall := hsetup.append hspends
  have hcaps : ∀ p ∈ meteredBook, p.dailyCap.toNat ≤ 1000 := by decide
  obtain ⟨hepochs, hday⟩ :=
    spends_within_daily_cap genesis_emptyLedger hall chronological_metered 1000
  exact ⟨_, m, hall, hepochs 0 fun p hp _ _ => hcaps p hp, hday 1500 fun p hp _ _ => hcaps p hp⟩

section Entries

variable {D : Type} [Host D]

/-- What an instruction does to the contributions of a slot: it leaves them alone, it clears them
when it frees the slot, or it records the spend of the slot's agent. -/
inductive EntryStep (env : Env) (l : Ledger D) (c : Call D) (e e' : AgentContributionEntry) : Prop
  | kept (hcontributions : e'.contributions = e.contributions)
      (hlast : e'.lastWriteEpoch = e.lastWriteEpoch)
  | released (hfrees : c.FreesSlot l e.agent) (hempty : e' = .empty)
  | recorded {p : Spend} (hp : l.spendOf env c = some p) (hagent : e.agent = p.agent)
      (hrecord : e.record env.clock p.amount = .ok e')

variable {env : Env} {l l' : Ledger D} {c : Call D} {o o' : AgentSpendOverlay} {agent : Pubkey}
  {limit newLimit : UInt64} {a a' : VaultAccounts D} {p : Spend}

theorem EntryStep.of_eq {e e' : AgentContributionEntry} (h : e' = e) : EntryStep env l c e e' :=
  .kept (congrArg _ h) (congrArg _ h)

theorem entryStep_claimSlot (h : o.claimSlot agent = some o') (i : Fin maxOverlayEntries) :
    EntryStep env l c (o.entries i) (o'.entries i) := by
  obtain ⟨j, -, rfl⟩ := Option.map_eq_some_iff.mp h
  by_cases hij : i = j
  · subst hij
    refine .kept ?_ ?_ <;> simp
  · exact .of_eq (Function.update_of_ne hij _ _)

theorem entryStep_releaseSlot {j : Fin maxOverlayEntries}
    (hfrees : c.FreesSlot l (o.entries j).agent) (i : Fin maxOverlayEntries) :
    EntryStep env l c (o.entries i) ((o.releaseSlot j).entries i) := by
  by_cases hij : i = j
  · subst hij
    exact .released hfrees (Function.update_self ..)
  · exact .of_eq (Function.update_of_ne hij _ _)

theorem entryStep_seat (h : o.seat agent limit = .ok o') (i : Fin maxOverlayEntries) :
    EntryStep env l c (o.entries i) (o'.entries i) := by
  unfold AgentSpendOverlay.seat at h
  split at h
  · cases h
    exact .of_eq rfl
  · split at h
    · rename_i claimed hclaimed
      cases h
      exact entryStep_claimSlot hclaimed i
    · split at h
      · exact absurd h fail_ne_ok
      · cases h
        exact .of_eq rfl

theorem entryStep_unseat (hfrees : c.FreesSlot l agent) (i : Fin maxOverlayEntries) :
    EntryStep env l c (o.entries i) ((o.unseat agent).entries i) := by
  unfold AgentSpendOverlay.unseat
  split
  · rename_i j hj
    exact entryStep_releaseSlot ((agent_of_findAgentSlot hj).symm ▸ hfrees) i
  · exact .of_eq rfl

theorem entryStep_reseat (hfrees : newLimit = 0 → 0 < limit → c.FreesSlot l agent)
    (h : o.reseat agent limit newLimit = .ok o') (i : Fin maxOverlayEntries) :
    EntryStep env l c (o.entries i) (o'.entries i) := by
  unfold AgentSpendOverlay.reseat at h
  split at h
  · split at h
    · exact entryStep_claimSlot (someOr_ok_iff.mp h) i
    · cases h
      exact .of_eq rfl
  · rename_i j hj
    split at h
    · rename_i hdrops
      cases h
      exact entryStep_releaseSlot
        ((agent_of_findAgentSlot hj).symm ▸ hfrees hdrops.1 hdrops.2) i
    · cases h
      exact .of_eq rfl

theorem entries_setAgentCooldown (o : AgentSpendOverlay) (agent : Pubkey) (cooldown : UInt64) :
    (o.setAgentCooldown agent cooldown).entries = o.entries := by
  unfold AgentSpendOverlay.setAgentCooldown
  split <;> rfl

/-- A booked spend is recorded in the slot of its agent, if there is one, and nowhere else. -/
theorem Booked.entryStep (hb : Booked env.clock p a a') (hp : l.spendOf env c = some p)
    (i : Fin maxOverlayEntries) :
    EntryStep env l c (a.overlay.entries i) (a'.overlay.entries i) := by
  cases hslot : a.overlay.findAgentSlot p.agent with
  | none =>
    have hne := AgentSpendOverlay.findAgentSlot_eq_none_iff.mp hslot i
    exact .of_eq (congrArg Slot.entry (hb.others.others i hne))
  | some j =>
    obtain ⟨charged, hcharged, hentries⟩ := hb.counters.slot j hslot
    obtain ⟨hrecord, hothers⟩ := AgentSpendOverlay.recordAgentContribution_ok hcharged
    rw [hentries]
    by_cases hij : i = j
    · subst hij
      exact .recorded hp (agent_of_findAgentSlot hslot) hrecord
    · exact .of_eq (hothers i hij)

variable [DecidableEq D]

theorem exec_entries (h : exec env l c = .ok l') (ha : l.live = some a) (ha' : l'.live = some a')
    (i : Fin maxOverlayEntries) :
    EntryStep env l c (a.overlay.entries i) (a'.overlay.entries i) := by
  by_cases hwrites : Part.overlay ∉ c.writes
  · exact .of_eq (congrArg (fun o => AgentSpendOverlay.entries o i)
      ((exec_frame h hwrites).eq ha ha'))
  cases c <;> simp [Call.writes, Part.ofVault] at hwrites
  case initializeVault =>
    obtain ⟨hnone, -⟩ := initializeVault_ok h
    cases hnone.symm.trans ha
  case closeVault =>
    obtain ⟨b, -, -, -, -, -, rfl⟩ := closeVault_ok h
    cases ha'
  case registerAgent =>
    obtain ⟨b, overlay, version, hb, -, -, -, -, hseat, -, rfl⟩ := registerAgent_ok h
    cases ha.symm.trans hb
    cases ha'
    exact entryStep_seat hseat i
  case revokeAgent =>
    obtain ⟨b, version, hb, -, -, -, rfl⟩ := revokeAgent_ok h
    cases ha.symm.trans hb
    cases ha'
    refine entryStep_unseat ?_ i
    exact rfl
  case applyAgentGrant =>
    obtain ⟨b, pending, overlay, version, hb, -, -, -, -, hseat, -, rfl⟩ := applyAgentGrant_ok h
    cases ha.symm.trans hb
    cases ha'
    exact entryStep_seat hseat i
  case applyAgentPermissionsUpdate =>
    obtain ⟨b, pending, entry, overlay, version, hb, -, -, hready, hentry, hreseat, -, rfl⟩ :=
      applyAgentPermissionsUpdate_ok h
    cases ha.symm.trans hb
    cases ha'
    change EntryStep _ _ _ _ ((overlay.setAgentCooldown _ _).entries i)
    rw [entries_setAgentCooldown]
    refine entryStep_reseat (fun hzero hpos => ?_) hreseat i
    exact ⟨a, pending, entry, ha, hready.found, rfl, hentry, hzero, hpos⟩
  case agentTransfer =>
    obtain ⟨p, b, b', hp, hb, hb', hbooked⟩ := booked_agentTransfer h
    cases ha.symm.trans hb
    cases ha'.symm.trans hb'
    exact hbooked.entryStep hp i
  case validateAndAuthorize =>
    obtain ⟨b, vaultToken, pins, snapshots, tokens, ho⟩ := validateAndAuthorize_ok h
    cases ha.symm.trans ho.live
    obtain rfl := ho.result
    cases ha'
    exact .of_eq (congrFun (findAgentSlot_noteAction a.overlay _ Pubkey.default _).2 i)
  case finalizeSession =>
    obtain ⟨b, b', hb, hb', ⟨p, hp, hbooked⟩ | ⟨-, -, hsame⟩⟩ := booked_finalizeSession h
    all_goals
      cases ha.symm.trans hb
      cases ha'.symm.trans hb'
    · exact hbooked.entryStep hp i
    · exact .of_eq (by rw [hsame])

end Entries

section SlotRun

variable {D : Type}

theorem AgentContributionEntry.Tracks.congr {e e' : AgentContributionEntry} {hist : List (ℤ × ℕ)}
    (h : e.Tracks hist) (hcontributions : e'.contributions = e.contributions)
    (hlast : e'.lastWriteEpoch = e.lastWriteEpoch) : e'.Tracks hist where
  last_nonneg := hlast ▸ h.last_nonneg
  held := by
    rw [hcontributions, hlast]
    exact h.held
  pos := h.pos
  history_le := hlast ▸ h.history_le

/-- The slot holds a history of the time before. -/
def EntryHolds (as : List (Action D)) (hist : List (ℤ × ℕ)) (e : AgentContributionEntry) : Prop :=
  e.Tracks hist ∧ NotAfter hourOf as e.lastWriteEpoch

variable {as : List (Action D)} {hist : List (ℤ × ℕ)} {e e' : AgentContributionEntry} {env : Env}
  {c : Call D}

theorem entryHolds_new (as : List (Action D)) (agent : Pubkey) :
    EntryHolds as [] { AgentContributionEntry.empty with agent := agent } :=
  ⟨AgentContributionEntry.tracks_claimed agent, notAfter_zero (fun _ => hourOf_nonneg) as⟩

theorem EntryHolds.kept (h : EntryHolds as hist e)
    (hcontributions : e'.contributions = e.contributions)
    (hlast : e'.lastWriteEpoch = e.lastWriteEpoch) (bs : List (Action D)) :
    EntryHolds (as ++ bs) hist e' :=
  ⟨h.1.congr hcontributions hlast, hlast ▸ h.2.append bs⟩

theorem EntryHolds.recorded {x : UInt64} (h : EntryHolds as hist e)
    (hclock : Chronological (as ++ [.call env c])) (hrecord : e.record env.clock x = .ok e') :
    EntryHolds (as ++ [.call env c]) ((env.clock.unixTimestamp, x.toNat) :: hist) e' := by
  obtain ⟨hpos, amount, -, -, hlast⟩ := AgentContributionEntry.record_ok hrecord
  refine ⟨h.1.record (h.2.le hclock hpos) hrecord, ?_⟩
  rw [hlast]
  exact notAfter_now (fun hle => hourOf_mono hle) as

variable [Host D] [DecidableEq D] {l₀ l l' m : Ledger D} {bs : List (Action D)} {h : List Spend}
  {agent : Pubkey} {a a' : VaultAccounts D} {p : Spend}

omit [DecidableEq D] in
theorem EntryStep.holds (hstep : EntryStep env l c e e')
    (hclock : Chronological (as ++ [.call env c]))
    (h : EntryHolds as hist e) : ∃ hist', EntryHolds (as ++ [.call env c]) hist' e' := by
  cases hstep with
  | kept hcontributions hlast => exact ⟨hist, h.kept hcontributions hlast _⟩
  | released _ hempty => exact ⟨[], hempty ▸ entryHolds_new _ Pubkey.default⟩
  | recorded _ _ hrecord => exact ⟨_, h.recorded hclock hrecord⟩

theorem entryHolds_run (h₀ : l₀.Genesis) (hrun : Run Step l₀ as l) (hclock : Chronological as) :
    ∀ a ∈ l.live, ∀ i, ∃ hist, EntryHolds as hist (a.overlay.entries i) := by
  refine hrun.induct (P := fun as m => Chronological as → ∀ a ∈ m.live, ∀ i, ∃ hist,
    EntryHolds as hist (a.overlay.entries i)) (by simp [h₀.live]) ?_ hclock
  intro as m x m' _ ih hstep hclock a' ha' i
  have ih := ih hclock.of_append
  cases hstep with
  | foreign =>
    obtain ⟨hist, hholds⟩ := ih a' ha' i
    exact ⟨hist, hholds.kept rfl rfl _⟩
  | call hexec =>
    rcases exec_exists_live hexec with ⟨a, ha⟩ | ⟨owner, feeDestination, args, rfl⟩
    · obtain ⟨hist, hholds⟩ := ih a ha i
      exact (exec_entries hexec ha ha' i).holds hclock hholds
    · obtain ⟨-, -, -, -, -, -, rfl⟩ := initializeVault_ok hexec
      cases ha'
      exact ⟨[], entryHolds_new _ Pubkey.default⟩

def spendsOf (agent : Pubkey) (h : List Spend) : List Spend := h.filter fun p => p.agent = agent

/-- The action does not take the agent's slot away. -/
def Action.KeepsSlot (agent : Pubkey) (l : Ledger D) : Action D → Prop
  | .call _ c => ¬ c.FreesSlot l agent
  | .foreign => True

/-- A booked step after which an agent that had a slot has it still. -/
def SeatedStep (agent : Pubkey) (s : Ledger D × List Spend) (x : Action D)
    (s' : Ledger D × List Spend) : Prop :=
  BookedStep s x s' ∧ x.KeepsSlot agent s.1

theorem seated_of_booked {s s' : Ledger D × List Spend} (hrun : Run BookedStep s as s')
    (hkeeps : ∀ x ∈ as, ∀ l : Ledger D, x.KeepsSlot agent l) : Run (SeatedStep agent) s as s' := by
  induction hrun with
  | nil => exact .nil _
  | snoc _ hstep ih =>
    exact (ih fun x hx => hkeeps x (List.mem_append_left _ hx)).snoc
      ⟨hstep, hkeeps _ (List.mem_append_right _ List.mem_cons_self) _⟩

/-- The slot of the agent holds its spends, on top of what it held before. -/
structure SlotHolds (agent : Pubkey) (as : List (Action D)) (h : List Spend)
    (a : VaultAccounts D) : Prop where
  seated : ∀ i, a.overlay.findAgentSlot agent = some i → ∃ older,
    EntryHolds as (chargeTimes (spendsOf agent h) ++ older) (a.overlay.entries i)
  unseated : a.overlay.findAgentSlot agent = none → spendsOf agent h = []

theorem spendsOf_cons_self (hp : p.agent = agent) :
    spendsOf agent (p :: h) = p :: spendsOf agent h := by
  simp [spendsOf, hp]

theorem spendsOf_cons_of_ne (hp : p.agent ≠ agent) :
    spendsOf agent (p :: h) = spendsOf agent h := by
  simp [spendsOf, hp]

/-- The agent's spends were admitted under its limits. -/
abbrev LimitGated (agent : Pubkey) (h : List Spend) : Prop :=
  GatedBy (fun p => hourOf p.time) 24 (fun p => p.agentLimit.toNat) (charges (spendsOf agent h))

omit [Host D] [DecidableEq D] in
theorem SlotHolds.booked (hs : SlotHolds agent as h a) (hg : LimitGated agent h)
    (hclock : Chronological (as ++ [.call env c])) (hb : Booked env.clock p a a')
    (hp : p.agent = agent) (hlimit : 0 < p.agentLimit) :
    LimitGated agent (p :: h) ∧ ∃ i older, a.overlay.findAgentSlot agent = some i ∧
      EntryHolds (as ++ [.call env c]) (chargeTimes (spendsOf agent (p :: h)) ++ older)
        (a'.overlay.entries i) := by
  subst hp
  obtain ⟨entry, hentry, hamount⟩ := hb.agentLimit
  obtain ⟨entry', hentry', hchecked⟩ := hb.counters.limit
  cases hentry.symm.trans hentry'
  rw [hamount] at hchecked
  obtain ⟨i, hi, hle⟩ := hchecked hlimit
  obtain ⟨charged, hcharged, hentries⟩ := hb.counters.slot i hi
  have hrecord := (AgentSpendOverlay.recordAgentContribution_ok hcharged).1
  rw [← hentries] at hrecord
  obtain ⟨older, hholds⟩ := hs.seated i hi
  have hpos := (AgentContributionEntry.record_ok hrecord).1
  have hlast := hholds.2.le hclock hpos
  have htime := hb.time
  refine ⟨?_, i, older, hi, ?_⟩
  · have hcovers := hholds.1.le_rolling24hUsd hpos hlast
    rw [total_append, total_chargeTimes] at hcovers
    rw [LimitGated, spendsOf_cons_self rfl, charges_cons]
    refine .cons hg (fun y hy => ?_) ?_
    · rw [htime]
      refine (hholds.1.history_le (y.1.time, y.2) ?_).trans hlast
      exact List.mem_append_left _ (List.mem_map.mpr ⟨y, hy, rfl⟩)
    · rw [htime]
      exact eq_zero_or_add_le ((min_le_min_right _ (Nat.le_add_right _ _)).trans hcovers) hle
  · rw [spendsOf_cons_self rfl, chargeTimes_cons, htime]
    exact hholds.recorded hclock hrecord

theorem SlotHolds.kept {i : Fin maxOverlayEntries} (hs : SlotHolds agent as h a)
    (hexec : exec env l c = .ok l') (ha : l.live = some a) (ha' : l'.live = some a')
    (hi : a.overlay.findAgentSlot agent = some i) (hkeeps : ¬ c.FreesSlot l agent)
    (hother : ∀ p, l.spendOf env c = some p → p.agent ≠ agent) :
    ∃ older, EntryHolds (as ++ [.call env c]) (chargeTimes (spendsOf agent h) ++ older)
      (a'.overlay.entries i) := by
  obtain ⟨older, hholds⟩ := hs.seated i hi
  have hagent := agent_of_findAgentSlot hi
  cases exec_entries hexec ha ha' i with
  | kept hcontributions hlast => exact ⟨older, hholds.kept hcontributions hlast _⟩
  | released hfrees _ => exact absurd (hagent ▸ hfrees) hkeeps
  | @recorded p hp hsame _ => exact absurd (hsame.symm.trans hagent) (hother p hp)

theorem exec_slotHolds (hagent : agent ≠ Pubkey.default) (hexec : exec env l c = .ok l')
    (hreg : l.Registered) (hslots : ∀ a, l.live = some a → a.SlotsInOrder)
    (ha : l.live = some a) (ha' : l'.live = some a')
    (hclock : Chronological (as ++ [.call env c])) (hkeeps : ¬ c.FreesSlot l agent)
    (hlimits : ∀ p, l.spendOf env c = some p → p.agent = agent → 0 < p.agentLimit)
    (hs : SlotHolds agent as h a) (hg : LimitGated agent h) :
    LimitGated agent ((l.spendOf env c).toList ++ h) ∧
      SlotHolds agent (as ++ [.call env c]) ((l.spendOf env c).toList ++ h) a' := by
  -- an agent that had a slot has it still
  have hseat : ∀ i, a.overlay.findAgentSlot agent = some i →
      a'.overlay.findAgentSlot agent = some i := by
    intro i hi
    obtain ⟨b, hb, hslot⟩ := exec_slot hexec ha hagent hi hkeeps
    cases ha'.symm.trans hb
    rcases hslot with hkept | ⟨-, -, -, hi', -⟩
    · exact hkept.seat
    · exact hi'
  by_cases hmine : ∃ p, l.spendOf env c = some p ∧ p.agent = agent
  · obtain ⟨p, hp, hpa⟩ := hmine
    rcases exec_booked hexec ha ha' with ⟨q, hq, hb⟩ | ⟨hnone, -⟩
    · cases hp.symm.trans hq
      obtain ⟨hgated, i, older, hi, hholds⟩ := hs.booked hg hclock hb hpa (hlimits p hp hpa)
      rw [hp]
      refine ⟨hgated, fun j hj => ?_, fun hnone => nomatch hnone.symm.trans (hseat i hi)⟩
      obtain rfl := Option.some.inj ((hseat i hi).symm.trans hj)
      exact ⟨older, hholds⟩
    · exact nomatch hp.symm.trans hnone
  · have hother : ∀ p, l.spendOf env c = some p → p.agent ≠ agent :=
      fun p hp hpa => hmine ⟨p, hp, hpa⟩
    have hsame : spendsOf agent ((l.spendOf env c).toList ++ h) = spendsOf agent h := by
      cases hp : l.spendOf env c with
      | none => rfl
      | some p => exact spendsOf_cons_of_ne (hother p hp)
    refine ⟨by rw [LimitGated, hsame]; exact hg, fun i hi' => ?_, fun hnone => ?_⟩
    · rw [hsame]
      cases hi : a.overlay.findAgentSlot agent with
      | some j =>
        obtain rfl := Option.some.inj ((hseat j hi).symm.trans hi')
        exact hs.kept hexec ha ha' hi hkeeps hother
      | none =>
        -- the agent has just been given its slot
        have hfresh := (exec_slotChange hexec ha ha').fresh (hslots a ha) (hreg.agents a ha)
          ((exec_registered hexec hreg).agents a' ha') hagent hi hi'
        have hentry : a'.overlay.entries i =
            { AgentContributionEntry.empty with agent := agent } := by
          rcases hfresh with hslot | ⟨_, _, _, _, -, -, -, hslot⟩
          · exact congrArg Slot.entry hslot
          · exact congrArg Slot.entry hslot
        rw [hs.unseated hi, hentry]
        exact ⟨[], entryHolds_new _ agent⟩
    · rw [hsame]
      cases hi : a.overlay.findAgentSlot agent with
      | some j => exact nomatch hnone.symm.trans (hseat j hi)
      | none => exact hs.unseated hi

theorem limitGated_run (hagent : agent ≠ Pubkey.default) (h₀ : l₀.Genesis)
    (hrun : Run Step l₀ as l) (hseated : Run (SeatedStep agent) (l, []) bs (m, h))
    (hclock : Chronological (as ++ bs))
    (hlimits : ∀ p ∈ h, p.agent = agent → 0 < p.agentLimit) : LimitGated agent h := by
  refine (hseated.induct (P := fun bs s => Chronological (as ++ bs) →
    (∀ p ∈ s.2, p.agent = agent → 0 < p.agentLimit) →
    LimitGated agent s.2 ∧ ∀ a ∈ s.1.live, SlotHolds agent (as ++ bs) s.2 a) ?_ ?_ hclock hlimits).1
  · intro hclock _
    refine ⟨.nil, fun a ha => ⟨fun i _ => ?_, fun _ => rfl⟩⟩
    rw [List.append_nil] at hclock ⊢
    exact entryHolds_run h₀ hrun hclock a ha i
  · rintro bs ⟨m, h⟩ x ⟨m', h'⟩ hprior ih ⟨⟨hstep, rfl⟩, hkeeps⟩ hclock hlimits
    rw [← List.append_assoc] at hclock ⊢
    cases hstep with
    | foreign =>
      obtain ⟨hg, hs⟩ := ih hclock.of_append hlimits
      refine ⟨hg, fun a ha => ⟨fun i hi => ?_, (hs a ha).unseated⟩⟩
      obtain ⟨older, hholds⟩ := (hs a ha).seated i hi
      exact ⟨older, hholds.kept rfl rfl _⟩
    | @call env c _ _ hexec =>
      rcases exec_exists_live hexec with ⟨a, ha⟩ | ⟨owner, feeDestination, args, rfl⟩
      · have hreach : Run Step l₀ (as ++ bs) m :=
          hrun.append (hprior.map Prod.fst fun _ _ _ h => h.1.1)
        have hbook : Action.book m h (.call env c) = (m.spendOf env c).toList ++ h :=
          book_of_live hexec ha
        change (∀ p ∈ Action.book m h (.call env c), _) at hlimits
        change LimitGated agent (Action.book m h (.call env c)) ∧ ∀ a ∈ m'.live,
          SlotHolds agent _ (Action.book m h (.call env c)) a
        rw [hbook] at hlimits ⊢
        obtain ⟨hg, hs⟩ := ih hclock.of_append fun p hp => hlimits p (List.mem_append_right _ hp)
        have hone : ∀ a', m'.live = some a' → LimitGated agent ((m.spendOf env c).toList ++ h) ∧
            SlotHolds agent _ ((m.spendOf env c).toList ++ h) a' := fun a' ha' =>
          exec_slotHolds hagent hexec (run_registered hreach h₀)
            (fun b hb => run_slotsInOrder hreach h₀ hb) ha ha' hclock hkeeps
            (fun p hp => hlimits p (by simp [hp])) (hs a ha) hg
        rcases exec_exists_after hexec ha with ⟨a', ha'⟩ | ⟨owner, remaining, rfl⟩
        · exact ⟨(hone a' ha').1, fun b hb => (hone b hb).2⟩
        · exact absurd trivial hkeeps
      · obtain ⟨-, -, -, -, -, -, rfl⟩ := initializeVault_ok hexec
        refine ⟨.nil, fun a ha => ⟨fun i hi => ?_, fun _ => rfl⟩⟩
        cases ha
        exact absurd (agent_of_findAgentSlot hi).symm hagent

theorem total_spendsOf {q : Spend → Prop} [DecidablePred q] (agent : Pubkey) (h : List Spend) :
    total q (charges (spendsOf agent h)) = total (fun p => p.agent = agent ∧ q p) (charges h) := by
  induction h with
  | nil => rfl
  | cons p h ih =>
    by_cases hp : p.agent = agent
    · rw [spendsOf_cons_self hp, charges_cons, charges_cons, total_cons, total_cons, ih]
      simp [hp]
    · rw [spendsOf_cons_of_ne hp, charges_cons, total_cons, ih]
      simp [hp]

theorem mem_spendsOf {agent : Pubkey} {p : Spend} :
    p ∈ spendsOf agent h ↔ p ∈ h ∧ p.agent = agent := by
  simp [spendsOf]

/-- From every reachable state on, in every run with a clock that does not go back and in which no
instruction takes an agent's slot away, the spends of the agent in any 24 consecutive hours of the
clock stay within the largest of the limits they were held against, and those of any day within
twice that limit. -/
theorem agent_spends_within_limit (hagent : agent ≠ Pubkey.default) (h₀ : l₀.Genesis)
    (hrun : Run Step l₀ as l) (hseated : Run (SeatedStep agent) (l, []) bs (m, h))
    (hclock : Chronological (as ++ bs))
    (hlimits : ∀ p ∈ h, p.agent = agent → 0 < p.agentLimit) (limit : ℕ) :
    (∀ first : ℤ, (∀ p ∈ h, p.agent = agent → first ≤ hourOf p.time →
        hourOf p.time < first + 24 → p.agentLimit.toNat ≤ limit) →
      total (fun p => p.agent = agent ∧ first ≤ hourOf p.time ∧ hourOf p.time < first + 24)
        (charges h) ≤ limit) ∧
    ∀ u : ℤ, (∀ p ∈ h, p.agent = agent → u ≤ p.time → p.time ≤ u + 86400 →
        p.agentLimit.toNat ≤ limit) →
      total (fun p => p.agent = agent ∧ u ≤ p.time ∧ p.time ≤ u + 86400) (charges h) ≤
        2 * limit := by
  have hgated := limitGated_run hagent h₀ hrun hseated hclock hlimits
  have hmem : ∀ y ∈ charges (spendsOf agent h), y.1 ∈ h ∧ y.1.agent = agent :=
    fun y hy => mem_spendsOf.mp (mem_charges hy)
  refine ⟨fun first hcap => ?_, fun u hcap => ?_⟩
  · rw [← total_spendsOf]
    exact hgated.total_le fun y hy hin =>
      ⟨hin, hcap y.1 (hmem y hy).1 (hmem y hy).2 hin.1 hin.2⟩
  · rw [← total_spendsOf]
    exact hgated.total_stretch_le (by norm_num) (by norm_num : (0 : ℤ) < 3600) (fun _ => rfl) u
      fun y hy => hcap y.1 (hmem y hy).1 (hmem y hy).2

end SlotRun

theorem agent_spends_within_limit_metered :
    ∃ as l bs m, Run Step emptyLedger as l ∧
      Run (SeatedStep (sampleKey 9)) (l, []) bs (m, meteredBook) ∧
      total (fun p => p.agent = sampleKey 9 ∧ 0 ≤ hourOf p.time ∧ hourOf p.time < 0 + 24)
        (charges meteredBook) ≤ 500 ∧
      total (fun p => p.agent = sampleKey 9 ∧ 1500 ≤ p.time ∧ p.time ≤ 1500 + 86400)
        (charges meteredBook) ≤ 2 * 500 := by
  obtain ⟨hsetup, m, hspends⟩ := run_metered
  have hrun := step_run_of_booked hsetup
  have hseated : Run (SeatedStep (sampleKey 9)) (meteredLedger, [])
      (meteredSpends.map SampleEvent.action) (m, meteredBook) := by
    refine seated_of_booked hspends ?_
    simp [meteredSpends, SampleEvent.action, Action.KeepsSlot, Call.FreesSlot, validateWith,
      closeTrade]
  have hlimits : ∀ p ∈ meteredBook, 0 < p.agentLimit ∧ p.agentLimit.toNat ≤ 500 := by decide
  obtain ⟨hhours, hday⟩ := agent_spends_within_limit (by decide) genesis_emptyLedger hrun hseated
    chronological_metered (fun p hp _ => (hlimits p hp).1) 500
  exact ⟨_, meteredLedger, _, m, hrun, hseated, hhours 0 fun p hp _ _ _ => (hlimits p hp).2,
    hday 1500 fun p hp _ _ _ => (hlimits p hp).2⟩

end Sigil
