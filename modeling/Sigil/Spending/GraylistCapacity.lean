import Sigil.Authority.PolicyBounds
import Sigil.Spending.Graylist

/-! # Room on the graylist

The graylist has room for ten destinations. An entry stays on it when its window is over and when
it is promoted: what fills the list is every destination that was ever new, not those that still
wait.
-/

namespace Sigil

open Guard Trace

section Defs

variable {D : Type}

def graylisted (graylist : List DestinationGraylistEntry) : List Pubkey :=
  graylist.map DestinationGraylistEntry.destination

def PolicyConfig.newDestinations (p : PolicyConfig D) (u : PolicyUpdate D) : List Pubkey :=
  (u.allowedDestinations.getD []).filter fun d => d ∉ p.allowedDestinations

/-- The destinations that are inside their window. -/
def waitingOn (graylist : List DestinationGraylistEntry) (now : ℤ) : Finset Pubkey :=
  (graylisted (graylist.filter fun e => now < e.unlockUnix)).toFinset

/-- All destinations that share the graylist with an update: those on it and the new ones. -/
def PolicyConfig.listedWith (p : PolicyConfig D) (u : PolicyUpdate D) : Finset Pubkey :=
  (graylisted p.destinationGraylist ++ p.newDestinations u).toFinset

/-- The point at which an update is turned away: some of its new destinations have been entered on
the graylist, which has no room for the next one. -/
structure TurnedAway (clock : Clock) (p : PolicyConfig D) (u : PolicyUpdate D)
    (entered : List Pubkey) (graylist : List DestinationGraylistEntry) : Prop where
  next : ∃ d later, p.newDestinations u = entered ++ d :: later ∧ d ∉ graylisted graylist
  filled : ∃ unlockUnix, graylistUnlock clock p = .ok unlockUnix ∧
    entered.foldlM (fun graylist d => graylistDestination graylist unlockUnix d)
      p.destinationGraylist = .ok graylist
  full : graylist.length = maxAllowedDestinations

end Defs

section Entries

variable {graylist graylist' : List DestinationGraylistEntry} {destination : Pubkey}
  {unlockUnix now : ℤ} {new : List Pubkey}

theorem unlockOf_eq_some_iff (h : (graylisted graylist).Nodup) :
    unlockOf graylist destination = some unlockUnix ↔ ⟨destination, unlockUnix⟩ ∈ graylist := by
  unfold unlockOf
  rw [Option.map_eq_some_iff]
  constructor
  · rintro ⟨e, he, rfl⟩
    obtain ⟨hmem, rfl⟩ := (FirstMatch.find?_eq_some_iff_of_nodup _ h).mp he
    exact hmem
  · intro hmem
    exact ⟨_, (FirstMatch.find?_eq_some_iff_of_nodup _ h).mpr ⟨hmem, rfl⟩, rfl⟩

theorem mem_graylisted_iff (h : (graylisted graylist).Nodup) :
    destination ∈ graylisted graylist ↔ ∃ u, unlockOf graylist destination = some u := by
  simp only [unlockOf_eq_some_iff h, graylisted, List.mem_map]
  constructor
  · rintro ⟨e, he, rfl⟩
    exact ⟨e.unlockUnix, he⟩
  · rintro ⟨u, hu⟩
    exact ⟨_, hu, rfl⟩

theorem graylisted_entered (hsingle : (graylisted graylist).Nodup)
    (h : new.foldlM (fun graylist d => graylistDestination graylist unlockUnix d) graylist =
      .ok graylist') :
    (graylisted graylist').toFinset = (graylisted graylist ++ new).toFinset := by
  obtain ⟨hunlock, hsingle'⟩ := graylistDestinations_ok h
  ext d
  rw [List.mem_toFinset, List.mem_toFinset, List.mem_append, mem_graylisted_iff (hsingle' hsingle),
    mem_graylisted_iff hsingle, hunlock d]
  by_cases hd : d ∈ new
  · simp [hd]
  · simp [hd]

theorem ten_le_waitingOn_iff (hsingle : (graylisted graylist).Nodup)
    (hfull : graylist.length = maxAllowedDestinations) :
    10 ≤ (waitingOn graylist now).card ↔ ∀ e ∈ graylist, now < e.unlockUnix := by
  have hwaiting : (graylisted (graylist.filter fun e => now < e.unlockUnix)).Nodup :=
    hsingle.sublist (List.Sublist.map _ List.filter_sublist)
  have hle := List.length_filter_le
    (fun e : DestinationGraylistEntry => now < e.unlockUnix) graylist
  rw [waitingOn, List.toFinset_card_of_nodup hwaiting, graylisted, List.length_map]
  constructor
  · intro hten
    have hall := List.length_filter_eq_length_iff.mp (le_antisymm hle (hfull.trans_le hten))
    exact fun e he => of_decide_eq_true (hall e he)
  · intro hall
    have hlength := List.length_filter_eq_length_iff.mpr fun e he => decide_eq_true (hall e he)
    exact (hlength.trans hfull).ge

end Entries

section Full

variable {D : Type} {clock : Clock} {p : PolicyConfig D} {u : PolicyUpdate D}
  {entered : List Pubkey} {graylist : List DestinationGraylistEntry}

/-- A destination that is entered waits unless destinations are promoted automatically. -/
theorem lt_graylistUnlock_iff {unlockUnix : ℤ} (h : graylistUnlock clock p = .ok unlockUnix) :
    clock.unixTimestamp < unlockUnix ↔ p.autoPromoteGrays = false := by
  unfold graylistUnlock at h
  cases hauto : p.autoPromoteGrays with
  | true =>
    rw [hauto, if_pos rfl] at h
    simp [← Except.ok.inj h]
  | false =>
    rw [hauto, if_neg Bool.false_ne_true, someOr_ok_iff, Machine.checkedAddI64_eq_some] at h
    simp [h.1, graylistFrictionSeconds]

theorem turnedAway_of_full (hroom : p.destinationGraylist.length ≤ maxAllowedDestinations)
    (h : graylistNewDestinations clock p u.allowedDestinations =
      .error (.sigil .errGraylistFull)) :
    ∃ entered graylist, TurnedAway clock p u entered graylist := by
  cases hdestinations : u.allowedDestinations with
  | none =>
    rw [hdestinations] at h
    cases h
  | some destinations =>
    rw [hdestinations, graylistNewDestinations, seq_error_iff] at h
    rcases h with hoverflow | ⟨unlockUnix, hunlock, hloop⟩
    · unfold graylistUnlock at hoverflow
      split at hoverflow
      · cases hoverflow
      · cases (someOr_error_iff.mp hoverflow).2
    · obtain ⟨entered, d, later, graylist, hsplit, hentered, hnext⟩ := foldlM_error hloop
      have hbounded : graylist.length ≤ maxAllowedDestinations :=
        foldlM_invariant (P := fun g => g.length ≤ maxAllowedDestinations) hentered
          (fun _ _ _ => length_graylistDestination) hroom
      unfold graylistDestination at hnext
      split at hnext
      · cases hnext
      · rename_i hnew
        simp only [seq_error_iff, ensure_error_iff] at hnext
        rcases hnext with ⟨hfull, -⟩ | ⟨-, -, hok⟩
        · refine ⟨entered, graylist, ⟨d, later, ?_, ?_⟩, ⟨unlockUnix, hunlock, hentered⟩, ?_⟩
          · rw [PolicyConfig.newDestinations, hdestinations]
            exact hsplit
          · simpa [graylisted] using hnew
          · exact le_antisymm hbounded (not_lt.mp hfull)
        · cases hok

/-- There is not enough room for the new destinations beside those on the list. -/
theorem TurnedAway.crowded (h : TurnedAway clock p u entered graylist) (hsingle : p.SingleEntries) :
    10 < (p.listedWith u).card := by
  obtain ⟨d, later, hsplit, hnew⟩ := h.next
  obtain ⟨unlockUnix, -, hentered⟩ := h.filled
  have hsingle' : (graylisted graylist).Nodup := (graylistDestinations_ok hentered).2 hsingle
  have hlisted := graylisted_entered hsingle hentered
  have hsubset : insert d (graylisted graylist).toFinset ⊆ p.listedWith u := by
    rw [Finset.insert_subset_iff, hlisted, PolicyConfig.listedWith, hsplit]
    constructor
    · simp
    · intro x hx
      simp only [List.mem_toFinset, List.mem_append, List.mem_cons] at hx ⊢
      tauto
  have hcard : (insert d (graylisted graylist).toFinset).card = 11 := by
    rw [Finset.card_insert_of_notMem (by rwa [List.mem_toFinset]),
      List.toFinset_card_of_nodup hsingle', graylisted, List.length_map, h.full]
    rfl
  exact hcard.symm.trans_le (Finset.card_le_card hsubset)

/-- Ten destinations wait when none of the entries the update found has run out, apart from those
that it entered again, and what it has entered waits as well. -/
theorem TurnedAway.waiting_iff (h : TurnedAway clock p u entered graylist)
    (hsingle : p.SingleEntries) :
    10 ≤ (waitingOn graylist clock.unixTimestamp).card ↔
      (entered ≠ [] → p.autoPromoteGrays = false) ∧
        ∀ e ∈ p.destinationGraylist, e.destination ∉ entered →
          clock.unixTimestamp < e.unlockUnix := by
  obtain ⟨unlockUnix, hunlock, hentered⟩ := h.filled
  obtain ⟨hvalues, hkept⟩ := graylistDestinations_ok hentered
  have hsingle' : (graylisted graylist).Nodup := hkept hsingle
  rw [ten_le_waitingOn_iff hsingle' h.full]
  constructor
  · intro hall
    constructor
    · intro hsome
      obtain ⟨d, hd⟩ := List.exists_mem_of_ne_nil _ hsome
      have hat := (unlockOf_eq_some_iff hsingle').mp ((hvalues d).trans (if_pos hd))
      exact (lt_graylistUnlock_iff hunlock).mp (hall _ hat)
    · intro e he hother
      have hat := (unlockOf_eq_some_iff hsingle).mpr he
      exact hall _ ((unlockOf_eq_some_iff hsingle').mp
        ((hvalues _).trans ((if_neg hother).trans hat)))
  · rintro ⟨hpromoted, hfresh⟩ e he
    have hat := (unlockOf_eq_some_iff hsingle').mpr he
    rw [hvalues] at hat
    split at hat
    · rename_i hmem
      cases hat
      exact (lt_graylistUnlock_iff hunlock).mpr (hpromoted (List.ne_nil_of_mem hmem))
    · rename_i hother
      exact hfresh _ ((unlockOf_eq_some_iff hsingle).mp hat) hother

end Full

section Apply

variable {D : Type} [Host D] [DecidableEq D] {env : Env} {owner : Pubkey} {l l' : Ledger D}
  {a : VaultAccounts D} {p : PendingPolicyUpdate D}

theorem applyPendingPolicy_full (ha : l.live = some a) (hp : l.pendingPolicy = some p)
    (h : applyPendingPolicy env owner l = .error (.sigil .errGraylistFull)) :
    graylistNewDestinations env.clock a.policy p.update.allowedDestinations =
      .error (.sigil .errGraylistFull) := by
  by_contra hroom
  have hspared : Spares (· = .sigil .errGraylistFull)
      (graylistNewDestinations env.clock a.policy p.update.allowedDestinations) :=
    fun e he hbad => hroom (hbad ▸ he)
  refine (?_ : Spares (· = .sigil .errGraylistFull) (applyPendingPolicy env owner l)) _ h rfl
  simp [applyPendingPolicy, Ledger.loadAsOwner, mustExist, rejectCpi, ensureFresh, applyUpdate,
    VaultAccounts.nextVersion, ensureFits, ensure, someOr, ha, hp, hspared]

omit [Host D] [DecidableEq D] in
theorem applyUpdate_room {q merged : PolicyConfig D} {clock : Clock}
    (h : applyUpdate clock owner q p = .ok merged) (hsingle : q.SingleEntries)
    (hroom : q.destinationGraylist.length ≤ maxAllowedDestinations) :
    (graylisted merged.destinationGraylist).toFinset = q.listedWith p.update ∧
      (q.listedWith p.update).card ≤ 10 := by
  have hmerged := length_applyUpdate h hroom
  obtain ⟨graylist, hgraylist, rfl, -⟩ := applyUpdate_ok h
  change (graylisted graylist).toFinset = _ ∧ _
  change graylist.length ≤ maxAllowedDestinations at hmerged
  have hlisted : (graylisted graylist).toFinset = q.listedWith p.update := by
    unfold PolicyConfig.listedWith PolicyConfig.newDestinations
    cases hdestinations : p.update.allowedDestinations with
    | none =>
      rw [hdestinations] at hgraylist
      cases hgraylist
      simp
    | some destinations =>
      rw [hdestinations, graylistNewDestinations, seq_ok_iff] at hgraylist
      obtain ⟨unlockUnix, -, hentered⟩ := hgraylist
      exact graylisted_entered hsingle hentered
  refine ⟨hlisted, ?_⟩
  rw [← hlisted]
  refine (List.toFinset_card_le _).trans ?_
  rw [graylisted, List.length_map]
  exact hmerged

theorem exec_graylisted {c : Call D} {a' : VaultAccounts D} (h : exec env l c = .ok l')
    (hl : ∀ b ∈ l.live, b.policy.SingleEntries ∧
      b.policy.destinationGraylist.length ≤ maxAllowedDestinations)
    (ha : l.live = some a) (ha' : l'.live = some a') :
    graylisted a.policy.destinationGraylist ⊆ graylisted a'.policy.destinationGraylist := by
  by_cases hwrites : Part.graylist ∉ c.writes
  · have hsame := (exec_frame h hwrites).eq ha ha'
    intro d hd
    rwa [hsame]
  cases c <;> simp [Call.writes, Part.ofVault] at hwrites
  case initializeVault =>
    obtain ⟨hnone, -⟩ := initializeVault_ok h
    cases hnone.symm.trans ha
  case closeVault =>
    obtain ⟨b, -, -, -, -, -, rfl⟩ := closeVault_ok h
    cases ha'
  case applyPendingPolicy =>
    obtain ⟨b, pending, merged, _, version, hb, -, -, -, -, hmerged, -, -, rfl, -, rfl⟩ :=
      applyPendingPolicy_ok h
    cases ha.symm.trans hb
    cases ha'
    intro d hd
    have hlisted := (applyUpdate_room hmerged (hl a ha).1 (hl a ha).2).1
    have hmem : d ∈ a.policy.listedWith pending.update := by
      rw [PolicyConfig.listedWith, List.mem_toFinset]
      exact List.mem_append_left _ hd
    rw [← hlisted, List.mem_toFinset] at hmem
    exact hmem
  case promoteGraylistDestination =>
    obtain ⟨b, b', hb, hb', hsame⟩ := promoteGraylistDestination_destinations h
    cases ha.symm.trans hb
    cases ha'.symm.trans hb'
    intro d hd
    rwa [graylisted, hsame]

variable {l₀ : Ledger D} {as : List (Action D)}

theorem run_graylist (h₀ : l₀.Genesis) (hrun : Run Step l₀ as l) :
    ∀ b ∈ l.live, b.policy.SingleEntries ∧
      b.policy.destinationGraylist.length ≤ maxAllowedDestinations := fun b hb =>
  ⟨forall_live_of_run hrun h₀ exec_singleEntries b hb, (run_policyInOrder h₀ hrun).graylist b hb⟩

theorem LivesThrough.graylisted {bs : List (Action D)} {a' : VaultAccounts D} (h₀ : l₀.Genesis)
    (hrun : Run Step l₀ as l) (h : LivesThrough l bs l') (ha : l.live = some a)
    (ha' : l'.live = some a') :
    graylisted a.policy.destinationGraylist ⊆ graylisted a'.policy.destinationGraylist := by
  refine Run.induct (P := fun _ m => ∀ b, m.live = some b →
    Sigil.graylisted a.policy.destinationGraylist ⊆ Sigil.graylisted b.policy.destinationGraylist)
    h ?_ ?_ a' ha'
  · intro b hb
    cases ha.symm.trans hb
    exact List.Subset.refl _
  · rintro cs m x m' hcs hm ⟨hstep, hlive, -⟩ b' hb'
    obtain ⟨b, hb⟩ := Option.isSome_iff_exists.mp hlive
    cases hstep with
    | foreign => exact hm b' hb'
    | call hexec =>
      have hreach := hrun.append (hcs.mono fun _ _ _ hlived => hlived.1)
      exact List.Subset.trans (hm b hb) (exec_graylisted hexec (run_graylist h₀ hreach) hb hb')

/-- An update that finds the graylist full has met ten destinations inside their window only if no
entry has run out, unless the update has entered it again, and what it has entered waits. Room is
made for no update: it is applied only if there are at most ten destinations that are on the list
or new, and no destination leaves the list. -/
theorem graylist_full_waiting_iff (h₀ : l₀.Genesis) (hrun : Run Step l₀ as l)
    (ha : l.live = some a) (hp : l.pendingPolicy = some p) :
    (exec env l (.applyPendingPolicy owner) = .error (.sigil .errGraylistFull) →
      ∃ entered graylist, TurnedAway env.clock a.policy p.update entered graylist ∧
        (10 ≤ (waitingOn graylist env.clock.unixTimestamp).card ↔
          (entered ≠ [] → a.policy.autoPromoteGrays = false) ∧
            ∀ e ∈ a.policy.destinationGraylist, e.destination ∉ entered →
              env.clock.unixTimestamp < e.unlockUnix)) ∧
    (exec env l (.applyPendingPolicy owner) = .error (.sigil .errGraylistFull) →
      10 < (a.policy.listedWith p.update).card) ∧
    (∀ l', exec env l (.applyPendingPolicy owner) = .ok l' →
      (a.policy.listedWith p.update).card ≤ 10) ∧
    ∀ bs l' a', LivesThrough l bs l' → l'.live = some a' →
      graylisted a.policy.destinationGraylist ⊆ graylisted a'.policy.destinationGraylist := by
  obtain ⟨hsingle, hroom⟩ := run_graylist h₀ hrun a ha
  refine ⟨fun hfull => ?_, fun hfull => ?_, fun l' hok => ?_, fun bs l' a' hlives ha' => ?_⟩
  · obtain ⟨entered, graylist, haway⟩ :=
      turnedAway_of_full hroom (applyPendingPolicy_full ha hp hfull)
    exact ⟨entered, graylist, haway, haway.waiting_iff hsingle⟩
  · obtain ⟨entered, graylist, haway⟩ :=
      turnedAway_of_full hroom (applyPendingPolicy_full ha hp hfull)
    exact haway.crowded hsingle
  · obtain ⟨b, pending, merged, _, version, hb, -, hpending, -, -, hmerged, -⟩ :=
      applyPendingPolicy_ok hok
    cases ha.symm.trans hb
    cases hp.symm.trans hpending
    exact (applyUpdate_room hmerged hsingle hroom).2
  · exact LivesThrough.graylisted h₀ hrun hlives ha ha'

end Apply

section Sample

def allowOnly (destinations : List Pubkey) : PolicyUpdate Preimage :=
  { PolicyUpdate.none with allowedDestinations := some destinations }

def crowdingLedger : Ledger Preimage :=
  after (sampleEnv 1700 21) sampleLedger
    (sampleQueue sampleLedger (allowOnly ((List.range 10).map fun i => sampleKey (.ofNat (40 + i))))
      Pubkey.default)

def crowdedLedger : Ledger Preimage :=
  after (sampleEnv 3500 110) crowdingLedger (.applyPendingPolicy (sampleKey 1))

def replacingLedger (time : UInt32) : Ledger Preimage :=
  after (sampleEnv time 200) crowdedLedger
    (sampleQueue crowdedLedger (allowOnly [sampleKey 50]) Pubkey.default)

theorem run_crowdedLedger : ∃ as, Run Step emptyLedger as crowdedLedger := by
  have hqueue : Step sampleLedger _ crowdingLedger := .after (by decide +kernel)
  exact ⟨_, ((Run.single step_sampleInitialize).snoc hqueue).snoc (.after (by decide +kernel))⟩

/-- Within the window of the ten destinations the eleventh is turned away, and ten wait. -/
theorem graylist_full_waiting_iff_eleventh :
    exec (sampleEnv 5800 300) (replacingLedger 4000) (.applyPendingPolicy (sampleKey 1)) =
        .error (.sigil .errGraylistFull) ∧
      ∃ a p entered graylist, (replacingLedger 4000).live = some a ∧
        (replacingLedger 4000).pendingPolicy = some p ∧
        TurnedAway (sampleEnv 5800 300).clock a.policy p.update entered graylist ∧
        10 ≤ (waitingOn graylist 5800).card := by
  -- one evaluation of the ledger for all that is read off it
  obtain ⟨hfails, hqueues, hlive, hpending, hmanual⟩ :
      failure (sampleEnv 5800 300) (replacingLedger 4000) (.applyPendingPolicy (sampleKey 1)) =
        some (.sigil .errGraylistFull) ∧
      (exec (sampleEnv 4000 200) crowdedLedger (sampleQueue crowdedLedger (allowOnly [sampleKey 50])
        Pubkey.default)).isOk = true ∧
      (replacingLedger 4000).live.isSome = true ∧
      (replacingLedger 4000).pendingPolicy.isSome = true ∧
      ∀ a ∈ (replacingLedger 4000).live, a.policy.autoPromoteGrays = false ∧
        ∀ e ∈ a.policy.destinationGraylist, 5800 < e.unlockUnix := by
    decide +kernel
  have hfull := exec_of_failure hfails
  refine ⟨hfull, ?_⟩
  obtain ⟨as, hrun⟩ := run_crowdedLedger
  have hqueue : Step crowdedLedger _ (replacingLedger 4000) := .after hqueues
  obtain ⟨a, ha⟩ := Option.isSome_iff_exists.mp hlive
  obtain ⟨p, hp⟩ := Option.isSome_iff_exists.mp hpending
  obtain ⟨entered, graylist, haway, hiff⟩ :=
    (graylist_full_waiting_iff genesis_emptyLedger (hrun.snoc hqueue) ha hp).1 hfull
  exact ⟨a, p, entered, graylist, ha, hp, haway,
    hiff.mpr ⟨fun _ => (hmanual a ha).1, fun e he _ => (hmanual a ha).2 e he⟩⟩

def Ledger.forgetGraylist (l : Ledger Preimage) : Ledger Preimage :=
  { l with live := l.live.map fun a =>
    { a with policy := { a.policy with destinationGraylist := [] } } }

/-- After the windows of the ten destinations are over, the eleventh is turned away all the same:
nothing waits, and on an empty graylist the update would be applied. -/
theorem stale_entries_fill_graylist :
    (∃ as, Run Step emptyLedger as (replacingLedger 100000)) ∧
      exec (sampleEnv 101800 300) (replacingLedger 100000) (.applyPendingPolicy (sampleKey 1)) =
        .error (.sigil .errGraylistFull) ∧
      (∀ a ∈ (replacingLedger 100000).live, a.policy.destinationGraylist.length = 10 ∧
        ∀ e ∈ a.policy.destinationGraylist, e.unlockUnix ≤ 101800) ∧
      (exec (sampleEnv 101800 300) (replacingLedger 100000).forgetGraylist
        (.applyPendingPolicy (sampleKey 1))).isOk = true := by
  obtain ⟨as, hrun⟩ := run_crowdedLedger
  obtain ⟨hqueues, hfails, hstale, happlies⟩ :
      (exec (sampleEnv 100000 200) crowdedLedger (sampleQueue crowdedLedger
        (allowOnly [sampleKey 50]) Pubkey.default)).isOk = true ∧
      failure (sampleEnv 101800 300) (replacingLedger 100000) (.applyPendingPolicy (sampleKey 1)) =
        some (.sigil .errGraylistFull) ∧
      (∀ a ∈ (replacingLedger 100000).live, a.policy.destinationGraylist.length = 10 ∧
        ∀ e ∈ a.policy.destinationGraylist, e.unlockUnix ≤ 101800) ∧
      (exec (sampleEnv 101800 300) (replacingLedger 100000).forgetGraylist
        (.applyPendingPolicy (sampleKey 1))).isOk = true := by
    decide +kernel
  exact ⟨⟨_, hrun.snoc (.after hqueues)⟩, exec_of_failure hfails, hstale, happlies⟩

end Sample

end Sigil
