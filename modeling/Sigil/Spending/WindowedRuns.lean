import Sigil.Spending.CappedRuns

/-! # The window caps along runs of the program

The cap of a recipient and the cap of a protocol are held against windows of fixed width: the first
counted spend opens a window of a day, and the first one after its end opens the next. Along a run
with a clock that does not go back, any stretch as long as a window meets two of them, so it holds
at most twice the caps that its spends were held against.
-/

namespace Sigil

open Machine Guard EpochHistory FixedWindow Trace

section Recipients

def payments (h : List Spend) : List (Spend × ℕ) := h.map fun p => (p, p.paid.toNat)

def Spend.recipientEntry (p : Spend) : Option ((ℤ × Pubkey) × ℕ) :=
  if 0 < p.recipientCap then p.recipient.map fun r => ((p.time, r), p.paid.toNat) else none

namespace Spend

variable {p : Spend} {recipient : Pubkey} {time : ℤ} {x : ℕ}

theorem recipientEntry_eq (hcapped : 0 < p.recipientCap)
    (hrecipient : p.recipient = some recipient) :
    p.recipientEntry = some ((p.time, recipient), p.paid.toNat) := by
  rw [recipientEntry, if_pos hcapped, hrecipient]
  rfl

theorem of_recipientEntry (h : p.recipientEntry = some ((time, recipient), x)) :
    0 < p.recipientCap ∧ p.recipient = some recipient ∧ p.time = time ∧ p.paid.toNat = x := by
  unfold recipientEntry at h
  split at h
  · rename_i hcapped
    obtain ⟨r, hrecipient, hread⟩ := Option.map_eq_some_iff.mp h
    obtain ⟨hkey, rfl⟩ := Prod.mk.inj hread
    obtain ⟨rfl, rfl⟩ := Prod.mk.inj hkey
    exact ⟨hcapped, hrecipient, rfl, rfl⟩
  · cases h

end Spend

namespace SpendTracker

variable {t t' : SpendTracker} {hist : List ((ℤ × Pubkey) × ℕ)}

theorem TracksRecipients.congr (h : t.TracksRecipients hist)
    (hsame : t'.recipients = t.recipients) :
    t'.TracksRecipients hist := by
  obtain ⟨hcounters, hcount⟩ := Prod.mk.inj hsame
  have hactive : ∀ i, t'.Active i ↔ t.Active i := fun i => by unfold Active; rw [hcount]
  constructor
  · rw [hcount]
    exact h.count
  · simp only [hactive, hcounters]
    exact h.distinct
  · simp only [hactive, hcounters]
    exact h.window
  · simp only [hactive, hcounters]
    exact h.absent

end SpendTracker

variable {D : Type} {as : List (Action D)} {h : List Spend} {a a' : VaultAccounts D} {env : Env}
  {c : Call D} {p : Spend} {t : SpendTracker}

theorem times_cons (htimes : ∀ q ∈ h, q.time ∈ as.filterMap Action.time) (c : Call D)
    (hp : p.time = env.clock.unixTimestamp) :
    ∀ q ∈ p :: h, q.time ∈ (as ++ [Action.call env c]).filterMap Action.time := by
  intro q hq
  rw [List.filterMap_append]
  rcases List.mem_cons.mp hq with rfl | hq
  · rw [hp]
    exact List.mem_append_right _ List.mem_cons_self
  · exact List.mem_append_left _ (htimes q hq)

/-- The counters hold what was paid to recipients since the vault was created, each payment admitted
under the cap of its time. -/
structure RecipientsHold (as : List (Action D)) (h : List Spend) (t : SpendTracker) : Prop where
  tracks : t.TracksRecipients (h.filterMap Spend.recipientEntry)
  ordered : Ordered (h.filterMap Spend.recipientEntry)
  gated : GatedEach rollingWindowSeconds Spend.recipientEntry (fun p => p.recipientCap.toNat) h
  times : ∀ p ∈ h, p.time ∈ as.filterMap Action.time

theorem recipientsHold_new (as : List (Action D)) (v : Pubkey) :
    RecipientsHold as [] (.empty v) where
  tracks := SpendTracker.tracksRecipients_empty v
  ordered := .nil
  gated := trivial
  times := by simp

theorem RecipientsHold.append (hr : RecipientsHold as h t) (bs : List (Action D)) :
    RecipientsHold (as ++ bs) h t where
  tracks := hr.tracks
  ordered := hr.ordered
  gated := hr.gated
  times p hp := by
    rw [List.filterMap_append]
    exact List.mem_append_left _ (hr.times p hp)

theorem RecipientsHold.entry_le (hr : RecipientsHold as h t)
    (hclock : Chronological (as ++ [.call env c])) :
    ∀ y ∈ h.filterMap Spend.recipientEntry, y.1.1 ≤ env.clock.unixTimestamp := by
  rintro ⟨⟨time, recipient⟩, x⟩ hy
  obtain ⟨q, hq, hentry⟩ := List.mem_filterMap.mp hy
  obtain ⟨-, -, rfl, -⟩ := Spend.of_recipientEntry hentry
  exact hclock.time_le q.time (hr.times q hq)

theorem RecipientsHold.booked (hr : RecipientsHold as h a.tracker)
    (hclock : Chronological (as ++ [.call env c])) (hb : Booked env.clock p a a') :
    RecipientsHold (as ++ [.call env c]) (p :: h) a'.tracker := by
  have hlast := hr.entry_le hclock
  have htimes := times_cons hr.times c hb.time
  cases hb.recipient with
  | @counted recipient u u' hrecipient hcapped hsame hcap hrecord hsame' =>
    have hentry := Spend.recipientEntry_eq hcapped hrecipient
    rw [hb.time] at hentry
    have htracks := hr.tracks.congr hsame
    obtain ⟨hpos, hstep⟩ :=
      SpendTracker.recordRecipientSpend_ok hrecord htracks.count htracks.distinct
    rw [htracks.getRecipientSpend_eq hpos hlast] at hcap
    refine ⟨?_, ?_, ⟨fun time k x hsome _ => ?_, hr.gated⟩, htimes⟩
    · rw [List.filterMap_cons_some hentry]
      exact (htracks.step hlast hstep).congr hsame'
    · rw [List.filterMap_cons_some hentry]
      exact ordered_cons.mpr ⟨hlast, hr.ordered⟩
    · obtain ⟨hkey, rfl⟩ := Prod.mk.inj (Option.some.inj (hentry.symm.trans hsome))
      obtain ⟨rfl, rfl⟩ := Prod.mk.inj hkey
      exact hcap
  | skipped hskipped hsame =>
    have hentry : p.recipientEntry = none := by
      unfold Spend.recipientEntry
      rcases hskipped with hnone | hopen
      · rw [hnone]
        simp
      · exact if_neg hopen
    refine ⟨?_, ?_, ⟨fun time k x hsome _ => ?_, hr.gated⟩, htimes⟩
    · rw [List.filterMap_cons_none hentry]
      exact hr.tracks.congr hsame
    · rw [List.filterMap_cons_none hentry]
      exact hr.ordered
    · cases hentry.symm.trans hsome

end Recipients

section Protocols

namespace SpendTracker

variable {t t' : SpendTracker} {hist : List ((ℤ × Pubkey) × ℕ)} {clock : Clock}
  {protocol : Pubkey} {x : UInt64}

theorem saturatingSubI64_lt_numEpochs {y z : ℤ} :
    saturatingSubI64 y z < numEpochs ↔ y - z < numEpochs := by
  rw [saturatingSubI64, clampI64, numEpochs]
  omega

/-- What recording a spend for a protocol does: it goes on with the window of the protocol, or it
opens one in the protocol's own counter or in a free one. -/
inductive ProtocolWindow (t : SpendTracker) (epoch : ℤ) (protocol : Pubkey) (x : UInt64) :
    SpendTracker → Prop
  | accumulated {i : Fin maxAllowedProtocols} {sum : UInt64}
      (hprotocol : (t.protocolCounters i).protocol = protocol)
      (hlasts : epoch - (t.protocolCounters i).windowStart < numEpochs)
      (hsum : sum.toNat = (t.protocolCounters i).windowSpend.toNat + x.toNat) :
      ProtocolWindow t epoch protocol x
        (t.setProtocolCounter i { t.protocolCounters i with windowSpend := sum })
  | opened {i : Fin maxAllowedProtocols}
      (hover : (t.protocolCounters i).protocol = protocol ∧
          (t.protocolCounters i).windowStart + numEpochs ≤ epoch ∨
        (t.protocolCounters i).protocol = Pubkey.default ∧
          ∀ j, (t.protocolCounters j).protocol ≠ protocol) :
      ProtocolWindow t epoch protocol x (t.setProtocolCounter i ⟨protocol, epoch, x⟩)

theorem recordProtocolSpend_window (h : t.recordProtocolSpend clock protocol x = .ok t') :
    0 < clock.unixTimestamp ∧ t.ProtocolWindow (epochOf clock.unixTimestamp) protocol x t' := by
  simp only [recordProtocolSpend, ensure_seq_ok_iff] at h
  obtain ⟨hpos, h⟩ := h
  refine ⟨hpos, ?_⟩
  split at h
  · rename_i i hfind
    have hprotocol : (t.protocolCounters i).protocol = protocol := by
      simpa using (Fin.find?_eq_some_iff.mp hfind).1
    split at h
    · rename_i hover
      obtain rfl := pure_ok_iff.mp h
      have hend := saturatingSubI64_lt_numEpochs.not.mp hover.not_gt
      subst hprotocol
      refine .opened (.inl ⟨rfl, ?_⟩)
      change _ ≤ clock.unixTimestamp / epochDuration
      omega
    · rename_i hlasts
      simp only [someOr_seq_ok_iff, checkedAdd_eq_some, pure_ok_iff] at h
      obtain ⟨sum, hsum, rfl⟩ := h
      exact .accumulated hprotocol (saturatingSubI64_lt_numEpochs.mp (not_le.mp hlasts)) hsum
  · rename_i hnone
    have hother : ∀ j, (t.protocolCounters j).protocol ≠ protocol := by
      simpa using Fin.find?_eq_none_iff.mp hnone
    split at h
    · rename_i i hfree
      obtain rfl := pure_ok_iff.mp h
      exact .opened (.inr ⟨by simpa using (Fin.find?_eq_some_iff.mp hfree).1, hother⟩)
    · exact absurd h fail_ne_ok

/-- The counters hold the history of spends through protocols: a counter in use has the window of
its protocol, and a protocol without a counter has none. A counter of the default key is free. -/
structure TracksProtocols (t : SpendTracker) (hist : List ((ℤ × Pubkey) × ℕ)) : Prop where
  distinct : ∀ i j, (t.protocolCounters i).protocol ≠ Pubkey.default →
    (t.protocolCounters j).protocol = (t.protocolCounters i).protocol → j = i
  window : ∀ i, (t.protocolCounters i).protocol ≠ Pubkey.default →
    FixedWindow.window numEpochs (t.protocolCounters i).protocol hist =
      some ((t.protocolCounters i).windowStart, (t.protocolCounters i).windowSpend.toNat)
  absent : ∀ protocol ≠ Pubkey.default, (∀ i, (t.protocolCounters i).protocol ≠ protocol) →
    FixedWindow.window numEpochs protocol hist = none

theorem tracksProtocols_empty (v : Pubkey) : (empty v).TracksProtocols [] where
  distinct _ _ hused := absurd rfl hused
  window _ hused := absurd rfl hused
  absent _ _ _ := rfl

theorem TracksProtocols.congr (h : t.TracksProtocols hist)
    (hsame : t'.protocolCounters = t.protocolCounters) : t'.TracksProtocols hist := by
  constructor
  · rw [hsame]
    exact h.distinct
  · rw [hsame]
    exact h.window
  · rw [hsame]
    exact h.absent

theorem setProtocolCounter_self (t : SpendTracker) (i : Fin maxAllowedProtocols)
    (c : ProtocolSpendCounter) : (t.setProtocolCounter i c).protocolCounters i = c :=
  Function.update_self ..

theorem setProtocolCounter_of_ne (t : SpendTracker) {i j : Fin maxAllowedProtocols}
    (c : ProtocolSpendCounter) (hne : j ≠ i) :
    (t.setProtocolCounter i c).protocolCounters j = t.protocolCounters j :=
  Function.update_of_ne hne ..

/-- A counter that was the protocol's own, or free with no counter of the protocol elsewhere, takes
the window that the protocol has now. -/
theorem TracksProtocols.set (ht : t.TracksProtocols hist) {i : Fin maxAllowedProtocols}
    {epoch s : ℤ} {sum : UInt64}
    (hown : (t.protocolCounters i).protocol = protocol ∨
      (t.protocolCounters i).protocol = Pubkey.default ∧
        ∀ j, (t.protocolCounters j).protocol ≠ protocol)
    (hwindow : protocol ≠ Pubkey.default → FixedWindow.window numEpochs protocol
      (((epoch, protocol), x.toNat) :: hist) = some (s, sum.toNat)) :
    (t.setProtocolCounter i ⟨protocol, s, sum⟩).TracksProtocols
      (((epoch, protocol), x.toNat) :: hist) := by
  -- no other counter has the protocol
  have hothers : protocol ≠ Pubkey.default → ∀ j, j ≠ i →
      (t.protocolCounters j).protocol ≠ protocol := by
    intro hused j hji
    rcases hown with hown | ⟨-, hnone⟩
    · exact fun hsame => hji (ht.distinct i j (hown ▸ hused) (hsame.trans hown.symm))
    · exact hnone j
  constructor
  · intro j k hused hsame
    rcases eq_or_ne j i with rfl | hji
    · rw [setProtocolCounter_self] at hused hsame
      by_contra hkj
      rw [setProtocolCounter_of_ne t _ hkj] at hsame
      exact hothers hused k hkj hsame
    · rw [setProtocolCounter_of_ne t _ hji] at hused hsame
      rcases eq_or_ne k i with rfl | hki
      · rw [setProtocolCounter_self] at hsame
        exact absurd hsame.symm (hothers (fun hfree => hused (hsame.symm.trans hfree)) j hji)
      · rw [setProtocolCounter_of_ne t _ hki] at hsame
        exact ht.distinct j k hused hsame
  · intro j hused
    rcases eq_or_ne j i with rfl | hji
    · rw [setProtocolCounter_self] at hused ⊢
      exact hwindow hused
    · rw [setProtocolCounter_of_ne t _ hji] at hused ⊢
      rw [window_cons_of_ne]
      · exact ht.window j hused
      · rintro rfl
        exact hothers hused j hji rfl
  · intro other hused hnone
    have hne : protocol ≠ other := fun hsame => hnone i (by rw [setProtocolCounter_self, hsame])
    rw [window_cons_of_ne hne]
    refine ht.absent other hused fun j hj => ?_
    rcases eq_or_ne j i with rfl | hji
    · rcases hown with hown | ⟨hfree, -⟩
      · exact hne (hown.symm.trans hj)
      · exact hused (hj.symm.trans hfree)
    · exact hnone j (by rw [setProtocolCounter_of_ne t _ hji, hj])

theorem TracksProtocols.step (ht : t.TracksProtocols hist) {epoch : ℤ}
    (hstep : t.ProtocolWindow epoch protocol x t') :
    t'.TracksProtocols (((epoch, protocol), x.toNat) :: hist) := by
  cases hstep with
  | @accumulated i sum hprotocol hlasts hsum =>
    subst hprotocol
    refine ht.set (.inl rfl) fun hused => ?_
    rw [hsum]
    exact window_cons_of_lt (ht.window i hused) hlasts
  | @opened i hover =>
    refine ht.set (hover.imp And.left id) fun hused => window_cons_of_le fun start sum hw => ?_
    rcases hover with ⟨rfl, hend⟩ | ⟨-, hnone⟩
    · obtain ⟨rfl, -⟩ := Prod.mk.inj (Option.some.inj (hw.symm.trans (ht.window i hused)))
      exact hend
    · exact nomatch hw.symm.trans (ht.absent protocol hused hnone)

theorem TracksProtocols.getProtocolSpend_eq (ht : t.TracksProtocols hist)
    (hused : protocol ≠ Pubkey.default) (hpos : 0 < clock.unixTimestamp) :
    (t.getProtocolSpend clock protocol).toNat =
      current numEpochs protocol (epochOf clock.unixTimestamp) hist := by
  rw [getProtocolSpend, if_neg (not_le.mpr hpos), current]
  split
  · rename_i hnone
    have hother : ∀ j, (t.protocolCounters j).protocol ≠ protocol := by
      simpa using Fin.find?_eq_none_iff.mp hnone
    rw [ht.absent protocol hused hother]
    rfl
  · rename_i i hfind
    have hprotocol : (t.protocolCounters i).protocol = protocol := by
      simpa using (Fin.find?_eq_some_iff.mp hfind).1
    have hwindow := ht.window i (hprotocol ▸ hused)
    rw [hprotocol] at hwindow
    simp only [hwindow, saturatingSubI64_lt_numEpochs]
    change (if epochOf _ - _ < _ then _ else _ : UInt64).toNat = _
    split <;> rfl

end SpendTracker

def Spend.protocolEntry (p : Spend) : Option ((ℤ × Pubkey) × ℕ) :=
  if p.protocolCounted then p.protocol.map fun k => ((epochOf p.time, k), p.amount.toNat) else none

/-- The cap that a spend is held against for its protocol. The default key marks a free counter and
has no cap of its own. -/
def Spend.protocolLimit (p : Spend) : ℕ :=
  if p.protocol = some Pubkey.default then 0 else p.protocolCap.toNat

variable {D : Type} {as : List (Action D)} {h : List Spend} {a a' : VaultAccounts D} {env : Env}
  {c : Call D} {p : Spend} {t : SpendTracker} {protocol : Pubkey}

theorem Spend.protocolEntry_eq (hcounted : p.protocolCounted = true)
    (hprotocol : p.protocol = some protocol) :
    p.protocolEntry = some ((epochOf p.time, protocol), p.amount.toNat) := by
  rw [protocolEntry, if_pos hcounted, hprotocol]
  rfl

theorem Spend.of_protocolEntry {time : ℤ} {x : ℕ}
    (hentry : p.protocolEntry = some ((time, protocol), x)) :
    p.protocol = some protocol ∧ epochOf p.time = time ∧ p.amount.toNat = x := by
  unfold protocolEntry at hentry
  split at hentry
  · obtain ⟨k, hprotocol, hread⟩ := Option.map_eq_some_iff.mp hentry
    obtain ⟨hkey, rfl⟩ := Prod.mk.inj hread
    obtain ⟨rfl, rfl⟩ := Prod.mk.inj hkey
    exact ⟨hprotocol, rfl, rfl⟩
  · cases hentry

/-- The counters hold what was spent through protocols since the vault was created, each spend
admitted under the cap of its time. -/
structure ProtocolsHold (as : List (Action D)) (h : List Spend) (t : SpendTracker) : Prop where
  tracks : t.TracksProtocols (h.filterMap Spend.protocolEntry)
  ordered : Ordered (h.filterMap Spend.protocolEntry)
  gated : GatedEach numEpochs Spend.protocolEntry Spend.protocolLimit h
  counted : ∀ p ∈ h, 0 < p.protocolCap → p.protocolCounted = true
  times : ∀ p ∈ h, p.time ∈ as.filterMap Action.time

theorem protocolsHold_new (as : List (Action D)) (v : Pubkey) : ProtocolsHold as [] (.empty v) where
  tracks := SpendTracker.tracksProtocols_empty v
  ordered := .nil
  gated := trivial
  counted := by simp
  times := by simp

theorem ProtocolsHold.append (hr : ProtocolsHold as h t) (bs : List (Action D)) :
    ProtocolsHold (as ++ bs) h t where
  tracks := hr.tracks
  ordered := hr.ordered
  gated := hr.gated
  counted := hr.counted
  times p hp := by
    rw [List.filterMap_append]
    exact List.mem_append_left _ (hr.times p hp)

theorem ProtocolsHold.booked (hr : ProtocolsHold as h a.tracker)
    (hclock : Chronological (as ++ [.call env c])) (hb : Booked env.clock p a a') :
    ProtocolsHold (as ++ [.call env c]) (p :: h) a'.tracker := by
  have htimes := times_cons hr.times c hb.time
  have hcapped := List.forall_mem_cons.mpr ⟨hb.capped, hr.counted⟩
  cases hb.protocol with
  | @counted protocol u hprotocol hcounted hcap hrecord hsame =>
    have hentry := Spend.protocolEntry_eq hcounted hprotocol
    obtain ⟨hpos, hstep⟩ := SpendTracker.recordProtocolSpend_window hrecord
    rw [hb.time] at hentry
    refine ⟨?_, ?_, ⟨fun time k x hsome hlimit => ?_, hr.gated⟩, hcapped, htimes⟩
    · rw [List.filterMap_cons_some hentry]
      exact (hr.tracks.step hstep).congr hsame
    · rw [List.filterMap_cons_some hentry]
      refine ordered_cons.mpr ⟨fun y hy => ?_, hr.ordered⟩
      obtain ⟨⟨time, k⟩, x⟩ := y
      obtain ⟨q, hq, hread⟩ := List.mem_filterMap.mp hy
      obtain ⟨-, rfl, -⟩ := Spend.of_protocolEntry hread
      exact epochOf_mono (hclock.time_le q.time (hr.times q hq))
    · obtain ⟨hkey, rfl⟩ := Prod.mk.inj (Option.some.inj (hentry.symm.trans hsome))
      obtain ⟨rfl, rfl⟩ := Prod.mk.inj hkey
      unfold Spend.protocolLimit at hlimit ⊢
      rw [hprotocol] at hlimit ⊢
      split at hlimit
      · cases hlimit
      · rename_i hnamed
        rw [if_neg hnamed, ← hr.tracks.getProtocolSpend_eq
          (fun hdefault => hnamed (hdefault ▸ rfl)) hpos]
        exact hcap (UInt64.lt_iff_toNat_lt.mpr hlimit)
  | skipped hskipped hsame =>
    have hentry : p.protocolEntry = none := by
      unfold Spend.protocolEntry
      rcases hskipped with hnone | hopen
      · rw [hnone]
        simp
      · rw [hopen]
        rfl
    refine ⟨?_, ?_, ⟨fun time k x hsome _ => ?_, hr.gated⟩, hcapped, htimes⟩
    · rw [List.filterMap_cons_none hentry]
      exact hr.tracks.congr hsame
    · rw [List.filterMap_cons_none hentry]
      exact hr.ordered
    · cases hentry.symm.trans hsome

end Protocols

section Run

variable {D : Type} [Host D] [DecidableEq D] {l₀ l : Ledger D} {as : List (Action D)}
  {h : List Spend}

theorem recipientsHold_run (h₀ : l₀.Genesis) (hrun : Run BookedStep (l₀, []) as (l, h))
    (hclock : Chronological as) : ∀ a ∈ l.live, RecipientsHold as h a.tracker :=
  tracker_of_booked_run h₀ hrun hclock recipientsHold_new (fun _ x _ _ hr => hr.append [x])
    fun hclock hb hr => hr.booked hclock hb

theorem protocolsHold_run (h₀ : l₀.Genesis) (hrun : Run BookedStep (l₀, []) as (l, h))
    (hclock : Chronological as) : ∀ a ∈ l.live, ProtocolsHold as h a.tracker :=
  tracker_of_booked_run h₀ hrun hclock protocolsHold_new (fun _ x _ _ hr => hr.append [x])
    fun hclock hb hr => hr.booked hclock hb

/-- In every run with a clock that does not go back, what a vault has paid to a recipient in any day
in which every payment to it was held against a cap stays within twice the largest of these caps. -/
theorem payments_within_recipient_cap (h₀ : l₀.Genesis) (hrun : Run BookedStep (l₀, []) as (l, h))
    (hclock : Chronological as) (recipient : Pubkey) (u : ℤ) (cap : ℕ)
    (hcap : ∀ p ∈ h, p.recipient = some recipient → u ≤ p.time → p.time ≤ u + 86400 →
      0 < p.recipientCap ∧ p.recipientCap.toNat ≤ cap) :
    total (fun p => p.recipient = some recipient ∧ u ≤ p.time ∧ p.time ≤ u + 86400) (payments h) ≤
      2 * cap := by
  obtain ⟨hordered, hgated⟩ := history_of_booked_run
    (Q := fun h => Ordered (h.filterMap Spend.recipientEntry) ∧
      GatedEach rollingWindowSeconds Spend.recipientEntry (fun p => p.recipientCap.toNat) h)
    ⟨.nil, trivial⟩ (fun hrun hclock a ha => ⟨(recipientsHold_run h₀ hrun hclock a ha).ordered,
      (recipientsHold_run h₀ hrun hclock a ha).gated⟩) hrun hclock
  refine hgated.total_le recipient u hordered (by decide) ?_ ?_
  · rintro p hp ⟨hrecipient, hu, hle⟩
    obtain ⟨hpos, -⟩ := hcap p hp hrecipient hu hle
    exact ⟨p.time, Spend.recipientEntry_eq hpos hrecipient, hu, hle⟩
  · intro p hp time x hentry hu hle
    obtain ⟨hpos, hrecipient, rfl, rfl⟩ := Spend.of_recipientEntry hentry
    obtain ⟨-, hC⟩ := hcap p hp hrecipient hu hle
    exact ⟨UInt64.lt_iff_toNat_lt.mp hpos, hC⟩

/-- The payment of the sample vault under the cap of its recipient. -/
theorem payments_within_recipient_cap_metered :
    ∃ as l, Run BookedStep (emptyLedger, []) as (l, meteredBook) ∧
      total (fun p => p.recipient = some (sampleKey 3) ∧ 1500 ≤ p.time ∧ p.time ≤ 1500 + 86400)
        (payments meteredBook) ≤ 2 * 80 := by
  obtain ⟨hsetup, m, hspends⟩ := run_metered
  have hall := hsetup.append hspends
  have hcaps : ∀ p ∈ meteredBook, 0 < p.recipientCap ∧ p.recipientCap.toNat ≤ 80 := by decide
  exact ⟨_, m, hall, payments_within_recipient_cap genesis_emptyLedger hall chronological_metered
    (sampleKey 3) 1500 80 fun p hp _ _ _ => hcaps p hp⟩

/-- In every run with a clock that does not go back, what a vault has spent through a protocol in
145 consecutive epochs, and so in any day, in which every spend through it was held against a cap of
its own stays within twice the largest of these caps. -/
theorem spends_within_protocol_cap (h₀ : l₀.Genesis) (hrun : Run BookedStep (l₀, []) as (l, h))
    (hclock : Chronological as) (protocol : Pubkey) (hused : protocol ≠ Pubkey.default) (first : ℤ)
    (cap : ℕ) (hcap : ∀ p ∈ h, p.protocol = some protocol → first ≤ epochOf p.time →
      epochOf p.time ≤ first + 144 → 0 < p.protocolCap ∧ p.protocolCap.toNat ≤ cap) :
    total (fun p => p.protocol = some protocol ∧ first ≤ epochOf p.time ∧
      epochOf p.time ≤ first + 144) (charges h) ≤ 2 * cap := by
  obtain ⟨hordered, hgated, hcounted⟩ := history_of_booked_run
    (Q := fun h => Ordered (h.filterMap Spend.protocolEntry) ∧
      GatedEach numEpochs Spend.protocolEntry Spend.protocolLimit h ∧
      ∀ p ∈ h, 0 < p.protocolCap → p.protocolCounted = true)
    ⟨.nil, trivial, by simp⟩ (fun hrun hclock a ha =>
      have hholds := protocolsHold_run h₀ hrun hclock a ha
      ⟨hholds.ordered, hholds.gated, hholds.counted⟩) hrun hclock
  refine hgated.total_le protocol first hordered (by decide) ?_ ?_
  · rintro p hp ⟨hprotocol, hfirst, hle⟩
    obtain ⟨hpos, -⟩ := hcap p hp hprotocol hfirst hle
    exact ⟨epochOf p.time, Spend.protocolEntry_eq (hcounted p hp hpos) hprotocol, hfirst, hle⟩
  · intro p hp time x hentry hfirst hle
    obtain ⟨hprotocol, rfl, rfl⟩ := Spend.of_protocolEntry hentry
    obtain ⟨hpos, hC⟩ := hcap p hp hprotocol hfirst hle
    have hlimit : p.protocolLimit = p.protocolCap.toNat := by
      rw [Spend.protocolLimit, hprotocol, if_neg fun hdefault => hused (Option.some.inj hdefault)]
    rw [hlimit]
    exact ⟨UInt64.lt_iff_toNat_lt.mp hpos, hC⟩

/-- The spend of the sample vault through a protocol under its cap. -/
theorem spends_within_protocol_cap_metered :
    ∃ as l, Run BookedStep (emptyLedger, []) as (l, meteredBook) ∧
      total (fun p => p.protocol = some (sampleKey 60) ∧ 0 ≤ epochOf p.time ∧
        epochOf p.time ≤ 0 + 144) (charges meteredBook) ≤ 2 * 1000 := by
  obtain ⟨hsetup, m, hspends⟩ := run_metered
  have hall := hsetup.append hspends
  have hcaps : ∀ p ∈ meteredBook, p.protocol = some (sampleKey 60) →
      0 < p.protocolCap ∧ p.protocolCap.toNat ≤ 1000 := by decide
  exact ⟨_, m, hall, spends_within_protocol_cap genesis_emptyLedger hall chronological_metered
    (sampleKey 60) (by decide) 0 1000 fun p hp hprotocol _ _ => hcaps p hp hprotocol⟩

end Run

end Sigil
