import Sigil.Instructions.FinalizeSession
import Sigil.Spending.TrackerHistory

/-! # Charging a spend

The two spending paths charge the same counters. A charge that succeeds has recorded one and the
same amount in each of them, and the amount was within what each of them had left.
-/

namespace Sigil

open Machine Guard TokenLedger

section Counters

variable {D : Type} {a a' : VaultAccounts D} {clock : Clock} {agent protocol recipient : Pubkey}
  {amount limit : UInt64}

/-- The amount went into the tracker and into the agent's slot, within the caps. -/
structure SpendRecorded (clock : Clock) (agent : Pubkey) (amount : UInt64)
    (a a' : VaultAccounts D) : Prop where
  tracker : ∃ t, a.tracker.recordSpend clock amount = .ok t ∧ a'.tracker.buckets = t.buckets
  slot : ∀ i ∈ a.overlay.findAgentSlot agent, ∃ o,
    a.overlay.recordAgentContribution clock i amount = .ok o ∧ a'.overlay.entries = o.entries
  transaction : amount ≤ a.policy.maxTransactionSizeUsd
  daily : (a.tracker.getRolling24hUsd clock).toNat + amount.toNat ≤
    a.policy.dailySpendingCapUsd.toNat
  limit : ∃ entry, a.vault.getAgent agent = some entry ∧ (0 < entry.spendingLimitUsd →
    ∃ i, a.overlay.findAgentSlot agent = some i ∧
      (a.overlay.getAgentRolling24hUsd clock i).toNat + amount.toNat ≤
        entry.spendingLimitUsd.toNat)

/-- The amount went into the counter of the protocol, within its cap. -/
structure ProtocolRecorded (clock : Clock) (protocol : Pubkey) (amount : UInt64)
    (a a' : VaultAccounts D) : Prop where
  counter : a.policy.hasProtocolCaps = true → ∃ t,
    a.tracker.recordProtocolSpend clock protocol amount = .ok t ∧
      a'.tracker.protocolCounters = t.protocolCounters
  cap : ∀ cap ∈ a.policy.getProtocolCap protocol, 0 < cap →
    (a.tracker.getProtocolSpend clock protocol).toNat + amount.toNat ≤ cap.toNat

theorem recordProtocolSpend_of_ring {t t' : SpendTracker} {buckets : Fin numEpochs → EpochBucket}
    {epoch : ℤ}
    (h : { t with buckets := buckets, lastWriteEpoch := epoch }.recordProtocolSpend clock protocol
      amount = .ok t') :
    t'.buckets = buckets ∧ ∃ u, t.recordProtocolSpend clock protocol amount = .ok u ∧
      t'.protocolCounters = u.protocolCounters := by
  simp only [SpendTracker.recordProtocolSpend, ensure_seq_ok_iff] at h ⊢
  obtain ⟨hpos, h⟩ := h
  simp only [hpos, true_and]
  split at h
  · rename_i i hfound
    simp only [hfound]
    split at h
    · rename_i hgap
      obtain rfl := pure_ok_iff.mp h
      exact ⟨rfl, _, if_pos hgap, rfl⟩
    · rename_i hgap
      simp only [someOr_seq_ok_iff, pure_ok_iff] at h
      obtain ⟨spend, hspend, rfl⟩ := h
      rw [if_neg hgap]
      exact ⟨rfl, _, someOr_seq_ok_iff.mpr ⟨spend, hspend, rfl⟩, rfl⟩
  · rename_i hnone
    simp only [hnone]
    split at h
    · rename_i i hfree
      obtain rfl := pure_ok_iff.mp h
      simp only [hfree]
      exact ⟨rfl, _, rfl, rfl⟩
    · exact absurd h fail_ne_ok

theorem recordForProtocol_ok {policy : PolicyConfig D} {t recorded t' : SpendTracker}
    (hrecorded : t.recordSpend clock amount = .ok recorded)
    (h : recordForProtocol policy recorded clock protocol amount = .ok t') :
    t'.buckets = recorded.buckets ∧ (policy.hasProtocolCaps = true →
      ∃ u, t.recordProtocolSpend clock protocol amount = .ok u ∧
        t'.protocolCounters = u.protocolCounters) := by
  obtain ⟨-, total, -, rfl⟩ := SpendTracker.recordSpend_ok hrecorded
  unfold recordForProtocol at h
  split at h
  · obtain ⟨hbuckets, hcounter⟩ := recordProtocolSpend_of_ring h
    exact ⟨hbuckets, fun _ => hcounter⟩
  · rename_i hcaps
    cases h
    exact ⟨rfl, fun hset => absurd hset hcaps⟩

theorem checkProtocolCap_ok {policy : PolicyConfig D} {t : SpendTracker} {u : Unit}
    (h : checkProtocolCap policy t clock protocol amount = .ok u) :
    ∀ cap ∈ policy.getProtocolCap protocol, 0 < cap →
      (t.getProtocolSpend clock protocol).toNat + amount.toNat ≤ cap.toNat := by
  intro cap hcap hpos
  unfold checkProtocolCap at h
  rw [Option.mem_def.mp hcap] at h
  simp only [if_pos hpos, checkCap_ok_iff] at h
  exact h

structure SlotCharged (clock : Clock) (agent : Pubkey) (amount limit : UInt64)
    (o o' : AgentSpendOverlay) : Prop where
  slot : ∀ i ∈ o.findAgentSlot agent, ∃ charged,
    o.recordAgentContribution clock i amount = .ok charged ∧ o'.entries = charged.entries
  limit : 0 < limit → ∃ i, o.findAgentSlot agent = some i ∧
    (o.getAgentRolling24hUsd clock i).toNat + amount.toNat ≤ limit.toNat

theorem chargeSlot_ok {o o' : AgentSpendOverlay} {i : Fin maxOverlayEntries}
    (h : o.chargeSlot clock i amount limit = .ok o') :
    o.recordAgentContribution clock i amount = .ok o' ∧ (0 < limit →
      (o.getAgentRolling24hUsd clock i).toNat + amount.toNat ≤ limit.toNat) := by
  simp only [AgentSpendOverlay.chargeSlot, seq_ok_iff] at h
  obtain ⟨⟨⟩, hcheck, hrecord⟩ := h
  refine ⟨hrecord, fun hpos => ?_⟩
  rwa [AgentSpendOverlay.checkAgentLimit, if_pos hpos, checkCap_ok_iff] at hcheck

theorem SlotCharged.of_slot {o charged o' : AgentSpendOverlay} {i : Fin maxOverlayEntries}
    (hi : o.findAgentSlot agent = some i) (h : o.chargeSlot clock i amount limit = .ok charged)
    (hentries : o'.entries = charged.entries) : SlotCharged clock agent amount limit o o' := by
  obtain ⟨hrecord, hlimit⟩ := chargeSlot_ok h
  refine ⟨fun j hj => ?_, fun hpos => ⟨i, hi, hlimit hpos⟩⟩
  cases hi.symm.trans hj
  exact ⟨charged, hrecord, hentries⟩

theorem SlotCharged.of_no_slot {o o' : AgentSpendOverlay} (hi : o.findAgentSlot agent = none)
    (h : (if 0 < limit then fail .agentSlotNotFound else .ok o : Result AgentSpendOverlay) =
      .ok o') : SlotCharged clock agent amount limit o o' := by
  split at h
  · exact absurd h fail_ne_ok
  · rename_i hzero
    refine ⟨fun i hmem => ?_, fun hpos => absurd hpos hzero⟩
    rw [hi] at hmem
    exact absurd hmem nofun

theorem chargeAgent_ok {o o' : AgentSpendOverlay}
    (h : o.chargeAgent clock agent amount limit = .ok o') :
    SlotCharged clock agent amount limit o o' := by
  unfold AgentSpendOverlay.chargeAgent at h
  split at h
  · rename_i i hi
    exact .of_slot hi h rfl
  · rename_i hnone
    exact .of_no_slot hnone h

theorem chargeAgentLifetime_ok {o o' : AgentSpendOverlay}
    (h : o.chargeAgentLifetime clock agent amount limit = .ok o') :
    SlotCharged clock agent amount limit o o' := by
  unfold AgentSpendOverlay.chargeAgentLifetime at h
  split at h
  · rename_i i hi
    simp only [AgentSpendOverlay.countLifetime, seq_ok_iff, pure_ok_iff] at h
    obtain ⟨charged, hcharged, spend, -, count, -, rfl⟩ := h
    exact .of_slot hi hcharged rfl
  · rename_i hnone
    exact .of_no_slot hnone h

theorem chargeSession_recorded {s : SessionAuthority}
    (h : a.chargeSession clock s amount = .ok a') :
    SpendRecorded clock s.agent amount a a' ∧
      ProtocolRecorded clock s.authorizedProtocol amount a a' := by
  obtain ⟨entry, overlay, recorded, tracker, htransaction, hdaily, hentry, hoverlay,
    hcap, hrecorded, htracker, rfl⟩ := chargeSession_ok h
  obtain ⟨hslot, hlimit⟩ := chargeAgentLifetime_ok hoverlay
  obtain ⟨hbuckets, hcounter⟩ := recordForProtocol_ok hrecorded htracker
  exact ⟨⟨⟨recorded, hrecorded, hbuckets⟩, hslot, htransaction, checkCap_ok_iff.mp hdaily, entry,
    hentry, hlimit⟩, ⟨hcounter, checkProtocolCap_ok hcap⟩⟩

theorem recordRecipientSpend_eq {t t' : SpendTracker}
    (h : t.recordRecipientSpend clock recipient amount = .ok t') :
    ∃ counters count, t' = { t with perRecipient := counters, perRecipientCount := count } := by
  simp only [SpendTracker.recordRecipientSpend, ensure_seq_ok_iff] at h
  obtain ⟨-, h⟩ := h
  split at h
  · split at h
    · exact ⟨_, _, (pure_ok_iff.mp h).symm⟩
    · simp only [seq_ok_iff, pure_ok_iff] at h
      obtain ⟨c, -, rfl⟩ := h
      exact ⟨_, _, rfl⟩
  · split at h
    · exact ⟨_, _, (pure_ok_iff.mp h).symm⟩
    · simp only [seq_ok_iff, pure_ok_iff] at h
      obtain ⟨i, -, rfl⟩ := h
      exact ⟨_, _, rfl⟩

theorem recordRecipientSpend_ok {t t' : SpendTracker}
    (h : t.recordRecipientSpend clock recipient amount = .ok t') :
    t'.buckets = t.buckets ∧ t'.protocolCounters = t.protocolCounters := by
  obtain ⟨counters, count, rfl⟩ := recordRecipientSpend_eq h
  exact ⟨rfl, rfl⟩

theorem chargeRecipient_ok {policy : PolicyConfig D} {t t' : SpendTracker}
    (h : chargeRecipient policy t clock recipient amount = .ok t') :
    t'.buckets = t.buckets ∧ t'.protocolCounters = t.protocolCounters := by
  unfold chargeRecipient at h
  split at h
  · simp only [seq_ok_iff] at h
    obtain ⟨-, -, h⟩ := h
    exact recordRecipientSpend_ok h
  · cases h
    exact ⟨rfl, rfl⟩

theorem chargeSessionRecipient_ok [Host D] {env : Env} {l : Ledger D} {policy : PolicyConfig D}
    {t t' : SpendTracker} {remaining : List AccountMeta}
    (h : chargeSessionRecipient env l policy t remaining amount = .ok t') :
    t'.buckets = t.buckets ∧ t'.protocolCounters = t.protocolCounters := by
  unfold chargeSessionRecipient at h
  split at h
  · simp only [seq_ok_iff] at h
    obtain ⟨-, -, defiIx, -, found, -, h⟩ := h
    split at h
    · exact chargeRecipient_ok h
    · cases h
      exact ⟨rfl, rfl⟩
  · cases h
    exact ⟨rfl, rfl⟩

theorem SpendRecorded.congr {b : VaultAccounts D} (h : SpendRecorded clock agent amount a b)
    (htracker : a'.tracker.buckets = b.tracker.buckets)
    (hoverlay : a'.overlay.entries = b.overlay.entries) :
    SpendRecorded clock agent amount a a' := by
  obtain ⟨t, ht, hbuckets⟩ := h.tracker
  refine ⟨⟨t, ht, htracker.trans hbuckets⟩, fun i hi => ?_, h.transaction, h.daily, h.limit⟩
  obtain ⟨o, ho, hentries⟩ := h.slot i hi
  exact ⟨o, ho, hoverlay.trans hentries⟩

theorem ProtocolRecorded.congr {b : VaultAccounts D}
    (h : ProtocolRecorded clock protocol amount a b)
    (htracker : a'.tracker.protocolCounters = b.tracker.protocolCounters) :
    ProtocolRecorded clock protocol amount a a' := by
  refine ⟨fun hcaps => ?_, h.cap⟩
  obtain ⟨t, ht, hcounters⟩ := h.counter hcaps
  exact ⟨t, ht, htracker.trans hcounters⟩

theorem chargeTransfer_recorded {entry : AgentEntry} (hentry : a.vault.getAgent agent = some entry)
    (h : a.chargeTransfer clock agent recipient amount entry = .ok a') :
    SpendRecorded clock agent amount a a' := by
  obtain ⟨overlay, recorded, tracker, htransaction, hdaily, hoverlay, hrecorded, htracker, rfl⟩ :=
    chargeTransfer_ok h
  obtain ⟨hslot, hlimit⟩ := chargeAgent_ok hoverlay
  exact ⟨⟨recorded, hrecorded, (chargeRecipient_ok htracker).1⟩, hslot, htransaction,
    checkCap_ok_iff.mp hdaily, entry, hentry, hlimit⟩

theorem getAgent_updateAgent {f : AgentEntry → AgentEntry} (hf : ∀ e, (f e).pubkey = e.pubkey)
    (v : AgentVault) : (v.updateAgent agent f).getAgent agent = (v.getAgent agent).map f :=
  FirstMatch.find?_modifyFirst_self AgentEntry.pubkey hf

theorem findAgentSlot_noteAction (o : AgentSpendOverlay) (agent other : Pubkey) (now : ℤ) :
    (o.noteAction agent now).findAgentSlot other = o.findAgentSlot other ∧
      (o.noteAction agent now).entries = o.entries := by
  unfold AgentSpendOverlay.noteAction
  split <;> exact ⟨rfl, rfl⟩

theorem recordAgentContribution_of_entries {o o' u : AgentSpendOverlay} {i : Fin maxOverlayEntries}
    (hentries : o'.entries = o.entries) (h : o'.recordAgentContribution clock i amount = .ok u) :
    ∃ v, o.recordAgentContribution clock i amount = .ok v ∧ u.entries = v.entries := by
  simp only [AgentSpendOverlay.recordAgentContribution, seq_ok_iff, pure_ok_iff] at h ⊢
  obtain ⟨entry, hentry, rfl⟩ := h
  rw [hentries] at hentry
  exact ⟨_, ⟨entry, hentry, rfl⟩, by rw [hentries]⟩

theorem SpendRecorded.of_opened {now : ℤ}
    (h : SpendRecorded clock agent amount (a.opened agent now) a') :
    SpendRecorded clock agent amount a a' := by
  obtain ⟨hslot, hentries⟩ := findAgentSlot_noteAction a.overlay agent agent now
  refine ⟨h.tracker, fun i hi => ?_, h.transaction, h.daily, ?_⟩
  · obtain ⟨o, ho, heq⟩ := h.slot i (hslot.trans hi)
    obtain ⟨u, hu, hsame⟩ := recordAgentContribution_of_entries hentries ho
    exact ⟨u, hu, heq.trans hsame⟩
  · obtain ⟨entry, hentry, hlimit⟩ := h.limit
    obtain ⟨original, horiginal, rfl⟩ := Option.map_eq_some_iff.mp
      ((getAgent_updateAgent (by exact fun _ => rfl) _).symm.trans hentry)
    refine ⟨original, horiginal, fun hpos => ?_⟩
    obtain ⟨i, hi, hle⟩ := hlimit hpos
    refine ⟨i, hslot.symm.trans hi, ?_⟩
    have hrolling : (a.opened agent now).overlay.getAgentRolling24hUsd clock i =
        a.overlay.getAgentRolling24hUsd clock i :=
      congrArg (fun entries => (entries i).rolling24hUsd clock) hentries
    rwa [hrolling] at hle

end Counters

end Sigil
