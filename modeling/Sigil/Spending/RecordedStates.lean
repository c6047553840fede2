import Sigil.Spending.Charges
import Sigil.System.Frame

/-! # The states of the spend accounts

The tracker and the overlay are written by a few operations only. Whatever the clocks of the
operations were, every epoch they leave behind is the epoch of some time that a clock can show.
-/

namespace Sigil

open Machine Guard Trace

section Epochs

/-- An epoch of a clock that counts seconds in a signed word from zero on. -/
structure IsEpoch (duration epoch : ℤ) : Prop where
  nonneg : 0 ≤ epoch
  start_le : epoch * duration ≤ 2 ^ 63 - 1

theorem isEpoch_zero (duration : ℤ) : IsEpoch duration 0 := ⟨le_rfl, by omega⟩

theorem isEpoch_div {d : ℤ} (hd : 0 < d) {clock : Clock} (hpos : 0 < clock.unixTimestamp) :
    IsEpoch d (clock.unixTimestamp / d) where
  nonneg := Int.ediv_nonneg hpos.le hd.le
  start_le := by
    have hle := Int.ediv_mul_le clock.unixTimestamp hd.ne'
    have hi := clock.inI64
    unfold InI64 at hi
    omega

end Epochs

namespace SpendTracker

/-- A tracker that the operations on trackers lead to. -/
inductive Reached : SpendTracker → Prop
  | empty (vault : Pubkey) : Reached (.empty vault)
  | spend {t t' : SpendTracker} {clock : Clock} {usdAmount : UInt64} (h : Reached t)
      (hr : t.recordSpend clock usdAmount = .ok t') : Reached t'
  | protocol {t t' : SpendTracker} {clock : Clock} {protocolId : Pubkey} {usdAmount : UInt64}
      (h : Reached t) (hr : t.recordProtocolSpend clock protocolId usdAmount = .ok t') : Reached t'
  | recipient {t t' : SpendTracker} {clock : Clock} {recipient : Pubkey} {usdAmount : UInt64}
      (h : Reached t) (hr : t.recordRecipientSpend clock recipient usdAmount = .ok t') : Reached t'

structure InEpochs (t : SpendTracker) : Prop where
  buckets : ∀ i, IsEpoch epochDuration (t.buckets i).epochId
  counters : ∀ i, IsEpoch epochDuration (t.protocolCounters i).windowStart
  last : IsEpoch epochDuration t.lastWriteEpoch

variable {t t' : SpendTracker} {clock : Clock} {usdAmount : UInt64}

theorem InEpochs.recordSpend (h : t.InEpochs) (hr : t.recordSpend clock usdAmount = .ok t') :
    t'.InEpochs := by
  simp only [SpendTracker.recordSpend, seq_ok_iff, ensure_ok_iff, someOr_ok_iff, exists_and_left,
    exists_const, pure_ok_iff] at hr
  obtain ⟨hpos, amount, -, rfl⟩ := hr
  have hepoch : IsEpoch epochDuration (clock.unixTimestamp / epochDuration) :=
    isEpoch_div (by decide) hpos
  refine ⟨(Function.forall_update_iff _ fun _ (b : EpochBucket) => IsEpoch _ b.epochId).mpr
    ⟨?_, fun i _ => h.buckets i⟩, h.counters, hepoch⟩
  dsimp only
  split
  · exact hepoch
  · exact h.buckets _

theorem InEpochs.setProtocolCounter (h : t.InEpochs) {i : Fin maxAllowedProtocols}
    {c : ProtocolSpendCounter} (hc : IsEpoch epochDuration c.windowStart) :
    (t.setProtocolCounter i c).InEpochs :=
  ⟨h.buckets,
    (Function.forall_update_iff _ fun _ (c : ProtocolSpendCounter) => IsEpoch _ c.windowStart).mpr
      ⟨hc, fun j _ => h.counters j⟩, h.last⟩

theorem InEpochs.recordProtocolSpend (h : t.InEpochs) {protocolId : Pubkey}
    (hr : t.recordProtocolSpend clock protocolId usdAmount = .ok t') : t'.InEpochs := by
  simp only [SpendTracker.recordProtocolSpend, ensure_seq_ok_iff] at hr
  obtain ⟨hpos, hr⟩ := hr
  have hepoch : IsEpoch epochDuration (clock.unixTimestamp / epochDuration) :=
    isEpoch_div (by decide) hpos
  split at hr
  · split at hr
    · obtain rfl := pure_ok_iff.mp hr
      exact h.setProtocolCounter hepoch
    · simp only [someOr_seq_ok_iff, pure_ok_iff] at hr
      obtain ⟨spend, -, rfl⟩ := hr
      exact h.setProtocolCounter (h.counters _)
  · split at hr
    · obtain rfl := pure_ok_iff.mp hr
      exact h.setProtocolCounter hepoch
    · exact absurd hr fail_ne_ok

theorem InEpochs.recordRecipientSpend (h : t.InEpochs) {recipient : Pubkey}
    (hr : t.recordRecipientSpend clock recipient usdAmount = .ok t') : t'.InEpochs := by
  obtain ⟨counters, count, rfl⟩ := recordRecipientSpend_eq hr
  exact ⟨h.buckets, h.counters, h.last⟩

theorem Reached.inEpochs (h : t.Reached) : t.InEpochs := by
  induction h with
  | empty => exact ⟨fun _ => isEpoch_zero _, fun _ => isEpoch_zero _, isEpoch_zero _⟩
  | spend _ hr ih => exact ih.recordSpend hr
  | protocol _ hr ih => exact ih.recordProtocolSpend hr
  | recipient _ hr ih => exact ih.recordRecipientSpend hr

theorem Reached.chargeRecipient {D : Type} {policy : PolicyConfig D} {recipient : Pubkey}
    (h : t.Reached) (hr : chargeRecipient policy t clock recipient usdAmount = .ok t') :
    t'.Reached := by
  unfold Sigil.chargeRecipient at hr
  split at hr
  · obtain ⟨-, -, hrecord⟩ := seq_ok_iff.mp hr
    exact h.recipient hrecord
  · cases hr
    exact h

theorem Reached.chargeSessionRecipient {D : Type} [Host D] {env : Env} {l : Ledger D}
    {policy : PolicyConfig D} {remaining : List AccountMeta} (h : t.Reached)
    (hr : chargeSessionRecipient env l policy t remaining usdAmount = .ok t') : t'.Reached := by
  unfold Sigil.chargeSessionRecipient at hr
  split at hr
  · simp only [seq_ok_iff] at hr
    obtain ⟨-, -, defiIx, -, found, -, hr⟩ := hr
    split at hr
    · exact h.chargeRecipient hr
    · cases hr
      exact h
  · cases hr
    exact h

theorem Reached.recordForProtocol {D : Type} {policy : PolicyConfig D} {protocol : Pubkey}
    (h : t.Reached) (hr : recordForProtocol policy t clock protocol usdAmount = .ok t') :
    t'.Reached := by
  unfold Sigil.recordForProtocol at hr
  split at hr
  · exact h.protocol hr
  · cases hr
    exact h

end SpendTracker

namespace AgentSpendOverlay

/-- An overlay that the operations on overlays lead to, whatever they do beside the entries. -/
inductive Reached : AgentSpendOverlay → Prop
  | empty (vault : Pubkey) : Reached (.empty vault)
  | claim {o o' : AgentSpendOverlay} {agent : Pubkey} (h : Reached o)
      (hr : o.claimSlot agent = some o') : Reached o'
  | release {o : AgentSpendOverlay} (i : Fin maxOverlayEntries) (h : Reached o) :
      Reached (o.releaseSlot i)
  | contribute {o o' : AgentSpendOverlay} {clock : Clock} {i : Fin maxOverlayEntries}
      {usdAmount : UInt64} (h : Reached o)
      (hr : o.recordAgentContribution clock i usdAmount = .ok o') : Reached o'
  | beside {o o' : AgentSpendOverlay} (h : Reached o) (hentries : o'.entries = o.entries) :
      Reached o'

def InEpochs (o : AgentSpendOverlay) : Prop :=
  ∀ i, IsEpoch overlayEpochDuration (o.entries i).lastWriteEpoch

variable {o o' : AgentSpendOverlay} {clock : Clock} {agent : Pubkey} {usdAmount limit : UInt64}

theorem InEpochs.update (h : o.InEpochs) {i : Fin maxOverlayEntries} {e : AgentContributionEntry}
    (hentries : o'.entries = Function.update o.entries i e)
    (he : IsEpoch overlayEpochDuration e.lastWriteEpoch) : o'.InEpochs := by
  unfold InEpochs
  rw [hentries]
  exact (Function.forall_update_iff _
    fun _ (e : AgentContributionEntry) => IsEpoch _ e.lastWriteEpoch).mpr ⟨he, fun j _ => h j⟩

theorem Reached.inEpochs (h : o.Reached) : o.InEpochs := by
  induction h with
  | empty => exact fun _ => isEpoch_zero _
  | claim _ hr ih =>
    obtain ⟨i, -, rfl⟩ := Option.map_eq_some_iff.mp hr
    exact ih.update rfl (ih i)
  | release i _ ih => exact ih.update rfl (isEpoch_zero _)
  | contribute _ hr ih =>
    simp only [recordAgentContribution, AgentContributionEntry.record, seq_ok_iff, ensure_ok_iff,
      someOr_ok_iff, exists_and_left, exists_const, pure_ok_iff] at hr
    obtain ⟨_, ⟨hpos, amount, -, rfl⟩, rfl⟩ := hr
    exact ih.update rfl (isEpoch_div (by decide) hpos)
  | beside _ hentries ih =>
    unfold InEpochs
    rw [hentries]
    exact ih

theorem Reached.chargeSlot {i : Fin maxOverlayEntries} (h : o.Reached)
    (hr : o.chargeSlot clock i usdAmount limit = .ok o') : o'.Reached :=
  h.contribute (chargeSlot_ok hr).1

theorem Reached.chargeAgent (h : o.Reached)
    (hr : o.chargeAgent clock agent usdAmount limit = .ok o') : o'.Reached := by
  unfold AgentSpendOverlay.chargeAgent at hr
  split at hr
  · exact h.chargeSlot hr
  · split at hr
    · exact absurd hr fail_ne_ok
    · cases hr
      exact h

theorem Reached.chargeAgentLifetime (h : o.Reached)
    (hr : o.chargeAgentLifetime clock agent usdAmount limit = .ok o') : o'.Reached := by
  unfold AgentSpendOverlay.chargeAgentLifetime at hr
  split at hr
  · simp only [countLifetime, seq_ok_iff, pure_ok_iff] at hr
    obtain ⟨charged, hcharged, spend, -, count, -, rfl⟩ := hr
    exact (h.chargeSlot hcharged).beside rfl
  · split at hr
    · exact absurd hr fail_ne_ok
    · cases hr
      exact h

theorem Reached.seat (h : o.Reached) (hr : o.seat agent limit = .ok o') : o'.Reached := by
  unfold AgentSpendOverlay.seat at hr
  split at hr
  · cases hr
    exact h
  · split at hr
    · rename_i claimed hclaimed
      cases hr
      exact h.claim hclaimed
    · split at hr
      · exact absurd hr fail_ne_ok
      · cases hr
        exact h

theorem Reached.unseat (h : o.Reached) (agent : Pubkey) : (o.unseat agent).Reached := by
  unfold AgentSpendOverlay.unseat
  split
  · exact h.release _
  · exact h

theorem Reached.reseat {newLimit : UInt64} (h : o.Reached)
    (hr : o.reseat agent limit newLimit = .ok o') : o'.Reached := by
  unfold AgentSpendOverlay.reseat at hr
  split at hr
  · split at hr
    · exact h.claim (someOr_ok_iff.mp hr)
    · cases hr
      exact h
  · split at hr
    · cases hr
      exact h.release _
    · cases hr
      exact h

theorem Reached.setAgentCooldown (h : o.Reached) (agent : Pubkey) (cooldownSeconds : UInt64) :
    (o.setAgentCooldown agent cooldownSeconds).Reached := by
  unfold AgentSpendOverlay.setAgentCooldown
  split
  · exact h.beside rfl
  · exact h

theorem Reached.noteAction (h : o.Reached) (agent : Pubkey) (now : ℤ) :
    (o.noteAction agent now).Reached := by
  unfold AgentSpendOverlay.noteAction
  split
  · exact h.beside rfl
  · exact h

end AgentSpendOverlay

section Exec

variable {D : Type} [Host D] [DecidableEq D] {env : Env} {c : Call D} {l₀ l l' : Ledger D}

/-- The spend accounts of the vault are as the operations on them leave them. -/
structure VaultAccounts.SpendReached (a : VaultAccounts D) : Prop where
  tracker : a.tracker.Reached
  overlay : a.overlay.Reached

theorem exec_spendReached (h : exec env l c = .ok l') (hl : ∀ a ∈ l.live, a.SpendReached) :
    ∀ a ∈ l'.live, a.SpendReached := by
  intro a' ha'
  by_cases hwrites : Part.tracker ∉ c.writes ∧ Part.overlay ∉ c.writes
  · obtain ⟨a, ha, htracker⟩ := (exec_frame h hwrites.1).exists_before ha'
    have hoverlay := (exec_frame h hwrites.2).eq ha ha'
    exact ⟨htracker ▸ (hl a ha).tracker, hoverlay ▸ (hl a ha).overlay⟩
  cases c <;> simp [Call.writes, Part.ofVault] at hwrites
  case initializeVault =>
    obtain ⟨-, -, -, -, -, -, rfl⟩ := initializeVault_ok h
    cases ha'
    exact ⟨.empty _, .empty _⟩
  case closeVault =>
    obtain ⟨a, -, -, -, -, -, rfl⟩ := closeVault_ok h
    cases ha'
  case registerAgent =>
    obtain ⟨a, overlay, version, ha, -, -, -, -, hseat, -, rfl⟩ := registerAgent_ok h
    cases ha'
    exact ⟨(hl a ha).tracker, (hl a ha).overlay.seat hseat⟩
  case revokeAgent =>
    obtain ⟨a, version, ha, -, -, -, rfl⟩ := revokeAgent_ok h
    cases ha'
    exact ⟨(hl a ha).tracker, (hl a ha).overlay.unseat _⟩
  case applyAgentGrant =>
    obtain ⟨a, pending, overlay, version, ha, -, -, -, -, hseat, -, rfl⟩ := applyAgentGrant_ok h
    cases ha'
    exact ⟨(hl a ha).tracker, (hl a ha).overlay.seat hseat⟩
  case applyAgentPermissionsUpdate =>
    obtain ⟨a, pending, entry, overlay, version, ha, -, -, -, -, hreseat, -, rfl⟩ :=
      applyAgentPermissionsUpdate_ok h
    cases ha'
    exact ⟨(hl a ha).tracker, ((hl a ha).overlay.reseat hreseat).setAgentCooldown _ _⟩
  case agentTransfer =>
    obtain ⟨a, charged, counted, source, destination, usdAmount, split, ht⟩ := agentTransfer_ok h
    have ha := hl a ht.live
    obtain ⟨entry, -, hcharged⟩ := ht.charge
    obtain ⟨overlay, recorded, tracker, -, -, hoverlay, hrecorded, htracker, rfl⟩ :=
      chargeTransfer_ok hcharged
    obtain ⟨transactions, volume, fees, rfl⟩ := countTransfer_ok ht.count
    obtain ⟨tokens, rfl⟩ := ht.result
    cases ha'
    exact ⟨(ha.tracker.spend hrecorded).chargeRecipient htracker, ha.overlay.chargeAgent hoverlay⟩
  case validateAndAuthorize =>
    obtain ⟨a, vaultToken, pins, snapshots, tokens, ho⟩ := validateAndAuthorize_ok h
    have ha := hl a ho.live
    obtain rfl := ho.result
    cases ha'
    exact ⟨ha.tracker, ha.overlay.noteAction _ _⟩
  case finalizeSession =>
    obtain ⟨a, s, revoked, outcome, vault, tracker, hclosed⟩ := finalizeSession_ok h
    have ha := hl a hclosed.live
    obtain ⟨treasury, feeDest, -, -, hsettled⟩ := hclosed.settled
    have hsettle : outcome.accounts.SpendReached := by
      rcases settle_charges hsettled with hsame | ⟨amount, hcharged⟩
      · rw [hsame]
        exact ha
      · obtain ⟨entry, overlay, recorded, tracker', -, -, -, hoverlay, -,
          hrecorded, htracker, hb⟩ := chargeSession_ok hcharged
        rw [hb]
        exact ⟨(ha.tracker.spend hrecorded).recordForProtocol htracker,
          ha.overlay.chargeAgentLifetime hoverlay⟩
    have hrecipient := hsettle.tracker.chargeSessionRecipient hclosed.recipient
    obtain rfl := hclosed.result
    cases ha'
    exact ⟨hrecipient, hsettle.overlay⟩

theorem run_spendReached {as : List (Action D)} (h₀ : l₀.Genesis) (hrun : Run Step l₀ as l) :
    ∀ a ∈ l.live, a.SpendReached := by
  refine hrun.invariant (P := fun m => ∀ a ∈ m.live, a.SpendReached) ?_ ?_
  · intro m x m' hm hstep
    cases hstep with
    | call hexec => exact exec_spendReached hexec hm
    | foreign => exact hm
  · simp [h₀.live]

end Exec

end Sigil
