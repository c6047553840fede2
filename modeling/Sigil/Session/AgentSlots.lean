import Sigil.Spending.Charges
import Sigil.System.AgentRegistry

/-! # The slot of an agent

An agent keeps its slot in the overlay, and the time of its last action in it, until an instruction
takes the slot away. Only a session of the agent itself writes that time.
-/

namespace Sigil

open Guard Trace

section Slots

structure Slot where
  entry : AgentContributionEntry
  lifetimeSpend : UInt64
  lifetimeTxCount : UInt64
  cooldownSeconds : UInt64
  lastActionUnix : ℤ

def Slot.agent (s : Slot) : Pubkey := s.entry.agent

def AgentSpendOverlay.slot (o : AgentSpendOverlay) (i : Fin maxOverlayEntries) : Slot :=
  ⟨o.entries i, o.lifetimeSpend i, o.lifetimeTxCount i, o.cooldownSeconds i, o.lastActionUnix i⟩

variable {o o' u : AgentSpendOverlay} {agent other : Pubkey} {i j : Fin maxOverlayEntries}
  {clock : Clock} {amount limit newLimit : UInt64}

/-- The slots of one agent may have changed, and they are still its slots. -/
structure OnlyAt (agent : Pubkey) (o o' : AgentSpendOverlay) : Prop where
  agents : ∀ i, (o'.slot i).agent = (o.slot i).agent
  others : ∀ i, (o.slot i).agent ≠ agent → o'.slot i = o.slot i

/-- An agent was charged: nothing but its own figures has changed. -/
structure Charged (agent : Pubkey) (o o' : AgentSpendOverlay) : Prop extends
    OnlyAt agent o o' where
  actions : o'.lastActionUnix = o.lastActionUnix
  cooldowns : o'.cooldownSeconds = o.cooldownSeconds

theorem OnlyAt.refl (agent : Pubkey) (o : AgentSpendOverlay) : OnlyAt agent o o :=
  ⟨fun _ => rfl, fun _ _ => rfl⟩

theorem Charged.refl (agent : Pubkey) (o : AgentSpendOverlay) : Charged agent o o :=
  ⟨.refl agent o, rfl, rfl⟩

theorem Charged.trans (h : Charged agent o u) (h' : Charged agent u o') : Charged agent o o' where
  agents i := (h'.agents i).trans (h.agents i)
  others i hi := (h'.others i (h.agents i ▸ hi)).trans (h.others i hi)
  actions := h'.actions.trans h.actions
  cooldowns := h'.cooldowns.trans h.cooldowns

theorem OnlyAt.of_slot (hi : (o.slot i).agent = agent)
    (hagent : (o'.slot i).agent = agent) (hothers : ∀ j, j ≠ i → o'.slot j = o.slot j) :
    OnlyAt agent o o' := by
  refine ⟨fun j => ?_, fun j hj => hothers j fun hji => hj (hji ▸ hi)⟩
  by_cases hj : j = i
  · rw [hj, hagent, hi]
  · rw [hothers j hj]

structure SlotKept (agent : Pubkey) (i : Fin maxOverlayEntries) (o o' : AgentSpendOverlay) :
    Prop where
  seat : o'.findAgentSlot agent = some i
  action : o'.lastActionUnix i = o.lastActionUnix i

theorem agent_of_findAgentSlot (hi : o.findAgentSlot agent = some i) :
    (o.entries i).agent = agent := by
  simpa using (Fin.find?_eq_some_iff.mp hi).1

theorem SlotKept.refl (hi : o.findAgentSlot agent = some i) : SlotKept agent i o o := ⟨hi, rfl⟩

theorem SlotKept.trans (h : SlotKept agent i o u) (h' : SlotKept agent i u o') :
    SlotKept agent i o o' :=
  ⟨h'.seat, h'.action.trans h.action⟩

theorem findAgentSlot_congr
    (h : ∀ j, (o'.entries j).agent = agent ↔ (o.entries j).agent = agent) :
    o'.findAgentSlot agent = o.findAgentSlot agent := by
  unfold AgentSpendOverlay.findAgentSlot
  simp only [h]

theorem SlotKept.of_iff (hi : o.findAgentSlot agent = some i)
    (h : ∀ j, (o'.entries j).agent = agent ↔ (o.entries j).agent = agent)
    (haction : o'.lastActionUnix i = o.lastActionUnix i) : SlotKept agent i o o' :=
  ⟨(findAgentSlot_congr h).trans hi, haction⟩

theorem iff_of_update {entry : AgentContributionEntry} (hold : (o.entries j).agent ≠ agent)
    (hnew : entry.agent ≠ agent) (k : Fin maxOverlayEntries) :
    (Function.update o.entries j entry k).agent = agent ↔ (o.entries k).agent = agent := by
  by_cases hk : k = j
  · subst hk
    simp [hold, hnew]
  · rw [Function.update_of_ne hk]

theorem slotKept_claimSlot (hi : o.findAgentSlot agent = some i) (hagent : agent ≠ Pubkey.default)
    (hother : other ≠ agent) (h : o.claimSlot other = some o') : SlotKept agent i o o' := by
  obtain ⟨j, hj, rfl⟩ := Option.map_eq_some_iff.mp h
  have hfree : (o.entries j).agent ≠ agent := by
    rw [agent_of_findAgentSlot hj]
    exact hagent.symm
  exact .of_iff hi (iff_of_update hfree hother) rfl

theorem slotKept_releaseSlot (hi : o.findAgentSlot agent = some i)
    (hagent : agent ≠ Pubkey.default) (hj : (o.entries j).agent ≠ agent) :
    SlotKept agent i o (o.releaseSlot j) := by
  refine .of_iff hi (iff_of_update hj hagent.symm) (Function.update_of_ne ?_ _ _)
  rintro rfl
  exact hj (agent_of_findAgentSlot hi)

theorem slotKept_seat (hi : o.findAgentSlot agent = some i) (hagent : agent ≠ Pubkey.default)
    (h : o.seat other limit = .ok o') : SlotKept agent i o o' := by
  unfold AgentSpendOverlay.seat at h
  split at h
  · cases h
    exact .refl hi
  · rename_i hnone
    split at h
    · rename_i claimed hclaimed
      cases h
      refine slotKept_claimSlot hi hagent ?_ hclaimed
      rintro rfl
      simp [hi] at hnone
    · split at h
      · exact absurd h fail_ne_ok
      · cases h
        exact .refl hi

theorem slotKept_unseat (hi : o.findAgentSlot agent = some i) (hagent : agent ≠ Pubkey.default)
    (hother : other ≠ agent) : SlotKept agent i o (o.unseat other) := by
  unfold AgentSpendOverlay.unseat
  split
  · rename_i j hj
    exact slotKept_releaseSlot hi hagent (by rwa [agent_of_findAgentSlot hj])
  · exact .refl hi

theorem slotKept_reseat (hi : o.findAgentSlot agent = some i) (hagent : agent ≠ Pubkey.default)
    (hkeeps : ¬ (other = agent ∧ newLimit = 0 ∧ 0 < limit))
    (h : o.reseat other limit newLimit = .ok o') : SlotKept agent i o o' := by
  unfold AgentSpendOverlay.reseat at h
  split at h
  · rename_i hnone
    split at h
    · refine slotKept_claimSlot hi hagent ?_ (someOr_ok_iff.mp h)
      rintro rfl
      exact absurd (hi.symm.trans hnone) nofun
    · cases h
      exact .refl hi
  · rename_i j hj
    split at h
    · rename_i hdrops
      cases h
      refine slotKept_releaseSlot hi hagent ?_
      rw [agent_of_findAgentSlot hj]
      exact fun hother => hkeeps ⟨hother, hdrops⟩
    · cases h
      exact .refl hi

theorem findAgentSlot_of_onlyAt (h : OnlyAt other o o') (agent : Pubkey) :
    o'.findAgentSlot agent = o.findAgentSlot agent :=
  findAgentSlot_congr fun j => by
    change (o'.slot j).agent = agent ↔ (o.slot j).agent = agent
    rw [h.agents]

theorem SlotKept.of_charged (hi : o.findAgentSlot agent = some i) (h : Charged other o o') :
    SlotKept agent i o o' :=
  ⟨(findAgentSlot_of_onlyAt h.toOnlyAt agent).trans hi, congrFun h.actions i⟩

theorem SlotKept.of_onlyAt (hi : o.findAgentSlot agent = some i) (hother : other ≠ agent)
    (h : OnlyAt other o o') : SlotKept agent i o o' := by
  have hslot := h.others i ((agent_of_findAgentSlot hi).trans_ne hother.symm)
  exact ⟨(findAgentSlot_of_onlyAt h agent).trans hi, congrArg Slot.lastActionUnix hslot⟩

theorem onlyAt_setAgentCooldown (o : AgentSpendOverlay) (agent : Pubkey) (cooldown : UInt64) :
    OnlyAt agent o (o.setAgentCooldown agent cooldown) := by
  unfold AgentSpendOverlay.setAgentCooldown
  split
  · rename_i i hi
    refine .of_slot (agent_of_findAgentSlot hi) (agent_of_findAgentSlot hi) fun j hj => ?_
    simp [AgentSpendOverlay.slot, AgentSpendOverlay.setCooldownSeconds, hj]
  · exact .refl agent o

theorem lastActionUnix_setAgentCooldown (o : AgentSpendOverlay) (agent : Pubkey)
    (cooldown : UInt64) :
    (o.setAgentCooldown agent cooldown).lastActionUnix = o.lastActionUnix := by
  unfold AgentSpendOverlay.setAgentCooldown
  split <;> rfl

theorem zeroGapBuckets_agent (entry : AgentContributionEntry) (epoch : ℤ) :
    (entry.zeroGapBuckets epoch).agent = entry.agent := by
  unfold AgentContributionEntry.zeroGapBuckets
  dsimp only
  split
  · rfl
  · split <;> rfl

theorem charged_recordAgentContribution (hi : o.findAgentSlot agent = some i)
    (h : o.recordAgentContribution clock i amount = .ok o') : Charged agent o o' := by
  simp only [AgentSpendOverlay.recordAgentContribution, AgentContributionEntry.record, seq_ok_iff,
    pure_ok_iff] at h
  obtain ⟨entry, ⟨-, -, total, -, rfl⟩, rfl⟩ := h
  have hagent := agent_of_findAgentSlot hi
  refine ⟨.of_slot hagent ?_ fun j hj => ?_, rfl, rfl⟩
  · simpa [AgentSpendOverlay.slot, Slot.agent, zeroGapBuckets_agent] using hagent
  · simp [AgentSpendOverlay.slot, hj]

theorem charged_countLifetime (hi : o.findAgentSlot agent = some i)
    (h : o.countLifetime i amount = .ok o') : Charged agent o o' := by
  simp only [AgentSpendOverlay.countLifetime, seq_ok_iff, pure_ok_iff] at h
  obtain ⟨spend, -, count, -, rfl⟩ := h
  refine ⟨.of_slot (agent_of_findAgentSlot hi) (agent_of_findAgentSlot hi) fun j hj => ?_, rfl,
    rfl⟩
  simp [AgentSpendOverlay.slot, hj]

theorem charged_chargeAgent (h : o.chargeAgent clock agent amount limit = .ok o') :
    Charged agent o o' := by
  unfold AgentSpendOverlay.chargeAgent at h
  split at h
  · rename_i i hi
    exact charged_recordAgentContribution hi (chargeSlot_ok h).1
  · split at h
    · exact absurd h fail_ne_ok
    · cases h
      exact .refl agent o

theorem charged_chargeAgentLifetime (h : o.chargeAgentLifetime clock agent amount limit = .ok o') :
    Charged agent o o' := by
  unfold AgentSpendOverlay.chargeAgentLifetime at h
  split at h
  · rename_i i hi
    obtain ⟨charged, hcharged, hcounted⟩ := seq_ok_iff.mp h
    have hfirst := charged_recordAgentContribution hi (chargeSlot_ok hcharged).1
    have hseat := (findAgentSlot_of_onlyAt hfirst.toOnlyAt agent).trans hi
    exact hfirst.trans (charged_countLifetime hseat hcounted)
  · split at h
    · exact absurd h fail_ne_ok
    · cases h
      exact .refl agent o

theorem onlyAt_noteAction (o : AgentSpendOverlay) (agent : Pubkey) (now : ℤ) :
    OnlyAt agent o (o.noteAction agent now) := by
  unfold AgentSpendOverlay.noteAction
  split
  · rename_i i hi
    refine .of_slot (agent_of_findAgentSlot hi) (agent_of_findAgentSlot hi) fun j hj => ?_
    simp [AgentSpendOverlay.slot, AgentSpendOverlay.recordActionUnix, hj]
  · exact .refl agent o

theorem lastActionUnix_noteAction (hi : o.findAgentSlot agent = some i) (now : ℤ) :
    (o.noteAction agent now).findAgentSlot agent = some i ∧
      (o.noteAction agent now).lastActionUnix i = now := by
  unfold AgentSpendOverlay.noteAction
  simp only [hi]
  exact ⟨hi, Function.update_self _ _ _⟩

end Slots

section Limits

def AgentVault.limits (v : AgentVault) : List (Pubkey × UInt64) :=
  v.agents.map fun e => (e.pubkey, e.spendingLimitUsd)

theorem AgentVault.map_fst_limits (v : AgentVault) : v.limits.map Prod.fst = v.keys := by
  rw [limits, List.map_map]
  rfl

theorem AgentVault.mem_keys_of_getAgent {v : AgentVault} {agent : Pubkey} {e : AgentEntry}
    (h : v.getAgent agent = some e) : agent ∈ v.keys :=
  List.mem_map.mpr ⟨e, List.mem_of_find?_eq_some h, pubkey_of_getAgent h⟩

theorem AgentVault.limits_updateAgent {v : AgentVault} {agent : Pubkey}
    {f : AgentEntry → AgentEntry} (hkey : ∀ e, (f e).pubkey = e.pubkey)
    (hlimit : ∀ e, (f e).spendingLimitUsd = e.spendingLimitUsd) :
    (v.updateAgent agent f).limits = v.limits :=
  FirstMatch.map_modifyFirst AgentEntry.pubkey fun e _ => by rw [hkey, hlimit]

theorem AgentVault.limits_removeAgent (v : AgentVault) (agent : Pubkey) (clock : Clock) :
    (v.removeAgent agent clock).limits = v.limits.filter (·.1 ≠ agent) := by
  have hfilter : (v.agents.filter fun e => e.pubkey ≠ agent).map
      (fun e => (e.pubkey, e.spendingLimitUsd)) = v.limits.filter (·.1 ≠ agent) := by
    rw [limits, List.filter_map]
    rfl
  unfold removeAgent
  dsimp only
  split <;> exact hfilter

end Limits

section Exec

variable {D : Type} [Host D] {clock : Clock} {l l' : Ledger D} {a a' : VaultAccounts D}
  {agent : Pubkey} {i : Fin maxOverlayEntries}

omit [Host D] in
theorem charged_chargeTransfer {recipient : Pubkey} {amount : UInt64} {entry : AgentEntry}
    (h : a.chargeTransfer clock agent recipient amount entry = .ok a') :
    Charged agent a.overlay a'.overlay := by
  obtain ⟨overlay, recorded, tracker, -, -, hoverlay, -, -, rfl⟩ := chargeTransfer_ok h
  exact charged_chargeAgent hoverlay

omit [Host D] in
theorem charged_chargeSession {s : SessionAuthority} {amount : UInt64}
    (h : a.chargeSession clock s amount = .ok a') :
    (∃ entry, a.vault.getAgent s.agent = some entry) ∧ Charged s.agent a.overlay a'.overlay := by
  obtain ⟨entry, overlay, recorded, tracker, -, -, hentry, hoverlay, -, -, -, rfl⟩ :=
    chargeSession_ok h
  exact ⟨⟨entry, hentry⟩, charged_chargeAgentLifetime hoverlay⟩

theorem charged_settle {s : SessionAuthority} {args : FinalizeSessionArgs}
    {treasury feeDest : Option (Pubkey × TokenLedger.TokenAccount Pubkey)} {outcome : Outcome D}
    (h : settle clock l a s args treasury feeDest = .ok outcome) :
    outcome.accounts.overlay = a.overlay ∨
      (∃ entry, a.vault.getAgent s.agent = some entry) ∧
        Charged s.agent a.overlay outcome.accounts.overlay := by
  rcases settle_charges h with hsame | ⟨amount, hcharged⟩
  · exact .inl (by rw [hsame])
  · exact .inr (charged_chargeSession hcharged)

/-- What an instruction does to the agents, their limits and their slots. -/
inductive SlotChange (env : Env) (l : Ledger D) (a a' : VaultAccounts D) : Call D → Prop
  | kept {c : Call D} (hlimits : a'.vault.limits = a.vault.limits)
      (hoverlay : a'.overlay = a.overlay) : SlotChange env l a a' c
  | charged {c : Call D} {agent : Pubkey} (hagent : agent ∈ a.vault.keys)
      (hlimits : a'.vault.limits = a.vault.limits)
      (hoverlay : Charged agent a.overlay a'.overlay) : SlotChange env l a a' c
  | acted {args : ValidateAndAuthorizeArgs D} (hagent : args.agent ∈ a.vault.keys)
      (hlimits : a'.vault.limits = a.vault.limits)
      (hoverlay : a'.overlay = a.overlay.noteAction args.agent env.clock.unixTimestamp) :
      SlotChange env l a a' (.validateAndAuthorize args)
  | joined {c : Call D} {agent : Pubkey} {limit : UInt64} (hroom : a.vault.HasRoomFor agent)
      (hlimits : a'.vault.limits = a.vault.limits ++ [(agent, limit)])
      (hoverlay : a.overlay.seat agent limit = .ok a'.overlay) : SlotChange env l a a' c
  | grafted {c : Call D} {agent : Pubkey}
      (hlimits : a'.vault.limits = a.vault.limits ++ [(agent, 0)])
      (hoverlay : a'.overlay = a.overlay) : SlotChange env l a a' c
  | left {owner agent : Pubkey} (hagent : agent ∈ a.vault.keys)
      (hlimits : a'.vault.limits = a.vault.limits.filter (·.1 ≠ agent))
      (hoverlay : a'.overlay = a.overlay.unseat agent) :
      SlotChange env l a a' (.revokeAgent owner agent)
  | changed {owner address : Pubkey} {remaining : List AccountMeta}
      {pending : PendingAgentPermissionsUpdate D} {entry : AgentEntry} {overlay : AgentSpendOverlay}
      (hpending : l.pendingPerms address = some pending)
      (hentry : a.vault.getAgent pending.agent = some entry)
      (hagents : a'.vault.agents = (a.vault.updateAgent pending.agent fun e => { e with
        capability := pending.newCapability, spendingLimitUsd := pending.spendingLimitUsd }).agents)
      (hreseat : a.overlay.reseat pending.agent entry.spendingLimitUsd pending.spendingLimitUsd =
        .ok overlay)
      (hoverlay : a'.overlay = overlay.setAgentCooldown pending.agent pending.cooldownSeconds) :
      SlotChange env l a a' (.applyAgentPermissionsUpdate owner remaining address)

variable [DecidableEq D] {env : Env} {c : Call D}

theorem exec_slotChange (h : exec env l c = .ok l') (ha : l.live = some a)
    (ha' : l'.live = some a') : SlotChange env l a a' c := by
  by_cases hwrites : Part.agents ∉ c.writes ∧ Part.overlay ∉ c.writes
  · have hagents := (exec_frame h hwrites.1).eq ha ha'
    exact .kept (congrArg (List.map _) hagents) ((exec_frame h hwrites.2).eq ha ha')
  cases c <;> simp [Call.writes, Part.ofVault] at hwrites
  case initializeVault =>
    obtain ⟨hnone, -⟩ := initializeVault_ok h
    cases hnone.symm.trans ha
  case closeVault =>
    obtain ⟨_, -, -, -, -, -, rfl⟩ := closeVault_ok h
    cases ha'
  case reactivateVault =>
    obtain ⟨b, g, version, hb, -, -, hgraft, -, rfl⟩ := reactivateVault_ok h
    cases ha.symm.trans hb
    cases ha'
    rcases graftAgent_ok hgraft with rfl | ⟨agent, capability, -, -, -, -, -, rfl⟩
    · exact .kept rfl rfl
    · exact .grafted (List.map_append ..) rfl
  case pauseAgent =>
    obtain ⟨b, version, hb, -, -, rfl⟩ := pauseAgent_ok h
    cases ha.symm.trans hb
    cases ha'
    exact .kept (AgentVault.limits_updateAgent (fun _ => rfl) fun _ => rfl) rfl
  case unpauseAgent =>
    obtain ⟨b, version, hb, -, -, -, rfl⟩ := unpauseAgent_ok h
    cases ha.symm.trans hb
    cases ha'
    exact .kept (AgentVault.limits_updateAgent (fun _ => rfl) fun _ => rfl) rfl
  case recordAgentViolation =>
    obtain ⟨b, entry, hb, -, -, -, ⟨-, rfl⟩ | ⟨version, -, -, rfl⟩⟩ :=
      recordAgentViolation_ok h
    all_goals
      cases ha.symm.trans hb
      cases ha'
      exact .kept (AgentVault.limits_updateAgent (fun _ => rfl) fun _ => rfl) rfl
  case registerAgent =>
    obtain ⟨b, overlay, version, hb, -, hroom, -, -, hseat, -, rfl⟩ := registerAgent_ok h
    cases ha.symm.trans hb
    cases ha'
    exact .joined hroom (List.map_append ..) hseat
  case revokeAgent =>
    obtain ⟨b, version, hb, -, hagent, -, rfl⟩ := revokeAgent_ok h
    cases ha.symm.trans hb
    cases ha'
    exact .left (AgentVault.isAgent_iff.mp hagent) (AgentVault.limits_removeAgent ..) rfl
  case applyAgentGrant =>
    obtain ⟨b, pending, overlay, version, hb, -, -, -, hready, hseat, -, rfl⟩ :=
      applyAgentGrant_ok h
    cases ha.symm.trans hb
    cases ha'
    exact .joined hready.room (List.map_append ..) hseat
  case applyAgentPermissionsUpdate =>
    obtain ⟨b, pending, entry, overlay, version, hb, -, -, hready, hentry, hreseat, -, rfl⟩ :=
      applyAgentPermissionsUpdate_ok h
    cases ha.symm.trans hb
    cases ha'
    exact .changed hready.found hentry rfl hreseat rfl
  case agentTransfer =>
    have hagents := (exec_frame (p := .agents) h (by simp [Call.writes])).eq ha ha'
    obtain ⟨b, charged, counted, source, destination, usdAmount, split, ht⟩ := agentTransfer_ok h
    cases ha.symm.trans ht.live
    obtain ⟨entry, hentry, hcharged⟩ := ht.charge
    have hcharge := charged_chargeTransfer hcharged
    obtain ⟨transactions, volume, fees, rfl⟩ := countTransfer_ok ht.count
    obtain ⟨tokens, rfl⟩ := ht.result
    cases ha'
    exact .charged (AgentVault.mem_keys_of_getAgent hentry) (congrArg (List.map _) hagents) hcharge
  case validateAndAuthorize =>
    obtain ⟨b, vaultToken, pins, snapshots, tokens, ho⟩ := validateAndAuthorize_ok h
    cases ha.symm.trans ho.live
    obtain rfl := ho.result
    cases ha'
    exact .acted (AgentVault.isAgent_iff.mp ho.isAgent)
      (AgentVault.limits_updateAgent (fun _ => rfl) fun _ => rfl) rfl
  case finalizeSession =>
    have hagents := (exec_frame (p := .agents) h (by simp [Call.writes])).eq ha ha'
    obtain ⟨b, s, revoked, outcome, vault, tracker, hclosed⟩ := finalizeSession_ok h
    cases ha.symm.trans hclosed.live
    obtain ⟨treasury, feeDest, -, -, hsettled⟩ := hclosed.settled
    obtain rfl := hclosed.result
    cases ha'
    rcases charged_settle hsettled with hsame | ⟨⟨entry, hentry⟩, hcharged⟩
    · exact .kept (congrArg (List.map _) hagents) hsame
    · exact .charged (AgentVault.mem_keys_of_getAgent hentry) (congrArg (List.map _) hagents)
        hcharged

def Call.FreesSlot (l : Ledger D) (agent : Pubkey) : Call D → Prop
  | closeVault .. => True
  | revokeAgent _ agentToRemove => agentToRemove = agent
  | applyAgentPermissionsUpdate _ _ address => ∃ a pending entry, l.live = some a ∧
      l.pendingPerms address = some pending ∧ pending.agent = agent ∧
      a.vault.getAgent agent = some entry ∧ pending.spendingLimitUsd = 0 ∧
      0 < entry.spendingLimitUsd
  | _ => False

theorem exec_slot (h : exec env l c = .ok l') (ha : l.live = some a)
    (hagent : agent ≠ Pubkey.default) (hi : a.overlay.findAgentSlot agent = some i)
    (hfrees : ¬ c.FreesSlot l agent) : ∃ a', l'.live = some a' ∧
      (SlotKept agent i a.overlay a'.overlay ∨
        ∃ args, c = .validateAndAuthorize args ∧ args.agent = agent ∧
          a'.overlay.findAgentSlot agent = some i ∧
          a'.overlay.lastActionUnix i = env.clock.unixTimestamp) := by
  rcases exec_exists_after h ha with ⟨a', ha'⟩ | ⟨owner, remaining, rfl⟩
  swap
  · exact absurd trivial hfrees
  refine ⟨a', ha', ?_⟩
  cases exec_slotChange h ha ha' with
  | kept _ hoverlay | grafted _ hoverlay =>
    rw [hoverlay]
    exact .inl (.refl hi)
  | charged _ _ hoverlay => exact .inl (.of_charged hi hoverlay)
  | @acted args _ _ hoverlay =>
    rw [hoverlay]
    by_cases hself : args.agent = agent
    · subst hself
      exact .inr ⟨args, rfl, rfl, lastActionUnix_noteAction hi _⟩
    · exact .inl (.of_onlyAt hi hself (onlyAt_noteAction _ _ _))
  | joined _ _ hoverlay => exact .inl (slotKept_seat hi hagent hoverlay)
  | left _ _ hoverlay =>
    rw [hoverlay]
    exact .inl (slotKept_unseat hi hagent hfrees)
  | @changed _ _ _ pending entry overlay hpending hentry _ hreseat hoverlay =>
    have hkept := slotKept_reseat hi hagent (fun ⟨hsame, hzero, hpos⟩ => hfrees
      ⟨a, pending, entry, ha, hpending, hsame, hsame ▸ hentry, hzero, hpos⟩) hreseat
    rw [hoverlay]
    refine .inl (hkept.trans ⟨?_, congrFun (lastActionUnix_setAgentCooldown ..) i⟩)
    exact (findAgentSlot_of_onlyAt (onlyAt_setAgentCooldown ..) agent).trans hkept.seat

end Exec

end Sigil
