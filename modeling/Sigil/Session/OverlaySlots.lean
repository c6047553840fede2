import Sigil.Library.SlotTable
import Sigil.Session.AgentSlots

/-! # The slots of the overlay

The overlay is a table of ten slots for at most ten agents. Along every run it is tidy: an agent
has one slot at most, no slot belongs to somebody who is not an agent, and a vacant slot is blank.
Every agent with a limit has a slot, so a limit can always be set and charged, and an agent that is
given a slot starts from nothing.
-/

namespace Sigil

open Guard Trace SlotTable AgentSpendOverlay

section Table

/-- A slot without an agent, and without anything else. -/
def Slot.vacant : Slot := ⟨.empty, 0, 0, 0, 0⟩

/-- The slot of an agent that has done nothing yet. -/
def Slot.fresh (agent : Pubkey) (cooldownSeconds : UInt64) : Slot :=
  ⟨{ AgentContributionEntry.empty with agent := agent }, 0, 0, cooldownSeconds, 0⟩

namespace AgentSpendOverlay

abbrev Tidy (o : AgentSpendOverlay) (keys : List Pubkey) : Prop :=
  SlotTable.Tidy Slot.agent Slot.vacant keys o.slot

variable {o o' : AgentSpendOverlay} {agent : Pubkey} {i : Fin maxOverlayEntries}
  {limit newLimit : UInt64} {keys : List Pubkey}

theorem findAgentSlot_eq_none_iff :
    o.findAgentSlot agent = none ↔ ∀ i, (o.slot i).agent ≠ agent := by
  simp [findAgentSlot, slot, Slot.agent]

theorem exists_findAgentSlot (h : (o.slot i).agent = agent) :
    ∃ j, o.findAgentSlot agent = some j := by
  refine Option.ne_none_iff_exists'.mp fun hnone => ?_
  exact findAgentSlot_eq_none_iff.mp hnone i h

theorem slot_releaseSlot : (o.releaseSlot i).slot = Function.update o.slot i Slot.vacant := by
  funext j
  by_cases hj : j = i
  · subst hj
    simp [slot, releaseSlot, Slot.vacant]
  · simp [slot, releaseSlot, hj]

/-- Only slots of one agent were given or taken away, and a slot given to it is blank. -/
structure Moved (agent : Pubkey) (o o' : AgentSpendOverlay) : Prop where
  others : ∀ i, (o.slot i).agent ≠ Pubkey.default → (o.slot i).agent ≠ agent → o'.slot i = o.slot i
  strangers : ∀ i, (o'.slot i).agent ≠ Pubkey.default → (o'.slot i).agent ≠ agent →
    o'.slot i = o.slot i
  fresh : ∀ i, o.findAgentSlot agent = none → o'.findAgentSlot agent = some i →
    o'.slot i = Slot.fresh agent 0

theorem Moved.refl (agent : Pubkey) (o : AgentSpendOverlay) : Moved agent o o where
  others _ _ _ := rfl
  strangers _ _ _ := rfl
  fresh _ hnone hsome := nomatch hnone.symm.trans hsome

theorem Moved.findAgentSlot_eq_none {other : Pubkey} (h : Moved agent o o')
    (hnamed : other ≠ Pubkey.default) (hother : other ≠ agent)
    (hnone : o.findAgentSlot other = none) : o'.findAgentSlot other = none := by
  refine findAgentSlot_eq_none_iff.mpr fun i hi => ?_
  have hsame := h.strangers i (by rwa [hi]) (by rwa [hi])
  exact findAgentSlot_eq_none_iff.mp hnone i (hsame ▸ hi)

theorem moved_update (hblank : (o.slot i).agent = Pubkey.default)
    (hslot : o'.slot = Function.update o.slot i (Slot.fresh agent 0)) : Moved agent o o' where
  others j hj _ := by
    have hji : j ≠ i := fun hji => hj (hji ▸ hblank)
    rw [hslot, Function.update_of_ne hji]
  strangers j _ hj := by
    have hji : j ≠ i := fun hji => hj (by rw [hslot, hji, Function.update_self]; rfl)
    rw [hslot, Function.update_of_ne hji]
  fresh j hnone hsome := by
    have hagent : (o'.slot j).agent = agent := agent_of_findAgentSlot hsome
    by_cases hji : j = i
    · rw [hslot, hji, Function.update_self]
    · rw [hslot, Function.update_of_ne hji] at hagent
      exact absurd hagent (findAgentSlot_eq_none_iff.mp hnone j)

theorem moved_releaseSlot (hi : o.findAgentSlot agent = some i) :
    Moved agent o (o.releaseSlot i) where
  others j _ hj := by
    have hji : j ≠ i := fun hji => hj (hji ▸ agent_of_findAgentSlot hi)
    rw [slot_releaseSlot, Function.update_of_ne hji]
  strangers j hj _ := by
    have hji : j ≠ i := fun hji => hj (by rw [slot_releaseSlot, hji, Function.update_self]; rfl)
    rw [slot_releaseSlot, Function.update_of_ne hji]
  fresh _ hnone := nomatch hnone.symm.trans hi

theorem Tidy.findAgentSlot_eq_none (h : o.Tidy keys) (hnamed : agent ≠ Pubkey.default)
    (hagent : agent ∉ keys) : o.findAgentSlot agent = none := by
  refine findAgentSlot_eq_none_iff.mpr fun i hi => hagent ?_
  rw [← hi] at hnamed ⊢
  exact h.registered i hnamed

theorem Tidy.exists_claimSlot (h : o.Tidy keys) (hroom : keys.length ≤ maxOverlayEntries)
    (hnamed : agent ≠ Pubkey.default) (hagent : agent ∈ keys)
    (hnone : o.findAgentSlot agent = none) :
    ∃ o', o.claimSlot agent = some o' ∧ o'.Tidy keys ∧ Moved agent o o' ∧
      ∃ i, (o'.slot i).agent = agent := by
  have hwithout := findAgentSlot_eq_none_iff.mp hnone
  obtain ⟨j, hj⟩ := h.exists_vacant (by rwa [Fintype.card_fin]) hagent hwithout
  obtain ⟨i, hi⟩ : ∃ i, o.findAgentSlot Pubkey.default = some i := exists_findAgentSlot hj
  have hclaim : ∃ o', o.claimSlot agent = some o' ∧
      o'.slot = Function.update o.slot i (Slot.fresh agent 0) := by
    refine ⟨_, by rw [claimSlot, hi, Option.map_some], funext fun k => ?_⟩
    by_cases hk : k = i
    · subst hk
      have hblank : o.slot k = Slot.vacant := h.clean k (agent_of_findAgentSlot hi)
      obtain ⟨hentry, hspend, hcount, hcooldown, haction⟩ := Slot.mk.inj hblank
      simp [slot, Slot.fresh, hentry, hspend, hcount, hcooldown, haction]
    · simp [slot, hk]
  obtain ⟨o', hclaim, hslot⟩ := hclaim
  refine ⟨o', hclaim, ?_, moved_update (agent_of_findAgentSlot hi) hslot, i, ?_⟩
  · rw [Tidy, hslot]
    exact h.claim hagent hwithout hnamed
  · rw [hslot, Function.update_self]
    rfl

theorem Tidy.exists_seat (h : o.Tidy keys) (hroom : keys.length ≤ maxOverlayEntries)
    (hnamed : agent ≠ Pubkey.default) (hagent : agent ∈ keys)
    (hnone : o.findAgentSlot agent = none) :
    ∃ o', o.seat agent limit = .ok o' ∧ o'.Tidy keys ∧ Moved agent o o' ∧
      ∃ i, (o'.slot i).agent = agent := by
  obtain ⟨o', hclaim, hseated⟩ := h.exists_claimSlot hroom hnamed hagent hnone
  exact ⟨o', by simp [seat, hnone, hclaim], hseated⟩

theorem Tidy.exists_reseat (h : o.Tidy keys) (hroom : keys.length ≤ maxOverlayEntries)
    (hnamed : agent ≠ Pubkey.default) (hagent : agent ∈ keys) :
    ∃ o', o.reseat agent limit newLimit = .ok o' ∧ o'.Tidy keys ∧ Moved agent o o' ∧
      (0 < newLimit → ∃ i, (o'.slot i).agent = agent) := by
  unfold reseat
  cases hslot : o.findAgentSlot agent with
  | none =>
    by_cases hlimit : 0 < newLimit
    · obtain ⟨o', hclaim, htidy, hmoved, hself⟩ := h.exists_claimSlot hroom hnamed hagent hslot
      exact ⟨o', by simp [hlimit, hclaim, someOr, okOr], htidy, hmoved, fun _ => hself⟩
    · exact ⟨o, by simp [hlimit], h, .refl agent o, fun hpos => absurd hpos hlimit⟩
  | some i =>
    by_cases hdrops : newLimit = 0 ∧ 0 < limit
    · refine ⟨o.releaseSlot i, by simp [hdrops], ?_, moved_releaseSlot hslot, ?_⟩
      · rw [Tidy, slot_releaseSlot]
        exact h.release fun _ hmem _ => hmem
      · simp [hdrops.1]
    · exact ⟨o, by simp [hdrops], h, .refl agent o, fun _ => ⟨i, agent_of_findAgentSlot hslot⟩⟩

theorem Tidy.unseat (h : o.Tidy keys) (hnamed : agent ≠ Pubkey.default) :
    (o.unseat agent).Tidy (keys.filter (· ≠ agent)) ∧ Moved agent o (o.unseat agent) := by
  unfold AgentSpendOverlay.unseat
  cases hslot : o.findAgentSlot agent with
  | none =>
    refine ⟨h.mono fun i hi => ?_, .refl agent o⟩
    exact List.mem_filter.mpr ⟨hi, by simpa using findAgentSlot_eq_none_iff.mp hslot i⟩
  | some i =>
    refine ⟨?_, moved_releaseSlot hslot⟩
    have hagent : (o.slot i).agent = agent := agent_of_findAgentSlot hslot
    rw [Tidy, slot_releaseSlot]
    refine h.release fun j hmem hji => List.mem_filter.mpr ⟨hmem, ?_⟩
    refine decide_eq_true fun hj => hji ?_
    exact h.distinct j i (by rwa [hj]) (hj.trans hagent.symm)

theorem Tidy.of_onlyAt (h : o.Tidy keys) (hagent : agent ≠ Pubkey.default)
    (hat : OnlyAt agent o o') : o'.Tidy keys :=
  h.congr hat.agents fun i hi => hat.others i fun hsame => hagent (hsame.symm.trans hi)

theorem slot_setAgentCooldown {cooldown : UInt64} (hi : o.findAgentSlot agent = some i) :
    (o.setAgentCooldown agent cooldown).slot i =
      { o.slot i with cooldownSeconds := cooldown } := by
  rw [setAgentCooldown_of_some hi]
  simp [setCooldownSeconds, slot]

end AgentSpendOverlay

end Table

section Change

variable {D : Type}

/-- The overlay is tidy for the agents, and every agent with a limit has a slot. -/
structure VaultAccounts.SlotsInOrder (a : VaultAccounts D) : Prop where
  tidy : a.overlay.Tidy a.vault.keys
  limited : ∀ agent limit, (agent, limit) ∈ a.vault.limits → 0 < limit →
    ∃ i, (a.overlay.slot i).agent = agent

variable {env : Env} {l l' : Ledger D} {a a' : VaultAccounts D} {c : Call D}

theorem mem_keys_of_mem_limits {agent : Pubkey} {limit : UInt64}
    (h : (agent, limit) ∈ a.vault.limits) : agent ∈ a.vault.keys :=
  a.vault.map_fst_limits ▸ List.mem_map_of_mem h

/-- The slots stay in order for the others when slots of one agent are given or taken away. -/
theorem VaultAccounts.SlotsInOrder.of_moved {agent : Pubkey} (h : a.SlotsInOrder)
    (hreg : Registry a.vault.keys) (htidy : a'.overlay.Tidy a'.vault.keys)
    (hmoved : Moved agent a.overlay a'.overlay)
    (hlimits : ∀ other limit, (other, limit) ∈ a'.vault.limits → 0 < limit →
      (other, limit) ∈ a.vault.limits ∧ other ≠ agent ∨
        other = agent ∧ ∃ i, (a'.overlay.slot i).agent = agent) : a'.SlotsInOrder := by
  refine ⟨htidy, fun other limit hmem hlimit => ?_⟩
  rcases hlimits other limit hmem hlimit with ⟨hold, hother⟩ | ⟨rfl, hself⟩
  · obtain ⟨i, hi⟩ := h.limited other limit hold hlimit
    have hnamed : other ≠ Pubkey.default := hreg.ne_default (mem_keys_of_mem_limits hold)
    exact ⟨i, by rw [hmoved.others i (by rwa [hi]) (by rwa [hi]), hi]⟩
  · exact hself

theorem VaultAccounts.SlotsInOrder.of_onlyAt {agent : Pubkey} (h : a.SlotsInOrder)
    (hnamed : agent ≠ Pubkey.default) (hlimits : a'.vault.limits = a.vault.limits)
    (hoverlay : OnlyAt agent a.overlay a'.overlay) : a'.SlotsInOrder := by
  refine ⟨?_, ?_⟩
  · rw [← AgentVault.map_fst_limits, hlimits, AgentVault.map_fst_limits]
    exact h.tidy.of_onlyAt hnamed hoverlay
  · rw [hlimits]
    intro other limit hmem hlimit
    obtain ⟨i, hi⟩ := h.limited other limit hmem hlimit
    exact ⟨i, (hoverlay.agents i).trans hi⟩

theorem VaultAccounts.SlotsInOrder.exists_seat {agent : Pubkey} {limit : UInt64}
    (h : a.SlotsInOrder) (hreg : Registry a.vault.keys) (hroom : a.vault.HasRoomFor agent)
    (hnamed : agent ≠ Pubkey.default) :
    ∃ o, a.overlay.seat agent limit = .ok o ∧ o.Tidy (a.vault.keys ++ [agent]) ∧
      Moved agent a.overlay o ∧ ∃ i, (o.slot i).agent = agent := by
  have hgrown : a.overlay.Tidy (a.vault.keys ++ [agent]) :=
    h.tidy.mono fun _ hmem => List.mem_append_left _ hmem
  have hstranger : agent ∉ a.vault.keys := fun hmem =>
    absurd (AgentVault.isAgent_iff.mpr hmem) (by simp [hroom.fresh])
  exact hgrown.exists_seat (hreg.push hroom hnamed).bounded hnamed
    (List.mem_append_right _ (List.mem_singleton_self _))
    (h.tidy.findAgentSlot_eq_none hnamed hstranger)

theorem SlotChange.inOrder (h : SlotChange env l a a' c) (ha : a.SlotsInOrder)
    (hreg : Registry a.vault.keys) (hreg' : Registry a'.vault.keys) : a'.SlotsInOrder := by
  have hkeys := a'.vault.map_fst_limits
  cases h with
  | kept hlimits hoverlay =>
    rw [hlimits, a.vault.map_fst_limits] at hkeys
    refine ⟨?_, ?_⟩
    · rw [hoverlay, ← hkeys]
      exact ha.tidy
    · rw [hoverlay, hlimits]
      exact ha.limited
  | charged hagent hlimits hoverlay =>
    exact ha.of_onlyAt (hreg.ne_default hagent) hlimits hoverlay.toOnlyAt
  | acted hagent hlimits hoverlay =>
    exact ha.of_onlyAt (hreg.ne_default hagent) hlimits (hoverlay ▸ onlyAt_noteAction ..)
  | @joined _ agent limit hroom hlimits hoverlay =>
    rw [hlimits, List.map_append, a.vault.map_fst_limits] at hkeys
    obtain ⟨o, hseat, htidy, hmoved, hself⟩ := ha.exists_seat hreg hroom (hreg'.ne_default
      (hkeys ▸ List.mem_append_right _ (List.mem_singleton_self _)))
    obtain rfl := Except.ok.inj (hoverlay.symm.trans hseat)
    refine ha.of_moved hreg (hkeys ▸ htidy) hmoved fun other limit' hmem hlimit => ?_
    rw [hlimits, List.mem_append, List.mem_singleton] at hmem
    rcases hmem with hold | hnew
    · refine .inl ⟨hold, fun hsame => ?_⟩
      have hknown := AgentVault.isAgent_iff.mpr (mem_keys_of_mem_limits hold)
      rw [hsame, hroom.fresh] at hknown
      exact Bool.false_ne_true hknown
    · exact .inr ⟨congrArg Prod.fst hnew, hself⟩
  | @grafted _ agent hlimits hoverlay =>
    rw [hlimits, List.map_append, a.vault.map_fst_limits] at hkeys
    refine ⟨?_, ?_⟩
    · rw [hoverlay, ← hkeys]
      exact ha.tidy.mono fun _ hmem => List.mem_append_left _ hmem
    · rw [hoverlay, hlimits]
      intro other limit hmem hlimit
      rcases List.mem_append.mp hmem with hold | hnew
      · exact ha.limited other limit hold hlimit
      · obtain ⟨rfl, rfl⟩ := Prod.mk.inj (List.mem_singleton.mp hnew)
        exact absurd hlimit (lt_irrefl 0)
  | @left _ agent hagent hlimits hoverlay =>
    have hfiltered : a'.vault.keys = a.vault.keys.filter (· ≠ agent) := by
      rw [← hkeys, hlimits, ← a.vault.map_fst_limits, List.filter_map]
      rfl
    obtain ⟨htidy, hmoved⟩ := ha.tidy.unseat (hreg.ne_default hagent)
    rw [← hoverlay] at htidy hmoved
    refine ha.of_moved hreg (hfiltered ▸ htidy) hmoved fun other limit hmem _ => .inl ?_
    rw [hlimits, List.mem_filter] at hmem
    exact ⟨hmem.1, of_decide_eq_true hmem.2⟩
  | @changed _ _ _ pending entry overlay hpending hentry hagents hreseat hoverlay =>
    have hagent := AgentVault.mem_keys_of_getAgent hentry
    have hsame : a'.vault.keys = a.vault.keys := by
      rw [AgentVault.keys, hagents]
      exact AgentVault.keys_updateAgent fun _ => rfl
    obtain ⟨o, hresult, htidy, hmoved, hself⟩ :=
      ha.tidy.exists_reseat hreg.bounded (hreg.ne_default hagent) hagent
    obtain rfl := Except.ok.inj (hreseat.symm.trans hresult)
    have hreseated : { a' with overlay := overlay }.SlotsInOrder := by
      refine ha.of_moved hreg (hsame ▸ htidy) hmoved fun other limit hmem hlimit => ?_
      obtain ⟨e, he, hpair⟩ := List.mem_map.mp hmem
      obtain ⟨rfl, rfl⟩ := Prod.mk.inj hpair
      change e ∈ a'.vault.agents at he
      rw [hagents] at he
      rcases FirstMatch.mem_modifyFirst_of_nodup AgentEntry.pubkey hreg.distinct he with
        ⟨hold, hne⟩ | ⟨e₀, he₀, rfl⟩
      · exact .inl ⟨List.mem_map.mpr ⟨e, hold, rfl⟩, hne⟩
      · have hkey : e₀.pubkey = pending.agent := AgentVault.pubkey_of_getAgent he₀
        exact .inr ⟨hkey, hself hlimit⟩
    refine hreseated.of_onlyAt (hreg.ne_default hagent) rfl ?_
    rw [hoverlay]
    exact onlyAt_setAgentCooldown ..

/-- An agent that is given a slot finds nothing in it, but for the cooldown that the owner sets for
it at the same time. -/
theorem SlotChange.fresh {agent : Pubkey} {i : Fin maxOverlayEntries}
    (h : SlotChange env l a a' c) (ha : a.SlotsInOrder) (hreg : Registry a.vault.keys)
    (hreg' : Registry a'.vault.keys) (hagent : agent ≠ Pubkey.default)
    (hnone : a.overlay.findAgentSlot agent = none)
    (hsome : a'.overlay.findAgentSlot agent = some i) :
    a'.overlay.slot i = Slot.fresh agent 0 ∨
      ∃ owner remaining address pending, c = .applyAgentPermissionsUpdate owner remaining address ∧
        l.pendingPerms address = some pending ∧ pending.agent = agent ∧
        a'.overlay.slot i = Slot.fresh agent pending.cooldownSeconds := by
  have hkept {other : Pubkey} (hat : OnlyAt other a.overlay a'.overlay) : False := by
    rw [findAgentSlot_of_onlyAt hat, hnone] at hsome
    exact nomatch hsome
  have hmove {mover : Pubkey} (hmoved : Moved mover a.overlay a'.overlay) :
      a'.overlay.slot i = Slot.fresh agent 0 := by
    by_cases hsame : agent = mover
    · subst hsame
      exact hmoved.fresh i hnone hsome
    · exact nomatch (hmoved.findAgentSlot_eq_none hagent hsame hnone).symm.trans hsome
  cases h with
  | kept hlimits hoverlay | grafted hlimits hoverlay =>
    exact nomatch (hoverlay ▸ hnone).symm.trans hsome
  | charged _ hlimits hoverlay => exact (hkept hoverlay.toOnlyAt).elim
  | acted _ hlimits hoverlay => exact (hkept (hoverlay ▸ onlyAt_noteAction ..)).elim
  | @joined _ joiner limit hroom hlimits hoverlay =>
    have hjoined : joiner ∈ a'.vault.keys := by
      rw [← a'.vault.map_fst_limits, hlimits]
      exact List.mem_map.mpr ⟨_, List.mem_append_right _ (List.mem_singleton_self _), rfl⟩
    obtain ⟨o, hseat, -, hmoved, -⟩ := ha.exists_seat hreg hroom (hreg'.ne_default hjoined)
    obtain rfl := Except.ok.inj (hoverlay.symm.trans hseat)
    exact .inl (hmove hmoved)
  | left hleaver hlimits hoverlay =>
    exact .inl (hmove (hoverlay ▸ (ha.tidy.unseat (hreg.ne_default hleaver)).2))
  | @changed owner address remaining pending entry overlay hpending hentry hagents hreseat
      hoverlay =>
    have hchanged := AgentVault.mem_keys_of_getAgent hentry
    obtain ⟨o, hresult, -, hmoved, -⟩ :=
      ha.tidy.exists_reseat hreg.bounded (hreg.ne_default hchanged) hchanged
    obtain rfl := Except.ok.inj (hreseat.symm.trans hresult)
    rw [hoverlay, findAgentSlot_of_onlyAt (onlyAt_setAgentCooldown ..)] at hsome
    by_cases hself : pending.agent = agent
    · subst hself
      refine .inr ⟨owner, remaining, address, pending, rfl, hpending, rfl, ?_⟩
      rw [hoverlay, slot_setAgentCooldown hsome, hmoved.fresh i hnone hsome]
      rfl
    · exact nomatch (hmoved.findAgentSlot_eq_none hagent (Ne.symm hself) hnone).symm.trans hsome

variable [Host D] [DecidableEq D]

theorem exec_slotsInOrder (h : exec env l c = .ok l') (hl : l.Registered)
    (hslots : ∀ a, l.live = some a → a.SlotsInOrder) (ha' : l'.live = some a') :
    a'.SlotsInOrder := by
  cases ha : l.live with
  | some a =>
    exact (exec_slotChange h ha ha').inOrder (hslots a ha) (hl.agents a ha)
      ((exec_registered h hl).agents a' ha')
  | none =>
    -- a new vault has no agents and an empty overlay
    rcases exec_exists_live h with ⟨a, hsome⟩ | ⟨owner, feeDestination, args, rfl⟩
    · exact nomatch ha.symm.trans hsome
    · obtain ⟨-, -, -, -, -, -, rfl⟩ := initializeVault_ok h
      cases ha'
      exact ⟨tidy_const _, fun _ _ hmem => absurd hmem List.not_mem_nil⟩

theorem run_slotsInOrder {as : List (Action D)} (hrun : Run Step l as l') (hl : l.Genesis)
    (ha' : l'.live = some a') : a'.SlotsInOrder := by
  have hinvariant : l'.Registered ∧ ∀ a, l'.live = some a → a.SlotsInOrder := by
    refine hrun.invariant (P := fun m => m.Registered ∧ ∀ a, m.live = some a → a.SlotsInOrder)
      (fun m x m' hm hstep => ?_) ⟨run_registered (.nil l) hl, by simp [hl.live]⟩
    cases hstep with
    | call h => exact ⟨exec_registered h hm.1, fun a => exec_slotsInOrder h hm.1 hm.2⟩
    | foreign => exact ⟨⟨hm.1.agents, hm.1.grant⟩, hm.2⟩
  exact hinvariant.2 a' ha'

end Change

end Sigil
