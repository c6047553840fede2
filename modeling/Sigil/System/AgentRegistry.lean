import Sigil.System.Frame

/-! # The registered agents and their slots

Which instructions change the agents of a vault, and what that does to their keys and to the slots
they hold in the overlay. Along every run the keys stay distinct, at most ten, and real.
-/

namespace Sigil

open Guard Trace

section Keys

def AgentVault.keys (v : AgentVault) : List Pubkey := v.agents.map AgentEntry.pubkey

/-- The keys of the agents are distinct, at most ten, and none is the default key. -/
structure Registry (keys : List Pubkey) : Prop where
  distinct : keys.Nodup
  bounded : keys.length ≤ maxAgentsPerVault
  named : Pubkey.default ∉ keys

variable {v : AgentVault} {agent : Pubkey} {f : AgentEntry → AgentEntry}

theorem AgentVault.isAgent_iff : v.isAgent agent = true ↔ agent ∈ v.keys := by
  simp [isAgent, keys]

theorem AgentVault.keys_updateAgent (hf : ∀ e, (f e).pubkey = e.pubkey) :
    (v.updateAgent agent f).keys = v.keys :=
  FirstMatch.map_modifyFirst AgentEntry.pubkey fun e _ => hf e

theorem AgentVault.keys_removeAgent (clock : Clock) :
    (v.removeAgent agent clock).keys = v.keys.filter (· ≠ agent) := by
  have hfilter : (v.agents.filter fun e => e.pubkey ≠ agent).map AgentEntry.pubkey =
      v.keys.filter (· ≠ agent) := by
    rw [keys, List.filter_map]
    rfl
  unfold removeAgent
  dsimp only
  split <;> exact hfilter

theorem Registry.ne_default {keys : List Pubkey} (h : Registry keys) (hagent : agent ∈ keys) :
    agent ≠ Pubkey.default :=
  fun hdefault => h.named (hdefault ▸ hagent)

theorem Registry.push (h : Registry v.keys) (hroom : v.HasRoomFor agent)
    (hnamed : agent ≠ Pubkey.default) : Registry (v.keys ++ [agent]) where
  distinct := by
    have hfresh : agent ∉ v.keys := fun hmem =>
      absurd (AgentVault.isAgent_iff.mpr hmem) (by simp [hroom.fresh])
    exact List.nodup_append.mpr ⟨h.distinct, List.nodup_singleton _, by
      rintro key hkey _ hagent rfl
      exact hfresh (List.mem_singleton.mp hagent ▸ hkey)⟩
  bounded := by
    have hlen : v.keys.length < maxAgentsPerVault := by
      simpa [AgentVault.keys] using hroom.room
    simpa using Nat.succ_le_of_lt hlen
  named := by simp [h.named, hnamed.symm]

theorem Registry.filter {keys : List Pubkey} (h : Registry keys) (p : Pubkey → Bool) :
    Registry (keys.filter p) where
  distinct := h.distinct.filter p
  bounded := (List.length_filter_le _ _).trans h.bounded
  named := fun hmem => h.named (List.mem_filter.mp hmem).1

end Keys

/-- The instructions that can change who the agents are, what they have done, or a grant. -/
def Call.touchesAgents {D : Type} : Call D → Bool
  | initializeVault .. | closeVault .. | reactivateVault .. | registerAgent .. | revokeAgent ..
  | queueAgentGrant .. | applyAgentGrant .. | cancelAgentGrant .. | applyAgentPermissionsUpdate ..
  | agentTransfer .. | validateAndAuthorize .. | finalizeSession .. => true
  | _ => false

/-- The registry of a vault, and of the agent that is about to join it, is in order. -/
structure Ledger.Registered {D : Type} (l : Ledger D) : Prop where
  agents : ∀ a ∈ l.live, Registry a.vault.keys
  grant : ∀ p ∈ l.pendingGrant, p.agent ≠ Pubkey.default

section Exec

variable {D : Type} [Host D] [DecidableEq D] {env : Env} {c : Call D} {l l' : Ledger D}
  {a a' : VaultAccounts D}

/-- The effect of all other instructions: none on the keys, the slots and the pending grant. -/
theorem exec_bystander (h : exec env l c = .ok l') (hc : c.touchesAgents = false) :
    ∃ a a', l.live = some a ∧ l'.live = some a' ∧ a'.vault.keys = a.vault.keys ∧
      a'.overlay = a.overlay ∧ l'.pendingGrant = l.pendingGrant := by
  have hwrites : c.touchesAgents = false →
      Part.overlay ∉ c.writes ∧ Part.pendingGrant ∉ c.writes := by
    cases c <;> simp [Call.touchesAgents, Call.writes]
  obtain ⟨hoverlay, hgrant⟩ := hwrites hc
  rcases exec_exists_live h with ⟨a, ha⟩ | ⟨_, _, _, rfl⟩
  swap
  · cases hc
  obtain ⟨a', ha', hsame⟩ := (exec_frame h hoverlay).exists_after ha
  refine ⟨a, a', ha, ha', ?_, hsame, exec_frame h hgrant⟩
  by_cases hagents : Part.agents ∉ c.writes
  · exact congrArg (List.map _) ((exec_frame h hagents).eq ha ha')
  -- an agent is paused, unpaused or punished
  cases c <;> simp [Call.writes, Part.ofVault, Call.touchesAgents] at hagents hc
  case pauseAgent =>
    obtain ⟨b, version, hb, -, -, rfl⟩ := pauseAgent_ok h
    cases ha.symm.trans hb
    exact Option.some.inj ha' ▸ AgentVault.keys_updateAgent fun _ => rfl
  case unpauseAgent =>
    obtain ⟨b, version, hb, -, -, -, rfl⟩ := unpauseAgent_ok h
    cases ha.symm.trans hb
    exact Option.some.inj ha' ▸ AgentVault.keys_updateAgent fun _ => rfl
  case recordAgentViolation =>
    obtain ⟨b, entry, hb, -, -, -, ⟨-, rfl⟩ | ⟨version, -, -, rfl⟩⟩ :=
      recordAgentViolation_ok h
    all_goals
      cases ha.symm.trans hb
      exact Option.some.inj ha' ▸ AgentVault.keys_updateAgent fun _ => rfl

omit [Host D] [DecidableEq D] in
theorem Ledger.Registered.of_keys (hl : l.Registered) (ha : l.live = some a)
    (ha' : l'.live = some a') (hkeys : a'.vault.keys = a.vault.keys)
    (hgrant : ∀ p ∈ l'.pendingGrant, p ∈ l.pendingGrant) : l'.Registered := by
  refine ⟨fun b hb => ?_, fun p hp => hl.grant p (hgrant p hp)⟩
  cases ha'.symm.trans hb
  rw [hkeys]
  exact hl.agents a ha

omit [Host D] [DecidableEq D] in
theorem Ledger.Registered.of_registry (hl : l.Registered) (ha' : l'.live = some a')
    (hkeys : Registry a'.vault.keys) (hgrant : ∀ p ∈ l'.pendingGrant, p ∈ l.pendingGrant) :
    l'.Registered := by
  refine ⟨fun b hb => ?_, fun p hp => hl.grant p (hgrant p hp)⟩
  cases ha'.symm.trans hb
  exact hkeys

omit [DecidableEq D] in
theorem Ledger.Registered.closed (hl : l.Registered) (a : VaultAccounts D)
    (remaining : List AccountMeta) : (closedLedger a remaining l).Registered := by
  refine ⟨fun b hb => ?_, fun p hp => ?_⟩
  · rw [show (closedLedger a remaining l).live = none from rfl] at hb
    cases hb
  · exact hl.grant p (mem_of_mem_drainListed hp)

omit [Host D] [DecidableEq D] in
theorem VaultAccounts.keys_pushAgent (a : VaultAccounts D) (agent : Pubkey) (capability : UInt8)
    (limit : UInt64) : (a.pushAgent agent capability limit).vault.keys =
      a.vault.keys ++ [agent] := by
  simp [pushAgent, AgentVault.keys]

theorem exec_registered (h : exec env l c = .ok l') (hl : l.Registered) : l'.Registered := by
  by_cases hc : c.touchesAgents = false
  · obtain ⟨a, a', ha, ha', hkeys, -, hgrant⟩ := exec_bystander h hc
    exact hl.of_keys ha ha' hkeys fun p hp => hgrant ▸ hp
  cases c <;> try exact absurd rfl hc
  case initializeVault =>
    obtain ⟨-, -, -, -, -, -, rfl⟩ := initializeVault_ok h
    exact hl.of_registry rfl ⟨List.nodup_nil, Nat.zero_le _, List.not_mem_nil⟩ fun _ hp => hp
  case closeVault =>
    obtain ⟨a, -, -, -, -, -, rfl⟩ := closeVault_ok h
    exact hl.closed a _
  case reactivateVault =>
    obtain ⟨a, g, version, ha, -, -, hgraft, -, rfl⟩ := reactivateVault_ok h
    rcases graftAgent_ok hgraft with rfl | ⟨agent, capability, -, -, hroom, heligible, -, rfl⟩
    · exact hl.of_keys ha rfl rfl fun _ hp => hp
    · refine hl.of_registry rfl ?_ fun _ hp => hp
      exact (a.keys_pushAgent agent capability 0) ▸ (hl.agents a ha).push hroom heligible.named
  case registerAgent agent capability limit =>
    obtain ⟨a, overlay, version, ha, -, hroom, heligible, -, -, -, rfl⟩ := registerAgent_ok h
    refine hl.of_registry rfl ?_ fun _ hp => hp
    exact (a.keys_pushAgent agent capability limit) ▸ (hl.agents a ha).push hroom heligible.named
  case revokeAgent =>
    obtain ⟨a, version, ha, -, -, -, rfl⟩ := revokeAgent_ok h
    refine hl.of_registry rfl ?_ fun _ hp => hp
    exact (AgentVault.keys_removeAgent env.clock) ▸ (hl.agents a ha).filter _
  case queueAgentGrant =>
    obtain ⟨a, pending, ha, -, -, hqueued, rfl⟩ := queueAgentGrant_ok h
    exact ⟨hl.agents, fun p hp => Option.some.inj hp ▸ hqueued.eligible.named⟩
  case applyAgentGrant =>
    obtain ⟨a, pending, overlay, version, ha, -, hpending, -, hready, -, -, rfl⟩ :=
      applyAgentGrant_ok h
    refine hl.of_registry rfl ?_ nofun
    exact (a.keys_pushAgent _ pending.capability pending.spendingLimitUsd) ▸
      (hl.agents a ha).push hready.room (hl.grant pending hpending)
  case cancelAgentGrant =>
    obtain ⟨a, ha, -, -, rfl⟩ := cancelAgentGrant_ok h
    exact ⟨hl.agents, nofun⟩
  case applyAgentPermissionsUpdate =>
    obtain ⟨a, pending, entry, overlay, version, ha, -, -, -, -, -, -, rfl⟩ :=
      applyAgentPermissionsUpdate_ok h
    exact hl.of_keys ha rfl (AgentVault.keys_updateAgent fun _ => rfl) fun _ hp => hp
  case agentTransfer =>
    obtain ⟨a, overlay, tracker, transactions, volume, fees, tokens, ha, rfl⟩ :=
      agentTransfer_effect h
    exact hl.of_keys ha rfl rfl fun _ hp => hp
  case validateAndAuthorize =>
    obtain ⟨a, vaultToken, pins, snapshots, tokens, ho⟩ := validateAndAuthorize_ok h
    obtain rfl := ho.result
    exact hl.of_keys ho.live rfl (AgentVault.keys_updateAgent fun _ => rfl) fun _ hp => hp
  case finalizeSession =>
    obtain ⟨a, overlay, tracker, transactions, volume, fees, failed, sessions, tokens, ha, rfl⟩ :=
      finalizeSession_effect h
    exact hl.of_keys ha rfl rfl fun _ hp => hp

theorem run_registered {as : List (Action D)} (hrun : Run Step l as l') (hl : l.Genesis) :
    l'.Registered := by
  refine hrun.invariant (fun m x m' hm hstep => ?_) ⟨by simp [hl.live], by simp [hl.pendingGrant]⟩
  cases hstep with
  | call h => exact exec_registered h hm
  | foreign => exact ⟨hm.agents, hm.grant⟩

end Exec

end Sigil
