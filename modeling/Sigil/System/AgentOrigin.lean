import Sigil.System.Frame

/-! # Where the agents come from

Every entry in the list of agents after an instruction was there before or is the work of one of
eight instructions: `exec_entry` names the one, what it checked and what it wrote. `exec_origin`
forgets the changes that give an agent no right.
-/

namespace Sigil

open Guard Trace

variable {D : Type} [Host D]

/-- How an instruction came to leave an entry in the list of agents. -/
inductive EntryAfter (env : Env) (l : Ledger D) (a : VaultAccounts D) :
    Call D → AgentEntry → Prop
  | same {c : Call D} {e : AgentEntry} (he : e ∈ a.vault.agents) : EntryAfter env l a c e
  | paused {owner agent : Pubkey} {e : AgentEntry} (he : a.vault.getAgent agent = some e) :
      EntryAfter env l a (.pauseAgent owner agent) { e with paused := true }
  | unpaused {owner agent : Pubkey} {remaining : List AccountMeta} {e : AgentEntry}
      (he : a.vault.getAgent agent = some e) :
      EntryAfter env l a (.unpauseAgent owner remaining agent) { e with paused := false }
  | reported {owner agent : Pubkey} {errorCode : UInt32} {e : AgentEntry}
      (he : a.vault.getAgent agent = some e) :
      EntryAfter env l a (.recordAgentViolation owner agent errorCode)
        (e.recordFailure a.policy.autoRevokeThreshold)
  | authorized {args : ValidateAndAuthorizeArgs D} {e : AgentEntry}
      (he : a.vault.getAgent args.agent = some e) :
      EntryAfter env l a (.validateAndAuthorize args) { e with consecutiveFailures := 0 }
  | registered {owner agent : Pubkey} {remaining : List AccountMeta} {capability : UInt8}
      {limit : UInt64} (hroom : a.vault.HasRoomFor agent)
      (heligible : a.vault.Eligible agent capability)
      (hgate : a.registrationGate remaining capability = .ok ()) :
      EntryAfter env l a (.registerAgent owner remaining agent capability limit)
        ⟨agent, capability, limit, false, 0⟩
  | grafted {owner agent : Pubkey} {remaining : List AccountMeta} {capability : UInt8}
      (hroom : a.vault.HasRoomFor agent) (heligible : a.vault.Eligible agent capability)
      (hgate : capabilityOperator ≤ capability → a.instantOperatorGate remaining = .ok ()) :
      EntryAfter env l a (.reactivateVault owner remaining (some agent) (some capability))
        ⟨agent, capability, 0, false, 0⟩
  | granted {owner : Pubkey} {remaining : List AccountMeta} {p : PendingAgentGrant D}
      (hp : l.pendingGrant = some p) (hready : GrantReady env a p) :
      EntryAfter env l a (.applyAgentGrant owner remaining)
        ⟨p.agent, p.capability, p.spendingLimitUsd, false, 0⟩
  | changed {owner address : Pubkey} {remaining : List AccountMeta}
      {p : PendingAgentPermissionsUpdate D} {e : AgentEntry}
      (hready : PermsReady env l address p) (he : a.vault.getAgent p.agent = some e) :
      EntryAfter env l a (.applyAgentPermissionsUpdate owner remaining address)
        { e with capability := p.newCapability, spendingLimitUsd := p.spendingLimitUsd }

inductive AgentOrigin (env : Env) (l : Ledger D) (a : VaultAccounts D) :
    Call D → AgentEntry → Prop
  | kept {c : Call D} {e e' : AgentEntry} (he : e ∈ a.vault.agents)
      (hkey : e'.pubkey = e.pubkey) (hcapability : e'.capability ≤ e.capability)
      (hlimit : e'.spendingLimitUsd = e.spendingLimitUsd)
      (hpaused : e.paused = true → e'.paused = true) : AgentOrigin env l a c e'
  | unpaused {owner agent : Pubkey} {remaining : List AccountMeta} {e : AgentEntry}
      (he : a.vault.getAgent agent = some e) :
      AgentOrigin env l a (.unpauseAgent owner remaining agent) { e with paused := false }
  | registered {owner agent : Pubkey} {remaining : List AccountMeta} {capability : UInt8}
      {limit : UInt64} (heligible : a.vault.Eligible agent capability)
      (hgate : a.registrationGate remaining capability = .ok ()) :
      AgentOrigin env l a (.registerAgent owner remaining agent capability limit)
        ⟨agent, capability, limit, false, 0⟩
  | grafted {owner agent : Pubkey} {remaining : List AccountMeta} {capability : UInt8}
      {newAgent : Option Pubkey} {newCapability : Option UInt8}
      (heligible : a.vault.Eligible agent capability)
      (hgate : capabilityOperator ≤ capability → a.instantOperatorGate remaining = .ok ()) :
      AgentOrigin env l a (.reactivateVault owner remaining newAgent newCapability)
        ⟨agent, capability, 0, false, 0⟩
  | granted {owner : Pubkey} {remaining : List AccountMeta} {p : PendingAgentGrant D}
      (hp : l.pendingGrant = some p) (hready : GrantReady env a p) :
      AgentOrigin env l a (.applyAgentGrant owner remaining)
        ⟨p.agent, p.capability, p.spendingLimitUsd, false, 0⟩
  | changed {owner address : Pubkey} {remaining : List AccountMeta}
      {p : PendingAgentPermissionsUpdate D} {e : AgentEntry}
      (hready : PermsReady env l address p) (he : a.vault.getAgent p.agent = some e) :
      AgentOrigin env l a (.applyAgentPermissionsUpdate owner remaining address)
        { e with capability := p.newCapability, spendingLimitUsd := p.spendingLimitUsd }

section Exec

variable {env : Env} {c : Call D} {l l' : Ledger D} {a a' : VaultAccounts D} {e : AgentEntry}

theorem EntryAfter.of_updateAgent {v : AgentVault} {agent : Pubkey} {f : AgentEntry → AgentEntry}
    (he : e ∈ (v.updateAgent agent f).agents) (hv : v.agents = a.vault.agents)
    (hf : ∀ e₀, a.vault.getAgent agent = some e₀ → EntryAfter env l a c (f e₀)) :
    EntryAfter env l a c e := by
  rcases AgentVault.mem_updateAgent he with hold | ⟨e₀, he₀, rfl⟩
  · exact .same (hv ▸ hold)
  · rw [AgentVault.getAgent, hv] at he₀
    exact hf e₀ he₀

theorem EntryAfter.of_pushAgent {agents : List AgentEntry} {new : AgentEntry}
    (he : e ∈ agents ++ [new]) (hagents : agents = a.vault.agents)
    (hnew : EntryAfter env l a c new) : EntryAfter env l a c e := by
  rcases List.mem_append.mp he with hold | hlast
  · exact .same (hagents ▸ hold)
  · exact List.mem_singleton.mp hlast ▸ hnew

/-- What is left of an entry that was not added just now: a change of permissions apart, it can do
no more than before. -/
theorem EntryAfter.origin (h : EntryAfter env l a c e) : AgentOrigin env l a c e := by
  cases h with
  | same he => exact .kept he rfl (UInt8.le_refl _) rfl id
  | paused he =>
    exact .kept (List.mem_of_find?_eq_some he) rfl (UInt8.le_refl _) rfl fun _ => rfl
  | unpaused he => exact .unpaused he
  | @reported _ _ _ e he =>
    exact .kept (List.mem_of_find?_eq_some he) rfl (e.recordFailure_capability_le _) rfl id
  | authorized he => exact .kept (List.mem_of_find?_eq_some he) rfl (UInt8.le_refl _) rfl id
  | registered _ heligible hgate => exact .registered heligible hgate
  | grafted _ heligible hgate => exact .grafted heligible hgate
  | granted hp hready => exact .granted hp hready
  | changed hready he => exact .changed hready he

variable [DecidableEq D]

theorem exec_entry (h : exec env l c = .ok l') (ha' : l'.live = some a')
    (he : e ∈ a'.vault.agents) : ∃ a, l.live = some a ∧ EntryAfter env l a c e := by
  by_cases hwrites : Part.agents ∉ c.writes
  · obtain ⟨a, ha, hagents⟩ := Ledger.Agree.exists_before (exec_frame h hwrites) ha'
    exact ⟨a, ha, .same (hagents ▸ he)⟩
  rw [not_not] at hwrites
  cases c <;> simp [Call.writes, Part.ofVault] at hwrites
  case initializeVault =>
    obtain ⟨-, -, -, -, -, -, rfl⟩ := initializeVault_ok h
    cases ha'
    cases he
  case closeVault =>
    obtain ⟨a, -, -, -, -, -, rfl⟩ := closeVault_ok h
    cases ha'
  case reactivateVault =>
    obtain ⟨a, g, version, ha, -, -, hgraft, -, rfl⟩ := reactivateVault_ok h
    cases ha'
    rcases graftAgent_ok hgraft
      with rfl | ⟨agent, capability, rfl, rfl, hroom, heligible, hgate, rfl⟩
    · exact ⟨g, ha, .same he⟩
    · exact ⟨a, ha, .of_pushAgent he rfl (.grafted hroom heligible hgate)⟩
  case pauseAgent =>
    obtain ⟨a, version, ha, -, -, rfl⟩ := pauseAgent_ok h
    cases ha'
    exact ⟨a, ha, .of_updateAgent he rfl fun _ => .paused⟩
  case unpauseAgent =>
    obtain ⟨a, version, ha, -, -, -, rfl⟩ := unpauseAgent_ok h
    cases ha'
    exact ⟨a, ha, .of_updateAgent he rfl fun _ => .unpaused⟩
  case registerAgent =>
    obtain ⟨a, overlay, version, ha, -, hroom, heligible, hgate, -, -, rfl⟩ := registerAgent_ok h
    cases ha'
    exact ⟨a, ha, .of_pushAgent he rfl (.registered hroom heligible hgate)⟩
  case revokeAgent agent =>
    obtain ⟨a, version, ha, -, -, -, rfl⟩ := revokeAgent_ok h
    cases ha'
    exact ⟨a, ha, .same (AgentVault.mem_removeAgent he)⟩
  case recordAgentViolation =>
    obtain ⟨a, entry, ha, -, -, -, ⟨-, rfl⟩ | ⟨version, -, -, rfl⟩⟩ :=
      recordAgentViolation_ok h <;>
    · cases ha'
      exact ⟨a, ha, .of_updateAgent he rfl fun _ => .reported⟩
  case applyAgentGrant =>
    obtain ⟨a, pending, overlay, version, ha, -, hpending, -, hready, -, -, rfl⟩ :=
      applyAgentGrant_ok h
    cases ha'
    exact ⟨a, ha, .of_pushAgent he rfl (.granted hpending hready)⟩
  case applyAgentPermissionsUpdate =>
    obtain ⟨a, pending, entry, overlay, version, ha, -, -, hready, -, -, -, rfl⟩ :=
      applyAgentPermissionsUpdate_ok h
    cases ha'
    exact ⟨a, ha, .of_updateAgent he rfl fun _ => .changed hready⟩
  case validateAndAuthorize =>
    obtain ⟨a, vaultToken, pins, snapshots, tokens, ho⟩ := validateAndAuthorize_ok h
    obtain rfl := ho.result
    cases ha'
    exact ⟨a, ho.live, .of_updateAgent he rfl fun _ => .authorized⟩

theorem exec_origin (h : exec env l c = .ok l') (ha' : l'.live = some a')
    (he : e ∈ a'.vault.agents) : ∃ a, l.live = some a ∧ AgentOrigin env l a c e := by
  obtain ⟨a, ha, hentry⟩ := exec_entry h ha' he
  exact ⟨a, ha, hentry.origin⟩

end Exec

end Sigil
