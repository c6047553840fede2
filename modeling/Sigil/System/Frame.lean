import Sigil.System.Footprint

/-! # What each instruction writes

The state around a vault in parts, and for each instruction the parts it can write. Every other
part is as it was: `exec_frame` says so once for the whole program, so that an invariant of one
part has to be checked only against the instructions that write it.
-/

namespace Sigil

open Guard Trace

inductive Part
  | custody | status | observeOnly | agents | overlay | tracker | guards | graylist | assertions
  | version | sessionCount | figures | identity | sessions | pendingOwner | pendingGrant
  | pendingPerms | assertionList | tokens | key
  deriving DecidableEq

/-- The parts that are stored in the accounts a vault is created with. -/
def Part.ofVault : List Part :=
  [.custody, .status, .observeOnly, .agents, .overlay, .tracker, .guards, .graylist, .assertions,
    .version, .sessionCount, .figures, .identity]

/-- The parts an instruction can write. -/
def Call.writes {D : Type} : Call D → List Part
  | initializeVault .. => Part.ofVault
  | closeVault .. => Part.ofVault ++ [.pendingOwner, .pendingGrant, .pendingPerms]
  | freezeVault .. => [.status, .pendingOwner, .tokens]
  | reactivateVault .. => [.status, .agents, .version]
  | setObserveOnly .. => [.observeOnly, .version]
  | pauseAgent .. | unpauseAgent .. | recordAgentViolation .. => [.agents, .version]
  | registerAgent .. => [.agents, .overlay, .version]
  | revokeAgent .. => [.status, .agents, .overlay, .version]
  | queueAgentGrant .. | cancelAgentGrant .. => [.pendingGrant]
  | applyAgentGrant .. => [.agents, .overlay, .version, .pendingGrant]
  | queueAgentPermissionsUpdate .. | cancelAgentPermissionsUpdate .. => [.pendingPerms]
  | applyAgentPermissionsUpdate .. => [.agents, .overlay, .version, .pendingPerms]
  | applyPendingPolicy .. => [.guards, .graylist, .version]
  | promoteGraylistDestination .. => [.graylist]
  | initiateOwnershipTransfer .. | cancelOwnershipTransfer .. => [.pendingOwner]
  | acceptOwnershipTransfer .. => [.custody, .guards, .version, .pendingOwner]
  | createPostAssertions .. | closePostAssertions .. => [.assertions, .version, .assertionList]
  | depositFunds .. | withdrawFunds .. => [.figures, .tokens]
  | agentTransfer .. => [.overlay, .tracker, .figures, .tokens]
  | validateAndAuthorize .. => [.agents, .overlay, .sessionCount, .sessions, .tokens]
  | finalizeSession .. => [.overlay, .tracker, .sessionCount, .figures, .sessions, .tokens]
  | queuePolicyUpdate .. | approvePendingPolicy .. | cancelPendingPolicy ..
  | acceptOwnershipTransferMultisig .. => []

section Frame

variable {D : Type} {α : Type} {l l' : Ledger D} {f : VaultAccounts D → α} {a a' : VaultAccounts D}

def Ledger.Agree (l l' : Ledger D) (f : VaultAccounts D → α) : Prop := l'.live.map f = l.live.map f

theorem Ledger.Agree.eq (h : l.Agree l' f) (ha : l.live = some a) (ha' : l'.live = some a') :
    f a' = f a := by
  simpa [Ledger.Agree, ha, ha'] using h

theorem Ledger.Agree.exists_before (h : l.Agree l' f) (ha' : l'.live = some a') :
    ∃ a, l.live = some a ∧ f a' = f a := by
  rw [Ledger.Agree, ha', Option.map_some] at h
  obtain ⟨a, ha, hf⟩ := Option.map_eq_some_iff.mp h.symm
  exact ⟨a, ha, hf.symm⟩

theorem Ledger.Agree.exists_after (h : l.Agree l' f) (ha : l.live = some a) :
    ∃ a', l'.live = some a' ∧ f a' = f a := by
  rw [Ledger.Agree, ha, Option.map_some] at h
  exact Option.map_eq_some_iff.mp h

/-- What a vault keeps from its creation on. -/
def VaultAccounts.identity (a : VaultAccounts D) : Pubkey × UInt64 × Pubkey × UInt64 :=
  (a.vault.vaultAuthority, a.vault.vaultId, a.vault.feeDestination, a.policy.createdAtSlot)

def AgentVault.figures (v : AgentVault) : List UInt64 :=
  [v.totalTransactions, v.totalVolume, v.totalFeesCollected, v.totalDepositedUsd,
    v.totalWithdrawnUsd, v.totalFailedTransactions]

variable [Host D]

/-- A part is the same before and after. -/
def Ledger.SameAt (l l' : Ledger D) : Part → Prop
  | .custody => l.Agree l' fun a => (a.vault.owner, a.vault.ownerType)
  | .status => l.Agree l' fun a => (a.vault.status, a.vault.frozenAtTimestamp)
  | .observeOnly => l.Agree l' fun a => a.vault.observeOnly
  | .agents => l.Agree l' fun a => a.vault.agents
  | .overlay => l.Agree l' fun a => a.overlay
  | .tracker => l.Agree l' fun a => a.tracker
  | .guards => l.Agree l' fun a => a.policy.core
  | .graylist => l.Agree l' fun a => a.policy.destinationGraylist
  | .assertions => l.Agree l' fun a => a.policy.hasPostAssertions
  | .version => l.Agree l' fun a => a.policy.policyVersion
  | .sessionCount => l.Agree l' fun a => a.vault.activeSessions
  | .figures => l.Agree l' fun a => a.vault.figures
  | .identity => l.Agree l' VaultAccounts.identity
  | .sessions => l'.sessions = l.sessions
  | .pendingOwner => l'.pendingOwner = l.pendingOwner
  | .pendingGrant => l'.pendingGrant = l.pendingGrant
  | .pendingPerms => l'.pendingPerms = l.pendingPerms
  | .assertionList => l'.postAssertions = l.postAssertions
  | .tokens => l'.tokens = l.tokens
  | .key => l'.vaultKey = l.vaultKey

variable [DecidableEq D] {env : Env} {c : Call D} {p : Part}

theorem exec_frame (h : exec env l c = .ok l') (hp : p ∉ c.writes) : l.SameAt l' p := by
  obtain ⟨vaultKey, live, pendingPolicy, pendingOwner, pendingGrant, pendingPerms, postAssertions,
    sessions, tokens, others⟩ := l
  cases c with
  | initializeVault =>
    obtain ⟨-, -, -, -, -, -, rfl⟩ := initializeVault_ok h
    cases p <;> first | rfl | simp [Call.writes, Part.ofVault] at hp
  | closeVault =>
    obtain ⟨a, -, -, -, -, -, rfl⟩ := closeVault_ok h
    cases p <;> first | rfl | simp [Call.writes, Part.ofVault] at hp
  | freezeVault =>
    obtain ⟨a, -, -, rfl, -, -, rfl⟩ := freezeVault_ok h
    cases p <;> first | rfl | simp [Call.writes] at hp
  | reactivateVault =>
    obtain ⟨a, g, version, rfl, -, -, hgraft, -, rfl⟩ := reactivateVault_ok h
    rcases graftAgent_ok hgraft with rfl | ⟨agent, capability, -, -, -, -, -, rfl⟩ <;>
      cases p <;> first | rfl | simp [Call.writes] at hp
  | setObserveOnly =>
    obtain ⟨a, version, rfl, -, -, -, rfl⟩ := setObserveOnly_ok h
    cases p <;> first | rfl | simp [Call.writes] at hp
  | depositFunds =>
    obtain ⟨a, deposited, tokens, rfl, -, rfl⟩ := depositFunds_ok h
    cases p <;> first | rfl | simp [Call.writes] at hp
  | withdrawFunds =>
    obtain ⟨a, withdrawn, tokens, rfl, -, -, rfl⟩ := withdrawFunds_ok h
    cases p <;> first | rfl | simp [Call.writes] at hp
  | pauseAgent =>
    obtain ⟨a, version, rfl, -, -, rfl⟩ := pauseAgent_ok h
    cases p <;> first | rfl | simp [Call.writes] at hp
  | unpauseAgent =>
    obtain ⟨a, version, rfl, -, -, -, rfl⟩ := unpauseAgent_ok h
    cases p <;> first | rfl | simp [Call.writes] at hp
  | registerAgent =>
    obtain ⟨a, overlay, version, rfl, -, -, -, -, -, -, rfl⟩ := registerAgent_ok h
    cases p <;> first | rfl | simp [Call.writes] at hp
  | revokeAgent =>
    obtain ⟨a, version, rfl, -, -, -, rfl⟩ := revokeAgent_ok h
    unfold AgentVault.removeAgent
    dsimp only
    split <;> cases p <;> first | rfl | simp [Call.writes] at hp
  | recordAgentViolation =>
    obtain ⟨a, entry, rfl, -, -, -, ⟨-, rfl⟩ | ⟨version, -, -, rfl⟩⟩ :=
      recordAgentViolation_ok h <;>
      cases p <;> first | rfl | simp [Call.writes] at hp
  | queueAgentGrant =>
    obtain ⟨a, pending, -, -, -, -, rfl⟩ := queueAgentGrant_ok h
    cases p <;> first | rfl | simp [Call.writes] at hp
  | applyAgentGrant =>
    obtain ⟨a, pending, overlay, version, rfl, -, -, -, -, -, -, rfl⟩ := applyAgentGrant_ok h
    cases p <;> first | rfl | simp [Call.writes] at hp
  | cancelAgentGrant =>
    obtain ⟨a, -, -, -, rfl⟩ := cancelAgentGrant_ok h
    cases p <;> first | rfl | simp [Call.writes] at hp
  | queueAgentPermissionsUpdate =>
    obtain ⟨a, pending, -, -, -, -, rfl⟩ := queueAgentPermissionsUpdate_ok h
    cases p <;> first | rfl | simp [Call.writes] at hp
  | applyAgentPermissionsUpdate =>
    obtain ⟨a, pending, entry, overlay, version, rfl, -, -, -, -, -, -, rfl⟩ :=
      applyAgentPermissionsUpdate_ok h
    cases p <;> first | rfl | simp [Call.writes] at hp
  | cancelAgentPermissionsUpdate =>
    obtain ⟨a, -, -, -, rfl⟩ := cancelAgentPermissionsUpdate_ok h
    cases p <;> first | rfl | simp [Call.writes] at hp
  | queuePolicyUpdate =>
    obtain ⟨a, bound, rfl, -, -, -, -, -, rfl⟩ := queuePolicyUpdate_ok h
    cases p <;> rfl
  | approvePendingPolicy =>
    obtain ⟨a, pending, -, -, -, -, -, -, -, rfl⟩ := approvePendingPolicy_ok h
    cases p <;> rfl
  | cancelPendingPolicy =>
    obtain ⟨a, rfl, -, rfl⟩ := cancelPendingPolicy_ok h
    cases p <;> rfl
  | applyPendingPolicy =>
    obtain ⟨a, pending, merged, applied, version, rfl, -, -, -, -, hmerged, -, -, rfl, -, rfl⟩ :=
      applyPendingPolicy_ok h
    obtain ⟨graylist, -, rfl, -⟩ := applyUpdate_ok hmerged
    cases p <;> first | rfl | simp [Call.writes] at hp
  | promoteGraylistDestination =>
    obtain ⟨a, graylist, rfl, -, -, -, rfl⟩ := promoteGraylistDestination_ok h
    cases p <;> first | rfl | simp [Call.writes] at hp
  | initiateOwnershipTransfer =>
    obtain ⟨a, pending, -, -, -, -, rfl⟩ := initiateOwnershipTransfer_ok h
    cases p <;> first | rfl | simp [Call.writes] at hp
  | acceptOwnershipTransfer newOwner =>
    obtain ⟨a, pending, version, rfl, -, -, -, rfl⟩ := acceptOwnershipTransfer_ok h
    unfold VaultAccounts.handOver PolicyConfig.collapseCosigner
    split <;> cases p <;> first | rfl | simp [Call.writes] at hp
  | acceptOwnershipTransferMultisig => exact absurd h acceptOwnershipTransferMultisig_ne_ok
  | cancelOwnershipTransfer =>
    obtain ⟨a, -, -, rfl⟩ := cancelOwnershipTransfer_ok h
    cases p <;> first | rfl | simp [Call.writes] at hp
  | createPostAssertions =>
    obtain ⟨a, assertions, version, rfl, -, -, -, rfl⟩ := createPostAssertions_ok h
    cases p <;> first | rfl | simp [Call.writes] at hp
  | closePostAssertions =>
    obtain ⟨a, version, rfl, -, -, -, rfl⟩ := closePostAssertions_ok h
    cases p <;> first | rfl | simp [Call.writes] at hp
  | agentTransfer =>
    obtain ⟨a, overlay, tracker, transactions, volume, fees, tokens, rfl, rfl⟩ :=
      agentTransfer_effect h
    cases p <;> first | rfl | simp [Call.writes] at hp
  | validateAndAuthorize =>
    obtain ⟨a, vaultToken, pins, snapshots, tokens, ho⟩ := validateAndAuthorize_ok h
    obtain rfl := ho.live
    obtain rfl := ho.result
    cases p <;> first | rfl | simp [Call.writes] at hp
  | finalizeSession =>
    obtain ⟨a, overlay, tracker, transactions, volume, fees, failed, count, tokens, rfl, rfl⟩ :=
      finalizeSession_effect h
    cases p <;> first | rfl | simp [Call.writes] at hp

theorem exec_vaultKey (h : exec env l c = .ok l') : l'.vaultKey = l.vaultKey :=
  exec_frame (p := .key) h (by cases c <;> simp [Call.writes, Part.ofVault])

theorem exec_exists_after (h : exec env l c = .ok l') (ha : l.live = some a) :
    (∃ a', l'.live = some a') ∨ ∃ owner remaining, c = .closeVault owner remaining := by
  by_cases hwrites : Part.custody ∉ c.writes
  · obtain ⟨a', ha', -⟩ := (exec_frame h hwrites).exists_after ha
    exact .inl ⟨a', ha'⟩
  cases c <;> simp [Call.writes, Part.ofVault] at hwrites
  case initializeVault =>
    obtain ⟨hnone, -⟩ := initializeVault_ok h
    exact nomatch hnone.symm.trans ha
  case closeVault owner remaining => exact .inr ⟨owner, remaining, rfl⟩
  case acceptOwnershipTransfer =>
    obtain ⟨b, pending, version, -, -, -, -, rfl⟩ := acceptOwnershipTransfer_ok h
    exact .inl ⟨_, rfl⟩

theorem exec_identity (h : exec env l c = .ok l') (ha : l.live = some a) (ha' : l'.live = some a') :
    a'.identity = a.identity := by
  by_cases hwrites : Part.identity ∉ c.writes
  · exact (exec_frame h hwrites).eq ha ha'
  cases c <;> simp [Call.writes, Part.ofVault] at hwrites
  case initializeVault =>
    obtain ⟨hnone, -⟩ := initializeVault_ok h
    cases hnone.symm.trans ha
  case closeVault =>
    obtain ⟨b, -, -, -, -, -, rfl⟩ := closeVault_ok h
    cases ha'

theorem forall_live_of_run {P : VaultAccounts D → Prop} {as : List (Action D)}
    (hrun : Run Step l as l') (hl : l.Genesis)
    (hexec : ∀ {env : Env} {c : Call D} {m m' : Ledger D}, exec env m c = .ok m' →
      (∀ a ∈ m.live, P a) → ∀ a ∈ m'.live, P a) : ∀ a ∈ l'.live, P a := by
  refine hrun.invariant (P := fun m => ∀ a ∈ m.live, P a) ?_ (by simp [hl.live])
  intro m x m' hm hstep
  cases hstep with
  | call h => exact hexec h hm
  | foreign => exact hm

theorem vaultKey_of_run {as : List (Action D)} (hrun : Run Step l as l') :
    l'.vaultKey = l.vaultKey := by
  refine hrun.invariant (P := fun m => m.vaultKey = l.vaultKey) ?_ rfl
  intro m x m' hm hstep
  cases hstep with
  | call h => exact (exec_vaultKey h).trans hm
  | foreign => exact hm

theorem Step.frame (h : Step l (.call env c) l') (hp : p ∉ c.writes) : l.SameAt l' p := by
  cases h with
  | call hexec => exact exec_frame hexec hp

end Frame

end Sigil
