import Sigil.Library.Trace
import Sigil.System.Exec

/-! # What an instruction can change

Most instructions are routine for the policy: they leave its guards, the mark of a pending update
and the pending update itself alone, and either they leave every digest-bound field alone or they
store a fresh digest. `exec_routine` says this once for all of them.
-/

namespace Sigil

open Guard Trace

section Preview

variable {D : Type} [Host D]

/-- The part of a policy that only an applied update or a change of owner writes. -/
def PolicyConfig.core (p : PolicyConfig D) : PolicyConfig D :=
  { p with
    hasPendingPolicy := false
    policyVersion := 0
    hasPostAssertions := 0
    policyPreviewDigest := Host.zeroDigest
    destinationGraylist := [] }

/-- The stored digest is that of the live fields. -/
def VaultAccounts.IsSealed (a : VaultAccounts D) : Prop :=
  a.policy.policyPreviewDigest = liveDigest a.vault a.policy

/-- What the digest binds of the agents: their keys and capabilities. -/
def AgentVault.boundAgents (v : AgentVault) : List (Pubkey × UInt8) :=
  v.agents.map fun e => (e.pubkey, e.capability)

/-- Neither the digest nor anything it binds has changed. -/
structure SamePreview (a a' : VaultAccounts D) : Prop where
  digest : a'.policy.policyPreviewDigest = a.policy.policyPreviewDigest
  fields : previewFields a'.vault a'.policy = previewFields a.vault a.policy
  agents : a'.vault.boundAgents = a.vault.boundAgents

structure Keeps (reseals : Bool) (a a' : VaultAccounts D) : Prop where
  core : a'.policy.core = a.policy.core
  pending : a'.policy.hasPendingPolicy = a.policy.hasPendingPolicy
  version : a.policy.policyVersion.toNat ≤ a'.policy.policyVersion.toNat
  ownerType : a'.vault.ownerType = a.vault.ownerType
  digest : reseals = true ∧ a'.IsSealed ∨ SamePreview a a'

variable {a a' b : VaultAccounts D} {reseals : Bool} {version : UInt64}

theorem VaultAccounts.isSealed_sealedAt (a : VaultAccounts D) (version : UInt64) :
    (a.sealedAt version).IsSealed := rfl

theorem SamePreview.isSealed (h : SamePreview a a') (ha : a.IsSealed) : a'.IsSealed := by
  unfold VaultAccounts.IsSealed at ha ⊢
  rw [h.digest, ha, liveDigest, liveDigest, h.fields]

theorem Keeps.isSealed (h : Keeps reseals a a') (ha : a.IsSealed) : a'.IsSealed :=
  h.digest.elim And.right fun hsame => hsame.isSealed ha

theorem Keeps.refl (a : VaultAccounts D) : Keeps reseals a a :=
  ⟨rfl, rfl, le_rfl, rfl, .inr ⟨rfl, rfl, rfl⟩⟩

theorem Keeps.sealed (hcore : b.policy.core = a.policy.core)
    (hpending : b.policy.hasPendingPolicy = a.policy.hasPendingPolicy)
    (howner : b.vault.ownerType = a.vault.ownerType)
    (hversion : version.toNat = a.policy.policyVersion.toNat + 1) :
    Keeps true a (b.sealedAt version) :=
  ⟨hcore, hpending, hversion ▸ Nat.le_succ _, howner, .inl ⟨rfl, rfl⟩⟩

theorem boundAgents_updateAgent {f : AgentEntry → AgentEntry} {v : AgentVault} {agent : Pubkey}
    (h : ∀ e ∈ v.getAgent agent, (f e).pubkey = e.pubkey ∧ (f e).capability = e.capability) :
    (v.updateAgent agent f).boundAgents = v.boundAgents :=
  FirstMatch.map_modifyFirst AgentEntry.pubkey fun e he => by
    obtain ⟨hkey, hcapability⟩ := h e he
    rw [hkey, hcapability]

theorem AgentVault.mem_updateAgent {f : AgentEntry → AgentEntry} {v : AgentVault} {agent : Pubkey}
    {e : AgentEntry} (h : e ∈ (v.updateAgent agent f).agents) :
    e ∈ v.agents ∨ ∃ e₀, v.getAgent agent = some e₀ ∧ e = f e₀ :=
  FirstMatch.mem_modifyFirst AgentEntry.pubkey h

theorem AgentVault.mem_removeAgent {v : AgentVault} {agent : Pubkey} {clock : Clock}
    {e : AgentEntry} (h : e ∈ (v.removeAgent agent clock).agents) : e ∈ v.agents := by
  unfold removeAgent at h
  dsimp only at h
  split at h <;> exact (List.mem_filter.mp h).1

theorem SamePreview.of_updateAgent {f : AgentEntry → AgentEntry} {v : AgentVault}
    {agent : Pubkey} (hvault : a'.vault = v.updateAgent agent f)
    (hdigest : a'.policy.policyPreviewDigest = a.policy.policyPreviewDigest)
    (hfields : previewFields v a'.policy = previewFields a.vault a.policy)
    (hagents : v.agents = a.vault.agents)
    (h : ∀ e ∈ v.getAgent agent, (f e).pubkey = e.pubkey ∧ (f e).capability = e.capability) :
    SamePreview a a' := by
  have hbound : a'.vault.boundAgents = v.boundAgents := hvault ▸ boundAgents_updateAgent h
  have hset : computeAgentSetHash (D := D) a'.vault.agents = computeAgentSetHash v.agents := by
    unfold computeAgentSetHash agentSetBytes
    rw [← AgentVault.boundAgents, hbound, AgentVault.boundAgents]
  refine ⟨hdigest, ?_, hbound.trans (by rw [AgentVault.boundAgents, hagents]; rfl)⟩
  rw [← hfields]
  unfold previewFields
  rw [hset, hvault]
  rfl

theorem recordFailure_capability {e : AgentEntry} {threshold : UInt8}
    (h : ¬ threshold ≤ (e.recordFailure threshold).consecutiveFailures) :
    (e.recordFailure threshold).capability = e.capability :=
  if_neg h

theorem AgentEntry.recordFailure_capability_le (e : AgentEntry) (threshold : UInt8) :
    (e.recordFailure threshold).capability ≤ e.capability := by
  by_cases h : threshold ≤ (e.recordFailure threshold).consecutiveFailures
  · have hdisabled : (e.recordFailure threshold).capability = capabilityDisabled := if_pos h
    rw [hdisabled]
    exact UInt8.le_iff_toNat_le.mpr (Nat.zero_le _)
  · rw [recordFailure_capability h]
    exact UInt8.le_refl _

end Preview

namespace Call

variable {D : Type}

/-- The instructions that neither create nor close the vault, nor touch the pending update, nor
change the guards of the policy. -/
def isRoutine : Call D → Bool
  | initializeVault .. | closeVault .. | queuePolicyUpdate .. | approvePendingPolicy ..
  | cancelPendingPolicy .. | applyPendingPolicy .. | acceptOwnershipTransfer .. => false
  | _ => true

/-- The instructions that store a fresh digest. -/
def reseals : Call D → Bool
  | initializeVault .. | reactivateVault .. | setObserveOnly .. | registerAgent ..
  | revokeAgent .. | recordAgentViolation .. | applyAgentGrant .. | applyAgentPermissionsUpdate ..
  | applyPendingPolicy .. | acceptOwnershipTransfer .. | createPostAssertions ..
  | closePostAssertions .. => true
  | _ => false

end Call

section Routine

variable {D : Type} [Host D]

/-- The effect of a routine instruction on the policy and its pending update. -/
def Routine (reseals : Bool) (l l' : Ledger D) : Prop :=
  ∃ a a', l.live = some a ∧ l'.live = some a' ∧ Keeps reseals a a' ∧
    l'.pendingPolicy = l.pendingPolicy

variable [DecidableEq D] {env : Env} {c : Call D} {l l' : Ledger D}

theorem exec_routine (h : exec env l c = .ok l') (hc : c.isRoutine = true) :
    Routine c.reseals l l' := by
  cases c with
  | initializeVault | closeVault | queuePolicyUpdate | approvePendingPolicy
  | cancelPendingPolicy | applyPendingPolicy | acceptOwnershipTransfer => cases hc
  | freezeVault =>
    obtain ⟨a, -, -, ha, -, -, rfl⟩ := freezeVault_ok h
    exact ⟨a, _, ha, rfl, ⟨rfl, rfl, le_rfl, rfl, .inr ⟨rfl, rfl, rfl⟩⟩, rfl⟩
  | reactivateVault =>
    obtain ⟨a, g, version, ha, -, -, hgraft, hversion, rfl⟩ := reactivateVault_ok h
    rcases graftAgent_ok hgraft with rfl | ⟨agent, capability, -, -, -, -, -, rfl⟩
    · exact ⟨g, _, ha, rfl, .sealed rfl rfl rfl hversion, rfl⟩
    · exact ⟨a, _, ha, rfl, .sealed rfl rfl rfl hversion, rfl⟩
  | setObserveOnly =>
    obtain ⟨a, version, ha, -, -, hversion, rfl⟩ := setObserveOnly_ok h
    exact ⟨a, _, ha, rfl, .sealed rfl rfl rfl hversion, rfl⟩
  | depositFunds =>
    obtain ⟨a, deposited, tokens, ha, -, rfl⟩ := depositFunds_ok h
    exact ⟨a, _, ha, rfl, ⟨rfl, rfl, le_rfl, rfl, .inr ⟨rfl, rfl, rfl⟩⟩, rfl⟩
  | withdrawFunds =>
    obtain ⟨a, withdrawn, tokens, ha, -, -, rfl⟩ := withdrawFunds_ok h
    exact ⟨a, _, ha, rfl, ⟨rfl, rfl, le_rfl, rfl, .inr ⟨rfl, rfl, rfl⟩⟩, rfl⟩
  | pauseAgent =>
    obtain ⟨a, version, ha, -, hversion, rfl⟩ := pauseAgent_ok h
    refine ⟨a, _, ha, rfl, ⟨rfl, rfl, hversion ▸ Nat.le_succ _, rfl, .inr ?_⟩, rfl⟩
    exact .of_updateAgent rfl rfl rfl rfl fun _ _ => ⟨rfl, rfl⟩
  | unpauseAgent =>
    obtain ⟨a, version, ha, -, -, hversion, rfl⟩ := unpauseAgent_ok h
    refine ⟨a, _, ha, rfl, ⟨rfl, rfl, hversion ▸ Nat.le_succ _, rfl, .inr ?_⟩, rfl⟩
    exact .of_updateAgent rfl rfl rfl rfl fun _ _ => ⟨rfl, rfl⟩
  | registerAgent =>
    obtain ⟨a, overlay, version, ha, -, -, -, -, -, hversion, rfl⟩ := registerAgent_ok h
    exact ⟨a, _, ha, rfl, .sealed rfl rfl rfl hversion, rfl⟩
  | revokeAgent =>
    obtain ⟨a, version, ha, -, -, hversion, rfl⟩ := revokeAgent_ok h
    refine ⟨a, _, ha, rfl, .sealed rfl rfl ?_ hversion, rfl⟩
    unfold AgentVault.removeAgent
    dsimp only
    split <;> rfl
  | recordAgentViolation =>
    obtain ⟨a, entry, ha, -, hentry, -, ⟨hbelow, rfl⟩ | ⟨version, -, hversion, rfl⟩⟩ :=
      recordAgentViolation_ok h
    · refine ⟨a, _, ha, rfl, ⟨rfl, rfl, le_rfl, rfl, .inr ?_⟩, rfl⟩
      refine .of_updateAgent rfl rfl rfl rfl fun e he => ⟨rfl, ?_⟩
      cases hentry.symm.trans he
      exact recordFailure_capability hbelow
    · exact ⟨a, _, ha, rfl, .sealed rfl rfl rfl hversion, rfl⟩
  | queueAgentGrant =>
    obtain ⟨a, pending, ha, -, -, -, rfl⟩ := queueAgentGrant_ok h
    exact ⟨a, a, ha, ha, .refl a, rfl⟩
  | applyAgentGrant =>
    obtain ⟨a, pending, overlay, version, ha, -, -, -, -, -, hversion, rfl⟩ := applyAgentGrant_ok h
    exact ⟨a, _, ha, rfl, .sealed rfl rfl rfl hversion, rfl⟩
  | cancelAgentGrant =>
    obtain ⟨a, ha, -, -, rfl⟩ := cancelAgentGrant_ok h
    exact ⟨a, a, ha, ha, .refl a, rfl⟩
  | queueAgentPermissionsUpdate =>
    obtain ⟨a, pending, ha, -, -, -, rfl⟩ := queueAgentPermissionsUpdate_ok h
    exact ⟨a, a, ha, ha, .refl a, rfl⟩
  | applyAgentPermissionsUpdate =>
    obtain ⟨a, pending, entry, overlay, version, ha, -, -, -, -, -, hversion, rfl⟩ :=
      applyAgentPermissionsUpdate_ok h
    exact ⟨a, _, ha, rfl, .sealed rfl rfl rfl hversion, rfl⟩
  | cancelAgentPermissionsUpdate =>
    obtain ⟨a, ha, -, -, rfl⟩ := cancelAgentPermissionsUpdate_ok h
    exact ⟨a, a, ha, ha, .refl a, rfl⟩
  | promoteGraylistDestination =>
    obtain ⟨a, graylist, ha, -, -, -, rfl⟩ := promoteGraylistDestination_ok h
    exact ⟨a, _, ha, rfl, ⟨rfl, rfl, le_rfl, rfl, .inr ⟨rfl, rfl, rfl⟩⟩, rfl⟩
  | initiateOwnershipTransfer =>
    obtain ⟨a, pending, ha, -, -, -, rfl⟩ := initiateOwnershipTransfer_ok h
    exact ⟨a, a, ha, ha, .refl a, rfl⟩
  | acceptOwnershipTransferMultisig => exact absurd h acceptOwnershipTransferMultisig_ne_ok
  | cancelOwnershipTransfer =>
    obtain ⟨a, ha, -, rfl⟩ := cancelOwnershipTransfer_ok h
    exact ⟨a, a, ha, ha, .refl a, rfl⟩
  | createPostAssertions =>
    obtain ⟨a, assertions, version, ha, -, -, hversion, rfl⟩ := createPostAssertions_ok h
    exact ⟨a, _, ha, rfl, .sealed rfl rfl rfl hversion, rfl⟩
  | closePostAssertions =>
    obtain ⟨a, version, ha, -, -, hversion, rfl⟩ := closePostAssertions_ok h
    exact ⟨a, _, ha, rfl, .sealed rfl rfl rfl hversion, rfl⟩
  | agentTransfer =>
    obtain ⟨a, overlay, tracker, transactions, volume, fees, tokens, ha, rfl⟩ :=
      agentTransfer_effect h
    exact ⟨a, _, ha, rfl, ⟨rfl, rfl, le_rfl, rfl, .inr ⟨rfl, rfl, rfl⟩⟩, rfl⟩
  | validateAndAuthorize =>
    obtain ⟨a, vaultToken, pins, snapshots, tokens, ho⟩ := validateAndAuthorize_ok h
    obtain rfl := ho.result
    refine ⟨a, _, ho.live, rfl, ⟨rfl, rfl, le_rfl, rfl, .inr ?_⟩, rfl⟩
    exact .of_updateAgent rfl rfl rfl rfl fun _ _ => ⟨rfl, rfl⟩
  | finalizeSession =>
    obtain ⟨a, overlay, tracker, transactions, volume, fees, failed, sessions, tokens, ha, rfl⟩ :=
      finalizeSession_effect h
    exact ⟨a, _, ha, rfl, ⟨rfl, rfl, le_rfl, rfl, .inr ⟨rfl, rfl, rfl⟩⟩, rfl⟩

theorem exec_exists_live (h : exec env l c = .ok l') : (∃ a, l.live = some a) ∨
    ∃ owner feeDestination args, c = .initializeVault owner feeDestination args := by
  by_cases hc : c.isRoutine = true
  · obtain ⟨a, -, ha, -⟩ := exec_routine h hc
    exact .inl ⟨a, ha⟩
  · cases c <;> try exact absurd rfl hc
    case initializeVault owner feeDestination args =>
      exact .inr ⟨owner, feeDestination, args, rfl⟩
    case closeVault =>
      obtain ⟨a, ha, -⟩ := closeVault_ok h
      exact .inl ⟨a, ha⟩
    case queuePolicyUpdate =>
      obtain ⟨a, -, ha, -⟩ := queuePolicyUpdate_ok h
      exact .inl ⟨a, ha⟩
    case approvePendingPolicy =>
      obtain ⟨a, -, ha, -⟩ := approvePendingPolicy_ok h
      exact .inl ⟨a, ha⟩
    case cancelPendingPolicy =>
      obtain ⟨a, ha, -⟩ := cancelPendingPolicy_ok h
      exact .inl ⟨a, ha⟩
    case applyPendingPolicy =>
      obtain ⟨a, -, -, -, -, ha, -⟩ := applyPendingPolicy_ok h
      exact .inl ⟨a, ha⟩
    case acceptOwnershipTransfer =>
      obtain ⟨a, -, -, ha, -⟩ := acceptOwnershipTransfer_ok h
      exact .inl ⟨a, ha⟩

end Routine

end Sigil
