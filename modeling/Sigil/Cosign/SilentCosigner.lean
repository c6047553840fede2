import Sigil.Cosign.QueueApply

/-! # A silent cosigner

What can happen to a vault that requires cosigning while its cosigner signs nothing: no agent gains
a right, no guard gets weaker, and neither the owner nor the cosigner changes. This needs that no
change of owner is pending to begin with, since its acceptance does not ask the cosigner.
-/

namespace Sigil

open Guard Trace

section Agents

/-- No agent is new, and none has gained a capability or lost its pause. -/
def AgentVault.Within (v' v : AgentVault) : Prop :=
  ∀ e' ∈ v'.agents, ∃ e ∈ v.agents, e'.pubkey = e.pubkey ∧ e'.capability ≤ e.capability ∧
    (e.paused = true → e'.paused = true)

variable {v v' : AgentVault} {agent : Pubkey} {f : AgentEntry → AgentEntry}

theorem AgentVault.Within.of_subset (h : ∀ e ∈ v'.agents, e ∈ v.agents) : v'.Within v :=
  fun e he => ⟨e, h e he, rfl, UInt8.le_refl _, id⟩

theorem AgentVault.within_updateAgent (h : ∀ e, (f e).pubkey = e.pubkey ∧
    (f e).capability ≤ e.capability ∧ (e.paused = true → (f e).paused = true)) :
    (v.updateAgent agent f).Within v := by
  intro e' he'
  rcases AgentVault.mem_updateAgent he' with hmem | ⟨e, he, rfl⟩
  · exact ⟨e', hmem, rfl, UInt8.le_refl _, id⟩
  · exact ⟨e, List.mem_of_find?_eq_some he, h e⟩

theorem AgentVault.removeAgent_fields (v : AgentVault) (agent : Pubkey) (clock : Clock) :
    (v.removeAgent agent clock).owner = v.owner ∧
      (v.removeAgent agent clock).observeOnly = v.observeOnly ∧
      (∀ e ∈ (v.removeAgent agent clock).agents, e ∈ v.agents) ∧
      (v.status = .frozen → (v.removeAgent agent clock).status = .frozen) := by
  unfold removeAgent
  dsimp only
  split
  · exact ⟨rfl, rfl, fun e he => (List.mem_filter.mp he).1, fun _ => rfl⟩
  · exact ⟨rfl, rfl, fun e he => (List.mem_filter.mp he).1, id⟩

end Agents

namespace Call

variable {D : Type}

/-- The instructions that give a right, move funds to the owner or end a protection. -/
def escalates : Call D → Bool
  | closeVault .. | reactivateVault .. | withdrawFunds .. | unpauseAgent .. | registerAgent ..
  | queueAgentGrant .. | applyAgentGrant .. | applyAgentPermissionsUpdate ..
  | approvePendingPolicy .. | promoteGraylistDestination .. | initiateOwnershipTransfer ..
  | closePostAssertions .. => true
  | setObserveOnly _ _ newValue => !newValue
  | _ => false

end Call

/-- A key has signed the action; what other programs do needs no key of the vault. -/
def Action.SignedBy {D : Type} (key : Pubkey) : Action D → Prop
  | .call _ c => c.SignedBy key
  | .foreign => False

section Contained

variable {D : Type} [Host D]

/-- The vault and its policy after an action that escalates nothing. -/
structure Contained (l l' : Ledger D) (a a' : VaultAccounts D) : Prop where
  owner : a'.vault.owner = a.vault.owner
  agents : a'.vault.Within a.vault
  frozen : a.vault.status = .frozen → a'.vault.status = .frozen
  observeOnly : a.vault.observeOnly = true → a'.vault.observeOnly = true
  assertionsMark : a.policy.hasPostAssertions ≠ 0 → a'.policy.hasPostAssertions ≠ 0
  assertions : ∀ p ∈ l.postAssertions, p ∈ l'.postAssertions
  graylist : a'.policy.destinationGraylist = a.policy.destinationGraylist
  guards : PolicyConfig.NoWeaker a'.policy a.policy

variable [DecidableEq D] {env : Env} {c : Call D} {l l' : Ledger D} {a a' : VaultAccounts D}

omit [Host D] [DecidableEq D] in
theorem signedBy_of_gate {b : VaultAccounts D} (ha : l.live = some a) (hb : l.live = some b)
    (hreq : a.policy.cosignRequired = true) (hgate : b.policy.cosignRequired = true →
      hasBoundCosigner c.remaining b.policy.cosignSessionPubkey = true) :
    c.SignedBy a.policy.cosignSessionPubkey := by
  cases ha.symm.trans hb
  exact Call.signedBy_of_hasBoundCosigner (hgate hreq)

theorem exec_escalates (h : exec env l c = .ok l') (hc : c.escalates = true)
    (ha : l.live = some a) (hsingle : a.vault.ownerType ≠ ownerTypeMultisig)
    (hreq : a.policy.cosignRequired = true) : c.SignedBy a.policy.cosignSessionPubkey := by
  cases c <;> try cases hc
  case closeVault =>
    obtain ⟨b, hb, -, -, hcosign, -⟩ := closeVault_ok h
    exact signedBy_of_gate ha hb hreq hcosign
  case reactivateVault =>
    obtain ⟨b, -, -, hb, -, hcosign, -⟩ := reactivateVault_ok h
    exact signedBy_of_gate ha hb hreq hcosign
  case setObserveOnly newValue =>
    obtain ⟨b, -, hb, -, hcosign, -⟩ := setObserveOnly_ok h
    exact signedBy_of_gate ha hb hreq (hcosign (Bool.not_eq_eq_eq_not.mp hc))
  case withdrawFunds =>
    obtain ⟨b, -, -, hb, -, hcosign, -⟩ := withdrawFunds_ok h
    exact signedBy_of_gate ha hb hreq hcosign
  case unpauseAgent =>
    obtain ⟨b, -, hb, -, hcosign, -⟩ := unpauseAgent_ok h
    exact signedBy_of_gate ha hb hreq hcosign
  case registerAgent =>
    obtain ⟨b, -, -, hb, -, -, -, hgate, -⟩ := registerAgent_ok h
    cases ha.symm.trans hb
    exact Call.signedBy_of_hasBoundCosigner
      (VaultAccounts.registrationGate_cosigned hgate hsingle hreq)
  case queueAgentGrant =>
    obtain ⟨b, -, hb, -, hcosign, -⟩ := queueAgentGrant_ok h
    exact signedBy_of_gate ha hb hreq hcosign
  case applyAgentGrant =>
    obtain ⟨b, -, -, -, hb, -, -, hcosign, -⟩ := applyAgentGrant_ok h
    exact signedBy_of_gate ha hb hreq hcosign
  case applyAgentPermissionsUpdate =>
    obtain ⟨b, -, -, -, -, hb, -, hcosign, -⟩ := applyAgentPermissionsUpdate_ok h
    exact signedBy_of_gate ha hb hreq hcosign
  case approvePendingPolicy =>
    obtain ⟨b, -, hb, -, -, hkey, -⟩ := approvePendingPolicy_ok h
    cases ha.symm.trans hb
    exact .inl hkey
  case promoteGraylistDestination =>
    obtain ⟨b, -, hb, -, hcosign, -⟩ := promoteGraylistDestination_ok h
    exact signedBy_of_gate ha hb hreq hcosign
  case initiateOwnershipTransfer =>
    obtain ⟨b, -, hb, -, hcosign, -⟩ := initiateOwnershipTransfer_ok h
    exact signedBy_of_gate ha hb hreq hcosign
  case closePostAssertions =>
    obtain ⟨b, -, hb, -, hcosign, -⟩ := closePostAssertions_ok h
    exact signedBy_of_gate ha hb hreq hcosign

omit [DecidableEq D] in
theorem Contained.of_core (howner : a'.vault.owner = a.vault.owner)
    (hagents : a'.vault.Within a.vault)
    (hfrozen : a.vault.status = .frozen → a'.vault.status = .frozen)
    (hobserve : a.vault.observeOnly = true → a'.vault.observeOnly = true)
    (hassertions : l'.postAssertions = l.postAssertions)
    (hmark : a'.policy.hasPostAssertions = a.policy.hasPostAssertions)
    (hgraylist : a'.policy.destinationGraylist = a.policy.destinationGraylist)
    (hcore : a'.policy.core = a.policy.core) : Contained l l' a a' where
  owner := howner
  agents := hagents
  frozen := hfrozen
  observeOnly := hobserve
  assertionsMark := fun h => hmark ▸ h
  assertions := fun _ h => hassertions ▸ h
  graylist := hgraylist
  guards := (PolicyConfig.NoWeaker.refl a.policy).of_core hcore

omit [DecidableEq D] in
theorem Contained.refl (hassertions : l'.postAssertions = l.postAssertions) (a : VaultAccounts D) :
    Contained l l' a a :=
  .of_core rfl (.of_subset fun _ h => h) id id hassertions rfl rfl rfl

theorem exec_contained (h : exec env l c = .ok l') (hc : c.isRoutine = true)
    (hnot : ¬ c.escalates = true) (ha : l.live = some a) (ha' : l'.live = some a') :
    Contained l l' a a' ∧ (l.pendingOwner = none → l'.pendingOwner = none) := by
  have hsame : ∀ {b}, l.live = some b → b = a := fun hb => Option.some.inj (hb.symm.trans ha)
  cases c <;> try first | exact absurd rfl hnot | exact absurd hc Bool.false_ne_true
  case freezeVault =>
    obtain ⟨b, owner', tokens, hb, -, hdrained, rfl⟩ := freezeVault_ok h
    obtain rfl := hsame hb
    cases ha'
    refine ⟨.of_core rfl (.of_subset fun _ h => h) (fun _ => rfl) id rfl rfl rfl rfl, ?_⟩
    rintro hnone
    rw [hnone, ite_self] at hdrained
    exact hdrained
  case setObserveOnly newValue =>
    obtain ⟨b, version, hb, -, -, -, rfl⟩ := setObserveOnly_ok h
    obtain rfl := hsame hb
    cases ha'
    have hon : newValue = true := by simpa [Call.escalates] using hnot
    exact ⟨.of_core rfl (.of_subset fun _ h => h) id (fun _ => hon) rfl rfl rfl rfl, id⟩
  case depositFunds =>
    obtain ⟨b, deposited, tokens, hb, -, rfl⟩ := depositFunds_ok h
    obtain rfl := hsame hb
    cases ha'
    exact ⟨.of_core rfl (.of_subset fun _ h => h) id id rfl rfl rfl rfl, id⟩
  case pauseAgent =>
    obtain ⟨b, version, hb, -, -, rfl⟩ := pauseAgent_ok h
    obtain rfl := hsame hb
    cases ha'
    exact ⟨.of_core rfl (AgentVault.within_updateAgent fun e =>
      ⟨rfl, UInt8.le_refl _, fun _ => rfl⟩) id id rfl rfl rfl rfl, id⟩
  case revokeAgent agent =>
    obtain ⟨b, version, hb, -, -, -, rfl⟩ := revokeAgent_ok h
    obtain rfl := hsame hb
    cases ha'
    obtain ⟨howner, hobserve, hsubset, hfrozen⟩ := b.vault.removeAgent_fields agent env.clock
    exact ⟨.of_core howner (.of_subset hsubset) hfrozen (fun hon => hobserve.trans hon) rfl rfl rfl
      rfl, id⟩
  case recordAgentViolation agent code =>
    obtain ⟨b, entry, hb, -, -, -, ⟨-, rfl⟩ | ⟨version, -, -, rfl⟩⟩ :=
      recordAgentViolation_ok h <;>
    · obtain rfl := hsame hb
      cases ha'
      exact ⟨.of_core rfl (AgentVault.within_updateAgent fun e =>
        ⟨rfl, e.recordFailure_capability_le _, id⟩) id id rfl rfl rfl rfl, id⟩
  case cancelAgentGrant =>
    obtain ⟨b, hb, -, -, rfl⟩ := cancelAgentGrant_ok h
    cases ha.symm.trans ha'
    exact ⟨.refl (by rfl) a, id⟩
  case queueAgentPermissionsUpdate =>
    obtain ⟨b, pending, hb, -, -, -, rfl⟩ := queueAgentPermissionsUpdate_ok h
    cases ha.symm.trans ha'
    exact ⟨.refl (by rfl) a, id⟩
  case cancelAgentPermissionsUpdate =>
    obtain ⟨b, hb, -, -, rfl⟩ := cancelAgentPermissionsUpdate_ok h
    cases ha.symm.trans ha'
    exact ⟨.refl (by rfl) a, id⟩
  case acceptOwnershipTransferMultisig => exact absurd h acceptOwnershipTransferMultisig_ne_ok
  case cancelOwnershipTransfer =>
    obtain ⟨b, hb, -, rfl⟩ := cancelOwnershipTransfer_ok h
    cases ha.symm.trans ha'
    exact ⟨.refl (by rfl) a, fun _ => rfl⟩
  case createPostAssertions =>
    obtain ⟨b, assertions, version, hb, -, hnew, -, rfl⟩ := createPostAssertions_ok h
    obtain rfl := hsame hb
    cases ha'
    have hmark : (1 : UInt8) ≠ 0 := by decide
    exact ⟨⟨rfl, .of_subset fun _ h => h, id, id, fun _ => hmark,
      fun p hp => absurd (hnew.symm.trans hp) nofun, rfl,
      (PolicyConfig.NoWeaker.refl b.policy).of_core rfl⟩, id⟩
  case agentTransfer =>
    obtain ⟨b, overlay, tracker, transactions, volume, fees, tokens, hb, rfl⟩ :=
      agentTransfer_effect h
    obtain rfl := hsame hb
    cases ha'
    exact ⟨.of_core rfl (.of_subset fun _ h => h) id id rfl rfl rfl rfl, id⟩
  case validateAndAuthorize args =>
    obtain ⟨b, vaultToken, pins, snapshots, tokens, ho⟩ := validateAndAuthorize_ok h
    obtain rfl := hsame ho.live
    obtain rfl := ho.result
    cases ha'
    have hagents : (b.opened args.agent env.clock.unixTimestamp).vault.Within b.vault :=
      AgentVault.within_updateAgent (v := { b.vault with activeSessions := _ }) fun e =>
        ⟨rfl, UInt8.le_refl _, id⟩
    exact ⟨.of_core rfl hagents id id rfl rfl rfl rfl, id⟩
  case finalizeSession =>
    obtain ⟨b, overlay, tracker, transactions, volume, fees, failed, sessions, tokens, hb, rfl⟩ :=
      finalizeSession_effect h
    obtain rfl := hsame hb
    cases ha'
    exact ⟨.of_core rfl (.of_subset fun _ h => h) id id rfl rfl rfl rfl, id⟩

end Contained

section Silence

variable {D : Type} [Host D] [DecidableEq D]

/-- What every reachable ledger has: its owner is a single key, and a pending update that would
weaken a cosigned policy is bound to a cosigner. -/
structure Ledger.Staged (l : Ledger D) : Prop where
  single : ∀ a ∈ l.live, a.vault.ownerType = ownerTypeEoa
  classified : ∀ a ∈ l.live, ∀ p ∈ l.pendingPolicy, a.policy.cosignRequired = true →
    a.policy.isElevated p.update = true → p.isElevated

variable {env : Env} {c : Call D} {l l' : Ledger D} {a : VaultAccounts D}

theorem Ledger.Staged.of_core {a' : VaultAccounts D} (h : l.Staged) (ha : l.live = some a)
    (ha' : l'.live = some a') (htype : a'.vault.ownerType = ownerTypeEoa)
    (hcore : a'.policy.core = a.policy.core) (hpending : l'.pendingPolicy = l.pendingPolicy) :
    l'.Staged := by
  refine ⟨fun b hb => ?_, fun b hb p hp hreq helevated => ?_⟩
  · exact Option.some.inj (ha'.symm.trans hb) ▸ htype
  · cases ha'.symm.trans hb
    rw [cosignRequired_of_core hcore] at hreq
    rw [isElevated_of_core hcore] at helevated
    exact h.classified a ha p (hpending ▸ hp) hreq helevated

theorem Ledger.Staged.of_no_pending (htype : ∀ a ∈ l'.live, a.vault.ownerType = ownerTypeEoa)
    (hpending : l'.pendingPolicy = none) : l'.Staged :=
  ⟨htype, fun _ _ _ hp => absurd (hpending.symm.trans hp) nofun⟩

theorem Ledger.Staged.of_not_required
    (h : ∀ a ∈ l'.live, a.vault.ownerType = ownerTypeEoa ∧ a.policy.cosignRequired = false) :
    l'.Staged :=
  ⟨fun a ha => (h a ha).1, fun a ha _ _ hreq => absurd (hreq.symm.trans (h a ha).2) nofun⟩

theorem Ledger.Staged.exec (h : l.Staged) (hexec : exec env l c = .ok l') : l'.Staged := by
  by_cases hc : c.isRoutine = true
  · obtain ⟨b, b', hb, hb', hkeeps, hpending⟩ := exec_routine hexec hc
    exact h.of_core hb hb' (hkeeps.ownerType.trans (h.single b hb)) hkeeps.core hpending
  · cases c <;> try exact absurd rfl hc
    case initializeVault =>
      obtain ⟨-, -, -, -, hcosign, -, rfl⟩ := initializeVault_ok hexec
      exact .of_not_required fun b hb => Option.some.inj hb ▸ ⟨rfl, hcosign⟩
    case closeVault =>
      obtain ⟨b, -, -, -, -, -, rfl⟩ := closeVault_ok hexec
      exact .of_not_required fun _ hb => absurd hb nofun
    case queuePolicyUpdate =>
      obtain ⟨b, bound, hb, -, -, hbound, -, -, rfl⟩ := queuePolicyUpdate_ok hexec
      refine ⟨fun b' hb' => Option.some.inj hb' ▸ h.single b hb, ?_⟩
      intro b' hb' p hp hreq helevated
      cases hb'
      cases hp
      rcases bindPolicyCosigner_ok hbound with ⟨-, hkey, rfl⟩ | ⟨hnot, -⟩
      · exact hkey
      · exact absurd (helevated.symm.trans hnot) nofun
    case approvePendingPolicy =>
      obtain ⟨b, stored, hb, hstored, -, -, -, -, -, rfl⟩ := approvePendingPolicy_ok hexec
      refine ⟨h.single, fun b' hb' p hp => ?_⟩
      cases hp
      exact h.classified b' hb' stored hstored
    case cancelPendingPolicy =>
      obtain ⟨b, hb, -, rfl⟩ := cancelPendingPolicy_ok hexec
      exact .of_no_pending (fun b' hb' => Option.some.inj hb' ▸ h.single b hb) rfl
    case applyPendingPolicy =>
      obtain ⟨b, _, _, _, _, hb, -, -, -, -, -, -, -, -, -, rfl⟩ := applyPendingPolicy_ok hexec
      exact .of_no_pending (fun b' hb' => Option.some.inj hb' ▸ h.single b hb) rfl
    case acceptOwnershipTransfer newOwner =>
      obtain ⟨b, _, version, hb, -, -, -, rfl⟩ := acceptOwnershipTransfer_ok hexec
      rcases core_collapseCosigner b.policy newOwner with hcore | hcore
      · exact h.of_core hb rfl rfl hcore rfl
      · refine .of_not_required fun b' hb' => ?_
        cases hb'
        refine ⟨rfl, ?_⟩
        change (b.policy.collapseCosigner newOwner).core.cosignRequired = false
        rw [hcore]
        rfl

theorem Ledger.Staged.step {x : Action D} (h : l.Staged) (hstep : Step l x l') : l'.Staged := by
  cases hstep with
  | call hexec => exact h.exec hexec
  | foreign => exact ⟨h.single, h.classified⟩

theorem Ledger.Staged.of_run {l₀ : Ledger D} {as : List (Action D)} (h₀ : l₀.Genesis)
    (hreach : Run Step l₀ as l) : l.Staged :=
  hreach.invariant (fun _ _ _ hm hstep => hm.step hstep)
    (.of_not_required fun _ hb => absurd (h₀.live.symm.trans hb) nofun)

theorem ownerType_ne_multisig {l₀ : Ledger D} {as : List (Action D)} (h₀ : l₀.Genesis)
    (hreach : Run Step l₀ as l) (ha : l.live = some a) :
    a.vault.ownerType ≠ ownerTypeMultisig := by
  rw [(Ledger.Staged.of_run h₀ hreach).single a ha]
  decide

variable {key owner : Pubkey}

theorem Ledger.Staged.apply (h : l.Staged) (ha : l.live = some a)
    (hreq : a.policy.cosignRequired = true)
    (hunapproved : ∀ p ∈ l.pendingPolicy, p.cosignApproved = false)
    (hexec : Sigil.exec env l (.applyPendingPolicy owner) = .ok l') :
    ∃ a', l'.live = some a' ∧ l'.pendingPolicy = none ∧ l'.pendingOwner = l.pendingOwner ∧
      Contained l l' a a' := by
  obtain ⟨b, p, merged, applied, version, hb, -, hp, -, hcosign, hmerge, -, -, rfl, -, rfl⟩ :=
    applyPendingPolicy_ok hexec
  cases ha.symm.trans hb
  have hfree : p.noCosign := by
    by_contra hbound
    exact absurd ((hcosign hbound).1.symm.trans (hunapproved p hp)) nofun
  have hplain : a.policy.isElevated p.update = false := by
    by_contra helevated
    exact h.classified a hb p hp hreq (Bool.not_eq_false _ ▸ helevated) hfree.2
  have hweaker := PolicyConfig.noWeaker_merge hreq hplain
  obtain ⟨graylist, hgraylist, rfl, -⟩ := applyUpdate_ok hmerge
  have hold : ∀ new ∈ p.update.allowedDestinations, ∀ d ∈ new,
      d ∈ a.policy.allowedDestinations := by
    intro new hnew d hd
    refine hweaker.destinations d ?_
    rw [PolicyConfig.merge, Option.mem_def.mp hnew]
    exact hd
  obtain rfl := graylistNewDestinations_ok hgraylist hold
  have hguards : PolicyConfig.NoWeaker { a.policy.merge p.update with
      destinationGraylist := a.policy.destinationGraylist
      policyPreviewDigest := p.newPolicyPreviewDigest
      hasPendingPolicy := false
      policyVersion := version } a.policy := hweaker.of_core rfl
  exact ⟨_, rfl, rfl, rfl, rfl, .of_subset fun _ h => h, id, id, id, fun _ h => h, rfl, hguards⟩

/-- A vault that requires the cosigner `key`, with nothing under way that it has agreed to. -/
structure Silenced (key : Pubkey) (l : Ledger D) (a : VaultAccounts D) : Prop where
  live : l.live = some a
  required : a.policy.cosignRequired = true
  bound : a.policy.cosignSessionPubkey = key
  staged : l.Staged
  unapproved : ∀ p ∈ l.pendingPolicy, p.cosignApproved = false
  noTransfer : l.pendingOwner = none

theorem Silenced.not_escalates (h : Silenced key l a) (hexec : exec env l c = .ok l')
    (hsilent : ¬ c.SignedBy key) : ¬ c.escalates = true := by
  intro hc
  refine hsilent (h.bound ▸ exec_escalates hexec hc h.live ?_ h.required)
  rw [h.staged.single a h.live]
  decide

theorem Silenced.apply (h : Silenced key l a)
    (hexec : exec env l (.applyPendingPolicy owner) = .ok l') :
    ∃ a', Silenced key l' a' ∧ Contained l l' a a' := by
  obtain ⟨a', ha', hpending, htransfer, hcontained⟩ :=
    h.staged.apply h.live h.required h.unapproved hexec
  have hguards := hcontained.guards
  exact ⟨a', ⟨ha', hguards.cosignRequired h.required, hguards.cosigner.trans h.bound,
    h.staged.exec hexec, fun _ hp => absurd (hpending.symm.trans hp) nofun,
    htransfer.trans h.noTransfer⟩, hcontained⟩

theorem Silenced.step {x : Action D} (h : Silenced key l a) (hstep : Step l x l')
    (hsilent : ¬ x.SignedBy key) :
    ¬ x.Calls Call.escalates ∧ ∃ a', Silenced key l' a' ∧ Contained l l' a a' := by
  have hstaged := h.staged.step hstep
  cases hstep with
  | foreign =>
    exact ⟨nofun, a, ⟨h.live, h.required, h.bound, hstaged, h.unapproved, h.noTransfer⟩,
      .refl (by rfl) a⟩
  | @call env c _ _ hexec =>
    have hnot := h.not_escalates hexec hsilent
    refine ⟨hnot, ?_⟩
    by_cases hc : c.isRoutine = true
    · obtain ⟨b, a', hb, ha', hkeeps, hpending⟩ := exec_routine hexec hc
      obtain rfl := Option.some.inj (h.live.symm.trans hb)
      obtain ⟨hcontained, howner⟩ := exec_contained hexec hc hnot hb ha'
      refine ⟨a', ⟨ha', ?_, ?_, hstaged, hpending ▸ h.unapproved, howner h.noTransfer⟩, hcontained⟩
      · exact (cosignRequired_of_core hkeeps.core).trans h.required
      · exact (cosignSessionPubkey_of_core hkeeps.core).trans h.bound
    · cases c <;> try exact absurd rfl hc
      case initializeVault =>
        obtain ⟨hnew, -⟩ := initializeVault_ok hexec
        exact absurd (hnew.symm.trans h.live) nofun
      case closeVault => exact absurd rfl hnot
      case approvePendingPolicy => exact absurd rfl hnot
      case queuePolicyUpdate =>
        obtain ⟨b, bound, hb, -, -, -, -, -, rfl⟩ := queuePolicyUpdate_ok hexec
        obtain rfl := Option.some.inj (h.live.symm.trans hb)
        refine ⟨_, ⟨rfl, h.required, h.bound, hstaged, ?_, h.noTransfer⟩,
          .of_core rfl (.of_subset fun _ h => h) id id rfl rfl rfl rfl⟩
        exact fun p hp => Option.some.inj hp ▸ rfl
      case cancelPendingPolicy =>
        obtain ⟨b, hb, -, rfl⟩ := cancelPendingPolicy_ok hexec
        obtain rfl := Option.some.inj (h.live.symm.trans hb)
        exact ⟨_, ⟨rfl, h.required, h.bound, hstaged, fun _ hp => absurd hp nofun, h.noTransfer⟩,
          .of_core rfl (.of_subset fun _ h => h) id id rfl rfl rfl rfl⟩
      case applyPendingPolicy => exact h.apply hexec
      case acceptOwnershipTransfer =>
        obtain ⟨_, _, _, -, htransfer, -⟩ := acceptOwnershipTransfer_ok hexec
        exact absurd (h.noTransfer.symm.trans htransfer) nofun

theorem Silenced.run {m : Ledger D} {bs : List (Action D)} (h : Silenced key l a)
    (hrun : Run Step l bs m) (hsilent : ∀ y ∈ bs, ¬ y.SignedBy key) : ∃ b, Silenced key m b := by
  refine hrun.invariant_of (P := fun m => ∃ b, Silenced key m b) ?_ hsilent ⟨a, h⟩
  rintro m y m' hy ⟨b, hb⟩ hstep
  obtain ⟨-, b', hb', -⟩ := hb.step hstep hy
  exact ⟨b', hb'⟩

/-- From a reachable state that requires the cosigner and in which neither an approved update nor a
change of owner is pending, nothing is escalated at any step as long as the cosigner signs
nothing. -/
theorem silent_cosigner_contains {l₀ m m' : Ledger D} {as bs : List (Action D)} {x : Action D}
    (h₀ : l₀.Genesis) (hreach : Run Step l₀ as l) (ha : l.live = some a)
    (hreq : a.policy.cosignRequired = true)
    (happroved : ∀ p ∈ l.pendingPolicy, p.cosignApproved = false)
    (htransfer : l.pendingOwner = none) (hrun : Run Step l bs m) (hstep : Step m x m')
    (hsilent : ∀ y ∈ bs ++ [x], ¬ y.SignedBy a.policy.cosignSessionPubkey) :
    ¬ x.Calls Call.escalates ∧
      ∃ b b', m.live = some b ∧ m'.live = some b' ∧ b.policy.cosignRequired = true ∧
        b'.policy.cosignRequired = true ∧
        b'.policy.cosignSessionPubkey = a.policy.cosignSessionPubkey ∧ Contained m m' b b' := by
  have hsilenced : Silenced a.policy.cosignSessionPubkey l a :=
    ⟨ha, hreq, rfl, .of_run h₀ hreach, happroved, htransfer⟩
  obtain ⟨b, hb⟩ := hsilenced.run hrun fun y hy => hsilent y (List.mem_append_left _ hy)
  obtain ⟨hnot, b', hb', hcontained⟩ := hb.step hstep (hsilent x (by simp))
  exact ⟨hnot, b, b', hb.live, hb'.live, hb.required, hb'.required, hb'.bound, hcontained⟩

theorem silent_cosigner_contains_queue :
    ∃ a b b' : VaultAccounts Preimage, cosignedLedger.live = some a ∧
      a.policy.cosignRequired = true ∧ Contained cosignedLedger (raisingLedger 2000) b b' := by
  have hcosigned : cosignedLedger.live.any (fun a => a.policy.cosignRequired = true ∧
      a.policy.cosignSessionPubkey = sampleKey 5) = true := by decide +kernel
  have hidle : cosignedLedger.pendingPolicy.isNone = true ∧
      cosignedLedger.pendingOwner.isNone = true := by decide +kernel
  obtain ⟨a, ha, hcosign⟩ := (Option.any_eq_true _ _).mp hcosigned
  obtain ⟨hreq, hkey⟩ := of_decide_eq_true hcosign
  have hreach := ((Run.single step_sampleInitialize).snoc step_enablingLedger).snoc
    step_cosignedLedger
  have hsilent : ¬ (sampleQueue cosignedLedger (raiseCap 2000) (sampleKey 5)).SignedBy
      a.policy.cosignSessionPubkey := by
    rw [hkey]
    rintro (hsigner | ⟨m, hm, -⟩)
    · exact absurd hsigner (by decide)
    · exact absurd hm List.not_mem_nil
  obtain ⟨-, b, b', -, -, -, -, -, hcontained⟩ :=
    silent_cosigner_contains genesis_emptyLedger hreach ha hreq
      (fun p hp => absurd ((Option.isNone_iff_eq_none.mp hidle.1).symm.trans hp) nofun)
      (Option.isNone_iff_eq_none.mp hidle.2) (.nil _) step_raisingLedger
    (fun y hy => List.mem_singleton.mp hy ▸ hsilent)
  exact ⟨a, b, b', ha, hreq, hcontained⟩

def initiatedLedger : Ledger Preimage :=
  after (sampleEnv 1000 7) sampleLedger
    (.initiateOwnershipTransfer (sampleKey 1) [] (sampleKey 6) false)

/-- The sample owner then binds the cosigner. -/
def initiatedCosignedLedger : Ledger Preimage :=
  after (sampleEnv 2800 100)
    (after (sampleEnv 1000 7) initiatedLedger
      (sampleQueue initiatedLedger enableCosign Pubkey.default))
    (.applyPendingPolicy (sampleKey 1))

theorem run_initiatedCosignedLedger : ∃ as, Run Step emptyLedger as initiatedCosignedLedger := by
  have hinitiate : Step sampleLedger (.call (envAt 1000 7 (by decide))
      (.initiateOwnershipTransfer (sampleKey 1) [] (sampleKey 6) false)) initiatedLedger :=
    .after (by decide +kernel)
  have hqueue : Step initiatedLedger (.call (envAt 1000 7 (by decide))
      (sampleQueue initiatedLedger enableCosign Pubkey.default)) _ := .after (by decide +kernel)
  have happly : Step _ (.call (envAt 2800 100 (by decide)) (.applyPendingPolicy (sampleKey 1)))
      initiatedCosignedLedger := .after (by decide +kernel)
  exact ⟨_, (((Run.single step_sampleInitialize).snoc hinitiate).snoc hqueue).snoc happly⟩

attribute [irreducible] initiatedLedger initiatedCosignedLedger

/-- The successor takes the vault over although the cosigner has never signed anything. -/
theorem accept_without_cosigner :
    ∃ (as : List (Action Preimage)) (l l' : Ledger Preimage) (a a' : VaultAccounts Preimage),
      Run Step emptyLedger as l ∧ l.live = some a ∧ a.policy.cosignRequired = true ∧
      a.policy.cosignSessionPubkey = sampleKey 5 ∧ l.pendingPolicy = none ∧
      exec (envAt 173800 400000 (by decide)) l (.acceptOwnershipTransfer (sampleKey 6)) = .ok l' ∧
      ¬ (Call.acceptOwnershipTransfer (sampleKey 6) : Call Preimage).SignedBy (sampleKey 5) ∧
      l'.live = some a' ∧ a'.policy.cosignRequired = true ∧ a'.vault.owner ≠ a.vault.owner := by
  obtain ⟨as, hrun⟩ := run_initiatedCosignedLedger
  have hbefore : initiatedCosignedLedger.live.any (fun a => a.policy.cosignRequired = true ∧
      a.policy.cosignSessionPubkey = sampleKey 5 ∧ a.vault.owner = sampleKey 1) = true := by
    decide +kernel
  have hidle : initiatedCosignedLedger.pendingPolicy.isNone = true := by decide +kernel
  have haccept : exec (envAt 173800 400000 (by decide)) initiatedCosignedLedger
      (.acceptOwnershipTransfer (sampleKey 6)) = .ok _ := exec_after (by decide +kernel)
  have hafter : (after (envAt 173800 400000 (by decide)) initiatedCosignedLedger
      (.acceptOwnershipTransfer (sampleKey 6))).live.any (fun a => a.policy.cosignRequired = true ∧
        a.vault.owner = sampleKey 6) = true := by decide +kernel
  obtain ⟨a, ha, hcosign⟩ := (Option.any_eq_true _ _).mp hbefore
  obtain ⟨hreq, hkey, howner⟩ := of_decide_eq_true hcosign
  obtain ⟨a', ha', hcosign'⟩ := (Option.any_eq_true _ _).mp hafter
  obtain ⟨hreq', howner'⟩ := of_decide_eq_true hcosign'
  refine ⟨as, _, _, a, a', hrun, ha, hreq, hkey, Option.isNone_iff_eq_none.mp hidle, haccept, ?_,
    ha', hreq', ?_⟩
  · rintro (hsigner | ⟨m, hm, -⟩)
    · exact absurd hsigner (by decide)
    · exact absurd hm List.not_mem_nil
  · rw [howner, howner']
    decide

end Silence

end Sigil
