import Sigil.Authority.AgentSet
import Sigil.Cosign.QueueApply
import Sigil.Digest.Coverage
import Sigil.Session.Sandwich

/-! # The digest of a queued update

An update is queued with the digest of its outcome, which binds the agents of that moment, and it
is applied only if the agents of then give the same digest. The instructions on the agents store a
fresh digest in the policy, but not in the pending update.
-/

namespace Sigil

open Guard Trace

section Spared

variable {D : Type}

/-- The instructions that leave the policy, the owner and the pending update alone. Those on the
agents are among them. -/
def Call.sparesPolicy : Call D → Bool
  | initializeVault .. | closeVault .. | setObserveOnly .. | queuePolicyUpdate ..
  | approvePendingPolicy .. | cancelPendingPolicy .. | applyPendingPolicy ..
  | promoteGraylistDestination .. | acceptOwnershipTransfer .. | createPostAssertions ..
  | closePostAssertions .. => false
  | _ => true

def Action.SparesPolicy : Action D → Prop
  | .call _ c => c.sparesPolicy = true
  | .foreign => True

theorem Call.spares_of_sparesPolicy {c : Call D} (h : c.sparesPolicy = true) :
    c.isRoutine = true ∧ ∀ part ∈ [Part.custody, .observeOnly, .graylist, .assertions],
      part ∉ c.writes := by
  cases c <;> simp [sparesPolicy, isRoutine, writes] at h ⊢

/-- Nothing of the policy has changed but its version and its digest. -/
structure SparedPolicy (a a' : VaultAccounts D) : Prop where
  policy : a'.policy = { a.policy with
    policyVersion := a'.policy.policyVersion
    policyPreviewDigest := a'.policy.policyPreviewDigest }
  owner : a'.vault.owner = a.vault.owner
  observeOnly : a'.vault.observeOnly = a.vault.observeOnly

variable {a a' a'' : VaultAccounts D}

theorem SparedPolicy.refl (a : VaultAccounts D) : SparedPolicy a a := ⟨rfl, rfl, rfl⟩

theorem SparedPolicy.trans (h : SparedPolicy a a') (h' : SparedPolicy a' a'') :
    SparedPolicy a a'' where
  policy := by
    rw [h'.policy, h.policy]
  owner := h'.owner.trans h.owner
  observeOnly := h'.observeOnly.trans h.observeOnly

theorem PolicyConfig.eq_of_core [Host D] {p p' : PolicyConfig D} (hcore : p'.core = p.core)
    (hpending : p'.hasPendingPolicy = p.hasPendingPolicy)
    (hgraylist : p'.destinationGraylist = p.destinationGraylist)
    (hassertions : p'.hasPostAssertions = p.hasPostAssertions) :
    p' = { p with
      policyVersion := p'.policyVersion
      policyPreviewDigest := p'.policyPreviewDigest } := by
  change { p'.core with
    hasPendingPolicy := p'.hasPendingPolicy
    policyVersion := p'.policyVersion
    hasPostAssertions := p'.hasPostAssertions
    policyPreviewDigest := p'.policyPreviewDigest
    destinationGraylist := p'.destinationGraylist } = _
  rw [hcore, hpending, hgraylist, hassertions]
  rfl

variable [Host D] [DecidableEq D] {env : Env} {c : Call D} {l l' : Ledger D}

theorem exec_sparesPolicy (h : exec env l c = .ok l') (hc : c.sparesPolicy = true)
    (ha : l.live = some a) :
    ∃ a', l'.live = some a' ∧ SparedPolicy a a' ∧ l'.pendingPolicy = l.pendingPolicy := by
  obtain ⟨hroutine, hparts⟩ := Call.spares_of_sparesPolicy hc
  obtain ⟨b, a', hb, ha', hkeeps, hpending⟩ := exec_routine h hroutine
  cases ha.symm.trans hb
  have hcustody := (exec_frame h (hparts .custody (by simp))).eq ha ha'
  have hobserve := (exec_frame h (hparts .observeOnly (by simp))).eq ha ha'
  have hgraylist := (exec_frame h (hparts .graylist (by simp))).eq ha ha'
  have hassertions := (exec_frame h (hparts .assertions (by simp))).eq ha ha'
  exact ⟨a', ha', ⟨PolicyConfig.eq_of_core hkeeps.core hkeeps.pending hgraylist hassertions,
    congrArg Prod.fst hcustody, hobserve⟩, hpending⟩

theorem run_sparesPolicy {as : List (Action D)} (hrun : Run Step l as l')
    (hspares : ∀ x ∈ as, x.SparesPolicy) (ha : l.live = some a) :
    ∃ a', l'.live = some a' ∧ SparedPolicy a a' ∧ l'.pendingPolicy = l.pendingPolicy := by
  refine hrun.invariant_of (P := fun m => ∃ b, m.live = some b ∧ SparedPolicy a b ∧
    m.pendingPolicy = l.pendingPolicy) ?_ hspares ⟨a, ha, .refl a, rfl⟩
  rintro m x m' hx ⟨b, hb, hspared, hpending⟩ hstep
  cases hstep with
  | foreign => exact ⟨b, hb, hspared, hpending⟩
  | call hexec =>
    obtain ⟨b', hb', hspared', hpending'⟩ := exec_sparesPolicy hexec hx hb
    exact ⟨b', hb', hspared.trans hspared', hpending'.trans hpending⟩

end Spared

section Apply

variable {D : Type} [Host D]

omit [Host D] in
theorem applyUpdate_resealed {clock : Clock} {owner : Pubkey} {p merged : PolicyConfig D}
    {pending : PendingPolicyUpdate D} (version : UInt64) (digest : D)
    (h : applyUpdate clock owner p pending = .ok merged) :
    applyUpdate clock owner { p with policyVersion := version, policyPreviewDigest := digest }
      pending = .ok { merged with policyVersion := version, policyPreviewDigest := digest } := by
  simp only [applyUpdate, seq_ok_iff, ensure_ok_iff, exists_and_left, exists_const,
    pure_ok_iff] at h ⊢
  obtain ⟨hshort, hlong, graylist, hgraylist, hcaps, hmode, hhours, hdelay, hdisable, hbound, hkey,
    hset, hrequired, hallowlist, rfl⟩ := h
  exact ⟨hshort, hlong, graylist, hgraylist, hcaps, hmode, hhours, hdelay, hdisable, hbound, hkey,
    hset, hrequired, hallowlist, rfl⟩

def SameAgents (v v' : AgentVault) : Prop := ∀ x, x ∈ v'.boundAgents ↔ x ∈ v.boundAgents

theorem liveDigest_eq_iff [IdealHost D] {v v' : AgentVault} {p : PolicyConfig D}
    (hobserve : v'.observeOnly = v.observeOnly) (hcounts : (previewFields v p).Counts)
    (hv : Registry v.keys) (hv' : Registry v'.keys) :
    liveDigest v' p = liveDigest v p ↔ SameAgents v v' := by
  have hbounded : ∀ w : AgentVault, Registry w.keys → w.agents.length < 2 ^ 32 := by
    intro w hw
    have hten := hw.bounded
    rw [AgentVault.keys, List.length_map] at hten
    exact hten.trans_lt (by decide)
  have hhash : (computeAgentSetHash v'.agents : D) = computeAgentSetHash v.agents ↔
      SameAgents v v' :=
    computeAgentSetHash_eq_iff (hbounded v' hv') (hbounded v hv) hv'.distinct hv.distinct
  rw [← hhash]
  constructor
  · intro h
    obtain ⟨hfields, -⟩ := (computePolicyPreviewDigest_eq_iff (f := previewFields v' p)
      (g := previewFields v p) hcounts hcounts).mp h
    exact congrArg PolicyPreviewFields.agentSetHash hfields
  · intro h
    unfold liveDigest previewFields
    rw [h, hobserve]

variable [DecidableEq D] {env : Env} {owner : Pubkey} {l l' r : Ledger D} {a a' : VaultAccounts D}
  {pending : PendingPolicyUpdate D}

/-- An update that is not elevated and could be applied to the earlier accounts passes all checks on
the later ones except, maybe, that of the digest and that of the version. -/
theorem applyPendingPolicy_spared (h : applyPendingPolicy env owner l = .ok r)
    (ha : l.live = some a) (ha' : l'.live = some a') (hspared : SparedPolicy a a')
    (haccount : l.pendingPolicy = some pending) (hno : pending.noCosign)
    (hpending : l'.pendingPolicy = l.pendingPolicy) (hkey : l'.vaultKey = l.vaultKey)
    (hactive : a'.vault.status = .active) :
    ∃ (merged : PolicyConfig D) (next : UInt64 → Ledger D),
      liveDigest a.vault merged = pending.newPolicyPreviewDigest ∧
      (previewFields a.vault merged).Counts ∧
      applyPendingPolicy env owner l' = (do
        ensure (liveDigest a'.vault merged = pending.newPolicyPreviewDigest) .policyPreviewMismatch
        let version ← a'.nextVersion
        return next version) := by
  simp only [applyPendingPolicy, ensureFits, seq_ok_iff, Ledger.loadAsOwner_ok_iff,
    mustExist_ok_iff, require_ok_iff, rejectCpi_ok_iff, ensure_ok_iff, exists_and_left,
    exists_const, pure_ok_iff] at h
  obtain ⟨b, ⟨hb, howner⟩, stored, hstored, hvault, hcpi, -, hready, -, -, ⟨⟩, hfresh, -, merged,
    hmerged, hallowlist, hdigest, version, -, hfits, -⟩ := h
  cases ha.symm.trans hb
  cases haccount.symm.trans hstored
  have hload : l'.loadAsOwner owner = .ok a' :=
    Ledger.loadAsOwner_ok_iff.mpr ⟨ha', hspared.owner.trans howner⟩
  have hmerged' := applyUpdate_resealed a'.policy.policyVersion
    a'.policy.policyPreviewDigest hmerged
  rw [← hspared.policy] at hmerged'
  rw [← hspared.observeOnly] at hallowlist
  refine ⟨merged, fun version => { l' with
      live := some { a' with policy := { merged with
        policyPreviewDigest := pending.newPolicyPreviewDigest
        hasPendingPolicy := false
        policyVersion := version } }
      pendingPolicy := none }, hdigest, lengths_of_serializedSize hfits, ?_⟩
  rw [applyPendingPolicy, hload, ok_seq, mustExist_ok_iff.mpr (hpending.trans haccount), ok_seq,
    require_of (hvault.trans hkey.symm), ok_seq, (rejectCpi_ok_iff (u := ())).mpr hcpi, ok_seq,
    ensure_of hactive, ok_seq, ensure_of hready, ok_seq, ensure_of (absurd hno), ok_seq,
    ensure_of (absurd hno), ok_seq, hfresh, ok_seq, ensure_of (absurd hno), ok_seq,
    hmerged', ok_seq, ensure_of hallowlist, ok_seq]
  refine congrArg _ (funext fun _ => congrArg _ (funext fun version => ?_))
  change require _ _ >>= _ = _
  rw [require_of (by exact hfits), ok_seq]

omit [Host D] [DecidableEq D] in
theorem digest_version_iff {a : VaultAccounts D} {next : UInt64 → Ledger D} {p : Prop} [Decidable p]
    {x : Result (Ledger D)} (hx : x = (do
      ensure p .policyPreviewMismatch
      let version ← a.nextVersion
      return next version)) :
    ((∃ l', x = .ok l') ↔ p ∧ a.policy.policyVersion.toNat + 1 < 2 ^ 64) ∧
      (x = .error (.sigil .policyPreviewMismatch) ↔ ¬ p) := by
  subst hx
  constructor
  · simp only [VaultAccounts.nextVersion, ensure_seq_ok_iff, someOr_seq_ok_iff, pure_ok_iff,
      Machine.checkedAdd_eq_some, exists_and_left]
    refine and_congr_right fun _ => ⟨?_, fun hroom => ?_⟩
    · rintro ⟨-, version, hversion, -⟩
      exact hversion ▸ version.toNat_lt
    · refine ⟨_, UInt64.ofNat (a.policy.policyVersion.toNat + 1), ?_, rfl⟩
      exact UInt64.toNat_ofNat_of_lt hroom
  · rw [seq_error_iff]
    constructor
    · rintro (hfails | ⟨-, -, hversion⟩)
      · exact (ensure_error_iff.mp hfails).1
      · rcases seq_error_iff.mp hversion with hoverflow | ⟨version, -, hdone⟩
        · cases (someOr_error_iff.mp hoverflow).2
        · cases hdone
    · exact fun hp => .inl (ensure_of_not hp)

end Apply

section Runs

variable {D : Type} [Host D] [DecidableEq D] {l₀ l₁ l₂ l r : Ledger D} {as bs : List (Action D)}
  {env envQueue : Env} {owner session : Pubkey} {u : PolicyUpdate D} {digest : D}
  {queued a : VaultAccounts D}

/-- An update that is not elevated, and that would be applied if nothing had happened since it was
queued, is applied after a run that spares the policy just if the agents are the same with the same
capabilities and the policy has another version to go to. With other agents the digest is the
reason. -/
theorem queued_update_applies_iff [IdealHost D] (h₀ : l₀.Genesis) (hreach : Run Step l₀ as l₁)
    (hqueued : l₁.live = some queued) (helevated : queued.policy.isElevated u = false)
    (hqueue : exec envQueue l₁ (.queuePolicyUpdate owner u session digest) = .ok l₂)
    (happlies : exec env l₂ (.applyPendingPolicy owner) = .ok r)
    (hrun : Run Step l₂ bs l) (hspares : ∀ x ∈ bs, x.SparesPolicy) (ha : l.live = some a)
    (hactive : a.vault.status = .active) :
    ((∃ l', exec env l (.applyPendingPolicy owner) = .ok l') ↔
      SameAgents queued.vault a.vault ∧ a.policy.policyVersion.toNat + 1 < 2 ^ 64) ∧
    (exec env l (.applyPendingPolicy owner) = .error (.sigil .policyPreviewMismatch) ↔
      ¬ SameAgents queued.vault a.vault) := by
  have hregistry := (run_registered hreach h₀).agents queued hqueued
  have hregistry' := (run_registered ((hreach.snoc (.call hqueue)).append hrun) h₀).agents a ha
  obtain ⟨b, bound, hb, -, -, hbound, -, -, rfl⟩ := queuePolicyUpdate_ok hqueue
  cases hqueued.symm.trans hb
  rcases bindPolicyCosigner_ok hbound with ⟨hyes, -⟩ | ⟨-, rfl⟩
  · cases hyes.symm.trans helevated
  obtain ⟨b, hb, hspared, hpending⟩ := run_sparesPolicy hrun hspares rfl
  cases ha.symm.trans hb
  obtain ⟨merged, next, hdigest, hcounts, happly⟩ :=
    applyPendingPolicy_spared happlies rfl ha hspared rfl ⟨rfl, rfl⟩ hpending
      (vaultKey_of_run hrun) hactive
  have hobserve : a.vault.observeOnly = queued.vault.observeOnly := hspared.observeOnly
  have hmatches : liveDigest queued.vault merged = digest := hdigest
  have hsame : liveDigest a.vault merged = digest ↔ SameAgents queued.vault a.vault := by
    rw [← liveDigest_eq_iff hobserve hcounts hregistry hregistry', hmatches]
  rw [← hsame]
  exact digest_version_iff happly

end Runs

section Sample

def operatedRaising : Ledger Preimage :=
  after (sampleEnv 3300 30) operatedLedger
    (sampleQueue operatedLedger (raiseCap 2000) Pubkey.default)

theorem exec_operatedRaising : exec (sampleEnv 3300 30) operatedLedger
    (sampleQueue operatedLedger (raiseCap 2000) Pubkey.default) = .ok operatedRaising :=
  exec_after (by decide +kernel)

def raisingThen (c : Call Preimage) : Ledger Preimage := after (sampleEnv 3400 40) operatedRaising c

def applyRaise : Call Preimage := .applyPendingPolicy (sampleKey 1)

/-- The cap is raised although the operator has been paused in between. -/
theorem queued_update_applies_iff_paused :
    ∃ l', exec (sampleEnv 5100 50) (raisingThen (.pauseAgent (sampleKey 1) (sampleKey 9)))
      applyRaise = .ok l' := by
  obtain ⟨as, hreach⟩ := run_operatedLedger
  have hlive : operatedLedger.live.isSome = true := by decide +kernel
  have hlive' : (raisingThen (.pauseAgent (sampleKey 1) (sampleKey 9))).live.isSome = true := by
    decide +kernel
  obtain ⟨queued, hqueued⟩ := Option.isSome_iff_exists.mp hlive
  obtain ⟨a, ha⟩ := Option.isSome_iff_exists.mp hlive'
  have hplain : ∀ b ∈ operatedLedger.live, b.policy.isElevated (raiseCap 2000) = false ∧
      b.vault.boundAgents = [(sampleKey 9, capabilityOperator)] := by decide +kernel
  have hstate : ∀ b ∈ (raisingThen (.pauseAgent (sampleKey 1) (sampleKey 9))).live,
      b.vault.status = .active ∧ b.vault.boundAgents = [(sampleKey 9, capabilityOperator)] ∧
      b.policy.policyVersion.toNat + 1 < 2 ^ 64 := by decide +kernel
  obtain ⟨helevated, hagents⟩ := hplain queued hqueued
  obtain ⟨hactive, hagents', hroom⟩ := hstate a ha
  have hpause : Step operatedRaising _ (raisingThen (.pauseAgent (sampleKey 1) (sampleKey 9))) :=
    .after (by decide +kernel)
  have happlies : exec (sampleEnv 5100 50) operatedRaising applyRaise = .ok _ :=
    exec_after (by decide +kernel)
  have hiff := (queued_update_applies_iff genesis_emptyLedger hreach hqueued helevated
    exec_operatedRaising happlies (.single hpause) (List.forall_mem_singleton.mpr rfl) ha hactive).1
  refine hiff.mpr ⟨fun x => ?_, hroom⟩
  rw [hagents, hagents']

/-- The raise could be applied until an observer joins. Then it cannot, although the policy stores
the digest of what is live. -/
theorem joining_agent_blocks_update :
    (∃ as, Run Step emptyLedger as operatedLedger) ∧
      exec (sampleEnv 3300 30) operatedLedger
        (sampleQueue operatedLedger (raiseCap 2000) Pubkey.default) = .ok operatedRaising ∧
      operatedLedger.live.any (fun a => a.policy.isElevated (raiseCap 2000)) = false ∧
      exec (sampleEnv 5100 50) operatedRaising applyRaise =
        .ok (after (sampleEnv 5100 50) operatedRaising applyRaise) ∧
      Step operatedRaising (.call (sampleEnv 3400 40) (joinCall (sampleKey 6)))
        (raisingThen (joinCall (sampleKey 6))) ∧
      (raisingThen (joinCall (sampleKey 6))).live.any (fun a => a.vault.status = .active ∧
        a.policy.policyPreviewDigest = liveDigest a.vault a.policy) = true ∧
      exec (sampleEnv 5100 50) (raisingThen (joinCall (sampleKey 6))) applyRaise =
        .error (.sigil .policyPreviewMismatch) :=
  ⟨run_operatedLedger, exec_operatedRaising, by decide +kernel, exec_after (by decide +kernel),
    .after (by decide +kernel), by decide +kernel, exec_of_failure (by decide +kernel)⟩

end Sample

end Sigil
