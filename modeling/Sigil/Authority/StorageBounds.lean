import Sigil.Authority.PolicyBounds

/-! # The stored lists fit their accounts

The accounts of the policy and of a pending update have room for ten entries of each list. The caps
of an update are counted against the protocols, and only while the switch for caps is on.
-/

namespace Sigil

open Guard Trace

section Storage

variable {D : Type}

/-- The lists of a policy are of the size that its account has room for. -/
structure PolicyConfig.FitsStorage (p : PolicyConfig D) : Prop where
  protocols : p.protocols.length ≤ maxAllowedProtocols
  destinations : p.allowedDestinations.length ≤ maxAllowedDestinations
  graylist : p.destinationGraylist.length ≤ maxAllowedDestinations
  caps : p.protocolCaps.length ≤ maxAllowedProtocols

/-- The caps that an update brings are no more than the account has room for. -/
def PolicyUpdate.FewCaps (u : PolicyUpdate D) : Prop :=
  ∀ caps ∈ u.protocolCaps, caps.length ≤ maxAllowedProtocols

structure PolicyUpdate.FitsStorage (u : PolicyUpdate D) : Prop where
  protocols : ∀ new ∈ u.protocols, new.length ≤ maxAllowedProtocols
  destinations : ∀ new ∈ u.allowedDestinations, new.length ≤ maxAllowedDestinations
  caps : u.FewCaps

structure Ledger.FitsStorage (l : Ledger D) : Prop where
  policy : ∀ a ∈ l.live, a.policy.FitsStorage
  pending : ∀ p ∈ l.pendingPolicy, p.update.FitsStorage

variable {p : PolicyConfig D}

theorem PolicyConfig.FitsStorage.serializedSize_le (h : p.FitsStorage) :
    p.serializedSize ≤ PolicyConfig.size := by
  have hprotocols : p.protocols.length ≤ 10 := h.protocols
  have hdestinations : p.allowedDestinations.length ≤ 10 := h.destinations
  have hgraylist : p.destinationGraylist.length ≤ 10 := h.graylist
  have hcaps : p.protocolCaps.length ≤ 10 := h.caps
  unfold PolicyConfig.serializedSize PolicyConfig.size maxAllowedProtocols
  omega

theorem PolicyConfig.FitsStorage.applyUpdate {clock : Clock} {owner : Pubkey}
    {pending : PendingPolicyUpdate D} {merged : PolicyConfig D} (hp : p.FitsStorage)
    (hu : pending.update.FitsStorage) (h : applyUpdate clock owner p pending = .ok merged) :
    merged.FitsStorage := by
  have hgraylist := length_applyUpdate h hp.graylist
  obtain ⟨graylist, -, rfl, -⟩ := applyUpdate_ok h
  exact {
    protocols := merged_of_forall (P := fun new : List Pubkey => new.length ≤ maxAllowedProtocols)
      hp.protocols hu.protocols
    destinations :=
      merged_of_forall (P := fun new : List Pubkey => new.length ≤ maxAllowedDestinations)
        hp.destinations hu.destinations
    graylist := hgraylist
    caps := merged_of_forall (P := fun caps : List UInt64 => caps.length ≤ maxAllowedProtocols)
      hp.caps hu.caps }

/-- The computation does not fail for want of space in an account. -/
abbrev SpaceSafe {α : Type} (x : Result α) : Prop := Spares (· = .anchor .accountDidNotSerialize) x

theorem spaceSafe_applyUpdate {clock : Clock} {owner : Pubkey}
    {pending : PendingPolicyUpdate D} : SpaceSafe (applyUpdate clock owner p pending) := by
  have hgraylist (new : Option (List Pubkey)) :
      SpaceSafe (graylistNewDestinations clock p new) := by
    cases new with
    | none => exact spares_ok _
    | some new =>
      have hstep (unlockUnix : ℤ) (graylist : List DestinationGraylistEntry) (d : Pubkey) :
          SpaceSafe (graylistDestination graylist unlockUnix d) := by
        simp only [graylistDestination]
        split <;> simp [ensure]
      simp [graylistNewDestinations, graylistUnlock, someOr, spares_foldlM, hstep]
  simp [applyUpdate, ensure, hgraylist]

/-- An update that fits is never turned away for want of space when it is applied. -/
theorem applyPendingPolicy_stored [Host D] [DecidableEq D] {env : Env} {owner : Pubkey}
    {l : Ledger D} (hl : l.FitsStorage) : SpaceSafe (applyPendingPolicy env owner l) := by
  have hfits (a : VaultAccounts D) (pending : PendingPolicyUpdate D) (merged : PolicyConfig D)
      (version : UInt64) (ha : l.live = some a) (hpending : l.pendingPolicy = some pending)
      (hmerged : applyUpdate env.clock owner a.policy pending = .ok merged) :
      { merged with
        policyPreviewDigest := pending.newPolicyPreviewDigest
        hasPendingPolicy := false
        policyVersion := version }.serializedSize ≤ PolicyConfig.size :=
    ((hl.policy a ha).applyUpdate (hl.pending pending hpending) hmerged).serializedSize_le
  simp +contextual [applyPendingPolicy, Ledger.loadAsOwner, ensure, someOr, mustExist, rejectCpi,
    ensureFresh, ensureFits, VaultAccounts.nextVersion, spaceSafe_applyUpdate, hfits]

end Storage

section Invariant

variable {D : Type} [Host D] [DecidableEq D] {env : Env} {c : Call D} {l l' : Ledger D}

/-- No list of caps is longer than its account has room for. -/
structure Ledger.CapsFit (l : Ledger D) : Prop where
  policy : ∀ a ∈ l.live, a.policy.protocolCaps.length ≤ maxAllowedProtocols
  pending : ∀ p ∈ l.pendingPolicy, p.update.FewCaps

omit [Host D] [DecidableEq D] in
theorem Ledger.PolicyInOrder.fitsStorage (h : l.PolicyInOrder) (hcaps : l.CapsFit) :
    l.FitsStorage where
  policy := fun a ha => ⟨(h.bounds a ha).protocols, (h.bounds a ha).destinations, h.graylist a ha,
    hcaps.policy a ha⟩
  pending := fun p hp => ⟨(h.pending p hp).protocols, (h.pending p hp).destinations,
    hcaps.pending p hp⟩

theorem length_newPolicy_protocolCaps {owner feeDestination : Pubkey} {args : InitializeVaultArgs D}
    (h : initializeVault env owner feeDestination args l = .ok l') :
    args.protocolCaps.length ≤ maxAllowedProtocols := by
  have hbounds := (initializeVault_inBounds h).1
  by_cases hnone : args.protocolCaps = []
  · rw [hnone]
    exact Nat.zero_le _
  · have hsame : args.protocolCaps.length = args.protocols.length :=
      hbounds.caps (decide_eq_true hnone)
    rw [hsame]
    exact hbounds.protocols

theorem exec_capsFit (h : exec env l c = .ok l') (hl : l.CapsFit)
    (hqueue : ∀ owner u cosignSession digest,
      c = .queuePolicyUpdate owner u cosignSession digest → u.FewCaps) : l'.CapsFit where
  policy := by
    intro a' ha'
    cases exec_policyOrigin h ha' with
    | kept ha hcore =>
      have hsame := congrArg PolicyConfig.protocolCaps hcore
      exact hsame ▸ hl.policy _ ha
    | created _ _ _ ha' =>
      rw [ha']
      exact length_newPolicy_protocolCaps h
    | @applied _ _ pending merged ha _ hpending hmerged hcore =>
      obtain ⟨graylist, -, rfl, -⟩ := applyUpdate_ok hmerged
      have hsame := congrArg PolicyConfig.protocolCaps hcore
      refine hsame ▸ PolicyConfig.merged_of_forall
        (P := fun caps : List UInt64 => caps.length ≤ maxAllowedProtocols) (hl.policy _ ha) ?_
      exact hl.pending pending hpending
    | @handedOver newOwner a _ ha ha' =>
      have hsame : a'.policy.protocolCaps = a.policy.protocolCaps := by
        rw [ha']
        unfold VaultAccounts.handOver PolicyConfig.collapseCosigner
        split <;> rfl
      rw [hsame]
      exact hl.policy a ha
  pending := by
    intro p hp
    rcases exec_pendingUpdate h hp with ⟨q, hq, hsame⟩ | ⟨owner, cosignSession, digest, rfl⟩
    · rw [hsame]
      exact hl.pending q hq
    · exact hqueue owner p.update cosignSession digest rfl

theorem fewCaps_of_capsFit {owner cosignSession : Pubkey} {u : PolicyUpdate D} {digest : D}
    (h : exec env l (.queuePolicyUpdate owner u cosignSession digest) = .ok l') (hl : l'.CapsFit) :
    u.FewCaps := by
  obtain ⟨a, bound, -, -, -, -, -, -, rfl⟩ := queuePolicyUpdate_ok h
  exact hl.pending _ rfl

theorem run_capsFit {l₀ : Ledger D} {as : List (Action D)} (h₀ : l₀.Genesis)
    (hrun : Run Step l₀ as l)
    (hqueue : ∀ env owner u cosignSession digest,
      .call env (.queuePolicyUpdate owner u cosignSession digest) ∈ as → u.FewCaps) :
    l.CapsFit := by
  refine hrun.invariant_of (P := Ledger.CapsFit) (Q := fun x => ∀ env owner u cosignSession digest,
    x = .call env (.queuePolicyUpdate owner u cosignSession digest) → u.FewCaps) ?_ ?_ ?_
  · intro m x m' hx hm hstep
    cases hstep with
    | call hexec =>
      refine exec_capsFit hexec hm fun owner u cosignSession digest hc => ?_
      exact hx _ owner u cosignSession digest (congrArg _ hc)
    | foreign => exact ⟨hm.policy, hm.pending⟩
  · rintro x hx env owner u cosignSession digest rfl
    exact hqueue env owner u cosignSession digest hx
  · constructor <;> simp [h₀.live, h₀.pendingPolicy]

/-- In every state of a run the stored lists have at most ten entries exactly when no update that
was queued in it brings more than ten caps. Where they do, the policy fits its account and so does
what applying the pending update makes of it. -/
theorem stored_lists_bounded_iff {l₀ : Ledger D} {as : List (Action D)} (h₀ : l₀.Genesis)
    (hrun : Run Step l₀ as l) :
    ((∀ front back m, front ++ back = as → Run Step l₀ front m → Run Step m back l →
        m.FitsStorage) ↔
      ∀ env owner u cosignSession digest,
        .call env (.queuePolicyUpdate owner u cosignSession digest) ∈ as → u.FewCaps) ∧
    (l.FitsStorage → (∀ a ∈ l.live, a.policy.serializedSize ≤ PolicyConfig.size) ∧
      ∀ env owner, applyPendingPolicy env owner l ≠ .error (.anchor .accountDidNotSerialize)) := by
  refine ⟨⟨?_, ?_⟩, ?_⟩
  · intro hfits env owner u cosignSession digest hmem
    obtain ⟨front, back, m, m', rfl, hfront, hstep, hback⟩ := hrun.exists_split hmem
    have hm' := hfits (front ++ [_]) back m' (by simp) (hfront.snoc hstep) hback
    cases hstep with
    | call hexec =>
      exact fewCaps_of_capsFit hexec
        ⟨fun a ha => (hm'.policy a ha).caps, fun p hp => (hm'.pending p hp).caps⟩
  · rintro hqueue front back m rfl hfront -
    refine (run_policyInOrder h₀ hfront).fitsStorage (run_capsFit h₀ hfront ?_)
    intro env owner u cosignSession digest hmem
    exact hqueue env owner u cosignSession digest (List.mem_append_left _ hmem)
  · intro hl
    exact ⟨fun a ha => (hl.policy a ha).serializedSize_le,
      fun env owner herror => applyPendingPolicy_stored hl _ herror rfl⟩

end Invariant

section Sample

/-- An update with a list of caps and the switch for caps left off. -/
def manyCaps (n : ℕ) : PolicyUpdate Preimage :=
  { PolicyUpdate.none with protocolCaps := some (List.replicate n 1) }

def queuedCaps (n : ℕ) : Ledger Preimage :=
  after (sampleEnv 2000 8) sampleLedger (sampleQueue sampleLedger (manyCaps n) Pubkey.default)

def appliedCaps (n : ℕ) : Ledger Preimage :=
  after (sampleEnv 3800 9) (queuedCaps n) (.applyPendingPolicy (sampleKey 1))

theorem step_queuedCaps {n : ℕ} (h : (exec (sampleEnv 2000 8) sampleLedger
    (sampleQueue sampleLedger (manyCaps n) Pubkey.default)).isOk = true) :
    Step sampleLedger (.call (sampleEnv 2000 8)
      (sampleQueue sampleLedger (manyCaps n) Pubkey.default)) (queuedCaps n) :=
  .after h

/-- Eleven caps are queued and become part of the policy; 140 are queued and block the update. -/
theorem too_many_caps_stored :
    (∃ as, Run Step emptyLedger as (appliedCaps 11)) ∧
      ((appliedCaps 11).live.any fun a => a.policy.protocolCaps.length = 11) = true ∧
      (∃ as, Run Step emptyLedger as (queuedCaps 140)) ∧
      exec (sampleEnv 3800 9) (queuedCaps 140) (.applyPendingPolicy (sampleKey 1)) =
        .error (.anchor .accountDidNotSerialize) := by
  have heleven := step_queuedCaps (n := 11) (by decide +kernel)
  have happlied : Step (queuedCaps 11) _ (appliedCaps 11) := .after (by decide +kernel)
  have hmany := step_queuedCaps (n := 140) (by decide +kernel)
  exact ⟨⟨_, ((Run.single step_sampleInitialize).snoc heleven).snoc happlied⟩, by decide +kernel,
    ⟨_, (Run.single step_sampleInitialize).snoc hmany⟩, exec_of_failure (by decide +kernel)⟩

theorem stored_lists_bounded_iff_ten :
    ((appliedCaps 10).live.any fun a => a.policy.protocolCaps.length = 10) = true ∧
      (queuedCaps 10).FitsStorage ∧ (appliedCaps 10).FitsStorage := by
  have hqueued := step_queuedCaps (n := 10) (by decide +kernel)
  have happlied : Step (queuedCaps 10) _ (appliedCaps 10) := .after (by decide +kernel)
  have hrun := (Run.single step_sampleInitialize).snoc hqueued
  have hfits := (stored_lists_bounded_iff genesis_emptyLedger (hrun.snoc happlied)).1.mpr ?_
  · exact ⟨by decide +kernel, hfits _ _ _ rfl hrun (.single happlied),
      hfits _ [] _ (List.append_nil _) (hrun.snoc happlied) (.nil _)⟩
  · intro env owner u cosignSession digest hmem
    simp only [List.mem_append, List.mem_singleton, or_assoc] at hmem
    rcases hmem with hinit | hqueue | happly
    · cases hinit
    · cases hqueue
      rintro caps ⟨⟩
      decide
    · cases happly

end Sample

end Sigil
