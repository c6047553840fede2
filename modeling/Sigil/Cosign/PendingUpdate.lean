import Sigil.System.Footprint

/-! # The life of a pending update

From the moment an update is queued until its account is gone, the account keeps its content, the
guards of the policy stay as they were, except that a new owner may end cosigning, and at most one
approval is stored, given by the key that was bound when the update was queued.
-/

namespace Sigil

open Guard Trace

namespace Call

variable {D : Type}

def isQueue : Call D → Bool
  | queuePolicyUpdate .. => true
  | _ => false

def isApprove : Call D → Bool
  | approvePendingPolicy .. => true
  | _ => false

def endsPending : Call D → Bool
  | cancelPendingPolicy .. | applyPendingPolicy .. | closeVault .. => true
  | _ => false

theorem spares_pending_of_isRoutine {c : Call D} (h : c.isRoutine = true) :
    ¬ c.endsPending = true ∧ ¬ c.isApprove = true := by
  cases c <;> first | exact ⟨Bool.false_ne_true, Bool.false_ne_true⟩ | cases h

end Call

section Drift

variable {D : Type} [Host D]

/-- The guards without a cosigner. -/
def PolicyConfig.uncosigned (p : PolicyConfig D) : PolicyConfig D :=
  { p.core with cosignSessionPubkey := Pubkey.default, cosignRequired := false }

/-- What may have become of a policy while an update is pending. -/
def Drifted (p p' : PolicyConfig D) : Prop :=
  p'.core = p.core ∧ p.policyVersion.toNat ≤ p'.policyVersion.toNat ∨
    p'.core = p.uncosigned ∧ p.policyVersion.toNat < p'.policyVersion.toNat

variable {p p' : PolicyConfig D} {a a' : VaultAccounts D}

theorem Drifted.refl (p : PolicyConfig D) : Drifted p p := .inl ⟨rfl, le_rfl⟩

theorem Drifted.keeps {reseals : Bool} (h : Drifted p a.policy) (hk : Keeps reseals a a') :
    Drifted p a'.policy := by
  rcases h with ⟨hcore, hversion⟩ | ⟨hcore, hversion⟩
  · exact .inl ⟨hk.core.trans hcore, hversion.trans hk.version⟩
  · exact .inr ⟨hk.core.trans hcore, hversion.trans_le hk.version⟩

theorem core_collapseCosigner (p : PolicyConfig D) (newOwner : Pubkey) :
    (p.collapseCosigner newOwner).core = p.core ∨
      (p.collapseCosigner newOwner).core = p.uncosigned := by
  unfold PolicyConfig.collapseCosigner
  split
  · exact .inr rfl
  · exact .inl rfl

theorem uncosigned_of_core (h : p'.core = p.core) : p'.uncosigned = p.uncosigned := by
  unfold PolicyConfig.uncosigned
  rw [h]

theorem uncosigned_of_uncosigned (h : p'.core = p.uncosigned) : p'.uncosigned = p.uncosigned := by
  unfold PolicyConfig.uncosigned
  rw [h]
  rfl

theorem Drifted.handOver {newOwner : Pubkey} {version : UInt64} (h : Drifted p a.policy)
    (hversion : version.toNat = a.policy.policyVersion.toNat + 1) :
    Drifted p ((a.handOver newOwner).sealedAt version).policy := by
  have hcore : ((a.handOver newOwner).sealedAt version).policy.core =
      (a.policy.collapseCosigner newOwner).core := rfl
  have hnext : ((a.handOver newOwner).sealedAt version).policy.policyVersion = version := rfl
  rw [Drifted, hcore, hnext, hversion]
  rcases h with ⟨hp, hle⟩ | ⟨hp, hlt⟩ <;>
    rcases core_collapseCosigner a.policy newOwner with hc | hc
  · exact .inl ⟨hc.trans hp, hle.trans (Nat.le_succ _)⟩
  · exact .inr ⟨hc.trans (uncosigned_of_core hp), Nat.lt_succ_of_le hle⟩
  · exact .inr ⟨hc.trans hp, hlt.trans (Nat.lt_succ_self _)⟩
  · exact .inr ⟨hc.trans (uncosigned_of_uncosigned hp), hlt.trans (Nat.lt_succ_self _)⟩

theorem Drifted.core_of_version (h : Drifted p p') (hversion : p'.policyVersion = p.policyVersion) :
    p'.core = p.core := by
  rcases h with ⟨hcore, -⟩ | ⟨-, hlt⟩
  · exact hcore
  · exact absurd (hversion ▸ hlt) (lt_irrefl _)

theorem Drifted.core_of_cosigned (h : Drifted p p') (hreq : p'.cosignRequired = true) :
    p'.core = p.core := by
  rcases h with ⟨hcore, -⟩ | ⟨hcore, -⟩
  · exact hcore
  · have hoff : p'.core.cosignRequired = false := by rw [hcore]; rfl
    exact absurd (hreq.symm.trans hoff) nofun

theorem cosignSessionPubkey_of_core (h : p'.core = p.core) :
    p'.cosignSessionPubkey = p.cosignSessionPubkey := by
  change p'.core.cosignSessionPubkey = p.core.cosignSessionPubkey
  rw [h]

theorem cosignRequired_of_core (h : p'.core = p.core) : p'.cosignRequired = p.cosignRequired := by
  change p'.core.cosignRequired = p.core.cosignRequired
  rw [h]

end Drift

section Life

variable {D : Type} [Host D] [DecidableEq D]

/-- Among the actions since the update was queued there is exactly one approval, by the key bound
at that time, after the timelock, and at an unchanged policy version. -/
def Approval (l₂ : Ledger D) (queued : PolicyConfig D) (executesAt : ℤ)
    (as : List (Action D)) : Prop :=
  ∃ front env rest m m' a,
    as = front ++ .call env (.approvePendingPolicy queued.cosignSessionPubkey) :: rest ∧
    Run Step l₂ front m ∧
    exec env m (.approvePendingPolicy queued.cosignSessionPubkey) = .ok m' ∧
    m.live = some a ∧ a.policy.policyVersion = queued.policyVersion ∧
    executesAt ≤ env.clock.unixTimestamp ∧ ∀ x ∈ front ++ rest, ¬ x.Calls Call.isApprove

/-- The state of a pending account: `first` is how it was stored on the policy `queued`, and
`pending` is what it is after the actions `as`. -/
structure Tracked (l₂ : Ledger D) (queued : PolicyConfig D) (first : PendingPolicyUpdate D)
    (as : List (Action D)) (l : Ledger D) (a : VaultAccounts D)
    (pending : PendingPolicyUpdate D) : Prop where
  live : l.live = some a
  account : l.pendingPolicy = some pending
  marked : a.policy.hasPendingPolicy = true
  drift : Drifted queued a.policy
  content : pending = { first with
    cosignApproved := pending.cosignApproved
    approvedAtSlot := pending.approvedAtSlot }
  unended : ∀ x ∈ as, ¬ x.Calls Call.endsPending
  approval : pending.cosignApproved = false ∧ (∀ x ∈ as, ¬ x.Calls Call.isApprove) ∨
    pending.cosignApproved = true ∧ Approval l₂ queued first.executesAt as

variable {l₂ l l' : Ledger D} {queued : PolicyConfig D} {first pending : PendingPolicyUpdate D}
  {as : List (Action D)} {x : Action D} {a a' : VaultAccounts D}

omit [Host D] [DecidableEq D] in
theorem forall_mem_snoc {P : Action D → Prop} (h : ∀ y ∈ as, P y) (hx : P x) :
    ∀ y ∈ as ++ [x], P y := by
  intro y hy
  rcases List.mem_append.mp hy with hy | hy
  · exact h y hy
  · exact List.mem_singleton.mp hy ▸ hx

theorem Approval.snoc {executesAt : ℤ} (h : Approval l₂ queued executesAt as)
    (hx : ¬ x.Calls Call.isApprove) : Approval l₂ queued executesAt (as ++ [x]) := by
  obtain ⟨front, env, rest, m, m', a, rfl, hrun, hexec, hlive, hversion, hready, hnone⟩ := h
  refine ⟨front, env, rest ++ [x], m, m', a, by simp, hrun, hexec, hlive, hversion, hready, ?_⟩
  rw [← List.append_assoc]
  exact forall_mem_snoc hnone hx

theorem Tracked.snoc (h : Tracked l₂ queued first as l a pending) (hlive : l'.live = some a')
    (haccount : l'.pendingPolicy = l.pendingPolicy) (hmarked : a'.policy.hasPendingPolicy = true)
    (hdrift : Drifted queued a'.policy) (hend : ¬ x.Calls Call.endsPending)
    (happrove : ¬ x.Calls Call.isApprove) :
    Tracked l₂ queued first (as ++ [x]) l' a' pending where
  live := hlive
  account := haccount.trans h.account
  marked := hmarked
  drift := hdrift
  content := h.content
  unended := forall_mem_snoc h.unended hend
  approval := h.approval.imp (fun hno => ⟨hno.1, forall_mem_snoc hno.2 happrove⟩)
    fun hyes => ⟨hyes.1, hyes.2.snoc happrove⟩

theorem Tracked.approve {env : Env} {cosigner : Pubkey} (hrun : Run Step l₂ as l)
    (h : Tracked l₂ queued first as l a pending)
    (hqueued : first.queuedPolicyVersion = queued.policyVersion)
    (hexec : exec env l (.approvePendingPolicy cosigner) = .ok l') :
    Tracked l₂ queued first (as ++ [.call env (.approvePendingPolicy cosigner)]) l' a
      { pending with cosignApproved := true, approvedAtSlot := env.clock.slot } := by
  obtain ⟨b, stored, hb, hstored, -, hkey, hfirst, hversion, hready, hl'⟩ :=
    approvePendingPolicy_ok hexec
  obtain rfl := Option.some.inj (h.live.symm.trans hb)
  obtain rfl := Option.some.inj (h.account.symm.trans hstored)
  have hcontent := h.content
  have hsame : a.policy.policyVersion = queued.policyVersion := by
    rw [hversion, hcontent]
    exact hqueued
  have hbound : cosigner = queued.cosignSessionPubkey :=
    hkey.trans (cosignSessionPubkey_of_core (h.drift.core_of_version hsame))
  have hmatured : first.executesAt ≤ env.clock.unixTimestamp := by
    rw [hcontent] at hready
    exact hready
  have hnone : ∀ x ∈ as, ¬ x.Calls Call.isApprove := by
    rcases h.approval with ⟨-, hnone⟩ | ⟨happroved, -⟩
    · exact hnone
    · exact absurd (happroved.symm.trans hfirst) nofun
  subst hbound
  refine ⟨hl' ▸ h.live, hl' ▸ rfl, h.marked, h.drift, ?_, forall_mem_snoc h.unended nofun,
    .inr ⟨rfl, as, env, [], l, l', a, rfl, hrun, hexec, h.live, hsame, hmatured, ?_⟩⟩
  · rw [hcontent]
  · rwa [List.append_nil]

theorem Tracked.step (hrun : Run Step l₂ as l) (h : Tracked l₂ queued first as l a pending)
    (hqueued : first.queuedPolicyVersion = queued.policyVersion) (hstep : Step l x l')
    (hx : ¬ x.Calls Call.isQueue) :
    l'.pendingPolicy = none ∨ ∃ a' pending',
      Tracked l₂ queued first (as ++ [x]) l' a' pending' := by
  cases hstep with
  | foreign tokens others =>
    exact .inr ⟨a, pending, h.snoc h.live rfl h.marked h.drift nofun nofun⟩
  | @call env c _ _ hexec =>
    by_cases hc : c.isRoutine = true
    · obtain ⟨b, b', hb, hb', hkeeps, hpending⟩ := exec_routine hexec hc
      obtain rfl := Option.some.inj (h.live.symm.trans hb)
      obtain ⟨hend, happrove⟩ := Call.spares_pending_of_isRoutine hc
      exact .inr ⟨b', pending, h.snoc hb' hpending (hkeeps.pending.trans h.marked)
        (h.drift.keeps hkeeps) hend happrove⟩
    · cases c <;> try exact absurd rfl hc
      case initializeVault =>
        obtain ⟨hnew, -⟩ := initializeVault_ok hexec
        exact absurd (hnew.symm.trans h.live) nofun
      case closeVault =>
        obtain ⟨b, hb, -, -, -, -, rfl⟩ := closeVault_ok hexec
        obtain rfl := Option.some.inj (h.live.symm.trans hb)
        exact .inl (if_pos h.marked)
      case queuePolicyUpdate => exact absurd rfl hx
      case approvePendingPolicy => exact .inr ⟨a, _, h.approve hrun hqueued hexec⟩
      case cancelPendingPolicy =>
        obtain ⟨b, -, -, rfl⟩ := cancelPendingPolicy_ok hexec
        exact .inl rfl
      case applyPendingPolicy =>
        obtain ⟨b, -, -, -, -, -, -, -, -, -, -, -, -, -, -, rfl⟩ := applyPendingPolicy_ok hexec
        exact .inl rfl
      case acceptOwnershipTransfer =>
        obtain ⟨b, -, version, hb, -, -, hversion, rfl⟩ := acceptOwnershipTransfer_ok hexec
        obtain rfl := Option.some.inj (h.live.symm.trans hb)
        refine .inr ⟨_, pending, h.snoc rfl rfl ?_ (h.drift.handOver hversion) nofun nofun⟩
        rw [← h.marked]
        simp only [VaultAccounts.sealedAt, VaultAccounts.handOver, PolicyConfig.collapseCosigner]
        split <;> rfl

theorem Step.no_pending (hstep : Step l x l') (hx : ¬ x.Calls Call.isQueue)
    (hl : l.pendingPolicy = none) : l'.pendingPolicy = none := by
  cases hstep with
  | foreign => exact hl
  | @call env c _ _ hexec =>
    by_cases hc : c.isRoutine = true
    · obtain ⟨b, b', -, -, -, hpending⟩ := exec_routine hexec hc
      exact hpending.trans hl
    · cases c <;> try exact absurd rfl hc
      case initializeVault =>
        obtain ⟨-, -, -, -, -, -, rfl⟩ := initializeVault_ok hexec
        exact hl
      case closeVault =>
        obtain ⟨b, -, -, -, -, -, rfl⟩ := closeVault_ok hexec
        simp [closedLedger, hl]
      case queuePolicyUpdate => exact absurd rfl hx
      case approvePendingPolicy =>
        obtain ⟨b, stored, -, hstored, -⟩ := approvePendingPolicy_ok hexec
        exact absurd (hl.symm.trans hstored) nofun
      case cancelPendingPolicy =>
        obtain ⟨b, -, -, rfl⟩ := cancelPendingPolicy_ok hexec
        rfl
      case applyPendingPolicy =>
        obtain ⟨b, -, -, -, -, -, -, -, -, -, -, -, -, -, -, rfl⟩ := applyPendingPolicy_ok hexec
        rfl
      case acceptOwnershipTransfer =>
        obtain ⟨b, -, -, -, -, -, -, rfl⟩ := acceptOwnershipTransfer_ok hexec
        exact hl

theorem run_no_pending (hrun : Run Step l as l') (has : ∀ y ∈ as, ¬ y.Calls Call.isQueue)
    (hl : l.pendingPolicy = none) : l'.pendingPolicy = none :=
  hrun.invariant_of (fun _ _ _ hx hm hstep => hstep.no_pending hx hm) has hl

/-- The whole life of a pending account: as long as nothing else is queued it is tracked, until it
is gone for good. -/
theorem run_tracked (hrun : Run Step l₂ as l) (hstart : Tracked l₂ queued first [] l₂ a pending)
    (hqueued : first.queuedPolicyVersion = queued.policyVersion)
    (has : ∀ y ∈ as, ¬ y.Calls Call.isQueue) :
    l.pendingPolicy = none ∨ ∃ a pending, Tracked l₂ queued first as l a pending := by
  refine hrun.induct (P := fun as m => (∀ y ∈ as, ¬ y.Calls Call.isQueue) →
    m.pendingPolicy = none ∨ ∃ a pending, Tracked l₂ queued first as m a pending)
    (fun _ => .inr ⟨a, pending, hstart⟩) ?_ has
  intro as m x m' hrun ih hstep hall
  have hx : ¬ x.Calls Call.isQueue := hall x (by simp)
  rcases ih fun y hy => hall y (List.mem_append_left _ hy) with hnone | ⟨a, pending, htracked⟩
  · exact .inl (hstep.no_pending hx hnone)
  · exact htracked.step hrun hqueued hstep hx

theorem Tracked.start {env : Env} {owner session : Pubkey} {u : PolicyUpdate D} {digest : D}
    (hexec : exec env l (.queuePolicyUpdate owner u session digest) = .ok l') :
    ∃ a bound, l.live = some a ∧ bindPolicyCosigner owner a.policy u session = .ok bound ∧
      liveDigest a.vault (a.policy.merge u) = digest ∧
      let first := newPendingPolicy env.clock a.policy l.vaultKey u bound digest
        (env.clock.unixTimestamp + a.policy.timelockDuration.toNat)
      Tracked l' a.policy first [] l' (a.markPending true) first := by
  obtain ⟨a, bound, ha, -, -, hbound, hdigest, -, rfl⟩ := queuePolicyUpdate_ok hexec
  refine ⟨a, bound, ha, hbound, hdigest, rfl, rfl, rfl, .inl ⟨rfl, le_rfl⟩, rfl, ?_, ?_⟩
  · exact fun _ hx => absurd hx List.not_mem_nil
  · exact .inl ⟨rfl, fun _ hx => absurd hx List.not_mem_nil⟩

end Life

section Sample

def previewAfter (l : Ledger Preimage) (u : PolicyUpdate Preimage) : Preimage :=
  match l.live with
  | some a => liveDigest a.vault (a.policy.merge u)
  | none => Host.zeroDigest

def sampleQueue (l : Ledger Preimage) (u : PolicyUpdate Preimage) (session : Pubkey) :
    Call Preimage :=
  .queuePolicyUpdate (sampleKey 1) u session (previewAfter l u)

theorem calls_sampleQueue (env : Env) (l : Ledger Preimage) (u : PolicyUpdate Preimage)
    (session : Pubkey) : (Action.call env (sampleQueue l u session)).Calls Call.isQueue := rfl

/-- An update that binds a cosigner. -/
def enableCosign : PolicyUpdate Preimage :=
  { PolicyUpdate.none with
    cosignRequired := some true
    cosignSessionPubkey := some (sampleKey 5) }

def raiseCap (cap : UInt64) : PolicyUpdate Preimage :=
  { PolicyUpdate.none with dailySpendingCapUsd := some cap }

/-- The sample vault while the update that binds the cosigner is pending. -/
def enablingLedger : Ledger Preimage :=
  after (sampleEnv 1000 7) sampleLedger
    (sampleQueue sampleLedger enableCosign Pubkey.default)

def cosignedLedger : Ledger Preimage :=
  after (sampleEnv 2800 100) enablingLedger (.applyPendingPolicy (sampleKey 1))

def raisingLedger (cap : UInt64) : Ledger Preimage :=
  after (sampleEnv 3000 110) cosignedLedger
    (sampleQueue cosignedLedger (raiseCap cap) (sampleKey 5))

theorem step_enablingLedger : Step sampleLedger (.call (envAt 1000 7 (by decide))
    (sampleQueue sampleLedger enableCosign Pubkey.default)) enablingLedger :=
  .after (by decide +kernel)

theorem step_cosignedLedger : Step enablingLedger (.call (envAt 2800 100 (by decide))
    (.applyPendingPolicy (sampleKey 1))) cosignedLedger :=
  .after (by decide +kernel)

theorem step_raisingLedger : Step cosignedLedger (.call (envAt 3000 110 (by decide))
    (sampleQueue cosignedLedger (raiseCap 2000) (sampleKey 5))) (raisingLedger 2000) :=
  .after (by decide +kernel)

attribute [irreducible] enablingLedger cosignedLedger raisingLedger

theorem run_raisingLedger : ∃ as, Run Step emptyLedger as (raisingLedger 2000) :=
  ⟨_, (((Run.single step_sampleInitialize).snoc step_enablingLedger).snoc
    step_cosignedLedger).snoc step_raisingLedger⟩

end Sample

end Sigil
