import Sigil.Cosign.GuardOrder
import Sigil.Cosign.PendingUpdate

/-! # From queue to apply

Whatever instructions run in between, an update that is applied is the one whose outcome the owner
signed for when it was queued, and it waited, was approved and was classified as it should.
-/

namespace Sigil

open Guard Trace

section Guards

variable {D : Type} [Host D] {p p' q : PolicyConfig D} {u : PolicyUpdate D}

theorem Drifted.uncosigned (h : Drifted p p') : p'.uncosigned = p.uncosigned := by
  rcases h with ⟨hcore, -⟩ | ⟨hcore, -⟩
  · exact uncosigned_of_core hcore
  · exact uncosigned_of_uncosigned hcore

theorem merge_lists_of_uncosigned (h : p'.uncosigned = p.uncosigned) :
    (p'.merge u).protocols = (p.merge u).protocols ∧
      (p'.merge u).allowedDestinations = (p.merge u).allowedDestinations ∧
      (p'.merge u).protocolCaps = (p.merge u).protocolCaps ∧
      (p'.merge u).protocolHashes = (p.merge u).protocolHashes := by
  change (p'.uncosigned.merge u).protocols = (p.uncosigned.merge u).protocols ∧
    (p'.uncosigned.merge u).allowedDestinations = (p.uncosigned.merge u).allowedDestinations ∧
    (p'.uncosigned.merge u).protocolCaps = (p.uncosigned.merge u).protocolCaps ∧
    (p'.uncosigned.merge u).protocolHashes = (p.uncosigned.merge u).protocolHashes
  rw [h]
  exact ⟨rfl, rfl, rfl, rfl⟩

omit [Host D] in
theorem lengths_of_serializedSize (h : p.serializedSize ≤ PolicyConfig.size) :
    p.protocols.length < 2 ^ 32 ∧ p.allowedDestinations.length < 2 ^ 32 ∧
      p.protocolCaps.length < 2 ^ 32 := by
  unfold PolicyConfig.serializedSize PolicyConfig.size at h
  omega

theorem isElevated_of_core [DecidableEq D] (h : p'.core = p.core) :
    p'.isElevated u = p.isElevated u := by
  change p'.core.isElevated u = p.core.isElevated u
  rw [h]

theorem PolicyConfig.NoWeaker.of_core (hw : NoWeaker p q) (h : p'.core = p.core) :
    NoWeaker p' q := by
  have hcore : NoWeaker p.core q :=
    ⟨hw.dailyCap, hw.maxTransaction, hw.destinations, hw.protocols, hw.floor, hw.slippage,
      hw.developerFee, hw.operatingHours, hw.perRecipient, hw.protocolCaps, hw.buildHashes,
      hw.cosignRequired, hw.cosigner⟩
  rw [← h] at hcore
  exact ⟨hcore.dailyCap, hcore.maxTransaction, hcore.destinations, hcore.protocols, hcore.floor,
    hcore.slippage, hcore.developerFee, hcore.operatingHours, hcore.perRecipient,
    hcore.protocolCaps, hcore.buildHashes, hcore.cosignRequired, hcore.cosigner⟩

/-- Two merges with one digest have the same fields, when the policies differ in nothing but the
cosigner. -/
theorem previewFields_merge_of_digest [IdealHost D] {v v' : AgentVault}
    (hpolicy : p'.uncosigned = p.uncosigned)
    (hfits : (p'.merge u).protocols.length < 2 ^ 32 ∧
      (p'.merge u).allowedDestinations.length < 2 ^ 32 ∧ (p'.merge u).protocolCaps.length < 2 ^ 32)
    (hdigest : liveDigest v' (p'.merge u) = liveDigest v (p.merge u)) :
    previewFields v' (p'.merge u) = previewFields v (p.merge u) := by
  obtain ⟨hprotocols, hdestinations, hcaps, hhashes⟩ := merge_lists_of_uncosigned hpolicy (u := u)
  obtain ⟨hfields, -⟩ := computePolicyPreviewDigest_inj hfits
    (by rw [hprotocols, hdestinations, hcaps] at hfits; exact hfits) hdigest
  rw [← hfields]
  change _ = { previewFields v' (p'.merge u) with
    protocolHashes := List.ofFn (p.merge u).protocolHashes }
  rw [← hhashes]
  rfl

end Guards

section Integrity

variable {D : Type} [Host D] [DecidableEq D]

/-- How the policy `applied` came out of `live` by an update that was queued on `queued`: `rest` are
the actions between the two instructions and `l₂` is the ledger after the first. -/
structure AppliedFrom (l₂ : Ledger D) (rest : List (Action D)) (envQueue envApply : Env)
    (u : PolicyUpdate D) (digest : D) (queued live applied : VaultAccounts D) : Prop where
  fields : previewFields applied.vault applied.policy =
    previewFields queued.vault (queued.policy.merge u)
  digest : computePolicyPreviewDigest (previewFields queued.vault (queued.policy.merge u)) = digest
  matured : envQueue.clock.unixTimestamp + queued.policy.timelockDuration.toNat ≤
    envApply.clock.unixTimestamp
  approved : queued.policy.isElevated u = true →
    Approval l₂ queued.policy
      (envQueue.clock.unixTimestamp + queued.policy.timelockDuration.toNat) rest ∧
    live.policy.policyVersion = queued.policy.policyVersion
  untouched : ∀ x ∈ rest, ¬ x.Calls Call.isQueue ∧ ¬ x.Calls Call.endsPending
  elevated : live.policy.cosignRequired = true →
    ¬ PolicyConfig.NoWeaker applied.policy live.policy → queued.policy.isElevated u = true

variable {l₀ l₁ l₂ l l' : Ledger D} {env envQueue : Env} {owner session : Pubkey}
  {u : PolicyUpdate D} {digest : D} {as rest : List (Action D)}

theorem appliedFrom_of_run [IdealHost D]
    (hqueue : exec envQueue l₁ (.queuePolicyUpdate owner u session digest) = .ok l₂)
    (hrun : Run Step l₂ rest l) (hrest : ∀ x ∈ rest, ¬ x.Calls Call.isQueue) {ownerApply : Pubkey}
    (happly : exec env l (.applyPendingPolicy ownerApply) = .ok l') :
    ∃ queued live applied, l₁.live = some queued ∧ l.live = some live ∧
      l'.live = some applied ∧ AppliedFrom l₂ rest envQueue env u digest queued live applied := by
  obtain ⟨queued, bound, hqueued, hbound, hdigest, hstart⟩ := Tracked.start hqueue
  obtain ⟨live, pending, merged, applied, version, hlive, -, haccount, hready, hcosign, hmerge,
    hnew, -, happlied, hfits, rfl⟩ := applyPendingPolicy_ok happly
  obtain ⟨live', pending', ht⟩ : ∃ live' pending',
      Tracked l₂ queued.policy _ rest l live' pending' :=
    (run_tracked hrun hstart rfl hrest).resolve_left fun hnone =>
      absurd (hnone.symm.trans haccount) nofun
  cases hlive.symm.trans ht.live
  cases haccount.symm.trans ht.account
  have hcontent := ht.content
  have hu : pending.update = u := by rw [hcontent]; rfl
  obtain ⟨graylist, -, rfl, -⟩ := applyUpdate_ok hmerge
  rw [hu] at hnew happlied
  have hsame : liveDigest live.vault (live.policy.merge u) =
      liveDigest queued.vault (queued.policy.merge u) := by
    refine Eq.trans hnew (Eq.trans ?_ hdigest.symm)
    rw [hcontent]
    rfl
  have hcore : applied.core = (live.policy.merge u).core := by rw [happlied]; rfl
  refine ⟨queued, live, _, hqueued, hlive, rfl, ?_, hdigest, ?_, ?_, ?_, ?_⟩
  · have hlengths := lengths_of_serializedSize hfits
    rw [happlied] at hlengths ⊢
    exact previewFields_merge_of_digest ht.drift.uncosigned hlengths hsame
  · rw [hcontent] at hready
    exact hready
  · intro helevated
    rcases bindPolicyCosigner_ok hbound with ⟨-, hkey, rfl⟩ | ⟨hnot, -⟩
    · have hneeds : ¬ pending.noCosign := by
        rw [hcontent]
        exact fun hno => hkey hno.2
      obtain ⟨hyes, hversion⟩ := hcosign hneeds
      rcases ht.approval with ⟨hno, -⟩ | ⟨-, happroval⟩
      · exact absurd (hyes.symm.trans hno) nofun
      · refine ⟨happroval, hversion.trans ?_⟩
        rw [hcontent]
        rfl
    · exact absurd (helevated.symm.trans hnot) nofun
  · exact fun x hx => ⟨hrest x hx, ht.unended x hx⟩
  · intro hreq hweaker
    by_contra hnot
    have hguards := ht.drift.core_of_cosigned hreq
    refine hweaker (PolicyConfig.NoWeaker.of_core (PolicyConfig.noWeaker_merge hreq ?_) hcore)
    rw [isElevated_of_core hguards]
    exact Bool.eq_false_iff.mpr hnot

/-- Whenever `apply_pending_policy` succeeds, the pending account goes back to one
`queue_policy_update`, untouched since but for its approval, and the result is the policy whose
digest the owner supplied there. After that nothing can be applied until another update is
queued. -/
theorem apply_pending_policy_integrity [IdealHost D] (h₀ : l₀.pendingPolicy = none)
    (hrun : Run Step l₀ as l) (happly : exec env l (.applyPendingPolicy owner) = .ok l') :
    (∃ front envQueue ownerQueue u session digest rest l₁ l₂ queued live applied,
      as = front ++ .call envQueue (.queuePolicyUpdate ownerQueue u session digest) :: rest ∧
      Run Step l₀ front l₁ ∧
      exec envQueue l₁ (.queuePolicyUpdate ownerQueue u session digest) = .ok l₂ ∧
      Run Step l₂ rest l ∧ l₁.live = some queued ∧ l.live = some live ∧
      l'.live = some applied ∧ AppliedFrom l₂ rest envQueue env u digest queued live applied) ∧
    ∀ bs l'' env' owner' r, Run Step l' bs l'' → (∀ x ∈ bs, ¬ x.Calls Call.isQueue) →
      exec env' l'' (.applyPendingPolicy owner') ≠ .ok r := by
  constructor
  · have hqueued : ∃ x ∈ as, x.Calls Call.isQueue := by
      by_contra hnone
      push Not at hnone
      obtain ⟨_, _, _, _, _, _, _, hpending, -⟩ := applyPendingPolicy_ok happly
      exact absurd ((run_no_pending hrun hnone h₀).symm.trans hpending) nofun
    obtain ⟨front, x, rest, rfl, hx, hrest⟩ := exists_last_split hqueued
    obtain ⟨l₁, hfront, hcons⟩ := hrun.append_inv
    obtain ⟨l₂, hstep, hrest'⟩ := hcons.cons_inv
    cases hstep with
    | foreign => exact absurd hx nofun
    | @call envQueue c _ _ hexec =>
      cases c <;> try exact absurd hx Bool.false_ne_true
      case queuePolicyUpdate ownerQueue u session digest =>
        obtain ⟨queued, live, applied, hq, hl, ha, hfrom⟩ :=
          appliedFrom_of_run hexec hrest' hrest happly
        exact ⟨front, envQueue, ownerQueue, u, session, digest, rest, l₁, l₂, queued, live,
          applied, rfl, hfront, hexec, hrest', hq, hl, ha, hfrom⟩
  · intro bs l'' env' owner' r hbs hno hagain
    obtain ⟨_, _, _, _, _, _, _, -, -, -, -, -, -, -, -, rfl⟩ := applyPendingPolicy_ok happly
    obtain ⟨_, _, _, _, _, _, _, hpending, -⟩ := applyPendingPolicy_ok hagain
    exact absurd ((run_no_pending hbs hno rfl).symm.trans hpending) nofun

def approvedLedger : Ledger Preimage :=
  after (sampleEnv 4800 200) (raisingLedger 2000) (.approvePendingPolicy (sampleKey 5))

theorem apply_pending_policy_integrity_raiseCap :
    ∃ (l' l₂ : Ledger Preimage) (rest : List (Action Preimage)) (envQueue : Env)
      (u : PolicyUpdate Preimage) (digest : Preimage)
      (queued live applied : VaultAccounts Preimage),
      exec (envAt 4800 201 (by decide)) approvedLedger (.applyPendingPolicy (sampleKey 1)) =
        .ok l' ∧
      AppliedFrom l₂ rest envQueue (envAt 4800 201 (by decide)) u digest queued live applied := by
  have happly : exec (envAt 4800 201 (by decide)) approvedLedger
      (.applyPendingPolicy (sampleKey 1)) = .ok (after (envAt 4800 201 (by decide)) approvedLedger
        (.applyPendingPolicy (sampleKey 1))) := exec_after (by decide +kernel)
  obtain ⟨as, hrun⟩ := run_raisingLedger
  have happrove : Step (raisingLedger 2000) (.call (envAt 4800 200 (by decide))
      (.approvePendingPolicy (sampleKey 5))) approvedLedger := .after (by decide +kernel)
  obtain ⟨⟨_, envQueue, _, u, _, digest, rest, _, l₂, queued, live, applied, -, -, -, -, -, -, -,
    hfrom⟩, -⟩ := apply_pending_policy_integrity rfl (hrun.snoc happrove) happly
  exact ⟨_, l₂, rest, envQueue, u, digest, queued, live, applied, happly, hfrom⟩

end Integrity

end Sigil
