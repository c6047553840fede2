import Sigil.Authority.AgentSet
import Sigil.Cosign.SilentCosigner
import Sigil.Session.Sandwich
import Sigil.System.PendingChanges
import Sigil.System.PolicyOrigin

/-! # How an operator is seated

Four instructions can make an agent an operator. Two of them act at once and need the cosigner.
The other two apply what was queued before, with a delay that was fixed at that time: at least ten
minutes for a grant, unless the cosigner signed it, and at least half an hour for a change of
permissions.
-/

namespace Sigil

open Guard Trace Machine

section Delays

variable {D : Type}

structure PolicyConfig.DelaysBounded (p : PolicyConfig D) : Prop where
  timelock : minTimelockDuration ≤ p.timelockDuration
  grant : p.operatorGrantDelaySeconds ≤ maxOperatorGrantDelay

variable [Host D]

theorem PolicyConfig.DelaysBounded.of_core {p p' : PolicyConfig D} (h : p.DelaysBounded)
    (hcore : p'.core = p.core) : p'.DelaysBounded := by
  have htimelock : p'.timelockDuration = p.timelockDuration := by
    change p'.core.timelockDuration = p.core.timelockDuration
    rw [hcore]
  have hgrant : p'.operatorGrantDelaySeconds = p.operatorGrantDelaySeconds := by
    change p'.core.operatorGrantDelaySeconds = p.core.operatorGrantDelaySeconds
    rw [hcore]
  exact ⟨htimelock ▸ h.timelock, hgrant ▸ h.grant⟩

variable [DecidableEq D] {env : Env} {c : Call D} {l l' : Ledger D}

theorem exec_delaysBounded (h : exec env l c = .ok l')
    (hl : ∀ a ∈ l.live, a.policy.DelaysBounded) : ∀ a' ∈ l'.live, a'.policy.DelaysBounded := by
  intro a' ha'
  cases exec_policyOrigin h ha' with
  | kept ha hcore => exact (hl _ ha).of_core hcore
  | created _ htimelock _ ha' =>
    rw [ha']
    exact ⟨htimelock, (by decide : (0 : UInt64) ≤ maxOperatorGrantDelay)⟩
  | @applied _ a _ merged ha _ _ hmerged hcore =>
    obtain ⟨htimelock, hgrant⟩ := applyUpdate_delays hmerged
    have hbounded : merged.DelaysBounded :=
      ⟨htimelock (hl a ha).timelock, hgrant (hl a ha).grant⟩
    exact hbounded.of_core hcore
  | @handedOver newOwner a _ ha ha' =>
    have hsame : (a.policy.collapseCosigner newOwner).DelaysBounded := by
      unfold PolicyConfig.collapseCosigner
      split
      · exact ⟨(hl a ha).timelock, (hl a ha).grant⟩
      · exact hl a ha
    rw [ha']
    exact hsame.of_core rfl

theorem delaysBounded_of_run {l₀ : Ledger D} {as : List (Action D)} (h₀ : l₀.Genesis)
    (hrun : Run Step l₀ as l) : ∀ a ∈ l.live, a.policy.DelaysBounded :=
  forall_live_of_run hrun h₀ exec_delaysBounded

end Delays

section Seating

variable {D : Type}

def Ledger.Operates (l : Ledger D) (agent : Pubkey) : Prop :=
  ∃ a, l.live = some a ∧ ∃ e ∈ a.vault.agents,
    e.pubkey = agent ∧ e.capability = capabilityOperator

instance (l : Ledger D) (agent : Pubkey) : Decidable (l.Operates agent) :=
  decidable_of_iff (l.live.any (fun a => a.vault.agents.any fun e =>
    e.pubkey = agent ∧ e.capability = capabilityOperator) = true) (by
      simp [Ledger.Operates, Option.any_eq_true])

/-- A cosigner is required, and the bound one has signed. -/
def Call.Cosigned (a : VaultAccounts D) (c : Call D) : Prop :=
  a.policy.cosignRequired = true ∧
    hasBoundCosigner c.remaining a.policy.cosignSessionPubkey = true

variable [Host D] [DecidableEq D]

/-- How an agent may become an operator in a state that a run has reached. -/
inductive Seated (l₀ : Ledger D) (as : List (Action D)) (l : Ledger D) (env : Env) (c : Call D)
    (agent : Pubkey) : Prop
  | waited {envQueue : Env} {cQueue : Call D} {a : VaultAccounts D} {p : PendingAgentGrant D}
      (hqueued : QueuedIn l₀ as l envQueue cQueue a (.grant p)) (hagent : p.agent = agent)
      (happlies : c.Applies l (.grant p))
      (helapsed : envQueue.clock.unixTimestamp + 600 ≤ env.clock.unixTimestamp)
  | changed {envQueue : Env} {cQueue : Call D} {a : VaultAccounts D} {address : Pubkey}
      {p : PendingAgentPermissionsUpdate D}
      (hqueued : QueuedIn l₀ as l envQueue cQueue a (.perms address p)) (hagent : p.agent = agent)
      (happlies : c.Applies l (.perms address p))
      (helapsed : envQueue.clock.unixTimestamp + 1800 ≤ env.clock.unixTimestamp)
  | cosigned {a : VaultAccounts D} (ha : l.live = some a) (hcosigned : c.Cosigned a)
  | cosignedGrant {envQueue : Env} {cQueue : Call D} {a : VaultAccounts D}
      {p : PendingAgentGrant D} (hqueued : QueuedIn l₀ as l envQueue cQueue a (.grant p))
      (hagent : p.agent = agent) (happlies : c.Applies l (.grant p))
      (hcosigned : cQueue.Cosigned a)

variable {env : Env} {c : Call D} {l₀ l l' : Ledger D} {as : List (Action D)}
  {a : VaultAccounts D} {agent : Pubkey}

theorem grant_waited {s : Ledger D} {before : List (Action D)} {p : PendingAgentGrant D}
    (h₀ : l₀.Genesis) (hbefore : Run Step l₀ before s) (hrun : Run Step s as l)
    (hnone : ¬ s.Holds (.grant p)) (hp : l.pendingGrant = some p) (hready : GrantReady env a p) :
    ∃ envQueue cQueue b, QueuedIn s as l envQueue cQueue b (.grant p) ∧
      (envQueue.clock.unixTimestamp + 600 ≤ env.clock.unixTimestamp ∨ cQueue.Cosigned b) := by
  obtain ⟨front, envQueue, cQueue, back, m, m', hsplit, hfront, -, hexec, hqueues, hheld, hback⟩ :=
    run_queues hrun hnone hp
  cases cQueue <;> try exact hqueues.elim
  case queueAgentGrant owner remaining agent capability limit =>
    obtain ⟨b, pending, hb, howner, hgate, hqueued, rfl⟩ := queueAgentGrant_ok hexec
    cases hheld
    refine ⟨envQueue, .queueAgentGrant owner remaining agent capability limit, b,
      ⟨⟨front, back, m, _, hsplit, hfront, hb, hexec, hback⟩, howner.symm, hqueues⟩, ?_⟩
    have hreach := hbefore.append hfront
    have hsingle := ownerType_ne_multisig h₀ hreach hb
    rcases VaultAccounts.operatorGrantTier_of_single hsingle with htier | ⟨-, hreq, -⟩
    · have hfloor := le_castI64_effectiveOperatorGrantDelay
        (delaysBounded_of_run h₀ hreach b hb).grant
      have helapsed := hready.elapsed
      rw [hqueued.delay, htier, hqueued.queuedAt] at helapsed
      exact .inl (by linarith)
    · exact .inr ⟨hreq, hgate hreq⟩

theorem perms_waited {s : Ledger D} {before : List (Action D)} {address : Pubkey}
    {p : PendingAgentPermissionsUpdate D} (h₀ : l₀.Genesis) (hbefore : Run Step l₀ before s)
    (hrun : Run Step s as l) (hnone : ¬ s.Holds (.perms address p))
    (hready : PermsReady env l address p) :
    ∃ envQueue cQueue b, QueuedIn s as l envQueue cQueue b (.perms address p) ∧
      envQueue.clock.unixTimestamp + 1800 ≤ env.clock.unixTimestamp := by
  obtain ⟨front, envQueue, cQueue, back, m, m', hsplit, hfront, hnot, hexec, hqueues, hheld,
    hback⟩ := run_queues hrun hnone hready.found
  cases cQueue <;> try exact hqueues.elim
  case queueAgentPermissionsUpdate owner remaining agent capability limit cooldown session =>
    obtain ⟨b, pending, hb, howner, -, hqueued, hm'⟩ := queueAgentPermissionsUpdate_ok hexec
    refine ⟨_, _, b, ⟨⟨front, back, m, m', hsplit, hfront, hb, hexec, hback⟩, howner.symm, hqueues⟩,
      ?_⟩
    have hstored : p = pending := by
      rw [hm'] at hheld
      simp only [Ledger.Holds, Function.update_apply] at hheld
      split at hheld
      · exact (Option.some.inj hheld).symm
      · exact absurd hheld hnot
    have hfloor : 1800 ≤ b.policy.timelockDuration.toNat :=
      UInt64.le_iff_toNat_le.mp (delaysBounded_of_run h₀ (hbefore.append hfront) b hb).timelock
    have helapsed := hready.elapsed
    rw [hstored, hqueued.executesAt] at helapsed
    omega

theorem Seated.grant {p : PendingAgentGrant D} (h₀ : l₀.Genesis) (hrun : Run Step l₀ as l)
    (hp : l.pendingGrant = some p) (hready : GrantReady env a p)
    (happlies : c.Applies l (.grant p)) : Seated l₀ as l env c p.agent := by
  have hnone : ¬ l₀.Holds (.grant p) := fun h => nomatch h₀.pendingGrant.symm.trans h
  obtain ⟨envQueue, cQueue, b, hqueued, helapsed | hcosigned⟩ :=
    grant_waited h₀ (.nil l₀) hrun hnone hp hready
  · exact .waited hqueued rfl happlies helapsed
  · exact .cosignedGrant hqueued rfl happlies hcosigned

theorem Seated.perms {p : PendingAgentPermissionsUpdate D} {address : Pubkey} (h₀ : l₀.Genesis)
    (hrun : Run Step l₀ as l) (hready : PermsReady env l address p)
    (happlies : c.Applies l (.perms address p)) : Seated l₀ as l env c p.agent := by
  have hnone : ¬ l₀.Holds (.perms address p) := fun h =>
    nomatch (h₀.pendingPerms address).symm.trans h
  obtain ⟨envQueue, cQueue, b, hqueued, helapsed⟩ := perms_waited h₀ (.nil l₀) hrun hnone hready
  exact .changed hqueued rfl happlies helapsed

/-- An agent becomes an operator only after a grant for it has waited ten minutes, or a change of
its permissions half an hour, or with a cosigner that is required and signs the instruction or the
queueing of the grant that it applies. -/
theorem operator_seated_late_or_cosigned {x : Action D} (h₀ : l₀.Genesis) (hrun : Run Step l₀ as l)
    (hstep : Step l x l') (hnot : ¬ l.Operates agent) (hseated : l'.Operates agent) :
    ∃ env c, x = .call env c ∧ Seated l₀ as l env c agent := by
  cases hstep with
  | foreign => exact absurd hseated hnot
  | @call env c _ _ hexec =>
    refine ⟨env, c, rfl, ?_⟩
    obtain ⟨a', ha', e, he, rfl, hoperator⟩ := hseated
    obtain ⟨a, ha, horigin⟩ := exec_origin hexec ha' he
    have hcapped : a.vault.Capped := forall_live_of_run hrun h₀ exec_capped a ha
    have hsingle := ownerType_ne_multisig h₀ hrun ha
    have hle : capabilityOperator ≤ e.capability := hoperator ▸ UInt8.le_refl _
    cases horigin with
    | @kept _ e _ hold hkey hcapability =>
      refine absurd ⟨a, ha, e, hold, hkey.symm, ?_⟩ hnot
      exact UInt8.le_antisymm (hcapped e hold) (hoperator ▸ hcapability)
    | unpaused hfound =>
      exact absurd ⟨a, ha, _, List.mem_of_find?_eq_some hfound, rfl, hoperator⟩ hnot
    | registered _ hgate =>
      rw [VaultAccounts.registrationGate, if_pos hle] at hgate
      exact .cosigned ha (VaultAccounts.instantOperatorGate_cosigned hgate hsingle)
    | grafted _ hgate =>
      exact .cosigned ha (VaultAccounts.instantOperatorGate_cosigned (hgate hle) hsingle)
    | granted hp hready => exact .grant h₀ hrun hp hready hp
    | changed hready hfound =>
      rw [AgentVault.pubkey_of_getAgent hfound]
      exact .perms h₀ hrun hready ⟨rfl, hready.found⟩

end Seating

section Sample

theorem operator_seated_late_or_cosigned_grant :
    ∃ as, Seated emptyLedger as (withGrant sampleLedger) (envAt 1600 20 (by decide))
      (.applyAgentGrant (sampleKey 1) []) (sampleKey 9) := by
  obtain ⟨as, hrun⟩ := run_withGrant
  have hseat : Step (withGrant sampleLedger) (.call (envAt 1600 20 (by decide))
      (.applyAgentGrant (sampleKey 1) [])) operatedLedger :=
    .call exec_operatedLedger
  have hnow : operatedLedger.Operates (sampleKey 9) := by decide +kernel
  obtain ⟨env, c, hcall, hseated⟩ := operator_seated_late_or_cosigned genesis_emptyLedger hrun hseat
    (by decide +kernel) hnow
  obtain ⟨rfl, rfl⟩ := Action.call.inj hcall
  exact ⟨as, hseated⟩

end Sample

end Sigil
