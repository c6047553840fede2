import Sigil.Authority.Signers
import Sigil.Spending.CappedRuns

/-! # What the keys of agents can do

A run in which neither the owner nor a party to a pending transfer of the vault signs anything. Its
agents may sign what they want, in any order, and so may anyone else. The rules of the vault stay
what they were, and what is spent stays within the caps and the limits that the owner has set.
-/

namespace Sigil

open Machine Guard EpochHistory Trace

section Authority

variable {D : Type}

def AgentEntry.rights (e : AgentEntry) : Pubkey × UInt8 × UInt64 × Bool :=
  (e.pubkey, e.capability, e.spendingLimitUsd, e.paused)

/-- The same pending update, or the same with the approval that it lacked. -/
def PendingPolicyUpdate.UpToApproval (p p' : PendingPolicyUpdate D) : Prop :=
  p' = p ∨ p.isElevated ∧ p.cosignApproved = false ∧
    ∃ slot, p' = { p with cosignApproved := true, approvedAtSlot := slot }

theorem PendingPolicyUpdate.UpToApproval.trans {p q r : PendingPolicyUpdate D}
    (h : p.UpToApproval q) (h' : q.UpToApproval r) : p.UpToApproval r := by
  rcases h with rfl | ⟨helevated, hopen, slot, rfl⟩
  · exact h'
  · -- there is no second approval
    rcases h' with rfl | ⟨-, htwice, -⟩
    · exact .inr ⟨helevated, hopen, slot, rfl⟩
    · cases htwice

/-- The rules of a vault and the changes to them that are pending, up to an approval. -/
structure SameAuthority (l l' : Ledger D) (a a' : VaultAccounts D) : Prop where
  policy : a'.policy = a.policy
  owner : a'.vault.owner = a.vault.owner
  ownerType : a'.vault.ownerType = a.vault.ownerType
  status : a'.vault.status = a.vault.status
  observeOnly : a'.vault.observeOnly = a.vault.observeOnly
  feeDestination : a'.vault.feeDestination = a.vault.feeDestination
  agents : a'.vault.agents.map AgentEntry.rights = a.vault.agents.map AgentEntry.rights
  pendingPolicy : Option.Rel PendingPolicyUpdate.UpToApproval l.pendingPolicy l'.pendingPolicy
  pendingOwner : l'.pendingOwner = l.pendingOwner
  pendingGrant : l'.pendingGrant = l.pendingGrant
  pendingPerms : l'.pendingPerms = l.pendingPerms
  postAssertions : l'.postAssertions = l.postAssertions

variable {l l' m : Ledger D} {a a' b : VaultAccounts D}

theorem upToApproval_refl (pending : Option (PendingPolicyUpdate D)) :
    Option.Rel PendingPolicyUpdate.UpToApproval pending pending := by
  cases pending with
  | none => exact .none
  | some p => exact .some (.inl rfl)

theorem upToApproval_trans {x y z : Option (PendingPolicyUpdate D)}
    (h : Option.Rel PendingPolicyUpdate.UpToApproval x y)
    (h' : Option.Rel PendingPolicyUpdate.UpToApproval y z) :
    Option.Rel PendingPolicyUpdate.UpToApproval x z := by
  cases h with
  | none => exact h'
  | some h =>
    cases h' with
    | some h' => exact .some (h.trans h')

theorem SameAuthority.refl (l : Ledger D) (a : VaultAccounts D) : SameAuthority l l a a :=
  ⟨rfl, rfl, rfl, rfl, rfl, rfl, rfl, upToApproval_refl _, rfl, rfl, rfl, rfl⟩

theorem SameAuthority.trans (h : SameAuthority l l' a a') (h' : SameAuthority l' m a' b) :
    SameAuthority l m a b where
  policy := h'.policy.trans h.policy
  owner := h'.owner.trans h.owner
  ownerType := h'.ownerType.trans h.ownerType
  status := h'.status.trans h.status
  observeOnly := h'.observeOnly.trans h.observeOnly
  feeDestination := h'.feeDestination.trans h.feeDestination
  agents := h'.agents.trans h.agents
  pendingPolicy := upToApproval_trans h.pendingPolicy h'.pendingPolicy
  pendingOwner := h'.pendingOwner.trans h.pendingOwner
  pendingGrant := h'.pendingGrant.trans h.pendingGrant
  pendingPerms := h'.pendingPerms.trans h.pendingPerms
  postAssertions := h'.postAssertions.trans h.postAssertions

theorem map_rights_updateAgent {v : AgentVault} {agent : Pubkey} {f : AgentEntry → AgentEntry}
    (hf : ∀ e, (f e).rights = e.rights) :
    (v.updateAgent agent f).agents.map AgentEntry.rights = v.agents.map AgentEntry.rights :=
  FirstMatch.map_modifyFirst AgentEntry.pubkey fun e _ => hf e

theorem SameAuthority.limit_eq (h : SameAuthority l l' a a') (agent : Pubkey) :
    (a'.vault.getAgent agent).map AgentEntry.spendingLimitUsd =
      (a.vault.getAgent agent).map AgentEntry.spendingLimitUsd := by
  have hfind : ∀ v : AgentVault, (v.getAgent agent).map AgentEntry.spendingLimitUsd =
      ((v.agents.map AgentEntry.rights).find? fun r => r.1 = agent).map fun r => r.2.2.1 := by
    intro v
    rw [List.find?_map, Option.map_map]
    rfl
  rw [hfind, hfind, h.agents]

/-- Neither the owner nor a party to a pending transfer signs the instruction. -/
def Call.FromOutside (l : Ledger D) (c : Call D) : Prop :=
  (∀ a ∈ l.live, c.signer ≠ a.vault.owner) ∧
    ∀ pending ∈ l.pendingOwner, c.signer ≠ pending.newOwner ∧ c.signer ≠ pending.currentOwner

variable [Host D] [DecidableEq D] {env : Env} {c : Call D}

theorem exec_outside (h : exec env l c = .ok l') (ha : l.live = some a) (hc : c.FromOutside l) :
    ∃ a', l'.live = some a' ∧ SameAuthority l l' a a' := by
  cases exec_authorized h ha with
  | owner hsigner => exact absurd hsigner (hc.1 a ha)
  | newOwner hpending hkey => exact absurd hkey.symm (hc.2 _ hpending).1
  | initiator hpending hkey => exact absurd hkey.symm (hc.2 _ hpending).2
  | cosigner =>
    obtain ⟨b, pending, hb, hpending, helevated, -, hopen, -, -, rfl⟩ := approvePendingPolicy_ok h
    refine ⟨a, ha, rfl, rfl, rfl, rfl, rfl, rfl, rfl, ?_, rfl, rfl, rfl, rfl⟩
    rw [hpending]
    exact .some (.inr ⟨helevated, hopen, env.clock.slot, rfl⟩)
  | spender =>
    obtain ⟨b, overlay, tracker, transactions, volume, fees, tokens, hb, rfl⟩ :=
      agentTransfer_effect h
    cases ha.symm.trans hb
    exact ⟨_, rfl, rfl, rfl, rfl, rfl, rfl, rfl, rfl, upToApproval_refl _, rfl, rfl, rfl, rfl⟩
  | opener =>
    obtain ⟨b, vaultToken, pins, snapshots, tokens, ho⟩ := validateAndAuthorize_ok h
    cases ha.symm.trans ho.live
    obtain rfl := ho.result
    exact ⟨_, rfl, rfl, rfl, rfl, rfl, rfl, rfl, map_rights_updateAgent fun _ => rfl,
      upToApproval_refl _, rfl, rfl, rfl, rfl⟩
  | closer =>
    obtain ⟨b, overlay, tracker, transactions, volume, fees, failed, count, tokens, hb, rfl⟩ :=
      finalizeSession_effect h
    cases ha.symm.trans hb
    exact ⟨_, rfl, rfl, rfl, rfl, rfl, rfl, rfl, rfl, upToApproval_refl _, rfl, rfl, rfl, rfl⟩

theorem not_freesSlot_of_outside (h : exec env l c = .ok l') (ha : l.live = some a)
    (hc : c.FromOutside l) (agent : Pubkey) : ¬ c.FreesSlot l agent := by
  intro hfrees
  cases exec_authorized h ha with
  | owner hsigner => exact hc.1 a ha hsigner
  | _ => exact hfrees

end Authority

section Run

variable {D : Type} [Host D]

/-- A spend that was held against the caps and the limits of a state. -/
structure Spend.HeldBy (a : VaultAccounts D) (p : Spend) : Prop where
  dailyCap : p.dailyCap = a.policy.dailySpendingCapUsd
  recipientCap : p.recipientCap = a.policy.perRecipientDailyCapUsd
  protocolCap : p.protocolCap = (p.protocol.bind a.policy.getProtocolCap).getD 0
  agentLimit : (a.vault.getAgent p.agent).map AgentEntry.spendingLimitUsd = some p.agentLimit

variable [DecidableEq D]

def OutsideStep (s : Ledger D × List Spend) (x : Action D) (s' : Ledger D × List Spend) : Prop :=
  BookedStep s x s' ∧ ∀ env c, x = .call env c → c.FromOutside s.1

variable {l₀ l l' m : Ledger D} {a a' : VaultAccounts D} {env : Env} {c : Call D} {p : Spend}
  {as bs : List (Action D)} {h spends : List Spend}

omit [DecidableEq D] in
theorem spendOf_eq (hp : l.spendOf env c = some p) (ha : l.live = some a) :
    ∃ agent amount protocol recipient paid,
      p = a.spend env.clock agent amount protocol recipient paid := by
  cases c with
  | agentTransfer args =>
    simp only [Ledger.spendOf, ha, Option.bind_eq_bind, Option.bind_some, Option.bind_eq_some_iff,
      Option.pure_def, Option.some.injEq] at hp
    obtain ⟨source, -, destination, -, decimals, -, amount, -, rfl⟩ := hp
    exact ⟨_, _, _, _, _, rfl⟩
  | finalizeSession args =>
    simp only [Ledger.spendOf, ha, Option.bind_eq_bind, Option.bind_some, Option.bind_eq_some_iff,
      Option.pure_def, Option.some.injEq] at hp
    obtain ⟨s, -, outcome, -, amount, -, rfl⟩ := hp
    exact ⟨_, _, _, _, _, rfl⟩
  | _ => cases hp

theorem heldBy_of_exec (hexec : exec env l c = .ok l') (ha : l.live = some a)
    (ha' : l'.live = some a') (hp : l.spendOf env c = some p) : p.HeldBy a := by
  rcases exec_booked hexec ha ha' with ⟨q, hq, hb⟩ | ⟨hnone, -⟩
  · cases hp.symm.trans hq
    obtain ⟨entry, hentry, hlimit⟩ := hb.agentLimit
    obtain ⟨agent, amount, protocol, recipient, paid, hread⟩ := spendOf_eq hp ha
    refine ⟨hb.dailyCap, by rw [hread]; rfl, by rw [hread]; rfl, ?_⟩
    rw [hentry, Option.map_some, hlimit]
  · cases hp.symm.trans hnone

theorem outside_run (ha : l.live = some a) (hout : Run OutsideStep (l, []) bs (m, spends)) :
    ∃ b, m.live = some b ∧ SameAuthority l m a b ∧ ∀ p ∈ spends, p.HeldBy a := by
  refine hout.invariant (P := fun (s : Ledger D × List Spend) => ∃ b, s.1.live = some b ∧
    SameAuthority l s.1 a b ∧ ∀ p ∈ s.2, p.HeldBy a) ?_ ⟨a, ha, .refl l a, by simp⟩
  rintro ⟨m, h⟩ x ⟨m', h'⟩ ⟨b, hb, hsame, hheld⟩ ⟨⟨hstep, rfl⟩, hfrom⟩
  cases hstep with
  | foreign => exact ⟨b, hb, ⟨hsame.policy, hsame.owner, hsame.ownerType, hsame.status,
      hsame.observeOnly, hsame.feeDestination, hsame.agents, hsame.pendingPolicy,
      hsame.pendingOwner, hsame.pendingGrant, hsame.pendingPerms, hsame.postAssertions⟩, hheld⟩
  | @call env c _ _ hexec =>
    obtain ⟨b', hb', hkept⟩ := exec_outside hexec hb (hfrom env c rfl)
    refine ⟨b', hb', hsame.trans hkept, fun p hp => ?_⟩
    change p ∈ Action.book m h (.call env c) at hp
    rw [book_of_live hexec hb] at hp
    rcases List.mem_append.mp hp with hnew | hold
    · obtain ⟨hdaily, hrecipient, hprotocol, hlimit⟩ :=
        heldBy_of_exec hexec hb hb' (Option.mem_toList.mp hnew)
      rw [hsame.policy] at hdaily hrecipient hprotocol
      rw [hsame.limit_eq] at hlimit
      exact ⟨hdaily, hrecipient, hprotocol, hlimit⟩
    · exact hheld p hold

omit [Host D] [DecidableEq D] in
theorem SameAuthority.fromOutside {b : VaultAccounts D} (hsame : SameAuthority l m a b)
    (ha : l.live = some a) (hb : m.live = some b) (hc : c.FromOutside l) : c.FromOutside m := by
  refine ⟨fun b' hb' => ?_, ?_⟩
  · cases hb.symm.trans hb'
    rw [hsame.owner]
    exact hc.1 a ha
  · rw [hsame.pendingOwner]
    exact hc.2

/-- It is enough to know the signers for the state at the start. -/
theorem outside_of_signers (ha : l.live = some a)
    (hbooked : Run BookedStep (l, []) bs (m, spends))
    (hsigners : ∀ env c, Action.call env c ∈ bs → c.FromOutside l) :
    Run OutsideStep (l, []) bs (m, spends) := by
  refine hbooked.induct (P := fun bs s => (∀ env c, Action.call env c ∈ bs → c.FromOutside l) →
    Run OutsideStep (l, []) bs s) (fun _ => .nil _) ?_ hsigners
  rintro bs ⟨m, h₁⟩ x ⟨m', h₁'⟩ - ih hstep hsigners
  have hprior := ih fun env c hc => hsigners env c (List.mem_append_left _ hc)
  obtain ⟨b, hb, hsame, -⟩ := outside_run ha hprior
  refine hprior.snoc ⟨hstep, ?_⟩
  rintro env c rfl
  exact hsame.fromOutside ha hb (hsigners env c (List.mem_append_right _ List.mem_cons_self))

theorem booked_of_outside (ha : l.live = some a) (hout : Run OutsideStep (l, []) bs (m, spends))
    (h : List Spend) : Run BookedStep (l, h) bs (m, spends ++ h) := by
  refine hout.induct (P := fun bs (s : Ledger D × List Spend) =>
    Run BookedStep (l, h) bs (s.1, s.2 ++ h)) (.nil _) ?_
  rintro bs ⟨m, h₁⟩ x ⟨m', h₁'⟩ hprior ih ⟨⟨hstep, rfl⟩, hfrom⟩
  refine ih.snoc ⟨hstep, ?_⟩
  cases hstep with
  | foreign => rfl
  | @call env c _ _ hexec =>
    obtain ⟨b, hb, -⟩ := outside_run ha hprior
    change Action.book m h₁ (.call env c) ++ h = Action.book m (h₁ ++ h) (.call env c)
    rw [book_of_live hexec hb, book_of_live hexec hb, List.append_assoc]

theorem seated_of_outside (ha : l.live = some a) (hout : Run OutsideStep (l, []) bs (m, spends))
    (agent : Pubkey) : Run (SeatedStep agent) (l, []) bs (m, spends) := by
  refine hout.induct (P := fun bs s => Run (SeatedStep agent) (l, []) bs s) (.nil _) ?_
  rintro bs ⟨m, h₁⟩ x ⟨m', h₁'⟩ hprior ih ⟨⟨hstep, hbook⟩, hfrom⟩
  refine ih.snoc ⟨⟨hstep, hbook⟩, ?_⟩
  cases hstep with
  | foreign => trivial
  | @call env c _ _ hexec =>
    obtain ⟨b, hb, -⟩ := outside_run ha hprior
    exact not_freesSlot_of_outside hexec hb (hfrom env c rfl) agent

omit [Host D] [DecidableEq D] in
theorem Registry.getAgent_eq {v : AgentVault} {e : AgentEntry} (hreg : Registry v.keys)
    (he : e ∈ v.agents) : v.getAgent e.pubkey = some e := by
  cases hget : v.getAgent e.pubkey with
  | none => exact absurd (decide_eq_true rfl) (List.find?_eq_none.mp hget e he)
  | some e' =>
    have hkey := AgentVault.pubkey_of_getAgent hget
    have he' : e' ∈ v.agents := List.mem_of_find?_eq_some hget
    rw [List.inj_on_of_nodup_map hreg.distinct he' he hkey]

/-- From every reachable state on, whatever the agents and all others do without the owner and
without the parties to a pending transfer: the rules of the vault and the changes that are pending
stay what they are, up to the approval of a pending policy update, every spend is held against these
rules, any 144 consecutive epochs stay within the daily cap, and the spends of an agent with a limit
stay within it in any 24 hours of the clock. -/
theorem outsiders_confined (h₀ : l₀.Genesis) (hrun : Run BookedStep (l₀, []) as (l, h))
    (ha : l.live = some a) (hout : Run OutsideStep (l, []) bs (m, spends))
    (hclock : Chronological (as ++ bs)) :
    (∃ b, m.live = some b ∧ SameAuthority l m a b) ∧ (∀ p ∈ spends, p.HeldBy a) ∧
    (∀ first : ℤ, total (fun p => first ≤ epochOf p.time ∧ epochOf p.time < first + 144)
      (charges spends) ≤ a.policy.dailySpendingCapUsd.toNat) ∧
    ∀ e ∈ a.vault.agents, 0 < e.spendingLimitUsd → ∀ first : ℤ,
      total (fun p => p.agent = e.pubkey ∧ first ≤ hourOf p.time ∧ hourOf p.time < first + 24)
        (charges spends) ≤ e.spendingLimitUsd.toNat := by
  obtain ⟨b, hb, hsame, hheld⟩ := outside_run ha hout
  refine ⟨⟨b, hb, hsame⟩, hheld, fun first => ?_, fun e he hpos first => ?_⟩
  · have hgated := gated_run h₀ (hrun.append (booked_of_outside ha hout h)) hclock
    rw [charges, List.map_append] at hgated
    exact hgated.of_append.total_le fun y hy hin =>
      ⟨hin, (congrArg UInt64.toNat (hheld y.1 (mem_charges hy)).dailyCap).le⟩
  · have hreach := step_run_of_booked hrun
    have hreg := (run_registered hreach h₀).agents a ha
    have hlimit : ∀ p ∈ spends, p.agent = e.pubkey → p.agentLimit = e.spendingLimitUsd := by
      intro p hp hagent
      have hheld := (hheld p hp).agentLimit
      rw [hagent, hreg.getAgent_eq he] at hheld
      exact (Option.some.inj hheld).symm
    have hnamed := hreg.ne_default (List.mem_map_of_mem he)
    have hgated := limitGated_run hnamed h₀ hreach (seated_of_outside ha hout e.pubkey) hclock
      fun p hp hagent => hlimit p hp hagent ▸ hpos
    rw [← total_spendsOf]
    refine hgated.total_le fun y hy hin => ⟨hin, ?_⟩
    obtain ⟨hmem, hagent⟩ := mem_spendsOf.mp (mem_charges hy)
    exact (congrArg UInt64.toNat (hlimit y.1 hmem hagent)).le

end Run

section Sample

theorem outside_metered : ∃ m, Run OutsideStep (meteredLedger, [])
    (meteredSpends.map SampleEvent.action) (m, meteredBook) := by
  obtain ⟨-, m, hspends⟩ := run_metered
  obtain ⟨-, -, hlive, hpending⟩ := play_metered
  obtain ⟨a, ha, howner⟩ := Option.map_eq_some_iff.mp hlive
  refine ⟨m, outside_of_signers ha hspends fun env c hc => ⟨?_, ?_⟩⟩
  · rintro b hb
    cases ha.symm.trans hb
    rw [howner]
    simp only [meteredSpends, List.map_cons, List.map_nil, SampleEvent.action, List.mem_cons,
      reduceCtorEq, Action.call.injEq, List.not_mem_nil, false_or, or_false] at hc
    rcases hc with ⟨-, rfl⟩ | ⟨-, rfl⟩ | ⟨-, rfl⟩ <;> decide
  · rw [hpending]
    rintro p ⟨⟩

theorem outsiders_confined_metered : ∃ as bs m a,
    Run BookedStep (emptyLedger, []) as (meteredLedger, []) ∧ meteredLedger.live = some a ∧
    Run OutsideStep (meteredLedger, []) bs (m, meteredBook) ∧
    total (fun p => 0 ≤ epochOf p.time ∧ epochOf p.time < 0 + 144) (charges meteredBook) ≤
      a.policy.dailySpendingCapUsd.toNat := by
  obtain ⟨hsetup, -⟩ := run_metered
  obtain ⟨-, -, hlive, -⟩ := play_metered
  obtain ⟨a, ha, -⟩ := Option.map_eq_some_iff.mp hlive
  obtain ⟨m, hout⟩ := outside_metered
  have hbounds := outsiders_confined genesis_emptyLedger hsetup ha hout chronological_metered
  exact ⟨_, _, m, a, hsetup, ha, hout, hbounds.2.2.1 0⟩

end Sample

end Sigil
