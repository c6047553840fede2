import Sigil.Authority.OperatorDelay
import Sigil.Authority.PolicyBounds
import Sigil.Session.Cooldown

/-! # Agents that are disabled for their failures

The owner reports the failures of an agent, a session clears them, and at a threshold they disable
the agent. The count outlives the agent's capability: whoever gives the capability back has to see
to it that nothing is counted any more, and that nothing granted before the agent was disabled still
waits.
-/

namespace Sigil

open Guard Trace

section Defs

variable {D : Type}

/-- The agent may do something. -/
def Ledger.Enabled (l : Ledger D) (agent : Pubkey) : Prop :=
  ∃ a, l.live = some a ∧ ∃ e ∈ a.vault.agents,
    e.pubkey = agent ∧ e.capability ≠ capabilityDisabled

instance (l : Ledger D) (agent : Pubkey) : Decidable (l.Enabled agent) :=
  decidable_of_iff (l.live.any (fun a => a.vault.agents.any fun e =>
    e.pubkey = agent ∧ e.capability ≠ capabilityDisabled) = true) (by
      simp [Ledger.Enabled, Option.any_eq_true])

/-- Whoever may do something has failed less often than the threshold. -/
def VaultAccounts.BelowThreshold (a : VaultAccounts D) : Prop :=
  ∀ e ∈ a.vault.agents, e.capability ≠ capabilityDisabled →
    e.consecutiveFailures < a.policy.autoRevokeThreshold

def Call.reports (agent : Pubkey) : Call D → Bool
  | recordAgentViolation _ reported _ => reported = agent
  | _ => false

instance (kind : Call D → Bool) (x : Action D) : Decidable (x.Calls kind) :=
  match x with
  | .call _ c => inferInstanceAs (Decidable (kind c = true))
  | .foreign => .isFalse id

/-- The last actions hold so many reports of the agent, with no session of it in between. -/
def UnbrokenReports (agent : Pubkey) (as : List (Action D)) (n : ℕ) : Prop :=
  ∃ earlier recent, as = earlier ++ recent ∧
    (∀ x ∈ recent, ¬ x.Calls (Call.validatesFor agent)) ∧
    n ≤ recent.countP fun x => x.Calls (Call.reports agent)

/-- The instruction gives a disabled agent its capability back while failures are counted. -/
def Call.RevivesFailing (l : Ledger D) : Call D → Prop
  | applyAgentPermissionsUpdate _ _ address => ∃ a p e, l.live = some a ∧
      l.pendingPerms address = some p ∧ a.vault.getAgent p.agent = some e ∧
      e.capability = capabilityDisabled ∧ p.newCapability ≠ capabilityDisabled ∧
      e.consecutiveFailures ≠ 0
  | _ => False

end Defs

section Reports

variable {D : Type} {agent : Pubkey} {as : List (Action D)} {x : Action D} {n : ℕ}

theorem unbrokenReports_zero (as : List (Action D)) : UnbrokenReports agent as 0 :=
  ⟨as, [], by simp⟩

theorem UnbrokenReports.snoc (h : UnbrokenReports agent as n)
    (hx : ¬ x.Calls (Call.validatesFor agent)) : UnbrokenReports agent (as ++ [x]) n := by
  obtain ⟨earlier, recent, rfl, hquiet, hcount⟩ := h
  refine ⟨earlier, recent ++ [x], by simp, fun y hy => ?_, ?_⟩
  · rcases List.mem_append.mp hy with hold | hnew
    · exact hquiet y hold
    · exact List.mem_singleton.mp hnew ▸ hx
  · rw [List.countP_append]
    exact hcount.trans (Nat.le_add_right _ _)

theorem UnbrokenReports.report (h : UnbrokenReports agent as n)
    (hx : x.Calls (Call.reports agent)) : UnbrokenReports agent (as ++ [x]) (n + 1) := by
  obtain ⟨earlier, recent, rfl, hquiet, hcount⟩ := h
  refine ⟨earlier, recent ++ [x], by simp, fun y hy => ?_, ?_⟩
  · rcases List.mem_append.mp hy with hold | hnew
    · exact hquiet y hold
    · obtain rfl := List.mem_singleton.mp hnew
      intro hvalidates
      rcases y with ⟨env, c⟩ | _
      · cases c <;> simp [Action.Calls, Call.reports, Call.validatesFor] at hx hvalidates
      · exact hvalidates
  · rw [List.countP_append, List.countP_singleton, if_pos (decide_eq_true hx)]
    exact Nat.add_le_add_right hcount 1

theorem UnbrokenReports.of_le {k : ℕ} (h : UnbrokenReports agent as n) (hk : k ≤ n) :
    UnbrokenReports agent as k := by
  obtain ⟨earlier, recent, hsplit, hquiet, hcount⟩ := h
  exact ⟨earlier, recent, hsplit, hquiet, hk.trans hcount⟩

end Reports

section Counter

variable {D : Type} [Host D] [DecidableEq D] {env : Env} {c : Call D} {l₀ l l' m m' : Ledger D}
  {a a' : VaultAccounts D} {agent : Pubkey} {x : Action D} {as bs : List (Action D)}
  {e : AgentEntry}

/-- A step that does not give a disabled agent its capability back while failures are counted. -/
def CleanStep (l : Ledger D) (x : Action D) (l' : Ledger D) : Prop :=
  Step l x l' ∧ ∀ env c, x = .call env c → ¬ c.RevivesFailing l

theorem CleanStep.of_call (h : exec env l c = .ok l') (hc : ¬ c.RevivesFailing l) :
    CleanStep l (.call env c) l' :=
  ⟨.call h, by rintro _ _ ⟨⟩; exact hc⟩

theorem exec_autoRevokeThreshold (h : exec env l c = .ok l') (ha : l.live = some a)
    (ha' : l'.live = some a') :
    a'.policy.autoRevokeThreshold = a.policy.autoRevokeThreshold := by
  cases exec_policyOrigin h ha' with
  | kept hb hcore =>
    cases ha.symm.trans hb
    have hsame := congrArg PolicyConfig.autoRevokeThreshold hcore
    exact hsame
  | created hnew => cases hnew.symm.trans ha
  | applied hb _ _ hmerged hcore =>
    cases ha.symm.trans hb
    obtain ⟨graylist, -, rfl, -⟩ := applyUpdate_ok hmerged
    have hsame := congrArg PolicyConfig.autoRevokeThreshold hcore
    exact hsame
  | handedOver hb ha' =>
    cases ha.symm.trans hb
    rw [ha']
    change (PolicyConfig.collapseCosigner _ _).autoRevokeThreshold = _
    unfold PolicyConfig.collapseCosigner
    split <;> rfl

omit [Host D] [DecidableEq D] in
theorem recordFailure_failures_le (e : AgentEntry) (threshold : UInt8) :
    (e.recordFailure threshold).consecutiveFailures.toNat ≤ e.consecutiveFailures.toNat + 1 := by
  unfold AgentEntry.recordFailure
  dsimp only
  split
  · rename_i hfull
    rw [hfull]
    exact Nat.le_succ _
  · rw [UInt8.toNat_add]
    exact Nat.mod_le _ _

omit [Host D] [DecidableEq D] in
theorem recordFailure_below {threshold : UInt8}
    (h : (e.recordFailure threshold).capability ≠ capabilityDisabled) :
    e.capability ≠ capabilityDisabled ∧
      (e.recordFailure threshold).consecutiveFailures < threshold := by
  by_cases htrip : threshold ≤ (e.recordFailure threshold).consecutiveFailures
  · exact absurd (if_pos htrip) h
  · exact ⟨recordFailure_capability htrip ▸ h, UInt8.not_le.mp htrip⟩

/-- Where the failures of an agent that may act come from: it starts without, keeps what it had, or
gets one more by a report. -/
theorem CleanStep.failures (h : CleanStep m x m') (ha' : m'.live = some a')
    (he : e ∈ a'.vault.agents) (hable : e.capability ≠ capabilityDisabled) :
    e.consecutiveFailures = 0 ∨ ∃ a e₀, m.live = some a ∧ e₀ ∈ a.vault.agents ∧
      e₀.pubkey = e.pubkey ∧ e₀.capability ≠ capabilityDisabled ∧
      a'.policy.autoRevokeThreshold = a.policy.autoRevokeThreshold ∧
      (e.consecutiveFailures = e₀.consecutiveFailures ∨
        x.Calls (Call.reports e.pubkey) ∧
          e.consecutiveFailures.toNat ≤ e₀.consecutiveFailures.toNat + 1 ∧
          e.consecutiveFailures < a.policy.autoRevokeThreshold) := by
  obtain ⟨hstep, hclean⟩ := h
  cases hstep with
  | foreign => exact .inr ⟨a', e, ha', he, rfl, hable, rfl, .inl rfl⟩
  | @call env c _ _ hexec =>
    obtain ⟨a, ha, hentry⟩ := exec_entry hexec ha' he
    have hthreshold := exec_autoRevokeThreshold hexec ha ha'
    cases hentry with
    | same hold => exact .inr ⟨a, e, ha, hold, rfl, hable, hthreshold, .inl rfl⟩
    | paused hold | unpaused hold =>
      exact .inr ⟨a, _, ha, List.mem_of_find?_eq_some hold, rfl, hable, hthreshold, .inl rfl⟩
    | @reported _ _ _ e₀ hold =>
      obtain ⟨hwas, hbelow⟩ := recordFailure_below hable
      refine .inr ⟨a, e₀, ha, List.mem_of_find?_eq_some hold, rfl, hwas, hthreshold, .inr ⟨?_, ?_⟩⟩
      · exact decide_eq_true (AgentVault.pubkey_of_getAgent hold).symm
      · exact ⟨recordFailure_failures_le e₀ _, hbelow⟩
    | authorized | registered | grafted | granted => exact .inl rfl
    | @changed _ _ _ p e₀ hready hold =>
      by_cases hwas : e₀.capability = capabilityDisabled
      · left
        by_contra hfailing
        exact hclean env _ rfl ⟨a, p, e₀, ha, hready.found, hold, hwas, hable, hfailing⟩
      · exact .inr ⟨a, e₀, ha, List.mem_of_find?_eq_some hold, rfl, hwas, hthreshold, .inl rfl⟩

theorem exec_validate_failures (h : exec env l c = .ok l')
    (hc : (Action.call env c).Calls (Call.validatesFor agent)) (hl : l.Registered)
    (ha' : l'.live = some a') (he : e ∈ a'.vault.agents) (hagent : e.pubkey = agent) :
    e.consecutiveFailures = 0 := by
  cases c <;> simp [Action.Calls, Call.validatesFor] at hc
  case validateAndAuthorize args =>
    obtain ⟨a, vaultToken, pins, snapshots, tokens, ho⟩ := validateAndAuthorize_ok h
    obtain rfl := ho.result
    cases ha'
    rcases FirstMatch.mem_modifyFirst_of_nodup AgentEntry.pubkey
      (hl.agents a ho.live).distinct he with ⟨-, hother⟩ | ⟨e₀, -, rfl⟩
    · exact absurd (hagent.trans hc.symm) hother
    · rfl

/-- The failures of an agent that may act are reported, with no session of it in between. -/
def Ledger.FailuresReported (l : Ledger D) (agent : Pubkey) (as : List (Action D)) : Prop :=
  ∀ a ∈ l.live, ∀ e ∈ a.vault.agents, e.pubkey = agent → e.capability ≠ capabilityDisabled →
    UnbrokenReports agent as e.consecutiveFailures.toNat

theorem CleanStep.failuresReported (h : CleanStep m x m') (hm : m.Registered)
    (hreported : m.FailuresReported agent as) : m'.FailuresReported agent (as ++ [x]) := by
  intro a' ha' e he hagent hable
  by_cases hvalidates : x.Calls (Call.validatesFor agent)
  · have hcleared : e.consecutiveFailures = 0 := by
      cases h.1 with
      | foreign => exact hvalidates.elim
      | call hexec => exact exec_validate_failures hexec hvalidates hm ha' he hagent
    rw [hcleared]
    exact unbrokenReports_zero _
  rcases h.failures ha' he hable with hzero | ⟨a, e₀, ha, he₀, hkey, hwas, -, hkept | hmore⟩
  · rw [hzero]
    exact unbrokenReports_zero _
  · rw [hkept]
    exact (hreported a ha e₀ he₀ (hkey.trans hagent) hwas).snoc hvalidates
  · obtain ⟨hreports, hle, -⟩ := hmore
    exact ((hreported a ha e₀ he₀ (hkey.trans hagent) hwas).report (hagent ▸ hreports)).of_le hle

theorem CleanStep.enabled (h : CleanStep m x m') (hnot : ¬ m.Enabled agent) :
    m'.FailuresReported agent [] := by
  intro a' ha' e he hagent hable
  rcases h.failures ha' he hable with hzero | ⟨a, e₀, ha, he₀, hkey, hwas, -⟩
  · rw [hzero]
    exact unbrokenReports_zero _
  · exact absurd ⟨a, ha, e₀, he₀, hkey.trans hagent, hwas⟩ hnot

theorem CleanStep.belowThreshold (h : CleanStep m x m')
    (hpositive : ∀ a ∈ m'.live, 0 < a.policy.autoRevokeThreshold)
    (hm : ∀ a ∈ m.live, a.BelowThreshold) : ∀ a ∈ m'.live, a.BelowThreshold := by
  intro a' ha' e he hable
  rcases h.failures ha' he hable with hzero | ⟨a, e₀, ha, he₀, -, hwas, hthreshold, hkept | hmore⟩
  · rw [hzero]
    exact hpositive a' ha'
  · rw [hkept, hthreshold]
    exact hm a ha e₀ he₀ hwas
  · rw [hthreshold]
    exact hmore.2.2

theorem run_belowThreshold (h₀ : l₀.Genesis) (hrun : Run CleanStep l₀ as l) :
    ∀ a ∈ l.live, a.BelowThreshold := by
  refine hrun.induct (P := fun _ m => ∀ a ∈ m.live, a.BelowThreshold) (by simp [h₀.live]) ?_
  intro bs m x m' hbs hm hstep
  refine hstep.belowThreshold (fun a ha => ?_) hm
  have hreach := (hbs.snoc hstep).mono fun _ _ _ h => h.1
  have hbounds := (run_policyInOrder h₀ hreach).bounds a ha
  exact UInt8.lt_of_lt_of_le (by decide) hbounds.autoRevoke.1

theorem exec_trips {owner : Pubkey} {errorCode : UInt32} (ha : l.live = some a)
    (h : exec env l (.recordAgentViolation owner agent errorCode) = .ok l')
    (hdisabled : ¬ l'.Enabled agent) :
    ∃ e ∈ a.vault.agents, e.pubkey = agent ∧ e.capability ≠ capabilityDisabled ∧
      a.policy.autoRevokeThreshold.toNat ≤ e.consecutiveFailures.toNat + 1 := by
  obtain ⟨b, e, hb, -, hentry, henabled, ⟨hbelow, rfl⟩ | ⟨version, htrip, -, -⟩⟩ :=
    recordAgentViolation_ok h
  all_goals
    cases ha.symm.trans hb
    have hkey := AgentVault.pubkey_of_getAgent hentry
  · have hafter : (a.vault.updateAgent agent fun e =>
        e.recordFailure a.policy.autoRevokeThreshold).getAgent agent =
        some (e.recordFailure a.policy.autoRevokeThreshold) := by
      rw [getAgent_updateAgent (by exact fun _ => rfl), hentry, Option.map_some]
    refine absurd ⟨_, rfl, _, List.mem_of_find?_eq_some hafter, hkey, ?_⟩ hdisabled
    rwa [recordFailure_capability hbelow]
  · exact ⟨e, List.mem_of_find?_eq_some hentry, hkey, henabled,
      (UInt8.le_iff_toNat_le.mp htrip).trans (recordFailure_failures_le e _)⟩

/-- As long as no disabled agent gets its capability back while failures are counted, every agent
that may act is below the threshold, and one that was just enabled is disabled for its failures only
after as many further reports, with no session of it in between. -/
theorem auto_revoke_counter (h₀ : l₀.Genesis) (hrun : Run CleanStep l₀ as m) :
    (∀ a ∈ m.live, ∀ e ∈ a.vault.agents, e.capability ≠ capabilityDisabled →
      e.consecutiveFailures < a.policy.autoRevokeThreshold) ∧
    ∀ agent x m' bs l a env owner errorCode l', CleanStep m x m' → ¬ m.Enabled agent →
      m'.Enabled agent → Run CleanStep m' bs l → l.live = some a →
      exec env l (.recordAgentViolation owner agent errorCode) = .ok l' → ¬ l'.Enabled agent →
      UnbrokenReports agent (bs ++ [.call env (.recordAgentViolation owner agent errorCode)])
        a.policy.autoRevokeThreshold.toNat := by
  refine ⟨run_belowThreshold h₀ hrun, ?_⟩
  intro agent x m' bs l a env owner errorCode l' henables hnot _ hbs ha htrip hdisabled
  have hreach := (hrun.snoc henables).mono fun _ _ _ h => h.1
  have hreported : l.FailuresReported agent bs := by
    refine hbs.induct (P := fun bs l => l.FailuresReported agent bs) (henables.enabled hnot) ?_
    intro cs n y n' hcs hn hstep
    have hregistered := run_registered (hreach.append (hcs.mono fun _ _ _ h => h.1)) h₀
    exact hstep.failuresReported hregistered hn
  obtain ⟨e, he, hkey, hable, hle⟩ := exec_trips ha htrip hdisabled
  have hreports : (Action.call env (.recordAgentViolation owner agent errorCode) : Action D).Calls
      (Call.reports agent) := decide_eq_true rfl
  exact ((hreported a ha e he hkey hable).report hreports).of_le hle

end Counter

section Durable

variable {D : Type}

/-- No change that is pending gives the agent a capability. -/
structure Ledger.NothingPendingFor (l : Ledger D) (agent : Pubkey) : Prop where
  perms : ∀ address, ∀ p ∈ l.pendingPerms address, p.agent = agent →
    p.newCapability = capabilityDisabled
  grant : ∀ p ∈ l.pendingGrant, p.agent ≠ agent

variable [Host D] [DecidableEq D]

/-- How a disabled agent may get a capability in a state that a run has reached: by a change that
was queued in the run and has waited, by an observer's registration, or with the bound cosigner. -/
inductive Reenabled (s : Ledger D) (as : List (Action D)) (l : Ledger D) (env : Env) (c : Call D)
    (agent : Pubkey) : Prop
  | changed {envQueue : Env} {cQueue : Call D} {b : VaultAccounts D} {address : Pubkey}
      {p : PendingAgentPermissionsUpdate D}
      (hqueued : QueuedIn s as l envQueue cQueue b (.perms address p)) (hagent : p.agent = agent)
      (happlies : c.Applies l (.perms address p))
      (helapsed : envQueue.clock.unixTimestamp + 1800 ≤ env.clock.unixTimestamp)
  | granted {envQueue : Env} {cQueue : Call D} {a b : VaultAccounts D} {p : PendingAgentGrant D}
      (hqueued : QueuedIn s as l envQueue cQueue b (.grant p)) (hagent : p.agent = agent)
      (happlies : c.Applies l (.grant p)) (ha : l.live = some a)
      (hgone : a.vault.isAgent agent = false)
      (helapsed : envQueue.clock.unixTimestamp + 600 ≤ env.clock.unixTimestamp ∨
        cQueue.Cosigned b)
  | registered {a : VaultAccounts D} {owner : Pubkey} {remaining : List AccountMeta}
      {capability : UInt8} {limit : UInt64} (ha : l.live = some a)
      (hgone : a.vault.isAgent agent = false) (hobserver : capability < capabilityOperator)
      (hcall : c = .registerAgent owner remaining agent capability limit)
  | grafted {a : VaultAccounts D} {owner : Pubkey} {remaining : List AccountMeta}
      {capability : UInt8} (ha : l.live = some a) (hgone : a.vault.isAgent agent = false)
      (hobserver : capability < capabilityOperator)
      (hcall : c = .reactivateVault owner remaining (some agent) (some capability))
  | cosigned {a : VaultAccounts D} (ha : l.live = some a) (hcosigned : c.Cosigned a)

variable {env : Env} {c : Call D} {l₀ l l' m m' : Ledger D} {a a' : VaultAccounts D}
  {agent : Pubkey} {x : Action D} {as bs : List (Action D)} {e : AgentEntry}

/-- An instruction that enables an agent, after a time at which nothing was pending for it. -/
theorem EntryAfter.reenabled (h : EntryAfter env l a c e) (h₀ : l₀.Genesis)
    (has : Run Step l₀ as m) (hclear : m.NothingPendingFor e.pubkey) (hbs : Run Step m bs l)
    (ha : l.live = some a) (hnot : ¬ l.Enabled e.pubkey)
    (hable : e.capability ≠ capabilityDisabled) : Reenabled m bs l env c e.pubkey := by
  have hsingle := ownerType_ne_multisig h₀ (has.append hbs) ha
  cases h with
  | same hold => exact absurd ⟨a, ha, e, hold, rfl, hable⟩ hnot
  | paused hold | unpaused hold | authorized hold =>
    exact absurd ⟨a, ha, _, List.mem_of_find?_eq_some hold, rfl, hable⟩ hnot
  | reported hold =>
    exact absurd ⟨a, ha, _, List.mem_of_find?_eq_some hold, rfl, (recordFailure_below hable).1⟩ hnot
  | @registered _ _ _ capability _ hroom _ hgate =>
    by_cases hoperator : capabilityOperator ≤ capability
    · rw [VaultAccounts.registrationGate, if_pos hoperator] at hgate
      exact .cosigned ha (VaultAccounts.instantOperatorGate_cosigned hgate hsingle)
    · exact .registered ha hroom.fresh (UInt8.not_le.mp hoperator) rfl
  | @grafted _ _ _ capability hroom _ hgate =>
    by_cases hoperator : capabilityOperator ≤ capability
    · exact .cosigned ha (VaultAccounts.instantOperatorGate_cosigned (hgate hoperator) hsingle)
    · exact .grafted ha hroom.fresh (UInt8.not_le.mp hoperator) rfl
  | @granted _ _ p hp hready =>
    have hnone : ¬ m.Holds (.grant p) := fun hheld => hclear.grant p hheld rfl
    obtain ⟨envQueue, cQueue, b, hqueued, hwaited⟩ := grant_waited h₀ has hbs hnone hp hready
    exact .granted hqueued rfl hp ha hready.room.fresh hwaited
  | @changed _ address _ p e₀ hready hold =>
    have hkey := AgentVault.pubkey_of_getAgent hold
    have hnone : ¬ m.Holds (.perms address p) := fun hheld =>
      hable (hclear.perms address p hheld hkey.symm)
    obtain ⟨envQueue, cQueue, b, hqueued, hwaited⟩ := perms_waited h₀ has hbs hnone hready
    exact .changed hqueued hkey.symm ⟨rfl, hready.found⟩ hwaited

theorem pendingPerms_of_run (h₀ : l₀.Genesis) (hrun : Run Step l₀ as l)
    (hquiet : ∀ env c address p, Action.call env c ∈ as → ¬ c.Queues (.perms address p))
    (address : Pubkey) : l.pendingPerms address = none := by
  by_contra hsome
  obtain ⟨p, hp⟩ := Option.ne_none_iff_exists'.mp hsome
  have hnone : ¬ l₀.Holds (.perms address p) := fun h =>
    nomatch (h₀.pendingPerms address).symm.trans h
  obtain ⟨front, env, c, back, m, m', rfl, -, -, -, hqueues, -⟩ := run_queues hrun hnone hp
  exact hquiet env c address p (by simp) hqueues

/-- Once a failure of an agent is reported while no change that would give it a capability is
pending, it is enabled again only by a change that was queued after the report and has waited for
its time, as an observer that joins anew, or with the bound cosigner. -/
theorem auto_revoke_durable {owner : Pubkey} {errorCode : UInt32} (h₀ : l₀.Genesis)
    (hreach : Run Step l₀ as m) (hclear : m.NothingPendingFor agent)
    (htrip : exec env m (.recordAgentViolation owner agent errorCode) = .ok m')
    (hafter : Run Step m' bs l) (hstep : Step l x l') (hdisabled : ¬ l.Enabled agent)
    (henabled : l'.Enabled agent) :
    ∃ env' c, x = .call env' c ∧ Reenabled m' bs l env' c agent := by
  have hclear' : m'.NothingPendingFor agent := by
    obtain ⟨a, e, -, -, -, -, ⟨-, rfl⟩ | ⟨version, -, -, rfl⟩⟩ := recordAgentViolation_ok htrip <;>
    exact ⟨hclear.perms, hclear.grant⟩
  cases hstep with
  | foreign => exact absurd henabled hdisabled
  | @call env' c _ _ hexec =>
    obtain ⟨a', ha', e, he, rfl, hable⟩ := henabled
    obtain ⟨a, ha, hentry⟩ := exec_entry hexec ha' he
    exact ⟨env', c, rfl, hentry.reenabled h₀ (hreach.snoc (.call htrip)) hclear' hafter ha hdisabled
      hable⟩

end Durable

section Sample

def sampleReport : Call Preimage := .recordAgentViolation (sampleKey 1) (sampleKey 9) 6074

def reportedTimes (l : Ledger Preimage) : ℕ → Ledger Preimage
  | 0 => l
  | n + 1 => after (sampleEnv 3300 30) (reportedTimes l n) sampleReport

theorem run_reportedTimes {l : Ledger Preimage} {n : ℕ}
    (h : ∀ k < n, (exec (sampleEnv 3300 30) (reportedTimes l k) sampleReport).isOk = true) :
    Run CleanStep l (List.replicate n (.call (sampleEnv 3300 30) sampleReport))
      (reportedTimes l n) := by
  induction n with
  | zero => exact .nil l
  | succ n ih =>
    rw [List.replicate_succ']
    have hprior := ih fun k hk => h k (Nat.lt_succ_of_lt hk)
    exact hprior.snoc (.of_call (exec_after (h n (Nat.lt_succ_self n))) id)

theorem reportedTimes_ok : ∀ k < 5,
    (exec (sampleEnv 3300 30) (reportedTimes operatedLedger k) sampleReport).isOk = true := by
  decide +kernel

/-- The sample operator is disabled by the fifth report since it was granted. -/
theorem auto_revoke_counter_fifth_report :
    UnbrokenReports (sampleKey 9)
      (List.replicate 4 (.call (sampleEnv 3300 30) sampleReport) ++
        [.call (sampleEnv 3300 30) sampleReport]) 5 := by
  have hgrant : CleanStep sampleLedger _ (withGrant sampleLedger) :=
    .of_call (exec_after (by decide +kernel)) id
  have hrun := (Run.single (CleanStep.of_call exec_sampleInitialize id)).snoc hgrant
  have hseat : CleanStep (withGrant sampleLedger) _ operatedLedger :=
    .of_call exec_operatedLedger id
  have hreports := run_reportedTimes (l := operatedLedger) (n := 4)
    fun k hk => reportedTimes_ok k (by omega)
  obtain ⟨hthreshold, hlive, hdisabled⟩ :
      (∀ a ∈ (reportedTimes operatedLedger 4).live, a.policy.autoRevokeThreshold = 5) ∧
        (reportedTimes operatedLedger 4).live.isSome = true ∧
        ¬ (reportedTimes operatedLedger 5).Enabled (sampleKey 9) := by decide +kernel
  obtain ⟨a, ha⟩ := Option.isSome_iff_exists.mp hlive
  have hunbroken := (auto_revoke_counter genesis_emptyLedger hrun).2 (sampleKey 9) _ _ _ _ a _ _ _ _
    hseat (by decide +kernel) (by decide +kernel) hreports ha
    (exec_after (reportedTimes_ok 4 (by decide))) hdisabled
  rwa [hthreshold a ha] at hunbroken

/-- The operator is disabled, and its permissions are queued again. -/
def revivingLedger : Ledger Preimage :=
  after (sampleEnv 3300 30) (reportedTimes operatedLedger 5) (.queueAgentPermissionsUpdate
    (sampleKey 1) [] (sampleKey 9) capabilityOperator 500 600 Pubkey.default)

def revivedLedger : Ledger Preimage :=
  after (sampleEnv 5100 50) revivingLedger
    (.applyAgentPermissionsUpdate (sampleKey 1) [] cooldownAddress)

theorem run_revivingLedger : ∃ as, Run Step emptyLedger as (reportedTimes operatedLedger 5) := by
  obtain ⟨as, hrun⟩ := run_operatedLedger
  have hreports := run_reportedTimes reportedTimes_ok
  exact ⟨_, hrun.append (hreports.mono fun _ _ _ h => h.1)⟩

/-- An operator that gets its capability back keeps the failures that took it away: it is at the
threshold, and one report disables it. -/
theorem revived_at_threshold :
    (∃ as, Run Step emptyLedger as revivingLedger) ∧ ¬ revivingLedger.Enabled (sampleKey 9) ∧
      exec (sampleEnv 5100 50) revivingLedger (.applyAgentPermissionsUpdate (sampleKey 1) []
        cooldownAddress) = .ok revivedLedger ∧
      revivedLedger.Enabled (sampleKey 9) ∧
      (revivedLedger.live.any fun a => a.vault.agents.any fun e =>
        e.capability ≠ capabilityDisabled ∧
          a.policy.autoRevokeThreshold ≤ e.consecutiveFailures) = true ∧
      exec (sampleEnv 5100 50) revivedLedger sampleReport =
        .ok (after (sampleEnv 5100 50) revivedLedger sampleReport) ∧
      ¬ (after (sampleEnv 5100 50) revivedLedger sampleReport).Enabled (sampleKey 9) ∧
      ¬ UnbrokenReports (sampleKey 9) [.call (sampleEnv 5100 50) sampleReport] 5 := by
  obtain ⟨as, hrun⟩ := run_revivingLedger
  obtain ⟨hqueued, hdisabled, happlied, henabled⟩ :
      (exec (sampleEnv 3300 30) (reportedTimes operatedLedger 5) (.queueAgentPermissionsUpdate
        (sampleKey 1) [] (sampleKey 9) capabilityOperator 500 600 Pubkey.default)).isOk = true ∧
        ¬ revivingLedger.Enabled (sampleKey 9) ∧
        (exec (sampleEnv 5100 50) revivingLedger (.applyAgentPermissionsUpdate (sampleKey 1) []
          cooldownAddress)).isOk = true ∧
        revivedLedger.Enabled (sampleKey 9) := by decide +kernel
  obtain ⟨hthreshold, hreported, hagain⟩ :
      (revivedLedger.live.any fun a => a.vault.agents.any fun e =>
        e.capability ≠ capabilityDisabled ∧
          a.policy.autoRevokeThreshold ≤ e.consecutiveFailures) = true ∧
        (exec (sampleEnv 5100 50) revivedLedger sampleReport).isOk = true ∧
        ¬ (after (sampleEnv 5100 50) revivedLedger sampleReport).Enabled (sampleKey 9) := by
    decide +kernel
  refine ⟨⟨_, hrun.snoc (.after hqueued)⟩, hdisabled, exec_after happlied, henabled, hthreshold,
    exec_after hreported, hagain, ?_⟩
  rintro ⟨earlier, recent, hsplit, -, hcount⟩
  have hlength := congrArg List.length hsplit
  have hbound := List.countP_le_length (p := fun x : Action Preimage =>
    decide (x.Calls (Call.reports (sampleKey 9)))) (l := recent)
  simp only [List.length_singleton, List.length_append] at hlength
  omega

/-- The permissions that were queued after the operator was disabled have waited for half an
hour. -/
theorem auto_revoke_durable_requeued :
    Reenabled (reportedTimes operatedLedger 5) [.call (sampleEnv 3300 30)
        (.queueAgentPermissionsUpdate (sampleKey 1) [] (sampleKey 9) capabilityOperator 500 600
          Pubkey.default)] revivingLedger (sampleEnv 5100 50)
      (.applyAgentPermissionsUpdate (sampleKey 1) [] cooldownAddress) (sampleKey 9) := by
  have hgrant : Step sampleLedger _ (withGrant sampleLedger) := .after (by decide +kernel)
  have hrun := ((Run.single step_sampleInitialize).snoc hgrant).snoc (.call exec_operatedLedger)
  have hreports := run_reportedTimes (l := operatedLedger) (n := 4)
    fun k hk => reportedTimes_ok k (by omega)
  have hreach := hrun.append (hreports.mono fun _ _ _ h => h.1)
  have hclear : (reportedTimes operatedLedger 4).NothingPendingFor (sampleKey 9) := by
    refine ⟨fun address p hp => ?_, by decide +kernel⟩
    have hnone := pendingPerms_of_run genesis_emptyLedger hreach ?_ address
    · cases hnone.symm.trans hp
    · intro env c address p hc hqueues
      simp only [List.mem_append, List.mem_singleton, List.mem_replicate, Action.call.injEq] at hc
      rcases hc with ((⟨-, rfl⟩ | ⟨-, rfl⟩) | ⟨-, rfl⟩) | ⟨-, -, rfl⟩ <;> exact hqueues
  have hqueue : Step (reportedTimes operatedLedger 5) _ revivingLedger := .after (by decide +kernel)
  obtain ⟨env, c, hcall, hreenabled⟩ := auto_revoke_durable genesis_emptyLedger hreach hclear
    (exec_after (reportedTimes_ok 4 (by decide))) (.single hqueue)
    (.after (by decide +kernel) : Step revivingLedger (.call (sampleEnv 5100 50)
      (.applyAgentPermissionsUpdate (sampleKey 1) [] cooldownAddress)) revivedLedger)
    (by decide +kernel) (by decide +kernel)
  obtain ⟨rfl, rfl⟩ := Action.call.inj hcall
  exact hreenabled

/-- The operator is disabled while a change of its permissions is pending. -/
def overtakenLedger : Ledger Preimage := reportedTimes (withCooldownQueued operatedLedger) 5

/-- A change of permissions that was queued before the operator was disabled gives it back its
capability shortly after. -/
theorem queued_change_revives :
    (∃ as, Run Step emptyLedger as (withCooldownQueued operatedLedger)) ∧
      Run Step (withCooldownQueued operatedLedger)
        (List.replicate 5 (.call (sampleEnv 3300 30) sampleReport)) overtakenLedger ∧
      (reportedTimes (withCooldownQueued operatedLedger) 4).Enabled (sampleKey 9) ∧
      ¬ overtakenLedger.Enabled (sampleKey 9) ∧
      exec (sampleEnv 3400 40) overtakenLedger (.applyAgentPermissionsUpdate (sampleKey 1) []
        cooldownAddress) = .ok (after (sampleEnv 3400 40) overtakenLedger
          (.applyAgentPermissionsUpdate (sampleKey 1) [] cooldownAddress)) ∧
      (after (sampleEnv 3400 40) overtakenLedger
        (.applyAgentPermissionsUpdate (sampleKey 1) [] cooldownAddress)).Enabled (sampleKey 9) ∧
      overtakenLedger.live.any (fun a => a.policy.cosignRequired) = false := by
  obtain ⟨as, hrun⟩ := run_operatedLedger
  obtain ⟨hreported, henabled, hdisabled⟩ :
      (∀ k < 5, (exec (sampleEnv 3300 30)
        (reportedTimes (withCooldownQueued operatedLedger) k) sampleReport).isOk = true) ∧
        (reportedTimes (withCooldownQueued operatedLedger) 4).Enabled (sampleKey 9) ∧
        ¬ overtakenLedger.Enabled (sampleKey 9) := by decide +kernel
  obtain ⟨happlied, hrevived, hcosign⟩ :
      (exec (sampleEnv 3400 40) overtakenLedger (.applyAgentPermissionsUpdate (sampleKey 1) []
        cooldownAddress)).isOk = true ∧
        (after (sampleEnv 3400 40) overtakenLedger (.applyAgentPermissionsUpdate (sampleKey 1) []
          cooldownAddress)).Enabled (sampleKey 9) ∧
        overtakenLedger.live.any (fun a => a.policy.cosignRequired) = false := by decide +kernel
  have hreports : Run CleanStep (withCooldownQueued operatedLedger) _ overtakenLedger :=
    run_reportedTimes hreported
  exact ⟨⟨_, hrun.snoc (.call exec_withCooldownQueued)⟩, hreports.mono fun _ _ _ h => h.1, henabled,
    hdisabled, exec_after happlied, hrevived, hcosign⟩

end Sample

end Sigil
