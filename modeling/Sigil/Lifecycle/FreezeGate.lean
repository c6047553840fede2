import Sigil.System.AgentOrigin
import Sigil.System.PendingChanges

/-! # Freezing is a one-way gate

A frozen vault refuses every instruction that would give a right, weaken a guard or let an agent
act. As long as it is not reactivated, what it still accepts can only take rights away; and it is
reactivated no earlier than five minutes after it was last frozen.
-/

namespace Sigil

open Guard Trace Machine

section Accepted

variable {D : Type}

/-- The instructions after which a vault is not frozen any more. -/
def Call.endsFreeze : Call D → Bool
  | reactivateVault .. | closeVault .. => true
  | _ => false

/-- The other instructions that a frozen vault accepts. -/
def Call.worksFrozen : Call D → Bool
  | depositFunds .. | withdrawFunds .. | pauseAgent .. | revokeAgent .. | recordAgentViolation ..
  | cancelAgentGrant .. | cancelAgentPermissionsUpdate .. | cancelPendingPolicy ..
  | createPostAssertions .. | closePostAssertions .. | finalizeSession .. => true
  | setObserveOnly _ _ newValue => newValue
  | _ => false

/-- The instructions by which the owner puts funds in or takes them out. -/
def Call.isOwnerFunds : Call D → Bool
  | depositFunds .. | withdrawFunds .. => true
  | _ => false

theorem Call.spares_of_worksFrozen {c : Call D} {p : Part} (hc : c.worksFrozen = true)
    (hp : p ∈ [Part.custody, .guards, .graylist]) : p ∉ c.writes := by
  simp only [List.mem_cons, List.not_mem_nil, or_false] at hp
  cases c <;> first
    | cases hc; done
    | rcases hp with rfl | rfl | rfl <;> simp [writes]

/-! The ways in which an instruction checks that the vault is not frozen. -/

theorem ensures_active {v : AgentVault} {e : SigilError} {f : Unit → Result (Ledger D)} :
    Ensures (v.status ≠ .frozen) (ensure (v.status = .active) e >>= f) :=
  .require fun h => by simp [h]

theorem ensures_isActive {v : AgentVault} {e : SigilError} {f : Unit → Result (Ledger D)} :
    Ensures (v.status ≠ .frozen) (ensure (v.isActive = true) e >>= f) :=
  .require fun h => by simp_all [AgentVault.isActive]

theorem ensures_not_frozen {v : AgentVault} {e : SigilError} {f : Unit → Result (Ledger D)} :
    Ensures (v.status ≠ .frozen) (ensure (v.status ≠ .frozen) e >>= f) :=
  .require id

variable {env : Env} {c : Call D} {l l' : Ledger D} {a : VaultAccounts D}

theorem Ledger.loadAsOwner_ensures {p : Prop} {owner : Pubkey}
    {f : VaultAccounts D → Result (Ledger D)} (ha : l.live = some a) (h : Ensures p (f a)) :
    Ensures p (l.loadAsOwner owner >>= f) := by
  intro b hb
  obtain ⟨a', ha', hf⟩ := seq_ok_iff.mp hb
  obtain rfl := Option.some.inj (ha.symm.trans (Ledger.loadAsOwner_ok_iff.mp ha').1)
  exact h b hf

variable [Host D] [DecidableEq D]

theorem exec_frozen (h : exec env l c = .ok l') (ha : l.live = some a)
    (hfrozen : a.vault.status = .frozen) : c.worksFrozen = true ∨ c.endsFreeze = true := by
  cases c <;> try first | exact .inl rfl | exact .inr rfl
  case initializeVault =>
    obtain ⟨hnew, -⟩ := initializeVault_ok h
    cases hnew.symm.trans ha
  case setObserveOnly newValue =>
    cases newValue with
    | true => exact .inl rfl
    | false =>
      simp [exec, setObserveOnly, Ledger.loadAsOwner_ok_iff, ha, hfrozen, seq_ok_iff,
        ensure_ok_iff] at h
  case acceptOwnershipTransferMultisig => exact absurd h acceptOwnershipTransferMultisig_ne_ok
  -- each of the others checks the status of the accounts it has loaded
  all_goals
    refine absurd hfrozen ((?_ : Ensures (a.vault.status ≠ .frozen) _) _ h)
    first
      | refine Ledger.loadAsOwner_ensures ha ?_
      | refine Ensures.okOr ha ?_
    repeat first
      | with_reducible exact ensures_active
      | with_reducible exact ensures_isActive
      | with_reducible exact ensures_not_frozen
      | refine Ensures.later fun _ => ?_

end Accepted

section Shut

variable {D : Type} [Host D]

/-- What has become of a frozen vault that was not reactivated. -/
structure Shut (l l' : Ledger D) (a a' : VaultAccounts D) : Prop where
  frozen : a'.vault.status = .frozen
  owner : a'.vault.owner = a.vault.owner
  agents : ∀ e' ∈ a'.vault.agents, ∃ e ∈ a.vault.agents, e'.pubkey = e.pubkey ∧
    e'.capability ≤ e.capability ∧ e'.spendingLimitUsd = e.spendingLimitUsd ∧
    (e.paused = true → e'.paused = true)
  observeOnly : a.vault.observeOnly = true → a'.vault.observeOnly = true
  guards : a'.policy.core = a.policy.core
  graylist : a'.policy.destinationGraylist = a.policy.destinationGraylist
  sessions : ∀ address s, l'.sessions address = some s → l.sessions address = some s

variable {l l' m : Ledger D} {a a' b : VaultAccounts D}

theorem Shut.refl (h : a.vault.status = .frozen) : Shut l l a a where
  frozen := h
  owner := rfl
  agents := fun e he => ⟨e, he, rfl, UInt8.le_refl _, rfl, id⟩
  observeOnly := id
  guards := rfl
  graylist := rfl
  sessions := fun _ _ => id

theorem Shut.trans (h : Shut l m a b) (h' : Shut m l' b a') : Shut l l' a a' where
  frozen := h'.frozen
  owner := h'.owner.trans h.owner
  agents := by
    intro e' he'
    obtain ⟨f, hf, hkey', hcapability', hlimit', hpaused'⟩ := h'.agents e' he'
    obtain ⟨e, he, hkey, hcapability, hlimit, hpaused⟩ := h.agents f hf
    exact ⟨e, he, hkey'.trans hkey, UInt8.le_trans hcapability' hcapability, hlimit'.trans hlimit,
      hpaused' ∘ hpaused⟩
  observeOnly := h'.observeOnly ∘ h.observeOnly
  guards := h'.guards.trans h.guards
  graylist := h'.graylist.trans h.graylist
  sessions := fun address s hs => h.sessions address s (h'.sessions address s hs)

theorem AgentOrigin.kept_of_worksFrozen {env : Env} {c : Call D} {e' : AgentEntry}
    (h : AgentOrigin env l a c e') (hc : c.worksFrozen = true) :
    ∃ e ∈ a.vault.agents, e'.pubkey = e.pubkey ∧ e'.capability ≤ e.capability ∧
      e'.spendingLimitUsd = e.spendingLimitUsd ∧ (e.paused = true → e'.paused = true) := by
  cases h with
  | kept he hkey hcapability hlimit hpaused => exact ⟨_, he, hkey, hcapability, hlimit, hpaused⟩
  | unpaused | registered | grafted | granted | changed => cases hc

variable [DecidableEq D] {env : Env} {c : Call D}

theorem exec_shut (h : exec env l c = .ok l') (ha : l.live = some a)
    (hfrozen : a.vault.status = .frozen) (hends : c.endsFreeze = false) :
    ∃ a', l'.live = some a' ∧ Shut l l' a a' := by
  have hc : c.worksFrozen = true := (exec_frozen h ha hfrozen).resolve_right (by simp [hends])
  obtain ⟨a', ha', hcore⟩ :=
    (exec_frame h (Call.spares_of_worksFrozen hc (p := .guards) (by simp))).exists_after ha
  have hcustody :=
    (exec_frame h (Call.spares_of_worksFrozen hc (p := .custody) (by simp))).eq ha ha'
  have hgraylist :=
    (exec_frame h (Call.spares_of_worksFrozen hc (p := .graylist) (by simp))).eq ha ha'
  refine ⟨a', ha', ?_, congrArg Prod.fst hcustody, fun e' he' => ?_, ?_, hcore, hgraylist, ?_⟩
  · by_cases hstatus : Part.status ∉ c.writes
    · exact (congrArg Prod.fst ((exec_frame h hstatus).eq ha ha')).trans hfrozen
    rw [not_not] at hstatus
    cases c <;> first | cases hc; done | simp [Call.writes] at hstatus
    case revokeAgent agent =>
      obtain ⟨b, version, hb, -, -, -, rfl⟩ := revokeAgent_ok h
      cases ha.symm.trans hb
      cases ha'
      rcases a.vault.removeAgent_status agent env.clock with ⟨-, hstatus, -⟩ | ⟨-, hstatus, -⟩
      · exact hstatus
      · exact hstatus.trans hfrozen
  · obtain ⟨b, hb, horigin⟩ := exec_origin h ha' he'
    cases ha.symm.trans hb
    exact horigin.kept_of_worksFrozen hc
  · intro hobserve
    by_cases hwrites : Part.observeOnly ∉ c.writes
    · exact ((exec_frame h hwrites).eq ha ha').trans hobserve
    rw [not_not] at hwrites
    cases c <;> first | cases hc; done | simp [Call.writes] at hwrites
    case setObserveOnly newValue =>
      obtain ⟨b, version, -, -, -, -, rfl⟩ := setObserveOnly_ok h
      cases ha'
      exact hc
  · intro address s hs
    by_cases hwrites : Part.sessions ∉ c.writes
    · exact (congrFun (exec_frame h hwrites) address).symm.trans hs
    rw [not_not] at hwrites
    cases c <;> first | cases hc; done | simp [Call.writes] at hwrites
    case finalizeSession args =>
      obtain ⟨b, t, revoked, outcome, vault, tracker, hclosed⟩ := finalizeSession_ok h
      rw [hclosed.result] at hs
      exact eq_some_of_update_none hs

theorem exec_frozen_tokens (h : exec env l c = .ok l') (ha : l.live = some a)
    (hfrozen : a.vault.status = .frozen) (hends : c.endsFreeze = false) :
    l'.tokens = l.tokens ∨ c.isOwnerFunds = true ∧ c.signer = a.vault.owner ∨
      ∃ args s, c = .finalizeSession args ∧ l.sessions args.session = some s := by
  have hc : c.worksFrozen = true := (exec_frozen h ha hfrozen).resolve_right (by simp [hends])
  by_cases htokens : Part.tokens ∉ c.writes
  · exact .inl (exec_frame h htokens)
  rw [not_not] at htokens
  cases c <;> first | cases hc; done | simp [Call.writes] at htokens
  case depositFunds =>
    obtain ⟨b, deposited, tokens, hb, howner, -⟩ := depositFunds_ok h
    cases ha.symm.trans hb
    exact .inr (.inl ⟨rfl, howner.symm⟩)
  case withdrawFunds =>
    obtain ⟨b, withdrawn, tokens, hb, howner, -⟩ := withdrawFunds_ok h
    cases ha.symm.trans hb
    exact .inr (.inl ⟨rfl, howner.symm⟩)
  case finalizeSession args =>
    obtain ⟨b, s, revoked, outcome, vault, tracker, hclosed⟩ := finalizeSession_ok h
    exact .inr (.inr ⟨args, s, rfl, hclosed.session⟩)

theorem run_shut {bs : List (Action D)} (hrun : Run Step l bs m) (ha : l.live = some a)
    (hfrozen : a.vault.status = .frozen) (hbs : ∀ x ∈ bs, ¬ x.Calls Call.endsFreeze) :
    ∃ b, m.live = some b ∧ Shut l m a b := by
  refine hrun.invariant_of (P := fun m => ∃ b, m.live = some b ∧ Shut l m a b) ?_ hbs
    ⟨a, ha, .refl hfrozen⟩
  rintro m x m' hx ⟨b, hb, hshut⟩ hstep
  cases hstep with
  | call h =>
    obtain ⟨b', hb', hnext⟩ := exec_shut h hb hshut.frozen (Bool.eq_false_iff.mpr hx)
    exact ⟨b', hb', hshut.trans hnext⟩
  | foreign =>
    exact ⟨b, hb, hshut.frozen, hshut.owner, hshut.agents, hshut.observeOnly, hshut.guards,
      hshut.graylist, hshut.sessions⟩

end Shut

section Cooldown

variable {D : Type}

def Call.Freezes (l' : Ledger D) : Call D → Prop
  | freezeVault .. => True
  | revokeAgent .. => ∀ a ∈ l'.live, a.vault.agents = []
  | _ => False

variable [Host D] [DecidableEq D]

def LastFrozenAt (l₀ : Ledger D) (as : List (Action D)) (l : Ledger D) (time : ℤ) : Prop :=
  ∃ front env c back m m', as = front ++ .call env c :: back ∧ env.clock.unixTimestamp = time ∧
    Run Step l₀ front m ∧ exec env m c = .ok m' ∧ c.Freezes m' ∧
    Run (fun n x n' => Step n x n' ∧ ∀ env c, x = .call env c → ¬ c.Freezes n') m' back l

variable {env : Env} {c : Call D} {l₀ l l' : Ledger D} {as : List (Action D)}
  {a a' : VaultAccounts D}

theorem exec_frozenAt (h : exec env l c = .ok l') (ha' : l'.live = some a')
    (hfrozen : a'.vault.status = .frozen) :
    c.Freezes l' ∧ a'.vault.frozenAtTimestamp = env.clock.unixTimestamp ∨
      ¬ c.Freezes l' ∧ ∃ a, l.live = some a ∧ a.vault.status = .frozen ∧
        a.vault.frozenAtTimestamp = a'.vault.frozenAtTimestamp := by
  by_cases hstatus : Part.status ∉ c.writes
  · have hnot : ¬ c.Freezes l' := by
      cases c <;> first | exact id | simp [Call.writes] at hstatus
    obtain ⟨a, ha, hsame⟩ := (exec_frame h hstatus).exists_before ha'
    have hbefore : a.vault.status = .frozen := (congrArg Prod.fst hsame).symm.trans hfrozen
    exact .inr ⟨hnot, a, ha, hbefore, (congrArg Prod.snd hsame).symm⟩
  rw [not_not] at hstatus
  cases c <;> simp [Call.writes, Part.ofVault] at hstatus
  case initializeVault =>
    obtain ⟨-, -, -, -, -, -, rfl⟩ := initializeVault_ok h
    cases ha'
    cases hfrozen
  case closeVault =>
    obtain ⟨a, -, -, -, -, -, rfl⟩ := closeVault_ok h
    cases ha'
  case freezeVault =>
    obtain ⟨a, pendingOwner, tokens, -, -, -, rfl⟩ := freezeVault_ok h
    cases ha'
    exact .inl ⟨trivial, rfl⟩
  case reactivateVault =>
    obtain ⟨a, g, version, -, -, -, -, -, rfl⟩ := reactivateVault_ok h
    cases ha'
    cases hfrozen
  case revokeAgent agent =>
    obtain ⟨a, version, ha, -, -, -, rfl⟩ := revokeAgent_ok h
    cases ha'
    rcases a.vault.removeAgent_status agent env.clock
      with ⟨hempty, -, htime⟩ | ⟨hsome, hsame, htime⟩
    · refine .inl ⟨fun b hb => ?_, htime⟩
      cases hb
      exact hempty
    · refine .inr ⟨fun hfreezes => hsome (hfreezes _ rfl), a, ha, ?_, htime.symm⟩
      exact hsame.symm.trans hfrozen

theorem run_lastFrozenAt (hrun : Run Step l₀ as l) (h₀ : l₀.Genesis) (ha : l.live = some a)
    (hfrozen : a.vault.status = .frozen) : LastFrozenAt l₀ as l a.vault.frozenAtTimestamp := by
  refine hrun.induct (P := fun as m => ∀ a, m.live = some a → a.vault.status = .frozen →
    LastFrozenAt l₀ as m a.vault.frozenAtTimestamp) (fun a ha => ?_) ?_ a ha hfrozen
  · cases h₀.live.symm.trans ha
  intro as m x m' hrun ih hstep a' ha' hfrozen
  have hlater : ∀ {time : ℤ}, LastFrozenAt l₀ as m time →
      (∀ env c, x = .call env c → ¬ c.Freezes m') → LastFrozenAt l₀ (as ++ [x]) m' time := by
    rintro time ⟨front, env, c, back, n, n', rfl, htime, hfront, hexec, hfreezes, hback⟩ hnot
    exact ⟨front, env, c, back ++ [x], n, n', by simp, htime, hfront, hexec, hfreezes,
      hback.snoc ⟨hstep, hnot⟩⟩
  cases hstep with
  | foreign => exact hlater (ih a' ha' hfrozen) (fun _ _ h => nomatch h)
  | @call env c _ _ hexec =>
    rcases exec_frozenAt hexec ha' hfrozen with ⟨hfreezes, htime⟩ | ⟨hnot, a, ha, hbefore, htime⟩
    · exact ⟨as, env, c, [], m, m', rfl, htime.symm, hrun, hexec, hfreezes, .nil _⟩
    · refine htime ▸ hlater (ih a ha hbefore) ?_
      rintro _ _ ⟨⟩
      exact hnot

/-- While a vault stays frozen no right is gained, no guard changes and no session is opened, and
its tokens are moved by the owner or by the end of a session from before. It is not reactivated
earlier than 300 seconds after it was last frozen. -/
theorem freeze_is_one_way_gate (h₀ : l₀.Genesis) (hreach : Run Step l₀ as l) (ha : l.live = some a)
    (hfrozen : a.vault.status = .frozen) :
    (∀ bs m, Run Step l bs m → (∀ x ∈ bs, ¬ x.Calls Call.endsFreeze) →
      ∃ b, m.live = some b ∧ Shut l m a b ∧
        ∀ env c m', exec env m c = .ok m' → c.endsFreeze = false →
          m'.tokens = m.tokens ∨ c.isOwnerFunds = true ∧ c.signer = a.vault.owner ∨
            ∃ args s, c = .finalizeSession args ∧ l.sessions args.session = some s) ∧
    ∀ env owner remaining newAgent newCapability l',
      exec env l (.reactivateVault owner remaining newAgent newCapability) = .ok l' →
        ∃ time, LastFrozenAt l₀ as l time ∧ time + 300 ≤ env.clock.unixTimestamp := by
  refine ⟨fun bs m hrun hbs => ?_, fun env owner remaining newAgent newCapability l' hexec => ?_⟩
  · obtain ⟨b, hb, hshut⟩ := run_shut hrun ha hfrozen hbs
    refine ⟨b, hb, hshut, fun env c m' hexec hends => ?_⟩
    rcases exec_frozen_tokens hexec hb hshut.frozen hends with
      hsame | ⟨hfunds, hsigner⟩ | ⟨args, s, rfl, hs⟩
    · exact .inl hsame
    · exact .inr (.inl ⟨hfunds, hsigner.trans hshut.owner⟩)
    · exact .inr (.inr ⟨args, s, rfl, hshut.sessions _ _ hs⟩)
  · obtain ⟨b, hb, -, hcooled⟩ := reactivateVault_cooled hexec
    cases ha.symm.trans hb
    exact ⟨_, run_lastFrozenAt hreach h₀ ha hfrozen, hcooled⟩

end Cooldown

section Sample

def frozenLedger : Ledger Preimage :=
  after (sampleEnv 2000 8) sampleLedger (.freezeVault (sampleKey 1) [])

def watchingLedger : Ledger Preimage :=
  after (sampleEnv 2100 9) frozenLedger (.setObserveOnly (sampleKey 1) [] true)

def thawCall : Call Preimage :=
  .reactivateVault (sampleKey 1) [] (some (sampleKey 5)) (some capabilityObserver)

theorem frozenLedger_ok :
    (exec (sampleEnv 2000 8) sampleLedger (.freezeVault (sampleKey 1) [])).isOk = true ∧
      frozenLedger.live.any (fun a => a.vault.status = .frozen) = true ∧
      (exec (sampleEnv 2100 9) frozenLedger
        (.setObserveOnly (sampleKey 1) [] true)).isOk = true ∧
      (exec (sampleEnv 2300 10) frozenLedger thawCall).isOk = true := by
  decide +kernel

theorem step_frozenLedger : Step sampleLedger (.call (envAt 2000 8 (by decide))
    (.freezeVault (sampleKey 1) [])) frozenLedger :=
  .after frozenLedger_ok.1

theorem step_watchingLedger : Step frozenLedger (.call (envAt 2100 9 (by decide))
    (.setObserveOnly (sampleKey 1) [] true)) watchingLedger :=
  .after frozenLedger_ok.2.2.1

attribute [irreducible] frozenLedger watchingLedger

theorem freeze_is_one_way_gate_thaw :
    ∃ as a b, frozenLedger.live = some a ∧ a.vault.status = .frozen ∧
      watchingLedger.live = some b ∧ Shut frozenLedger watchingLedger a b ∧
      ∃ time, LastFrozenAt emptyLedger as frozenLedger time ∧ time + 300 ≤ 2300 := by
  obtain ⟨a, ha, hfrozen⟩ := Option.any_eq_true _ _ |>.mp frozenLedger_ok.2.1
  rw [decide_eq_true_eq] at hfrozen
  have hthaw : exec (envAt 2300 10 (by decide)) frozenLedger thawCall = .ok _ :=
    exec_after frozenLedger_ok.2.2.2
  obtain ⟨hshut, hcooled⟩ := freeze_is_one_way_gate genesis_emptyLedger
    ((Run.single step_sampleInitialize).snoc step_frozenLedger) ha hfrozen
  obtain ⟨b, hb, hwatching, -⟩ := hshut _ _ (.single step_watchingLedger)
    (by simp [Action.Calls, Call.endsFreeze])
  exact ⟨_, a, b, ha, hfrozen, hb, hwatching, hcooled _ _ _ _ _ _ hthaw⟩

end Sample

end Sigil
