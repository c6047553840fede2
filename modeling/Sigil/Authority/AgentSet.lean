import Sigil.System.AgentOrigin
import Sigil.System.AgentRegistry

/-! # The set of agents

Along every run the agents of a vault have distinct keys, there are at most ten, and none has more
than the full capability. That the owner is none of them is checked when an agent is added, but a
transfer of ownership and a grant that waited do not check it again. As long as no agent accepts
the ownership, and no grant for the owner is applied, the owner stays apart from the agents.
-/

namespace Sigil

open Guard Trace

def AgentVault.Capped (v : AgentVault) : Prop := ∀ e ∈ v.agents, e.capability ≤ fullCapability

section Runs

variable {D : Type} [Host D] {env : Env} {c : Call D} {l l' : Ledger D} {a a' : VaultAccounts D}
  {e : AgentEntry}

theorem AgentOrigin.capable (h : AgentOrigin env l a c e) (ha : a.vault.Capped) :
    e.capability ≤ fullCapability := by
  cases h with
  | kept he _ hcapability => exact UInt8.le_trans hcapability (ha _ he)
  | @unpaused _ _ _ e he => exact ha e (List.mem_of_find?_eq_some he)
  | registered heligible => exact heligible.capable
  | grafted heligible => exact heligible.capable
  | granted _ hready => exact hready.capable
  | changed hready => exact hready.capable

/-- The two instructions that do not check that owner and agents differ meet a state in which they
would. -/
def Call.KeepsApart (l : Ledger D) (a : VaultAccounts D) : Call D → Prop
  | acceptOwnershipTransfer newOwner => a.vault.isAgent newOwner = false
  | applyAgentGrant .. => ∀ p ∈ l.pendingGrant, p.agent ≠ a.vault.owner
  | _ => True

/-- The owner is not an agent. -/
def AgentVault.Apart (v : AgentVault) : Prop := ∀ e ∈ v.agents, e.pubkey ≠ v.owner

theorem AgentOrigin.apart (h : AgentOrigin env l a c e) (ha : a.vault.Apart)
    (hc : c.KeepsApart l a) : e.pubkey ≠ a.vault.owner := by
  cases h with
  | kept he hkey => exact hkey ▸ ha _ he
  | @unpaused _ _ _ e he => exact ha e (List.mem_of_find?_eq_some he)
  | registered heligible => exact heligible.notOwner
  | grafted heligible => exact heligible.notOwner
  | granted hp => exact hc _ hp
  | @changed _ _ _ _ e _ he => exact ha e (List.mem_of_find?_eq_some he)

variable [DecidableEq D]

def ApartStep (l : Ledger D) (action : Action D) (l' : Ledger D) : Prop :=
  Step l action l' ∧ ∀ env c a, action = .call env c → l.live = some a → c.KeepsApart l a

theorem ApartStep.of_step (h : Step l (.call env c) l')
    (hc : ∀ a, l.live = some a → c.KeepsApart l a) : ApartStep l (.call env c) l' :=
  ⟨h, by
    rintro _ _ a ⟨⟩ ha
    exact hc a ha⟩

theorem exec_capped (h : exec env l c = .ok l') (hl : ∀ a ∈ l.live, a.vault.Capped) :
    ∀ a ∈ l'.live, a.vault.Capped := by
  intro a' ha' e he
  obtain ⟨a, ha, horigin⟩ := exec_origin h ha' he
  exact horigin.capable (hl a ha)

theorem exec_apart (h : exec env l c = .ok l') (hl : ∀ a ∈ l.live, a.vault.Apart)
    (hc : ∀ a ∈ l.live, c.KeepsApart l a) : ∀ a ∈ l'.live, a.vault.Apart := by
  intro a' ha' e he
  obtain ⟨a, ha, horigin⟩ := exec_origin h ha' he
  by_cases hcustody : Part.custody ∉ c.writes
  · have howner : a'.vault.owner = a.vault.owner :=
      congrArg Prod.fst (Ledger.Agree.eq (exec_frame h hcustody) ha ha')
    rw [howner]
    exact horigin.apart (hl a ha) (hc a ha)
  -- the owner changes: the agents are the old ones, and the new owner is not among them
  rw [not_not] at hcustody
  cases c <;> simp [Call.writes, Part.ofVault] at hcustody
  case initializeVault =>
    obtain ⟨-, -, -, -, -, -, rfl⟩ := initializeVault_ok h
    cases ha'
    cases he
  case closeVault =>
    obtain ⟨b, -, -, -, -, -, rfl⟩ := closeVault_ok h
    cases ha'
  case acceptOwnershipTransfer newOwner =>
    obtain ⟨b, pending, version, hb, -, -, -, rfl⟩ := acceptOwnershipTransfer_ok h
    cases ha.symm.trans hb
    cases ha'
    intro heq
    have hagent : a.vault.isAgent newOwner = true :=
      List.any_eq_true.mpr ⟨e, he, decide_eq_true heq⟩
    cases (hc a ha).symm.trans hagent

/-- Along every run the agents have distinct real keys, they are at most ten, and none has more
than the full capability; and when every step keeps the owner apart, the owner is no agent. -/
theorem agent_set_wellFormed {as : List (Action D)} (hrun : Run Step l as l') (hl : l.Genesis)
    (ha : l'.live = some a) : Registry a.vault.keys ∧ a.vault.Capped ∧
      (Run ApartStep l as l' → a.vault.owner ∉ a.vault.keys) := by
  refine ⟨(run_registered hrun hl).agents a ha, ?_, fun hapart hmem => ?_⟩
  · exact forall_live_of_run hrun hl exec_capped a ha
  · obtain ⟨e, he, howner⟩ := List.mem_map.mp hmem
    refine hapart.invariant (P := fun m => ∀ a ∈ m.live, a.vault.Apart) ?_ (by simp [hl.live])
      a ha e he howner
    rintro m action m' hm ⟨hstep, hkeeps⟩
    cases hstep with
    | call hexec => exact exec_apart hexec hm fun a ha => hkeeps _ _ a rfl ha
    | foreign => exact hm

end Runs

section Sample

def joinCall (agent : Pubkey) : Call Preimage :=
  .registerAgent (sampleKey 1) [] agent capabilityObserver 0

/-- The actions of a run in which an observer joins before the transfer is accepted. -/
def joiningRun (agent : Pubkey) : List (Action Preimage) :=
  [.call (sampleEnv 1000 7) sampleInitialize,
    .call (sampleEnv 2000 8) sampleInitiate,
    .call (sampleEnv 3000 9) (joinCall agent),
    .call (sampleEnv 174800 400000) sampleAccept]

def joinedLedger (agent : Pubkey) : Ledger Preimage :=
  after (sampleEnv 3000 9) leavingLedger (joinCall agent)

def takenLedger (agent : Pubkey) : Ledger Preimage :=
  after (sampleEnv 174800 400000) (joinedLedger agent) sampleAccept

theorem run_joining {agent : Pubkey}
    (hjoin : (exec (envAt 3000 9 (by decide)) leavingLedger (joinCall agent)).isOk = true)
    (htake : (exec (envAt 174800 400000 (by decide)) (joinedLedger agent) sampleAccept).isOk =
      true) :
    Run Step emptyLedger (joiningRun agent) (takenLedger agent) :=
  .snoc (.snoc (.snoc (.single step_sampleInitialize) step_leavingLedger) (.after hjoin))
    (.after htake)

theorem run_apart_joining : Run ApartStep emptyLedger (joiningRun (sampleKey 5))
    (takenLedger (sampleKey 5)) := by
  have hjoin : Step leavingLedger _ (joinedLedger (sampleKey 5)) := .after (by decide +kernel)
  have htake : Step (joinedLedger (sampleKey 5)) _ (takenLedger (sampleKey 5)) :=
    .after (by decide +kernel)
  have hother : (joinedLedger (sampleKey 5)).live.all
      (fun a => a.vault.isAgent (sampleKey 9) = false) = true := by decide +kernel
  refine .snoc (.snoc (.snoc (.single (.of_step step_sampleInitialize fun _ _ => trivial))
    (.of_step step_leavingLedger fun _ _ => trivial)) (.of_step hjoin fun _ _ => trivial))
    (.of_step htake fun a ha => ?_)
  rw [ha, Option.all_some, decide_eq_true_eq] at hother
  exact hother

theorem agent_set_wellFormed_joining : ∃ a, (takenLedger (sampleKey 5)).live = some a ∧
    Registry a.vault.keys ∧ a.vault.Capped ∧ a.vault.owner ∉ a.vault.keys := by
  have hlive : (takenLedger (sampleKey 5)).live.isSome = true := by decide +kernel
  obtain ⟨a, ha⟩ := Option.isSome_iff_exists.mp hlive
  obtain ⟨hregistry, hcapped, hapart⟩ := agent_set_wellFormed
    (run_joining (by decide +kernel) (by decide +kernel)) genesis_emptyLedger ha
  exact ⟨a, ha, hregistry, hcapped, hapart run_apart_joining⟩

/-- The successor is added as an agent while the transfer waits, and then owns the vault. -/
theorem owner_becomes_agent : ∃ as l a, Run Step emptyLedger as l ∧ l.live = some a ∧
    a.vault.owner ∈ a.vault.keys := by
  have howner : (takenLedger (sampleKey 9)).live.any
      (fun a => a.vault.owner ∈ a.vault.keys) = true := by decide +kernel
  have hlive : (takenLedger (sampleKey 9)).live.isSome = true := by decide +kernel
  obtain ⟨a, ha⟩ := Option.isSome_iff_exists.mp hlive
  rw [ha, Option.any_some, decide_eq_true_eq] at howner
  exact ⟨_, _, a, run_joining (by decide +kernel) (by decide +kernel), ha, howner⟩

end Sample

end Sigil
