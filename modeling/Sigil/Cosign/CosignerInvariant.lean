import Sigil.Cosign.SilentCosigner
import Sigil.System.PolicyOrigin

/-! # The cosigner is a second key

The owner and the bound cosigner change through different instructions, each after a delay. Still
they never are the same key, and a cosigner is bound whenever one is required. So the owner alone
passes none of the gates that ask for the cosigner.
-/

namespace Sigil

open Guard Trace

section Invariant

variable {D : Type}

structure VaultAccounts.SecondKey (a : VaultAccounts D) : Prop where
  distinct : a.policy.cosignSessionPubkey = Pubkey.default ∨
    a.policy.cosignSessionPubkey ≠ a.vault.owner
  bound : a.policy.cosignRequired = true → a.policy.cosignSessionPubkey ≠ Pubkey.default

variable {a a' : VaultAccounts D}

theorem VaultAccounts.SecondKey.handOver (h : a.SecondKey) (newOwner : Pubkey) :
    (a.handOver newOwner).SecondKey := by
  unfold VaultAccounts.handOver PolicyConfig.collapseCosigner
  split
  · exact ⟨.inl rfl, nofun⟩
  · rename_i hne
    exact ⟨.inr hne, h.bound⟩

variable [Host D]

theorem VaultAccounts.SecondKey.of_core (h : a.SecondKey) (hcore : a'.policy.core = a.policy.core)
    (howner : a'.vault.owner = a.vault.owner) : a'.SecondKey := by
  refine ⟨?_, ?_⟩
  · rw [cosignSessionPubkey_of_core hcore, howner]
    exact h.distinct
  · rw [cosignSessionPubkey_of_core hcore, cosignRequired_of_core hcore]
    exact h.bound

variable [DecidableEq D] {env : Env} {c : Call D} {l l' : Ledger D}

theorem exec_secondKey (h : exec env l c = .ok l') (hl : ∀ a ∈ l.live, a.SecondKey) :
    ∀ a' ∈ l'.live, a'.SecondKey := by
  intro a' ha'
  cases exec_policyOrigin h ha' with
  | kept ha hcore howner => exact (hl _ ha).of_core hcore howner
  | created _ _ hcosign ha' =>
    rw [ha']
    exact ⟨.inl rfl, fun hreq => absurd (hreq.symm.trans hcosign) nofun⟩
  | @applied _ a _ merged ha howner _ hmerged hcore hvault =>
    obtain ⟨graylist, -, -, -, hkey, hbound⟩ := applyUpdate_ok hmerged
    have hsecond : ({ a with policy := merged } : VaultAccounts D).SecondKey := by
      refine ⟨?_, hbound⟩
      by_cases hdefault : merged.cosignSessionPubkey = Pubkey.default
      · exact .inl hdefault
      · exact .inr (howner ▸ hkey hdefault)
    exact hsecond.of_core hcore (congrArg AgentVault.owner hvault)
  | @handedOver newOwner _ _ ha ha' =>
    rw [ha']
    exact ((hl _ ha).handOver newOwner).of_core rfl rfl

end Invariant

section Gates

variable {D : Type}

/-- The instructions with a gate that asks for the bound cosigner while one is required. -/
def Call.AsksCosigner (v : AgentVault) : Call D → Prop
  | cancelAgentGrant .. | cancelAgentPermissionsUpdate .. | cancelOwnershipTransfer .. => True
  | queueAgentPermissionsUpdate _ _ agent newCapability spendingLimitUsd cooldownSeconds _ =>
    ∃ live ∈ v.getAgent agent, live.capability < newCapability ∨
      live.spendingLimitUsd < spendingLimitUsd ∨ cooldownSeconds ≠ 0
  | c => c.escalates = true

variable [Host D] [DecidableEq D] {env : Env} {c : Call D} {l l' : Ledger D} {a : VaultAccounts D}

theorem exec_asksCosigner (h : exec env l c = .ok l') (hc : c.AsksCosigner a.vault)
    (ha : l.live = some a) (hsingle : a.vault.ownerType ≠ ownerTypeMultisig)
    (hreq : a.policy.cosignRequired = true) : c.SignedBy a.policy.cosignSessionPubkey := by
  by_cases hescalates : c.escalates = true
  · exact exec_escalates h hescalates ha hsingle hreq
  cases c <;> try exact absurd hc hescalates
  case cancelAgentGrant =>
    obtain ⟨b, hb, -, hcosign, -⟩ := cancelAgentGrant_ok h
    exact signedBy_of_gate ha hb hreq hcosign
  case queueAgentPermissionsUpdate =>
    obtain ⟨live, hlive, hmore⟩ := hc
    obtain ⟨b, pending, hb, -, hcosign, -⟩ := queueAgentPermissionsUpdate_ok h
    cases ha.symm.trans hb
    exact Call.signedBy_of_hasBoundCosigner (hcosign live hlive hreq hmore)
  case cancelAgentPermissionsUpdate =>
    obtain ⟨b, hb, -, hcosign, -⟩ := cancelAgentPermissionsUpdate_ok h
    exact signedBy_of_gate ha hb hreq hcosign
  case cancelOwnershipTransfer =>
    obtain ⟨b, hb, hcosign, -⟩ := cancelOwnershipTransfer_ok h
    exact signedBy_of_gate ha hb hreq hcosign

/-- In every reachable state the cosigner is unbound or another key than the owner, and it is bound
if it is required. Then an instruction that asks for it fails when only the owner signs. -/
theorem cosigner_is_second_key {l₀ : Ledger D} {as : List (Action D)} (h₀ : l₀.Genesis)
    (hreach : Run Step l₀ as l) (ha : l.live = some a) :
    (a.policy.cosignSessionPubkey = Pubkey.default ∨
      a.policy.cosignSessionPubkey ≠ a.vault.owner) ∧
    (a.policy.cosignRequired = true → a.policy.cosignSessionPubkey ≠ Pubkey.default) ∧
    ∀ env c l', a.policy.cosignRequired = true → c.AsksCosigner a.vault →
      (∀ key, c.SignedBy key → key = a.vault.owner) → exec env l c ≠ .ok l' := by
  have hsecond : a.SecondKey := forall_live_of_run hreach h₀ exec_secondKey a ha
  refine ⟨hsecond.distinct, hsecond.bound, fun env c l' hreq hasks halone hexec => ?_⟩
  have hkey := halone _ (exec_asksCosigner hexec hasks ha (ownerType_ne_multisig h₀ hreach ha)
    hreq)
  exact hsecond.distinct.elim (hsecond.bound hreq) fun hne => hne hkey

end Gates

section Sample

theorem cosigner_is_second_key_close :
    ∃ a, cosignedLedger.live = some a ∧ a.policy.cosignRequired = true ∧
      a.policy.cosignSessionPubkey ≠ Pubkey.default ∧
      ∀ env l', exec env cosignedLedger (.closeVault a.vault.owner []) ≠ .ok l' := by
  have hlive : cosignedLedger.live.any (fun a => a.policy.cosignRequired) = true := by
    decide +kernel
  obtain ⟨a, ha⟩ : ∃ a, cosignedLedger.live = some a := by
    cases h : cosignedLedger.live with
    | none => simp [h] at hlive
    | some a => exact ⟨a, rfl⟩
  have hreq : a.policy.cosignRequired = true := by rwa [ha] at hlive
  have hreach := ((Run.single step_sampleInitialize).snoc step_enablingLedger).snoc
    step_cosignedLedger
  obtain ⟨-, hbound, halone⟩ := cosigner_is_second_key genesis_emptyLedger hreach ha
  refine ⟨a, ha, hreq, hbound hreq, fun env l' => halone env _ l' hreq rfl fun key hkey => ?_⟩
  rcases hkey with rfl | ⟨m, hm, -⟩
  · rfl
  · cases hm

end Sample

end Sigil
