import Sigil.System.Footprint

/-! # The stored digest

In every reachable state the policy stores the digest of the fields that are live. Whatever
changes one of these fields stores the new digest along with it.
-/

namespace Sigil

open Guard Trace

section Invariant

variable {D : Type} [Host D] [DecidableEq D] {env : Env} {c : Call D} {l l' : Ledger D}

/-- A live vault stores the digest of its live fields. -/
def Ledger.DigestBound (l : Ledger D) : Prop := ∀ a, l.live = some a → a.IsSealed

/-- An instruction on a live vault leaves alone what the digest binds, or it is one of those that
store a fresh digest. -/
theorem exec_preview {a a' : VaultAccounts D} (h : exec env l c = .ok l') (ha : l.live = some a)
    (ha' : l'.live = some a') : c.reseals = true ∧ a'.IsSealed ∨ SamePreview a a' := by
  by_cases hc : c.isRoutine = true
  · obtain ⟨b, b', hb, hb', hkeeps, -⟩ := exec_routine h hc
    cases ha.symm.trans hb
    cases ha'.symm.trans hb'
    exact hkeeps.digest
  · cases c <;> try exact absurd rfl hc
    case initializeVault =>
      obtain ⟨hnew, -⟩ := initializeVault_ok h
      rw [hnew] at ha
      cases ha
    case closeVault =>
      obtain ⟨b, -, -, -, -, -, rfl⟩ := closeVault_ok h
      cases ha'
    case queuePolicyUpdate =>
      obtain ⟨b, bound, hb, -, -, -, -, -, rfl⟩ := queuePolicyUpdate_ok h
      cases ha.symm.trans hb
      cases ha'
      exact .inr ⟨rfl, rfl, rfl⟩
    case approvePendingPolicy =>
      obtain ⟨b, pending, hb, -, -, -, -, -, -, rfl⟩ := approvePendingPolicy_ok h
      cases ha.symm.trans ha'
      exact .inr ⟨rfl, rfl, rfl⟩
    case cancelPendingPolicy =>
      obtain ⟨b, hb, -, rfl⟩ := cancelPendingPolicy_ok h
      cases ha.symm.trans hb
      cases ha'
      exact .inr ⟨rfl, rfl, rfl⟩
    case applyPendingPolicy =>
      obtain ⟨b, pending, merged, applied, version, hb, -, -, -, -, -, hdigest, -, rfl, -, rfl⟩ :=
        applyPendingPolicy_ok h
      cases ha'
      exact .inl ⟨rfl, hdigest.symm⟩
    case acceptOwnershipTransfer =>
      obtain ⟨b, pending, version, hb, -, -, -, rfl⟩ := acceptOwnershipTransfer_ok h
      cases ha'
      exact .inl ⟨rfl, VaultAccounts.isSealed_sealedAt _ _⟩

theorem exec_digestBound (h : exec env l c = .ok l') (hl : l.DigestBound) : l'.DigestBound := by
  intro a' ha'
  cases ha : l.live with
  | some a =>
    rcases exec_preview h ha ha' with ⟨-, hsealed⟩ | hsame
    · exact hsealed
    · exact hsame.isSealed (hl a ha)
  | none =>
    rcases exec_exists_live h with ⟨b, hb⟩ | ⟨owner, feeDestination, args, rfl⟩
    · exact absurd (ha.symm.trans hb) nofun
    · obtain ⟨-, -, -, -, -, hdigest, rfl⟩ := initializeVault_ok h
      cases ha'
      exact hdigest.symm

theorem run_digestBound {l₀ : Ledger D} {as : List (Action D)} (hrun : Run Step l₀ as l)
    (h₀ : l₀.DigestBound) : l.DigestBound := by
  refine hrun.invariant (fun m a m' hm hstep => ?_) h₀
  cases hstep with
  | call h => exact exec_digestBound h hm
  | foreign => exact hm

/-- In every state that successful instructions reach from before the vault's creation, the stored
digest is that of the 25 live fields. An instruction that changes one of the fields, the keys or
the capabilities of the agents stores the digest of the new fields, and outside the instructions
that do so the digest is never written. -/
theorem policy_digest_invariant {l₀ l : Ledger D} {as : List (Action D)} (h₀ : l₀.live = none)
    (hrun : Run Step l₀ as l) :
    (∀ a, l.live = some a → a.policy.policyPreviewDigest =
      computePolicyPreviewDigest (previewFields a.vault a.policy)) ∧
    ∀ env c l' a a', exec env l c = .ok l' → l.live = some a → l'.live = some a' →
      (previewFields a'.vault a'.policy ≠ previewFields a.vault a.policy ∨
          a'.vault.boundAgents ≠ a.vault.boundAgents →
        c.reseals = true ∧ a'.policy.policyPreviewDigest =
          computePolicyPreviewDigest (previewFields a'.vault a'.policy)) ∧
      (c.reseals = false ∨ previewFields a'.vault a'.policy = previewFields a.vault a.policy →
        a'.policy.policyPreviewDigest = a.policy.policyPreviewDigest) := by
  have hl : l.DigestBound := run_digestBound hrun fun a ha => absurd (h₀.symm.trans ha) nofun
  refine ⟨hl, fun env c l' a a' h ha ha' => ⟨fun hchanged => ?_, fun hkept => ?_⟩⟩
  · rcases exec_preview h ha ha' with hsealed | hsame
    · exact hsealed
    · rcases hchanged with hfields | hagents
      · exact absurd hsame.fields hfields
      · exact absurd hsame.agents hagents
  · rcases exec_preview h ha ha' with ⟨hreseals, hsealed⟩ | hsame
    · rcases hkept with hnot | hfields
      · exact absurd (hreseals.symm.trans hnot) nofun
      · rw [hsealed, hl a ha, liveDigest, liveDigest, hfields]
    · exact hsame.digest

def sampleRegister : Call Preimage := .registerAgent (sampleKey 1) [] (sampleKey 9) 1 0

theorem policy_digest_invariant_register :
    (after (envAt 1000 7 (by decide)) sampleLedger sampleRegister).live.isSome = true ∧
      ∀ a, (after (envAt 1000 7 (by decide)) sampleLedger sampleRegister).live = some a →
        a.policy.policyPreviewDigest =
          computePolicyPreviewDigest (previewFields a.vault a.policy) :=
  have hregister : Step sampleLedger (.call (envAt 1000 7 (by decide)) sampleRegister)
      (after (envAt 1000 7 (by decide)) sampleLedger sampleRegister) :=
    .after (by decide +kernel)
  ⟨by decide +kernel,
    (policy_digest_invariant rfl ((Run.single step_sampleInitialize).snoc hregister)).1⟩

end Invariant

end Sigil
