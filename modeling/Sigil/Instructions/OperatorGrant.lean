import Sigil.System.Ledger

/-! # Operator grants

Granting an agent the right to spend is graded by how the vault is controlled: a single key
has to wait, a bound cosigner has to sign.
-/

namespace Sigil

open Machine

def singleKeyOperatorDelayFloor : UInt64 := 600

def maxOperatorGrantDelay : UInt64 := 172800

inductive OperatorGrantTier | multisig | cosignBound | singleKey
  deriving DecidableEq, Repr

def classifyOperatorGrantTier (ownerType : UInt8) (cosignRequired : Bool)
    (cosignSessionPubkey : Pubkey) : OperatorGrantTier :=
  if ownerType = ownerTypeMultisig then .multisig
  else if cosignRequired = true ∧ cosignSessionPubkey ≠ Pubkey.default then .cosignBound
  else .singleKey

def effectiveOperatorGrantDelay (tier : OperatorGrantTier) (configured : UInt64) : UInt64 :=
  match tier with
  | .singleKey => max configured singleKeyOperatorDelayFloor
  | .multisig | .cosignBound => configured

theorem le_castI64_effectiveOperatorGrantDelay {configured : UInt64}
    (h : configured ≤ maxOperatorGrantDelay) :
    600 ≤ castI64 (effectiveOperatorGrantDelay .singleKey configured) := by
  have hconfigured : configured.toNat ≤ 172800 := UInt64.le_iff_toNat_le.mp h
  have hfloor : singleKeyOperatorDelayFloor.toNat = 600 := rfl
  have hbounds : 600 ≤ (effectiveOperatorGrantDelay .singleKey configured).toNat ∧
      (effectiveOperatorGrantDelay .singleKey configured).toNat ≤ 172800 := by
    rw [effectiveOperatorGrantDelay, UInt64.toNat_max]
    omega
  unfold castI64
  split <;> omega

def operatorGrantIsInstantEligible (tier : OperatorGrantTier) (configured : UInt64) : Bool :=
  effectiveOperatorGrantDelay tier configured = 0 ∧ tier ≠ .singleKey

namespace VaultAccounts

variable {D : Type} (a : VaultAccounts D)

def operatorGrantTier : OperatorGrantTier :=
  classifyOperatorGrantTier a.vault.ownerType a.policy.cosignRequired
    a.policy.cosignSessionPubkey

/-- What an operator needs to be added at once: no delay is configured and a bound cosigner
signs. -/
def instantOperatorGate (remaining : List AccountMeta) : Result Unit := do
  ensure (operatorGrantIsInstantEligible a.operatorGrantTier
    a.policy.operatorGrantDelaySeconds = true) .errOperatorGrantRequiresTimelock
  ensure (a.operatorGrantTier = .cosignBound →
    remaining.any (fun m => m.isSigner ∧ m.pubkey = a.policy.cosignSessionPubkey) = true)
    .errCosignRequired

def registrationGate (remaining : List AccountMeta) (capability : UInt8) : Result Unit :=
  if capabilityOperator ≤ capability then a.instantOperatorGate remaining
  else a.cosignGate remaining

def pushAgent (agent : Pubkey) (capability : UInt8) (spendingLimitUsd : UInt64) :
    VaultAccounts D :=
  { a with vault := { a.vault with agents := a.vault.agents ++
    [⟨agent, capability, spendingLimitUsd, false, 0⟩] } }

variable {a} {remaining : List AccountMeta} {capability : UInt8} {u : Unit}

theorem operatorGrantTier_of_single (hsingle : a.vault.ownerType ≠ ownerTypeMultisig) :
    a.operatorGrantTier = .singleKey ∨ a.operatorGrantTier = .cosignBound ∧
      a.policy.cosignRequired = true ∧ a.policy.cosignSessionPubkey ≠ Pubkey.default := by
  by_cases hbound : a.policy.cosignRequired = true ∧ a.policy.cosignSessionPubkey ≠ Pubkey.default
  · exact .inr ⟨by simp [operatorGrantTier, classifyOperatorGrantTier, hsingle, hbound], hbound⟩
  · left
    rw [operatorGrantTier, classifyOperatorGrantTier, if_neg hsingle, if_neg hbound]

theorem instantOperatorGate_cosigned (h : a.instantOperatorGate remaining = .ok u)
    (hsingle : a.vault.ownerType ≠ ownerTypeMultisig) :
    a.policy.cosignRequired = true ∧
      hasBoundCosigner remaining a.policy.cosignSessionPubkey = true := by
  simp only [instantOperatorGate, Guard.seq_ok_iff, ensure_ok_iff, exists_and_left,
    exists_const] at h
  obtain ⟨heligible, hsigned⟩ := h
  rcases operatorGrantTier_of_single hsingle with htier | ⟨htier, hreq, hkey⟩
  · simp [operatorGrantIsInstantEligible, htier] at heligible
  · exact ⟨hreq, by simpa [hasBoundCosigner, hkey] using hsigned htier⟩

/-- While cosigning is required, no agent is added without the bound cosigner, unless the owner
is a multisig. -/
theorem registrationGate_cosigned (h : a.registrationGate remaining capability = .ok u)
    (hsingle : a.vault.ownerType ≠ ownerTypeMultisig) (hreq : a.policy.cosignRequired = true) :
    hasBoundCosigner remaining a.policy.cosignSessionPubkey = true := by
  unfold registrationGate at h
  split at h
  · exact (instantOperatorGate_cosigned h hsingle).2
  · exact cosignGate_ok_iff.mp h hreq

end VaultAccounts

end Sigil
