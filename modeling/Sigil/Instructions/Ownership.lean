import Sigil.Instructions.Agents

/-! # Ownership transfer

The owner names a successor, and after a delay the successor takes the vault over. Custody by a
multisig is refused at both ends.
-/

namespace Sigil

open Machine Guard

def sysvarClockId : Pubkey :=
  ⟨[6, 167, 213, 23, 24, 199, 116, 201, 40, 86, 99, 152, 105, 29, 94, 182, 139, 94, 184, 163, 155,
    75, 109, 92, 115, 85, 91, 33, 0, 0, 0, 0], rfl⟩

def sysvarSlotHashesId : Pubkey :=
  ⟨[6, 167, 213, 23, 25, 47, 10, 175, 198, 242, 101, 227, 251, 119, 204, 122, 218, 130, 197, 41,
    208, 190, 59, 19, 110, 45, 0, 85, 32, 0, 0, 0], rfl⟩

def sysvarRentId : Pubkey :=
  ⟨[6, 167, 213, 23, 25, 44, 92, 81, 33, 140, 201, 76, 61, 74, 241, 127, 88, 218, 238, 8, 155,
    161, 253, 68, 227, 219, 217, 138, 0, 0, 0, 0], rfl⟩

/-- Keys that nobody can sign for. -/
def invalidOwnershipTargets : List Pubkey :=
  [Pubkey.default, programId, systemProgramId, tokenProgramId, sysvarClockId, sysvarSlotHashesId,
    sysvarRentId]

section Ownership

variable {D : Type}

def initiateOwnershipTransfer (env : Env) (owner : Pubkey) (remaining : List AccountMeta)
    (newOwner : Pubkey) (isMultisigTarget : Bool) (l : Ledger D) : Result (Ledger D) := do
  let a ← l.loadAsOwner owner
  mustBeNew l.pendingOwner
  rejectCpi env
  ensure (a.vault.status = .active) .vaultNotActive
  ensure (isMultisigTarget = false) .errMultisigCustodyUnsupported
  ensure (newOwner ∉ invalidOwnershipTargets) .errInvalidOwnershipTarget
  ensure (newOwner ≠ a.vault.owner) .errInvalidOwnershipTarget
  a.cosignGate remaining
  ensure (a.policy.cosignRequired = true →
    ∀ m ∈ remaining, m.isSigner = true ∧ m.pubkey ≠ owner → m.pubkey ≠ newOwner)
    .errInvalidOwnershipTarget
  return { l with pendingOwner := some {
    vault := l.vaultKey
    currentOwner := owner
    newOwner := newOwner
    queuedAt := env.clock.unixTimestamp
    minDelaySeconds := PendingOwnershipTransfer.defaultMinDelay
    isMultisigTarget := isMultisigTarget
    queuedAtSlot := env.clock.slot } }

/-- A cosigner that becomes the owner stops being the cosigner, and cosigning ends. -/
def PolicyConfig.collapseCosigner (p : PolicyConfig D) (newOwner : Pubkey) : PolicyConfig D :=
  if p.cosignSessionPubkey = newOwner then
    { p with cosignSessionPubkey := Pubkey.default, cosignRequired := false }
  else p

def VaultAccounts.handOver (a : VaultAccounts D) (newOwner : Pubkey) : VaultAccounts D :=
  { a with
    vault := { a.vault with owner := newOwner, ownerType := ownerTypeEoa }
    policy := a.policy.collapseCosigner newOwner }

/-- The successor signs; the live cosigner is not asked. -/
def acceptOwnershipTransfer [Host D] (env : Env) (newOwner : Pubkey) (l : Ledger D) :
    Result (Ledger D) := do
  let a ← mustExist l.live
  let pending ← mustExist l.pendingOwner
  ensure (pending.vault = l.vaultKey) .zeroCopyVaultMismatch
  rejectCpi env
  ensure (a.vault.status = .active) .vaultNotActive
  ensure (newOwner = pending.newOwner) .errPendingOwnershipNotReady
  ensure (pending.currentOwner = a.vault.owner) .errPendingOwnershipNotReady
  ensure (pending.isMultisigTarget = false) .errPendingOwnershipNotReady
  ensureFresh env.clock pending.queuedAtSlot
  let elapsed ← someOr .overflow (checkedSubI64 env.clock.unixTimestamp pending.queuedAt)
  ensure (castI64 pending.minDelaySeconds ≤ elapsed) .errPendingOwnershipNotReady
  let sealed ← (a.handOver newOwner).reseal
  return { l with live := some sealed, pendingOwner := none }

def acceptOwnershipTransferMultisig (l : Ledger D) : Result (Ledger D) := do
  let _ ← mustExist l.live
  let pending ← mustExist l.pendingOwner
  ensure (pending.vault = l.vaultKey) .zeroCopyVaultMismatch
  fail .errMultisigCustodyUnsupported

def cancelOwnershipTransfer (env : Env) (currentOwner : Pubkey) (remaining : List AccountMeta)
    (l : Ledger D) : Result (Ledger D) := do
  let a ← mustExist l.live
  let pending ← mustExist l.pendingOwner
  ensure (pending.vault = l.vaultKey) .zeroCopyVaultMismatch
  rejectCpi env
  ensure (a.vault.status = .active) .vaultNotActive
  ensure (currentOwner = pending.currentOwner) .unauthorizedOwner
  a.cosignGate remaining
  return { l with pendingOwner := none }

variable {env : Env} {owner newOwner : Pubkey} {remaining : List AccountMeta} {l l' : Ledger D}

structure TransferQueued (env : Env) (owner newOwner : Pubkey)
    (pending : PendingOwnershipTransfer) : Prop where
  currentOwner : pending.currentOwner = owner
  newOwner : pending.newOwner = newOwner
  queuedAt : pending.queuedAt = env.clock.unixTimestamp

structure TransferReady (env : Env) (a : VaultAccounts D) (newOwner : Pubkey)
    (pending : PendingOwnershipTransfer) : Prop where
  newOwner : pending.newOwner = newOwner
  currentOwner : pending.currentOwner = a.vault.owner
  elapsed : castI64 pending.minDelaySeconds ≤ env.clock.unixTimestamp - pending.queuedAt

theorem initiateOwnershipTransfer_ok {isMultisigTarget : Bool}
    (h : initiateOwnershipTransfer env owner remaining newOwner isMultisigTarget l = .ok l') :
    ∃ (a : VaultAccounts D) (pending : PendingOwnershipTransfer), l.live = some a ∧
      a.vault.owner = owner ∧ (a.policy.cosignRequired = true →
        hasBoundCosigner remaining a.policy.cosignSessionPubkey = true) ∧
      TransferQueued env owner newOwner pending ∧
      l' = { l with pendingOwner := some pending } := by
  simp only [initiateOwnershipTransfer, seq_ok_iff, Ledger.loadAsOwner_ok_iff, mustBeNew_ok_iff,
    rejectCpi_ok_iff, ensure_ok_iff, VaultAccounts.cosignGate_ok_iff, exists_and_left,
    exists_const, pure_ok_iff] at h
  obtain ⟨a, ⟨ha, howner⟩, -, -, -, -, -, -, hcosign, -, rfl⟩ := h
  exact ⟨a, _, ha, howner, hcosign, ⟨rfl, rfl, rfl⟩, rfl⟩

theorem acceptOwnershipTransfer_ok [Host D] (h : acceptOwnershipTransfer env newOwner l = .ok l') :
    ∃ (a : VaultAccounts D) (pending : PendingOwnershipTransfer) (version : UInt64),
      l.live = some a ∧ l.pendingOwner = some pending ∧ TransferReady env a newOwner pending ∧
      version.toNat = a.policy.policyVersion.toNat + 1 ∧
      l' = { l with
        live := some ((a.handOver newOwner).sealedAt version)
        pendingOwner := none } := by
  simp only [acceptOwnershipTransfer, seq_ok_iff, mustExist_ok_iff, rejectCpi_ok_iff,
    ensure_ok_iff, someOr_ok_iff, checkedSubI64_eq_some, VaultAccounts.reseal_ok_iff,
    exists_and_left, exists_const, pure_ok_iff] at h
  obtain ⟨a, ha, pending, hpending, -, -, -, hnew, hcurrent, -, -, -, elapsed, ⟨rfl, -⟩, helapsed,
    sealed, ⟨version, hversion, rfl⟩, rfl⟩ := h
  refine ⟨a, pending, version, ha, hpending, ⟨hnew.symm, hcurrent, helapsed⟩, ?_, rfl⟩
  rw [hversion, VaultAccounts.handOver, PolicyConfig.collapseCosigner]
  split <;> rfl

theorem acceptOwnershipTransferMultisig_ne_ok : acceptOwnershipTransferMultisig l ≠ .ok l' := by
  simp [acceptOwnershipTransferMultisig, seq_ok_iff]

theorem cancelOwnershipTransfer_ok (h : cancelOwnershipTransfer env owner remaining l = .ok l') :
    ∃ a : VaultAccounts D, l.live = some a ∧
      (a.policy.cosignRequired = true →
        hasBoundCosigner remaining a.policy.cosignSessionPubkey = true) ∧
      l' = { l with pendingOwner := none } := by
  simp only [cancelOwnershipTransfer, seq_ok_iff, mustExist_ok_iff, ensure_ok_iff, rejectCpi_ok_iff,
    VaultAccounts.cosignGate_ok_iff, exists_and_left, exists_const, pure_ok_iff] at h
  obtain ⟨a, ha, pending, -, -, -, -, -, hcosign, rfl⟩ := h
  exact ⟨a, ha, hcosign, rfl⟩

end Ownership

end Sigil
