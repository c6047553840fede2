import Sigil.State.Policy

/-! # Pending accounts

Changes that wait for a delay: a policy update, an ownership transfer, the grant of a new
operator and a change of an agent's permissions.
-/

namespace Sigil

structure PendingPolicyUpdate (D : Type) where
  vault : Pubkey
  queuedAt : ℤ
  executesAt : ℤ
  queuedAtSlot : UInt64
  update : PolicyUpdate D
  cosignDigest : D
  cosignSession : Pubkey
  newPolicyPreviewDigest : D
  cosignApproved : Bool
  approvedAtSlot : UInt64
  queuedPolicyVersion : UInt64

structure PendingOwnershipTransfer where
  vault : Pubkey
  currentOwner : Pubkey
  newOwner : Pubkey
  queuedAt : ℤ
  minDelaySeconds : UInt64
  isMultisigTarget : Bool
  queuedAtSlot : UInt64
  deriving DecidableEq

structure PendingAgentGrant (D : Type) where
  vault : Pubkey
  agent : Pubkey
  capability : UInt8
  spendingLimitUsd : UInt64
  queuedAt : ℤ
  minDelaySeconds : UInt64
  pendingContentDigest : D
  queuedAtSlot : UInt64

structure PendingAgentPermissionsUpdate (D : Type) where
  vault : Pubkey
  agent : Pubkey
  newCapability : UInt8
  spendingLimitUsd : UInt64
  queuedAt : ℤ
  executesAt : ℤ
  queuedAtSlot : UInt64
  cooldownSeconds : UInt64
  cosignDigest : D
  cosignSession : Pubkey

namespace PendingPolicyUpdate

variable {D : Type}

def isReady (p : PendingPolicyUpdate D) (currentTimestamp : ℤ) : Bool :=
  p.executesAt ≤ currentTimestamp

/-- An update that needs the cosigner names the session key it was bound to. -/
def isElevated (p : PendingPolicyUpdate D) : Prop := p.cosignSession ≠ Pubkey.default

/-- Bytes of an optional field. -/
def optionSize {α : Type} (size : α → ℕ) : Option α → ℕ
  | some v => 1 + size v
  | none => 1

/-- Bytes of a list of fixed-size items behind its length. -/
def listSize {α : Type} (item : ℕ) (l : List α) : ℕ := 4 + item * l.length

def serializedSize (p : PendingPolicyUpdate D) : ℕ :=
  8 + 32 + 8 + 8 + 8 +
    optionSize (fun _ => 8) p.update.dailySpendingCapUsd +
    optionSize (fun _ => 8) p.update.maxTransactionAmountUsd +
    optionSize (fun _ => 1) p.update.protocolMode +
    optionSize (listSize 32) p.update.protocols +
    optionSize (fun _ => 2) p.update.developerFeeRate +
    optionSize (fun _ => 2) p.update.maxSlippageBps +
    optionSize (fun _ => 8) p.update.timelockDuration +
    optionSize (listSize 32) p.update.allowedDestinations +
    optionSize (fun _ => 8) p.update.sessionExpirySeconds +
    optionSize (fun _ => 1) p.update.hasProtocolCaps +
    optionSize (listSize 8) p.update.protocolCaps +
    optionSize (fun _ => 1) p.update.destinationMode + 1 +
    optionSize (fun _ => 4) p.update.operatingHours + 32 + 32 + 32 +
    optionSize (fun _ => 8) p.update.stableBalanceFloor +
    optionSize (fun _ => 8) p.update.perRecipientDailyCapUsd +
    optionSize (fun _ => 1) p.update.cosignRequired +
    optionSize (fun _ => 32) p.update.cosignSessionPubkey +
    optionSize (fun _ => 8) p.update.operatorGrantDelaySeconds + 1 + 8 + 8 +
    optionSize (fun _ => 32 * maxAllowedProtocols) p.update.protocolHashes

/-- `PendingPolicyUpdate::SIZE`. -/
def size : ℕ := 1349

end PendingPolicyUpdate

def PendingAgentPermissionsUpdate.isReady {D : Type} (p : PendingAgentPermissionsUpdate D)
    (currentTimestamp : ℤ) : Bool :=
  p.executesAt ≤ currentTimestamp

/-- `PendingOwnershipTransfer::DEFAULT_MIN_DELAY`. -/
def PendingOwnershipTransfer.defaultMinDelay : UInt64 := 172800

end Sigil
