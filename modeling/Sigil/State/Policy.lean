import Sigil.State.Tracker

/-! # Policy

The policy account and the lookups the runtime makes in it. Build hashes are values of the
digest type `D`; the zero digest means that no hash is pinned.
-/

namespace Sigil

def protocolModeAllowlist : UInt8 := 1

def destinationModeRestricted : UInt8 := 0

def maxAllowedDestinations : ℕ := 10

def sessionDurationSeconds : UInt64 := 30

def operatingHoursValidMask : UInt32 := 0x00FFFFFF

structure DestinationGraylistEntry where
  destination : Pubkey
  unlockUnix : ℤ
  deriving DecidableEq

structure PolicyConfig (D : Type) where
  vault : Pubkey
  dailySpendingCapUsd : UInt64
  maxTransactionSizeUsd : UInt64
  protocolMode : UInt8
  protocols : List Pubkey
  developerFeeRate : UInt16
  maxSlippageBps : UInt16
  timelockDuration : UInt64
  allowedDestinations : List Pubkey
  hasPendingPolicy : Bool
  hasProtocolCaps : Bool
  protocolCaps : List UInt64
  sessionExpirySeconds : UInt64
  policyVersion : UInt64
  hasPostAssertions : UInt8
  destinationMode : UInt8
  policyPreviewDigest : D
  createdAtSlot : UInt64
  operatingHours : UInt32
  destinationGraylist : List DestinationGraylistEntry
  autoPromoteGrays : Bool
  autoRevokeThreshold : UInt8
  stableBalanceFloor : UInt64
  perRecipientDailyCapUsd : UInt64
  cosignRequired : Bool
  cosignSessionPubkey : Pubkey
  operatorGrantDelaySeconds : UInt64
  protocolHashes : Fin maxAllowedProtocols → D

/-- The optional fields of a policy update: absent means unchanged. -/
structure PolicyUpdate (D : Type) where
  dailySpendingCapUsd : Option UInt64
  maxTransactionAmountUsd : Option UInt64
  protocolMode : Option UInt8
  protocols : Option (List Pubkey)
  developerFeeRate : Option UInt16
  maxSlippageBps : Option UInt16
  timelockDuration : Option UInt64
  allowedDestinations : Option (List Pubkey)
  sessionExpirySeconds : Option UInt64
  hasProtocolCaps : Option Bool
  protocolCaps : Option (List UInt64)
  destinationMode : Option UInt8
  operatingHours : Option UInt32
  stableBalanceFloor : Option UInt64
  perRecipientDailyCapUsd : Option UInt64
  cosignRequired : Option Bool
  cosignSessionPubkey : Option Pubkey
  operatorGrantDelaySeconds : Option UInt64
  protocolHashes : Option (Fin maxAllowedProtocols → D)

/-- The update that changes nothing. -/
def PolicyUpdate.none {D : Type} : PolicyUpdate D :=
  ⟨.none, .none, .none, .none, .none, .none, .none, .none, .none, .none, .none, .none, .none,
    .none, .none, .none, .none, .none, .none⟩

namespace PolicyConfig

variable {D : Type}

def isProtocolAllowed (p : PolicyConfig D) (programId : Pubkey) : Bool :=
  p.protocolMode = protocolModeAllowlist ∧ programId ∈ p.protocols

def isDestinationAllowed (p : PolicyConfig D) (destinationOwner : Pubkey) : Bool :=
  p.destinationMode = destinationModeRestricted ∧ destinationOwner ∈ p.allowedDestinations

def protocolIndex (p : PolicyConfig D) (protocol : Pubkey) : Option ℕ :=
  p.protocols.findIdx? fun q => q = protocol

/-- The cap at a position, zero when the list has none there. -/
def capAt (p : PolicyConfig D) (i : ℕ) : UInt64 := p.protocolCaps.getD i 0

/-- The build hash at a position, the zero digest outside the array. -/
def hashAt [Host D] (p : PolicyConfig D) (i : ℕ) : D :=
  if hi : i < maxAllowedProtocols then p.protocolHashes ⟨i, hi⟩ else Host.zeroDigest

def getProtocolCap (p : PolicyConfig D) (protocol : Pubkey) : Option UInt64 :=
  if p.hasProtocolCaps then (p.protocolIndex protocol).map p.capAt else none

def effectiveSessionExpirySeconds (p : PolicyConfig D) : UInt64 :=
  if p.sessionExpirySeconds = 0 then sessionDurationSeconds else p.sessionExpirySeconds

/-- Whether a destination is still inside its friction window: the first entry decides. -/
def isDestinationGraylisted (p : PolicyConfig D) (destination : Pubkey) (now : ℤ) : Bool :=
  match p.destinationGraylist.find? fun e => e.destination = destination with
  | some e => now < e.unlockUnix
  | none => false

def isWithinOperatingHours (p : PolicyConfig D) (unixTimestamp : ℤ) : Bool :=
  if unixTimestamp ≤ 0 then false
  else
    let hour : UInt32 := UInt32.ofNat (unixTimestamp / 3600 % 24).toNat
    (p.operatingHours &&& operatingHoursValidMask) &&& (1 <<< hour) ≠ 0

def serializedSize (p : PolicyConfig D) : ℕ :=
  8 + 32 + 8 + 8 + 1 + (4 + 32 * p.protocols.length) + 2 + 2 + 8 +
    (4 + 32 * p.allowedDestinations.length) + 1 + 1 + (4 + 8 * p.protocolCaps.length) + 8 + 1 +
    8 + 1 + 1 + 32 + 8 + 4 + (4 + 40 * p.destinationGraylist.length) + 1 + 1 + 8 + 8 + 1 + 32 +
    8 + 32 * maxAllowedProtocols

/-- `PolicyConfig::SIZE`. -/
def size : ℕ := 1649

/-- The policy with every present field of the update in place of the live one. -/
def merge (p : PolicyConfig D) (u : PolicyUpdate D) : PolicyConfig D :=
  { p with
    dailySpendingCapUsd := u.dailySpendingCapUsd.getD p.dailySpendingCapUsd
    maxTransactionSizeUsd := u.maxTransactionAmountUsd.getD p.maxTransactionSizeUsd
    protocolMode := u.protocolMode.getD p.protocolMode
    protocols := u.protocols.getD p.protocols
    developerFeeRate := u.developerFeeRate.getD p.developerFeeRate
    maxSlippageBps := u.maxSlippageBps.getD p.maxSlippageBps
    timelockDuration := u.timelockDuration.getD p.timelockDuration
    allowedDestinations := u.allowedDestinations.getD p.allowedDestinations
    sessionExpirySeconds := u.sessionExpirySeconds.getD p.sessionExpirySeconds
    hasProtocolCaps := u.hasProtocolCaps.getD p.hasProtocolCaps
    protocolCaps := u.protocolCaps.getD p.protocolCaps
    destinationMode := u.destinationMode.getD p.destinationMode
    operatingHours := u.operatingHours.getD p.operatingHours
    stableBalanceFloor := u.stableBalanceFloor.getD p.stableBalanceFloor
    perRecipientDailyCapUsd := u.perRecipientDailyCapUsd.getD p.perRecipientDailyCapUsd
    cosignRequired := u.cosignRequired.getD p.cosignRequired
    cosignSessionPubkey := u.cosignSessionPubkey.getD p.cosignSessionPubkey
    operatorGrantDelaySeconds := u.operatorGrantDelaySeconds.getD p.operatorGrantDelaySeconds
    protocolHashes := u.protocolHashes.getD p.protocolHashes }

theorem merged_of_forall {α : Type} {P : α → Prop} {o : Option α} {live : α} (hlive : P live)
    (ho : ∀ x ∈ o, P x) : P (o.getD live) := by
  cases o with
  | none => exact hlive
  | some x => exact ho x rfl

end PolicyConfig

end Sigil
