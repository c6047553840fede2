import Sigil.State.Policy

/-! # Elevation

How `queue_policy_update` decides that an update needs the cosigner: sixteen triggers, each
comparing the update with the live policy.
-/

namespace Sigil

/-- A cap that is on becomes larger or is switched off; zero means no cap. -/
def weakensCap (new live : UInt64) : Bool :=
  if live = 0 then false
  else if new = 0 then true
  else live < new

def weakensPerRecipientCapPredicate (new live : UInt64) : Bool := weakensCap new live

def weakensProtocolCapsPredicate (newCaps liveCaps : List UInt64) : Bool :=
  newCaps.zipIdx.any fun (newCap, i) => weakensCap newCap (liveCaps.getD i 0)

/-- A list grows or has an element that the live list has not. -/
def expandsList (new live : List Pubkey) : Bool :=
  live.length < new.length ∨ new.any fun k => k ∉ live

namespace PolicyConfig

variable {D : Type} [DecidableEq D] [Host D] (p : PolicyConfig D) (u : PolicyUpdate D)

def raisesDailyCap : Bool :=
  u.dailySpendingCapUsd.any fun new => p.dailySpendingCapUsd < new

def raisesMaxTx : Bool :=
  u.maxTransactionAmountUsd.any fun new => p.maxTransactionSizeUsd < new

def expandsDestinations : Bool :=
  u.allowedDestinations.any fun new => expandsList new p.allowedDestinations

def expandsProtocols : Bool :=
  u.protocols.any fun new => expandsList new p.protocols

def lowersFloor : Bool :=
  u.stableBalanceFloor.any fun new => new < p.stableBalanceFloor

def weakensPerRecipientCap : Bool :=
  u.perRecipientDailyCapUsd.any fun new =>
    weakensPerRecipientCapPredicate new p.perRecipientDailyCapUsd

def weakensProtocolCaps : Bool :=
  u.hasProtocolCaps.any (fun new => !new) ||
    u.protocolCaps.any fun new => weakensProtocolCapsPredicate new p.protocolCaps

def raisesSlippage : Bool := u.maxSlippageBps.any fun new => p.maxSlippageBps < new

def raisesDeveloperFee : Bool := u.developerFeeRate.any fun new => p.developerFeeRate < new

def widensOperatingHours : Bool :=
  u.operatingHours.any fun new => new &&& ~~~p.operatingHours ≠ 0

/-- By position: a pinned hash is zero in the array the update supplies. -/
def disarmsBuildHash : Bool :=
  u.protocolHashes.any fun new => (List.finRange maxAllowedProtocols).any fun i =>
    p.protocolHashes i ≠ Host.zeroDigest ∧ new i = Host.zeroDigest

/-- By identity: a protocol that stays on the list loses its pinned hash. -/
def disarmsBuildHashByIdentity : Bool :=
  p.protocols.zipIdx.any fun (q, i) =>
    if p.hashAt i = Host.zeroDigest then false
    else match (p.merge u).protocolIndex q with
      | some j => (p.merge u).hashAt j = Host.zeroDigest
      | none => false

/-- By identity: a protocol that stays on the list has its cap weakened. -/
def weakensProtocolCapsByIdentity : Bool :=
  (p.merge u).hasProtocolCaps && p.protocols.zipIdx.any fun (q, i) =>
    if p.capAt i = 0 then false
    else match (p.merge u).protocolIndex q with
      | some j => (p.merge u).capAt j = 0 ∨ p.capAt i < (p.merge u).capAt j
      | none => false

def reordersArmedProtocols : Bool :=
  u.protocols.any fun new =>
    let sameSet := new.length = p.protocols.length ∧ (∀ q ∈ new, q ∈ p.protocols) ∧
      ∀ q ∈ p.protocols, q ∈ new
    let orderDiffers := (new.zip p.protocols).any fun (a, b) => a ≠ b
    let anyHashArmed := (List.finRange maxAllowedProtocols).any fun i =>
      p.protocolHashes i ≠ Host.zeroDigest
    let anyCapArmed := p.hasProtocolCaps && p.protocolCaps.any fun c => c ≠ 0
    sameSet ∧ orderDiffers ∧ (anyHashArmed ∨ anyCapArmed)

def disablesCosign : Bool := u.cosignRequired.any fun new => !new && p.cosignRequired

def rotatesCosigner : Bool :=
  u.cosignSessionPubkey.any fun new => p.cosignRequired ∧ new ≠ p.cosignSessionPubkey

/-- The conventional triggers, which count only while cosigning is required. -/
def weakens : Bool :=
  p.raisesDailyCap u || p.raisesMaxTx u || p.expandsDestinations u || p.expandsProtocols u ||
    p.lowersFloor u || p.weakensPerRecipientCap u || p.weakensProtocolCaps u ||
    p.weakensProtocolCapsByIdentity u || p.raisesSlippage u || p.raisesDeveloperFee u ||
    p.widensOperatingHours u || p.disarmsBuildHash u || p.disarmsBuildHashByIdentity u ||
    p.reordersArmedProtocols u

def isElevated : Bool :=
  p.cosignRequired && p.weakens u || p.disablesCosign u || p.rotatesCosigner u

end PolicyConfig

end Sigil
