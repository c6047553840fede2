import Sigil.Digest.PolicyDigest
import Sigil.State.Pending

/-! # Digests of pending changes and of intents

What a queued change is bound to: the cosigner's view of a policy update or of new agent
permissions, the content of an operator grant, and the intent behind a session.
-/

namespace Sigil

open SelfDelimiting

variable {D : Type} [Host D]

def PolicyUpdate.cosignBytes (u : PolicyUpdate D) (cosignSession : Pubkey) : List UInt8 :=
  cosignSession.bytes ++ (optional (fun v => leBytes 8 v.toNat) u.dailySpendingCapUsd ++
  (optional (fun v => leBytes 8 v.toNat) u.maxTransactionAmountUsd ++
  (optional (counted Pubkey.bytes) u.allowedDestinations ++
  (optional (counted Pubkey.bytes) u.protocols ++
  (optional (fun v => leBytes 8 v.toNat) u.stableBalanceFloor ++
  (optional (fun v => leBytes 8 v.toNat) u.perRecipientDailyCapUsd ++
  (optional (fun b => [boolByte b]) u.hasProtocolCaps ++
  (optional (counted fun c => leBytes 8 c.toNat) u.protocolCaps ++
  optional (fun b => [boolByte b]) u.cosignRequired))))))))

def computeCosignDigest (cosignSession : Pubkey) (u : PolicyUpdate D) : D :=
  Host.sha256 (u.cosignBytes cosignSession)

def computeAgentPermsCosignDigest (cosignSession agent : Pubkey) (newCapability : UInt8)
    (spendingLimitUsd cooldownSeconds : UInt64) : D :=
  Host.sha256 (cosignSession.bytes ++ agent.bytes ++ [newCapability] ++
    leBytes 8 spendingLimitUsd.toNat ++ leBytes 8 cooldownSeconds.toNat)

/-- The two's complement bytes of a signed word. -/
def i64Bytes (x : ℤ) : List UInt8 := leBytes 8 (x % 2 ^ 64).toNat

def computePendingAgentGrantDigest (p : PendingAgentGrant D) : D :=
  Host.sha256 (p.vault.bytes ++ p.agent.bytes ++ [p.capability] ++
    leBytes 8 p.spendingLimitUsd.toNat ++ i64Bytes p.queuedAt ++
    leBytes 8 p.minDelaySeconds.toNat ++ leBytes 8 p.queuedAtSlot.toNat)

def currentNetworkId : Cluster → UInt8
  | .devnet => 0
  | .mainnet => 1

def computeScalarIntentDigest (vault agent tokenMint : Pubkey) (amount : UInt64)
    (targetProtocol : Pubkey) : D :=
  -- the magic "SIG1" and the format version
  Host.sha256 ([83, 73, 71, 49, 2, currentNetworkId (Host.cluster D)] ++ vault.bytes ++
    agent.bytes ++ tokenMint.bytes ++ leBytes 8 amount.toNat ++ targetProtocol.bytes)

end Sigil
