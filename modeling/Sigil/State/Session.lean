import Sigil.State.Policy

/-! # Sessions and post-execution assertions

The session account that `validate_and_authorize` opens and `finalize_session` closes, and the
assertions an owner can attach to every session.
-/

namespace Sigil

open Machine

def maxOwnerSessionDurationSeconds : UInt64 := 90

abbrev maxPostAssertionEntries : ℕ := 8

def maxConstraintValueLen : ℕ := 32

structure SessionAuthority where
  vault : Pubkey
  agent : Pubkey
  authorized : Bool
  authorizedAmount : UInt64
  authorizedToken : Pubkey
  authorizedProtocol : Pubkey
  expiresAtTimestamp : ℤ
  delegated : Bool
  delegationTokenAccount : Pubkey
  protocolFee : UInt64
  developerFee : UInt64
  outputMint : Pubkey
  stablecoinBalanceBefore : UInt64
  assertionSnapshots : Fin maxPostAssertionEntries → List UInt8
  snapshotLens : Fin maxPostAssertionEntries → UInt8
  nonce : UInt64
  outputStablecoinAccount : Pubkey
  outputSwapAccount : Pubkey
  outputSwapMint : Pubkey
  outputSwapBalanceBefore : UInt64

namespace SessionAuthority

def isExpired (s : SessionAuthority) (currentUnixTs : ℤ) : Bool :=
  s.expiresAtTimestamp < currentUnixTs

def calculateExpiry (nowTs : ℤ) (ownerMaxSeconds : UInt64) : ℤ :=
  saturatingAddI64 nowTs (min ownerMaxSeconds maxOwnerSessionDurationSeconds).toNat

end SessionAuthority

inductive AssertionMode
  | absolute | maxDecrease | maxIncrease | noChange | mintDeltaCap | ataAuthorityPin
  | outputBalanceFloor | declarationConsistency
  deriving DecidableEq, Repr

def AssertionMode.tryFrom (v : UInt8) : Option AssertionMode :=
  [.absolute, .maxDecrease, .maxIncrease, .noChange, .mintDeltaCap, .ataAuthorityPin,
    .outputBalanceFloor, .declarationConsistency][v.toNat]?

inductive ConstraintOperator | eq | ne | gte | lte | gteSigned | lteSigned | bitmask
  deriving DecidableEq, Repr

def ConstraintOperator.tryFrom (v : UInt8) : Option ConstraintOperator :=
  [.eq, .ne, .gte, .lte, .gteSigned, .lteSigned, .bitmask][v.toNat]?

/-- An assertion as the owner sends it; a stored one has an expected value of 32 bytes. -/
structure PostAssertionEntry where
  targetAccount : Pubkey
  offset : UInt16
  valueLen : UInt8
  operator : UInt8
  expectedValue : List UInt8
  assertionMode : UInt8
  auxValue : List.Vector UInt8 8
  auxByte : UInt8
  deriving DecidableEq

structure PostExecutionAssertions where
  vault : Pubkey
  entries : List PostAssertionEntry
  deriving DecidableEq

end Sigil
