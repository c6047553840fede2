import Mathlib.Data.Fin.Basic
import Mathlib.Logic.Function.Basic
import Sigil.Library.EpochHistory
import Sigil.Model.Base

/-! # Spend tracker

The ring of ten-minute buckets behind the rolling 24 hour figure, the counters per
protocol and the counters per recipient.
-/

namespace Sigil

open Machine EpochHistory

abbrev epochDuration : ℤ := 600

abbrev numEpochs : ℕ := 144

instance (priority := high) neZero_numEpochs : NeZero numEpochs := ⟨by decide⟩

abbrev rollingWindowSeconds : ℤ := 86400

abbrev maxAllowedProtocols : ℕ := 10

abbrev maxPerRecipientEntries : ℕ := 10

structure EpochBucket where
  epochId : ℤ
  usdAmount : UInt64
  deriving DecidableEq

structure ProtocolSpendCounter where
  protocol : Pubkey
  windowStart : ℤ
  windowSpend : UInt64
  deriving DecidableEq

structure PerRecipientCounter where
  recipient : Pubkey
  windowStart : ℤ
  windowSpendUsd : UInt64
  deriving DecidableEq

structure SpendTracker where
  vault : Pubkey
  buckets : Fin numEpochs → EpochBucket
  protocolCounters : Fin maxAllowedProtocols → ProtocolSpendCounter
  lastWriteEpoch : ℤ
  perRecipient : Fin maxPerRecipientEntries → PerRecipientCounter
  perRecipientCount : ℕ

/-- What a bucket adds to the rolling figure: all of it when it starts inside the window,
its share when it straddles the start of the window. -/
def EpochBucket.rollingAmount (b : EpochBucket) (currentEpoch windowStart : ℤ) : ℕ :=
  let bucketStart := saturatingMulI64 b.epochId epochDuration
  let bucketEnd := saturatingAddI64 bucketStart epochDuration
  if b.usdAmount = 0 then 0
  else if bucketEnd ≤ windowStart ∨ currentEpoch < b.epochId then 0
  else if windowStart ≤ bucketStart then b.usdAmount.toNat
  else saturatingMul128 b.usdAmount.toNat (bucketEnd - windowStart).toNat / 600

namespace PerRecipientCounter

def isExpired (c : PerRecipientCounter) (now : ℤ) : Bool :=
  rollingWindowSeconds ≤ saturatingSubI64 now c.windowStart

def accumulate (c : PerRecipientCounter) (amountUsd : UInt64) : Result PerRecipientCounter := do
  let spend ← someOr .overflow (checkedAdd c.windowSpendUsd amountUsd)
  return { c with windowSpendUsd := spend }

end PerRecipientCounter

namespace SpendTracker

/-- The zeroed account. -/
def empty (vault : Pubkey) : SpendTracker where
  vault := vault
  buckets := fun _ => ⟨0, 0⟩
  protocolCounters := fun _ => ⟨Pubkey.default, 0, 0⟩
  lastWriteEpoch := 0
  perRecipient := fun _ => ⟨Pubkey.default, 0, 0⟩
  perRecipientCount := 0

def recordSpend (t : SpendTracker) (clock : Clock) (usdAmount : UInt64) :
    Result SpendTracker := do
  ensure (0 < clock.unixTimestamp) .invalidSession
  let currentEpoch := clock.unixTimestamp / epochDuration
  let idx := slot numEpochs currentEpoch
  let bucket :=
    if (t.buckets idx).epochId ≠ currentEpoch then ⟨currentEpoch, 0⟩ else t.buckets idx
  let amount ← someOr .overflow (checkedAdd bucket.usdAmount usdAmount)
  return { t with
    buckets := Function.update t.buckets idx { bucket with usdAmount := amount }
    lastWriteEpoch := currentEpoch }

/-- The wide sum that `getRolling24hUsd` narrows to a word. -/
def rollingTotal (t : SpendTracker) (now : ℤ) : ℕ :=
  let currentEpoch := now / epochDuration
  let windowStart := saturatingSubI64 now rollingWindowSeconds
  (List.ofFn t.buckets).foldl
    (fun total b => saturatingAdd128 total (b.rollingAmount currentEpoch windowStart)) 0

def getRolling24hUsd (t : SpendTracker) (clock : Clock) : UInt64 :=
  if clock.unixTimestamp ≤ 0 then 0
  else if numEpochs <
      saturatingSubI64 (clock.unixTimestamp / epochDuration) t.lastWriteEpoch then 0
  else capToU64 (t.rollingTotal clock.unixTimestamp)

def getProtocolSpend (t : SpendTracker) (clock : Clock) (protocolId : Pubkey) : UInt64 :=
  if clock.unixTimestamp ≤ 0 then 0
  else match Fin.find? fun i => (t.protocolCounters i).protocol = protocolId with
    | none => 0
    | some i =>
      let currentEpoch := clock.unixTimestamp / epochDuration
      if saturatingSubI64 currentEpoch (t.protocolCounters i).windowStart < numEpochs then
        (t.protocolCounters i).windowSpend
      else 0

def setProtocolCounter (t : SpendTracker) (i : Fin maxAllowedProtocols)
    (c : ProtocolSpendCounter) : SpendTracker :=
  { t with protocolCounters := Function.update t.protocolCounters i c }

def recordProtocolSpend (t : SpendTracker) (clock : Clock) (protocolId : Pubkey)
    (usdAmount : UInt64) : Result SpendTracker := do
  ensure (0 < clock.unixTimestamp) .invalidSession
  let currentEpoch := clock.unixTimestamp / epochDuration
  match Fin.find? fun i => (t.protocolCounters i).protocol = protocolId with
  | some i =>
    let c := t.protocolCounters i
    if numEpochs ≤ saturatingSubI64 currentEpoch c.windowStart then
      return t.setProtocolCounter i
        { c with windowStart := currentEpoch, windowSpend := usdAmount }
    else
      let spend ← someOr .overflow (checkedAdd c.windowSpend usdAmount)
      return t.setProtocolCounter i { c with windowSpend := spend }
  | none =>
    match Fin.find? fun i => (t.protocolCounters i).protocol = Pubkey.default with
    | some i => return t.setProtocolCounter i ⟨protocolId, currentEpoch, usdAmount⟩
    | none => fail .protocolCapExceeded

def findRecipient (t : SpendTracker) (recipient : Pubkey) :
    Option (Fin maxPerRecipientEntries) :=
  let active := min t.perRecipientCount maxPerRecipientEntries
  Fin.find? fun i => i.val < active ∧ (t.perRecipient i).recipient = recipient

def getRecipientSpend (t : SpendTracker) (clock : Clock) (recipient : Pubkey) : UInt64 :=
  if clock.unixTimestamp ≤ 0 then 0
  else match t.findRecipient recipient with
    | none => 0
    | some i =>
      if (t.perRecipient i).isExpired clock.unixTimestamp then 0
      else (t.perRecipient i).windowSpendUsd

def setRecipient (t : SpendTracker) (i : Fin maxPerRecipientEntries)
    (c : PerRecipientCounter) : SpendTracker :=
  { t with perRecipient := Function.update t.perRecipient i c }

/-- The expired entry with the smallest window start, the first one on ties. -/
def oldestExpired (t : SpendTracker) (now : ℤ) : Option (Fin maxPerRecipientEntries) :=
  ((List.finRange maxPerRecipientEntries).foldl
    (fun (oldest : Option (Fin maxPerRecipientEntries) × ℤ) i =>
      if (t.perRecipient i).isExpired now ∧ (t.perRecipient i).windowStart < oldest.2 then
        (some i, (t.perRecipient i).windowStart)
      else oldest)
    (none, 2 ^ 63 - 1)).1

def recordRecipientSpend (t : SpendTracker) (clock : Clock) (recipient : Pubkey)
    (usdAmount : UInt64) : Result SpendTracker := do
  ensure (0 < clock.unixTimestamp) .invalidSession
  let now := clock.unixTimestamp
  let fresh : PerRecipientCounter := ⟨recipient, now, usdAmount⟩
  match t.findRecipient recipient with
  | some i =>
    if (t.perRecipient i).isExpired now then return t.setRecipient i fresh
    else
      let c ← (t.perRecipient i).accumulate usdAmount
      return t.setRecipient i c
  | none =>
    if hlt : t.perRecipientCount < maxPerRecipientEntries then
      return { t.setRecipient ⟨t.perRecipientCount, hlt⟩ fresh with
        perRecipientCount := t.perRecipientCount + 1 }
    else
      let i ← someOr .errRecipientCapExceeded (t.oldestExpired now)
      return t.setRecipient i fresh

end SpendTracker

end Sigil
