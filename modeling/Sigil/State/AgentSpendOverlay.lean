import Mathlib.Data.Fin.Basic
import Mathlib.Logic.Function.Basic
import Sigil.Library.EpochHistory
import Sigil.Model.Base

/-! # Agent spend overlay

One slot per agent: the ring of hourly contributions behind the agent's own rolling
figure, its lifetime totals and its cooldown.
-/

namespace Sigil

open Machine EpochHistory

abbrev overlayEpochDuration : ℤ := 3600

abbrev overlayNumEpochs : ℕ := 24

abbrev overlayRollingWindowSeconds : ℤ := 86400

abbrev maxOverlayEntries : ℕ := 10

structure AgentContributionEntry where
  agent : Pubkey
  lastWriteEpoch : ℤ
  contributions : Fin overlayNumEpochs → UInt64

structure AgentSpendOverlay where
  vault : Pubkey
  entries : Fin maxOverlayEntries → AgentContributionEntry
  lifetimeSpend : Fin maxOverlayEntries → UInt64
  lifetimeTxCount : Fin maxOverlayEntries → UInt64
  cooldownSeconds : Fin maxOverlayEntries → UInt64
  lastActionUnix : Fin maxOverlayEntries → ℤ

namespace AgentContributionEntry

/-- The zeroed entry. -/
def empty : AgentContributionEntry := ⟨Pubkey.default, 0, fun _ => 0⟩

/-- Zero the buckets of the epochs that passed since the last write. -/
def zeroGapBuckets (entry : AgentContributionEntry) (currentEpoch : ℤ) :
    AgentContributionEntry :=
  let gap := saturatingSubI64 currentEpoch entry.lastWriteEpoch
  if gap ≤ 0 then entry
  else if overlayNumEpochs ≤ gap then { entry with contributions := fun _ => 0 }
  else { entry with
    contributions := (List.range gap.toNat).foldl
      (fun c (k : ℕ) => Function.update c
        (slot overlayNumEpochs (saturatingAddI64 entry.lastWriteEpoch (k + 1))) 0)
      entry.contributions }

/-- The loop of the rolling figure over the offsets back from the last write. -/
def rollingLoop (entry : AgentContributionEntry) (currentEpoch windowStart : ℤ) :
    List ℕ → ℕ → ℕ
  | [], total => total
  | k :: ks, total =>
    let epoch := saturatingSubI64 entry.lastWriteEpoch k
    let bucketStart := saturatingMulI64 epoch overlayEpochDuration
    let bucketEnd := saturatingAddI64 bucketStart overlayEpochDuration
    let contribution := entry.contributions (slot overlayNumEpochs epoch)
    -- the first two exits leave the loop, the next two go on to the following offset
    if epoch < 0 then total
    else if bucketEnd ≤ windowStart then total
    else if currentEpoch < epoch then rollingLoop entry currentEpoch windowStart ks total
    else if contribution = 0 then rollingLoop entry currentEpoch windowStart ks total
    else if windowStart ≤ bucketStart then
      rollingLoop entry currentEpoch windowStart ks
        (saturatingAdd128 total contribution.toNat)
    else
      let overlap := saturatingSubI64 bucketEnd windowStart
      rollingLoop entry currentEpoch windowStart ks
        (saturatingAdd128 total (saturatingMul128 contribution.toNat overlap.toNat / 3600))

def rolling24hUsd (entry : AgentContributionEntry) (clock : Clock) : UInt64 :=
  let currentEpoch := clock.unixTimestamp / overlayEpochDuration
  if clock.unixTimestamp ≤ 0 then 0
  else if overlayNumEpochs < saturatingSubI64 currentEpoch entry.lastWriteEpoch then 0
  else
    let windowStart := saturatingSubI64 clock.unixTimestamp overlayRollingWindowSeconds
    capToU64 (entry.rollingLoop currentEpoch windowStart (List.range overlayNumEpochs) 0)

def record (entry : AgentContributionEntry) (clock : Clock) (usdAmount : UInt64) :
    Result AgentContributionEntry := do
  ensure (0 < clock.unixTimestamp) .invalidSession
  let currentEpoch := clock.unixTimestamp / overlayEpochDuration
  let zeroed := entry.zeroGapBuckets currentEpoch
  let idx := slot overlayNumEpochs currentEpoch
  let amount ← someOr .overflow (checkedAdd (zeroed.contributions idx) usdAmount)
  return { zeroed with
    contributions := Function.update zeroed.contributions idx amount
    lastWriteEpoch := currentEpoch }

end AgentContributionEntry

namespace AgentSpendOverlay

/-- The zeroed account. -/
def empty (vault : Pubkey) : AgentSpendOverlay where
  vault := vault
  entries := fun _ => .empty
  lifetimeSpend := fun _ => 0
  lifetimeTxCount := fun _ => 0
  cooldownSeconds := fun _ => 0
  lastActionUnix := fun _ => 0

def findAgentSlot (o : AgentSpendOverlay) (agent : Pubkey) : Option (Fin maxOverlayEntries) :=
  Fin.find? fun i => (o.entries i).agent = agent

/-- Seat an agent in the first empty slot; `none` when there is none. -/
def claimSlot (o : AgentSpendOverlay) (agent : Pubkey) : Option AgentSpendOverlay :=
  (o.findAgentSlot Pubkey.default).map fun i =>
    { o with entries := Function.update o.entries i { o.entries i with agent := agent } }

def releaseSlot (o : AgentSpendOverlay) (i : Fin maxOverlayEntries) : AgentSpendOverlay :=
  { o with
    entries := Function.update o.entries i .empty
    lifetimeSpend := Function.update o.lifetimeSpend i 0
    lifetimeTxCount := Function.update o.lifetimeTxCount i 0
    cooldownSeconds := Function.update o.cooldownSeconds i 0
    lastActionUnix := Function.update o.lastActionUnix i 0 }

def getAgentRolling24hUsd (o : AgentSpendOverlay) (clock : Clock)
    (i : Fin maxOverlayEntries) : UInt64 :=
  (o.entries i).rolling24hUsd clock

def recordAgentContribution (o : AgentSpendOverlay) (clock : Clock)
    (i : Fin maxOverlayEntries) (usdAmount : UInt64) : Result AgentSpendOverlay := do
  let entry ← (o.entries i).record clock usdAmount
  return { o with entries := Function.update o.entries i entry }

def isCooldownElapsed (o : AgentSpendOverlay) (i : Fin maxOverlayEntries) (now : ℤ) : Bool :=
  let cooldown := o.cooldownSeconds i
  let last := o.lastActionUnix i
  if cooldown = 0 then true
  else if last = 0 then true
  else match checkedSubI64 now last with
    | some delta => decide (0 ≤ delta ∧ (cooldown.toNat : ℤ) ≤ delta)
    | none => false

def recordActionUnix (o : AgentSpendOverlay) (i : Fin maxOverlayEntries) (now : ℤ) :
    AgentSpendOverlay :=
  { o with lastActionUnix := Function.update o.lastActionUnix i now }

def setCooldownSeconds (o : AgentSpendOverlay) (i : Fin maxOverlayEntries)
    (cooldown : UInt64) : AgentSpendOverlay :=
  { o with cooldownSeconds := Function.update o.cooldownSeconds i cooldown }

end AgentSpendOverlay

end Sigil
