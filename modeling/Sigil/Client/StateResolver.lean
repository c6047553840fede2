import Sigil.Client.CanonicalEncode
import Sigil.Session.Sandwich
import Sigil.Spending.RecordedStates
import Sigil.System.AgentRegistry

/-! # The budgets that the client shows

The client computes the rolling figures of the spend accounts on its own, in unbounded integers and
with a window that does not start before the epoch. Over the accounts that the program can leave
behind its figures are the program's.
-/

namespace Sigil.Client

open Machine Guard Trace

section Accounts

structure EpochBucket where
  epochId : ℤ
  usdAmount : ℤ

structure ProtocolSpendCounter where
  protocol : List UInt8
  windowStart : ℤ
  windowSpend : ℤ

structure SpendTracker where
  buckets : List EpochBucket
  protocolCounters : List ProtocolSpendCounter
  lastWriteEpoch : ℤ

structure AgentContributionEntry where
  agent : List UInt8
  lastWriteEpoch : ℤ
  contributions : Fin overlayNumEpochs → ℤ

structure AgentSpendOverlay where
  entries : List AgentContributionEntry

structure AgentEntry where
  pubkey : Address
  spendingLimitUsd : ℤ

def decodeProtocolSpendCounter (c : Sigil.ProtocolSpendCounter) : ProtocolSpendCounter :=
  ⟨c.protocol.bytes, c.windowStart, c.windowSpend.toNat⟩

def decodeSpendTracker (t : Sigil.SpendTracker) : SpendTracker where
  buckets := List.ofFn fun i => ⟨(t.buckets i).epochId, (t.buckets i).usdAmount.toNat⟩
  protocolCounters := List.ofFn fun i => decodeProtocolSpendCounter (t.protocolCounters i)
  lastWriteEpoch := t.lastWriteEpoch

def decodeAgentContributionEntry (e : Sigil.AgentContributionEntry) : AgentContributionEntry where
  agent := e.agent.bytes
  lastWriteEpoch := e.lastWriteEpoch
  contributions := fun i => (e.contributions i).toNat

def decodeAgentSpendOverlay (o : Sigil.AgentSpendOverlay) : AgentSpendOverlay where
  entries := List.ofFn fun i => decodeAgentContributionEntry (o.entries i)

def decodeAgents (v : AgentVault) : List AgentEntry :=
  v.agents.map fun e => ⟨.ofKey e.pubkey, e.spendingLimitUsd.toNat⟩

end Accounts

section Figures

def u64Max : ℤ := 18446744073709551615

/-- The start of the window, not before time zero. -/
def windowStartOf (nowUnix : ℤ) : ℤ :=
  if rollingWindowSeconds < nowUnix then nowUnix - rollingWindowSeconds else 0

def clampU64 (total : ℤ) : ℤ := if u64Max < total then u64Max else total

/-- One round of the loop over the buckets. -/
def addBucket (currentEpoch windowStart total : ℤ) (bucket : EpochBucket) : ℤ :=
  let bucketStart := bucket.epochId * epochDuration
  let bucketEnd := bucketStart + epochDuration
  if bucket.usdAmount = 0 then total
  else if bucketEnd ≤ windowStart ∨ currentEpoch < bucket.epochId then total
  else if windowStart ≤ bucketStart then total + bucket.usdAmount
  else total + (bucket.usdAmount * (bucketEnd - windowStart)).tdiv epochDuration

def getRolling24hUsd (tracker : SpendTracker) (nowUnix : ℤ) : ℤ :=
  if nowUnix ≤ 0 then 0
  else
    let currentEpoch := nowUnix.tdiv epochDuration
    if numEpochs < currentEpoch - tracker.lastWriteEpoch then 0
    else clampU64 (tracker.buckets.foldl (addBucket currentEpoch (windowStartOf nowUnix)) 0)

/-- The loop over the offsets back from the last write. -/
def contributionLoop (entry : AgentContributionEntry) (currentEpoch windowStart : ℤ) :
    List ℕ → ℤ → ℤ
  | [], total => total
  | k :: ks, total =>
    let epochForK := entry.lastWriteEpoch - k
    let bucketStart := epochForK * overlayEpochDuration
    let bucketEnd := bucketStart + overlayEpochDuration
    let contribution :=
      entry.contributions (Fin.ofNat overlayNumEpochs (epochForK.tmod overlayNumEpochs).toNat)
    -- the first two exits leave the loop, the next two go on to the following offset
    if epochForK < 0 then total
    else if bucketEnd ≤ windowStart then total
    else if currentEpoch < epochForK then contributionLoop entry currentEpoch windowStart ks total
    else if contribution = 0 then contributionLoop entry currentEpoch windowStart ks total
    else if windowStart ≤ bucketStart then
      contributionLoop entry currentEpoch windowStart ks (total + contribution)
    else contributionLoop entry currentEpoch windowStart ks
      (total + (contribution * (bucketEnd - windowStart)).tdiv overlayEpochDuration)

def getAgentRolling24hUsd (entry : AgentContributionEntry) (nowUnix : ℤ) : ℤ :=
  if nowUnix ≤ 0 then 0
  else
    let currentEpoch := nowUnix.tdiv overlayEpochDuration
    if overlayNumEpochs < currentEpoch - entry.lastWriteEpoch then 0
    else clampU64 (contributionLoop entry currentEpoch (windowStartOf nowUnix)
      (List.range overlayNumEpochs) 0)

def bytesMatchAddress (bytes : List UInt8) (addr : Address) : Bool := bytes = addr.key.bytes

def getProtocolSpend (tracker : SpendTracker) (protocolAddress : Address) (nowUnix : ℤ) : ℤ :=
  if nowUnix ≤ 0 then 0
  else
    let currentEpoch := nowUnix.tdiv epochDuration
    match tracker.protocolCounters.find? fun c => bytesMatchAddress c.protocol protocolAddress with
    | some counter =>
      if currentEpoch - counter.windowStart < numEpochs then counter.windowSpend else 0
    | none => 0

end Figures

section Budgets

structure EffectiveBudget where
  spent24h : ℤ
  cap : ℤ
  remaining : ℤ

def budgetOf (spent cap : ℤ) : EffectiveBudget :=
  ⟨spent, cap, if spent < cap then cap - spent else 0⟩

def globalBudget (tracker : Option SpendTracker) (cap timestamp : ℤ) : EffectiveBudget :=
  budgetOf (tracker.elim 0 fun t => getRolling24hUsd t timestamp) cap

/-- The budget of one agent: all of its limit when no entry of the overlay is its own. -/
def agentEntryBudget (overlay : Option AgentSpendOverlay) (entry : AgentEntry) (timestamp : ℤ) :
    EffectiveBudget :=
  match overlay.bind fun o => o.entries.find? fun e => bytesMatchAddress e.agent entry.pubkey with
  | some e => budgetOf (getAgentRolling24hUsd e timestamp) entry.spendingLimitUsd
  | none => ⟨0, entry.spendingLimitUsd, entry.spendingLimitUsd⟩

/-- `Map.set`: the entry of a key is replaced where it stands, a new key goes to the end. -/
def setBudget (budgets : List (Address × EffectiveBudget)) (key : Address)
    (budget : EffectiveBudget) : List (Address × EffectiveBudget) :=
  if budgets.any fun p => p.1.text = key.text then
    budgets.map fun p => if p.1.text = key.text then (p.1, budget) else p
  else budgets ++ [(key, budget)]

structure AgentBudgets where
  agentBudget : Option EffectiveBudget
  allAgentBudgets : List (Address × EffectiveBudget)

/-- One round of the loop over the agents; an agent without a limit has no budget. -/
def addAgent (overlay : Option AgentSpendOverlay) (agent : Address) (timestamp : ℤ)
    (b : AgentBudgets) (entry : AgentEntry) : AgentBudgets :=
  if entry.spendingLimitUsd ≤ 0 then b
  else
    let budget := agentEntryBudget overlay entry timestamp
    ⟨if entry.pubkey.text = agent.text then some budget else b.agentBudget,
      setBudget b.allAgentBudgets entry.pubkey budget⟩

def agentBudgets (agents : List AgentEntry) (overlay : Option AgentSpendOverlay) (agent : Address)
    (timestamp : ℤ) : AgentBudgets :=
  agents.foldl (addAgent overlay agent timestamp) ⟨none, []⟩

end Budgets

section Mirror

variable {now start duration : ℤ}

/-- What starts at zero or later is cut alike by the window of the client and by the window of the
program, whose end of a bucket may saturate. -/
structure WindowsAgree (now start duration : ℤ) : Prop where
  outside : start + duration ≤ windowStartOf now ↔
    saturatingAddI64 start duration ≤ now - rollingWindowSeconds
  inside : windowStartOf now ≤ start ↔ now - rollingWindowSeconds ≤ start
  overlap : ¬ windowStartOf now ≤ start →
    saturatingAddI64 start duration - (now - rollingWindowSeconds) =
      start + duration - windowStartOf now

theorem windowsAgree (hi : InI64 now) (hstart : 0 ≤ start) (hpos : 0 < duration)
    (hshort : duration ≤ rollingWindowSeconds) : WindowsAgree now start duration := by
  have hend : saturatingAddI64 start duration = min (start + duration) (2 ^ 63 - 1) := by
    unfold saturatingAddI64 clampI64
    omega
  unfold InI64 at hi
  unfold rollingWindowSeconds at hshort
  refine ⟨?_, ?_, ?_⟩
  all_goals
    simp only [hend, windowStartOf, rollingWindowSeconds]
    split <;> omega

theorem saturatingSubI64_window (hpos : 0 < now) (hi : InI64 now) :
    saturatingSubI64 now rollingWindowSeconds = now - rollingWindowSeconds := by
  unfold InI64 at hi
  unfold rollingWindowSeconds
  exact saturatingSubI64_of_inI64 ⟨by omega, by omega⟩

theorem cast_share (amount : UInt64) {overlap : ℤ} {duration : ℕ} (hpos : 0 ≤ overlap)
    (h : overlap ≤ duration) (hduration : duration < 2 ^ 64) :
    ((saturatingMul128 amount.toNat overlap.toNat / duration : ℕ) : ℤ) =
      ((amount.toNat : ℤ) * overlap).tdiv duration := by
  have hamount := amount.toNat_lt
  have hlt : amount.toNat * overlap.toNat < 2 ^ 128 := by
    calc amount.toNat * overlap.toNat ≤ amount.toNat * 2 ^ 64 := Nat.mul_le_mul_left _ (by omega)
      _ < 2 ^ 64 * 2 ^ 64 := Nat.mul_lt_mul_of_pos_right hamount (by norm_num)
      _ = 2 ^ 128 := by norm_num
  rw [saturatingMul128_of_lt hlt, Int.tdiv_eq_ediv_of_nonneg (by positivity)]
  push_cast
  rw [Int.toNat_of_nonneg hpos]

theorem addBucket_decoded {b : Sigil.EpochBucket} (hb : IsEpoch epochDuration b.epochId)
    (hi : InI64 now) (total currentEpoch : ℤ) :
    addBucket currentEpoch (windowStartOf now) total ⟨b.epochId, b.usdAmount.toNat⟩ =
      total + b.rollingAmount currentEpoch (now - rollingWindowSeconds) := by
  have hstart : 0 ≤ b.epochId * epochDuration := Int.mul_nonneg hb.nonneg (by decide)
  have hmul : saturatingMulI64 b.epochId epochDuration = b.epochId * epochDuration :=
    saturatingMulI64_of_inI64 ⟨hstart.trans' (by decide), Int.lt_of_le_sub_one hb.start_le⟩
  have hzero : (b.usdAmount.toNat : ℤ) = 0 ↔ b.usdAmount = 0 := by
    rw [← UInt64.toNat_inj, UInt64.toNat_zero, Nat.cast_eq_zero]
  have hagree : WindowsAgree now (b.epochId * epochDuration) epochDuration :=
    windowsAgree hi hstart (by decide) (by decide)
  unfold addBucket EpochBucket.rollingAmount
  simp only [hmul, ← hagree.outside, ← hagree.inside, hzero]
  split
  · simp
  split
  · simp
  split
  · rfl
  rename_i hlive hstraddles
  rw [not_or, not_le] at hlive
  rw [hagree.overlap hstraddles]
  rw [not_le] at hstraddles
  have hpos : 0 ≤ b.epochId * epochDuration + epochDuration - windowStartOf now := by
    linarith [hlive.1]
  have hshort : b.epochId * epochDuration + epochDuration - windowStartOf now ≤ (600 : ℕ) := by
    push_cast
    linarith
  exact congrArg (total + ·) (cast_share _ hpos hshort (by norm_num)).symm

theorem foldl_addBucket {l : List Sigil.EpochBucket}
    (hl : ∀ b ∈ l, IsEpoch epochDuration b.epochId) (hi : InI64 now) (total currentEpoch : ℤ) :
    (l.map fun b => (⟨b.epochId, b.usdAmount.toNat⟩ : EpochBucket)).foldl
        (addBucket currentEpoch (windowStartOf now)) total =
      total + (l.map fun b => b.rollingAmount currentEpoch (now - rollingWindowSeconds)).sum := by
  induction l generalizing total with
  | nil => simp
  | cons b l ih =>
    rw [List.forall_mem_cons] at hl
    rw [List.map_cons, List.foldl_cons, addBucket_decoded hl.1 hi, ih hl.2, List.map_cons,
      List.sum_cons]
    push_cast
    ring

theorem clampU64_natCast (n : ℕ) : clampU64 n = (capToU64 n).toNat := by
  rw [capToU64_toNat]
  unfold clampU64 u64Max
  split <;> omega

/-- Two epochs are never so far apart that their difference saturates. -/
theorem saturatingSubI64_epochs {d e e' : ℤ} (hd : 0 < d) (he : IsEpoch d e) (he' : IsEpoch d e') :
    saturatingSubI64 e e' = e - e' := by
  have hle {x : ℤ} (hx : IsEpoch d x) : x ≤ 2 ^ 63 - 1 :=
    (le_mul_of_one_le_right hx.nonneg hd).trans hx.start_le
  have h := hle he
  have h' := hle he'
  have hnonneg := he.nonneg
  have hnonneg' := he'.nonneg
  exact saturatingSubI64_of_inI64 ⟨by omega, by omega⟩

theorem getRolling24hUsd_eq {t : Sigil.SpendTracker} (ht : t.InEpochs) (clock : Clock) :
    getRolling24hUsd (decodeSpendTracker t) clock.unixTimestamp =
      (t.getRolling24hUsd clock).toNat := by
  have hi := clock.inI64
  unfold getRolling24hUsd Sigil.SpendTracker.getRolling24hUsd
  split
  · rfl
  rename_i hpos
  rw [not_le] at hpos
  have hepoch : clock.unixTimestamp.tdiv epochDuration = clock.unixTimestamp / epochDuration :=
    Int.tdiv_eq_ediv_of_nonneg hpos.le
  have hgap := saturatingSubI64_epochs (by decide)
    (isEpoch_div (d := epochDuration) (by decide) hpos) ht.last
  have hbuckets : ∀ b ∈ List.ofFn t.buckets, IsEpoch epochDuration b.epochId := by
    simp only [List.mem_ofFn, forall_exists_index, forall_apply_eq_imp_iff]
    exact ht.buckets
  simp only [hepoch, hgap, decodeSpendTracker]
  split
  · rfl
  have hdecoded : (List.ofFn fun i => (⟨(t.buckets i).epochId, (t.buckets i).usdAmount.toNat⟩ :
      EpochBucket)) = (List.ofFn t.buckets).map fun b => ⟨b.epochId, b.usdAmount.toNat⟩ := by
    rw [List.map_ofFn]
    rfl
  unfold Sigil.SpendTracker.rollingTotal
  rw [hdecoded, foldl_addBucket hbuckets hi, zero_add, clampU64_natCast, capToU64_toNat,
    capToU64_toNat, foldl_saturatingAdd128 _ _ (by norm_num), saturatingSubI64_window hpos hi]
  omega

theorem slot_eq_ofNat {epoch : ℤ} (h : 0 ≤ epoch) :
    EpochHistory.slot overlayNumEpochs epoch =
      Fin.ofNat overlayNumEpochs (epoch.tmod overlayNumEpochs).toNat := by
  ext
  rw [Int.tmod_eq_emod_of_nonneg h]
  exact (Nat.mod_eq_of_lt (EpochHistory.slot overlayNumEpochs epoch).isLt).symm

theorem contributionLoop_cons (e : Sigil.AgentContributionEntry)
    (currentEpoch windowStart total : ℤ) (k : ℕ) (ks : List ℕ) :
    contributionLoop (decodeAgentContributionEntry e) currentEpoch windowStart (k :: ks) total =
      let epoch := e.lastWriteEpoch - k
      let bucketStart := epoch * overlayEpochDuration
      let contribution : ℤ :=
        (e.contributions (Fin.ofNat overlayNumEpochs (epoch.tmod overlayNumEpochs).toNat)).toNat
      let go := contributionLoop (decodeAgentContributionEntry e) currentEpoch windowStart ks
      if epoch < 0 then total
      else if bucketStart + overlayEpochDuration ≤ windowStart then total
      else if currentEpoch < epoch then go total
      else if contribution = 0 then go total
      else if windowStart ≤ bucketStart then go (total + contribution)
      else go (total + (contribution * (bucketStart + overlayEpochDuration - windowStart)).tdiv
        overlayEpochDuration) := rfl

theorem contributionLoop_decoded {e : Sigil.AgentContributionEntry}
    (he : IsEpoch overlayEpochDuration e.lastWriteEpoch) (hi : InI64 now) (currentEpoch : ℤ)
    {ks : List ℕ} (hks : ∀ k ∈ ks, k < overlayNumEpochs) (total : ℕ) :
    ∃ sum : ℕ,
      contributionLoop (decodeAgentContributionEntry e) currentEpoch (windowStartOf now) ks total =
        sum ∧
      e.rollingLoop currentEpoch (now - rollingWindowSeconds) ks (min total (2 ^ 128 - 1)) =
        min sum (2 ^ 128 - 1) := by
  induction ks generalizing total with
  | nil => exact ⟨total, rfl, rfl⟩
  | cons k ks ih =>
    rw [List.forall_mem_cons] at hks
    have hk : k < 24 := hks.1
    have hnonneg := he.nonneg
    have hbound := he.start_le
    unfold overlayEpochDuration at hbound
    have hadd (x : ℕ) : saturatingAdd128 (min total (2 ^ 128 - 1)) x =
        min (total + x) (2 ^ 128 - 1) := by
      unfold saturatingAdd128
      omega
    have hepoch : saturatingSubI64 e.lastWriteEpoch k = e.lastWriteEpoch - k :=
      saturatingSubI64_of_inI64 ⟨by omega, by omega⟩
    rw [contributionLoop_cons, Sigil.AgentContributionEntry.rollingLoop]
    simp only [hepoch, hadd]
    by_cases hearly : e.lastWriteEpoch - k < 0
    · rw [if_pos hearly, if_pos hearly]
      exact ⟨total, rfl, rfl⟩
    rw [if_neg hearly, if_neg hearly, slot_eq_ofNat (not_lt.mp hearly)]
    have hstart : 0 ≤ (e.lastWriteEpoch - k) * overlayEpochDuration :=
      Int.mul_nonneg (not_lt.mp hearly) (by decide)
    have hmul : saturatingMulI64 (e.lastWriteEpoch - k) overlayEpochDuration =
        (e.lastWriteEpoch - k) * overlayEpochDuration := by
      refine saturatingMulI64_of_inI64 ⟨hstart.trans' (by decide), ?_⟩
      unfold overlayEpochDuration
      omega
    have hagree : WindowsAgree now ((e.lastWriteEpoch - k) * overlayEpochDuration)
        overlayEpochDuration := windowsAgree hi hstart (by decide) (by decide)
    generalize e.contributions _ = contribution
    have hzero : (contribution.toNat : ℤ) = 0 ↔ contribution = 0 := by
      rw [← UInt64.toNat_inj, UInt64.toNat_zero, Nat.cast_eq_zero]
    simp only [hmul, ← hagree.outside, ← hagree.inside, hzero]
    split
    · exact ⟨total, rfl, rfl⟩
    split
    · exact ih hks.2 total
    split
    · exact ih hks.2 total
    split
    · exact_mod_cast ih hks.2 (total + contribution.toNat)
    rename_i hlive _ _ hstraddles
    have hoverlap := hagree.overlap hstraddles
    rw [not_le] at hlive hstraddles
    have hpos : 0 ≤ (e.lastWriteEpoch - k) * overlayEpochDuration + overlayEpochDuration -
        windowStartOf now := by
      linarith
    have hshort : (e.lastWriteEpoch - k) * overlayEpochDuration + overlayEpochDuration -
        windowStartOf now ≤ (3600 : ℕ) := by
      push_cast
      linarith
    have hsub : saturatingSubI64 (saturatingAddI64 ((e.lastWriteEpoch - k) * overlayEpochDuration)
        overlayEpochDuration) (now - rollingWindowSeconds) =
          (e.lastWriteEpoch - k) * overlayEpochDuration + overlayEpochDuration -
            windowStartOf now := by
      rw [← hoverlap]
      refine saturatingSubI64_of_inI64 ?_
      rw [hoverlap]
      exact ⟨hpos.trans' (by decide), hshort.trans_lt (by norm_num)⟩
    have hshare := cast_share contribution hpos hshort (by norm_num)
    rw [hsub]
    obtain ⟨sum, hclient, hchain⟩ := ih hks.2
      (total + saturatingMul128 contribution.toNat _ / 3600)
    refine ⟨sum, ?_, hchain⟩
    rw [← hclient, Nat.cast_add, hshare]
    rfl

theorem getAgentRolling24hUsd_eq {e : Sigil.AgentContributionEntry}
    (he : IsEpoch overlayEpochDuration e.lastWriteEpoch) (clock : Clock) :
    getAgentRolling24hUsd (decodeAgentContributionEntry e) clock.unixTimestamp =
      (e.rolling24hUsd clock).toNat := by
  have hi := clock.inI64
  unfold getAgentRolling24hUsd Sigil.AgentContributionEntry.rolling24hUsd
  dsimp only
  split
  · rfl
  rename_i hpos
  rw [not_le] at hpos
  have hepoch : clock.unixTimestamp.tdiv overlayEpochDuration =
      clock.unixTimestamp / overlayEpochDuration := Int.tdiv_eq_ediv_of_nonneg hpos.le
  have hgap := saturatingSubI64_epochs (by decide)
    (isEpoch_div (d := overlayEpochDuration) (by decide) hpos) he
  have hlast : (decodeAgentContributionEntry e).lastWriteEpoch = e.lastWriteEpoch := rfl
  rw [hepoch, hgap, hlast]
  split
  · rfl
  obtain ⟨sum, hclient, hchain⟩ := contributionLoop_decoded he hi
    (clock.unixTimestamp / overlayEpochDuration) (fun k hk => List.mem_range.mp hk) 0
  rw [Nat.cast_zero] at hclient
  rw [hclient, clampU64_natCast, saturatingSubI64_window hpos hi]
  change _ = ((capToU64 (e.rollingLoop _ _ _ (min 0 (2 ^ 128 - 1)))).toNat : ℤ)
  rw [hchain, capToU64_toNat, capToU64_toNat]
  omega

theorem find?_ofFn {α β : Type} {n : ℕ} (f : Fin n → α) (g : α → β) (p : β → Bool) (q : α → Bool)
    (h : ∀ x, p (g x) = q x) :
    (List.ofFn fun i => g (f i)).find? p = (Fin.find? fun i => q (f i)).map fun i => g (f i) := by
  cases hfind : Fin.find? fun i => q (f i) with
  | none =>
    rw [Fin.find?_eq_none_iff] at hfind
    simp only [Option.map_none, List.find?_eq_none, List.mem_ofFn, forall_exists_index,
      forall_apply_eq_imp_iff, h]
    exact fun i => by simp [hfind i]
  | some i =>
    rw [Fin.find?_eq_some_iff] at hfind
    rw [Option.map_some, List.find?_ofFn_eq_some]
    refine ⟨(h _).trans hfind.1, i, rfl, fun j hj => ?_⟩
    rw [h]
    exact fun hq => by simp [hfind.2 j hj] at hq

theorem bytesMatchAddress_bytes (key : Pubkey) (addr : Address) :
    bytesMatchAddress key.bytes addr = decide (key = addr.key) := by
  unfold bytesMatchAddress
  rw [decide_eq_decide, Pubkey.bytes_injective.eq_iff]

theorem getProtocolSpend_eq {t : Sigil.SpendTracker} (ht : t.InEpochs) (clock : Clock)
    (protocol : Address) :
    getProtocolSpend (decodeSpendTracker t) protocol clock.unixTimestamp =
      (t.getProtocolSpend clock protocol.key).toNat := by
  unfold getProtocolSpend Sigil.SpendTracker.getProtocolSpend
  split
  · rfl
  rename_i hpos
  rw [not_le] at hpos
  have hfind : (decodeSpendTracker t).protocolCounters.find?
      (fun c => bytesMatchAddress c.protocol protocol) =
        (Fin.find? fun i => decide ((t.protocolCounters i).protocol = protocol.key)).map fun i =>
          decodeProtocolSpendCounter (t.protocolCounters i) :=
    find?_ofFn t.protocolCounters decodeProtocolSpendCounter _
      (fun c => decide (c.protocol = protocol.key))
      fun c => bytesMatchAddress_bytes c.protocol protocol
  simp only [hfind]
  cases Fin.find? fun i => decide ((t.protocolCounters i).protocol = protocol.key) with
  | none => rfl
  | some i =>
    have hepoch : clock.unixTimestamp.tdiv epochDuration = clock.unixTimestamp / epochDuration :=
      Int.tdiv_eq_ediv_of_nonneg hpos.le
    have hgap := saturatingSubI64_epochs (by decide)
      (isEpoch_div (d := epochDuration) (by decide) hpos) (ht.counters i)
    simp only [Option.map_some, hepoch, hgap]
    by_cases hlive : clock.unixTimestamp / epochDuration - (t.protocolCounters i).windowStart <
        numEpochs
    · rw [if_pos hlive]
      exact if_pos hlive
    · rw [if_neg hlive]
      exact if_neg hlive

theorem agentEntryBudget_eq {o : Sigil.AgentSpendOverlay} (ho : o.InEpochs) {entry : AgentEntry}
    {i : Fin maxOverlayEntries} (hi : o.findAgentSlot entry.pubkey.key = some i) (clock : Clock) :
    agentEntryBudget (some (decodeAgentSpendOverlay o)) entry clock.unixTimestamp =
      budgetOf (o.getAgentRolling24hUsd clock i).toNat entry.spendingLimitUsd := by
  have hfind : (decodeAgentSpendOverlay o).entries.find?
      (fun e => bytesMatchAddress e.agent entry.pubkey) =
        (o.findAgentSlot entry.pubkey.key).map fun i =>
          decodeAgentContributionEntry (o.entries i) :=
    find?_ofFn o.entries decodeAgentContributionEntry _
      (fun e => decide (e.agent = entry.pubkey.key))
      fun e => bytesMatchAddress_bytes e.agent entry.pubkey
  unfold agentEntryBudget
  simp only [Option.bind_some, hfind, hi, Option.map_some]
  rw [getAgentRolling24hUsd_eq (ho i)]
  rfl

end Mirror

section Resolve

variable {overlay : Option AgentSpendOverlay} {agent : Address} {timestamp : ℤ}

/-- Every budget is that of an agent of the list with a limit, under its own address. -/
structure AgentBudgets.From (overlay : Option AgentSpendOverlay) (agent : Address) (timestamp : ℤ)
    (agents : List AgentEntry) (b : AgentBudgets) : Prop where
  own : ∀ budget ∈ b.agentBudget, ∃ entry ∈ agents, entry.pubkey.key = agent.key ∧
    budget = agentEntryBudget overlay entry timestamp
  all : ∀ p ∈ b.allAgentBudgets, ∃ entry ∈ agents, entry.pubkey.key = p.1.key ∧
    p.2 = agentEntryBudget overlay entry timestamp

def AgentBudgets.Shows (b : AgentBudgets) (agent : Address) (budget : EffectiveBudget) : Prop :=
  b.agentBudget = some budget ∨
    ∃ address, address.key = agent.key ∧ (address, budget) ∈ b.allAgentBudgets

theorem AgentBudgets.From.exists_entry {agents : List AgentEntry} {b : AgentBudgets}
    {budget : EffectiveBudget} (h : b.From overlay agent timestamp agents)
    (hshows : b.Shows agent budget) : ∃ entry ∈ agents, entry.pubkey.key = agent.key ∧
      budget = agentEntryBudget overlay entry timestamp := by
  rcases hshows with hown | ⟨address, haddress, hmem⟩
  · exact h.own budget hown
  · obtain ⟨entry, hentry, hkey, hsame⟩ := h.all _ hmem
    exact ⟨entry, hentry, hkey.trans haddress, hsame⟩

theorem mem_setBudget {budgets : List (Address × EffectiveBudget)} {key : Address}
    {budget : EffectiveBudget} {p : Address × EffectiveBudget}
    (h : p ∈ setBudget budgets key budget) :
    p ∈ budgets ∨ p.1.text = key.text ∧ p.2 = budget := by
  unfold setBudget at h
  split at h
  · obtain ⟨q, hq, rfl⟩ := List.mem_map.mp h
    split
    · rename_i hkey
      exact .inr ⟨hkey, rfl⟩
    · exact .inl hq
  · rcases List.mem_append.mp h with hold | hnew
    · exact .inl hold
    · rw [List.mem_singleton.mp hnew]
      exact .inr ⟨rfl, rfl⟩

theorem addAgent_from {agents : List AgentEntry} {entry : AgentEntry} (hentry : entry ∈ agents)
    {b : AgentBudgets} (hb : b.From overlay agent timestamp agents) :
    (addAgent overlay agent timestamp b entry).From overlay agent timestamp agents := by
  unfold addAgent
  split
  · exact hb
  refine ⟨fun budget hbudget => ?_, fun p hp => ?_⟩
  · dsimp only at hbudget
    split at hbudget
    · rename_i hkey
      cases hbudget
      exact ⟨entry, hentry, Address.text_eq_iff.mp hkey, rfl⟩
    · exact hb.own budget hbudget
  · rcases mem_setBudget hp with hold | ⟨hkey, hbudget⟩
    · exact hb.all p hold
    · exact ⟨entry, hentry, (Address.text_eq_iff.mp hkey).symm, hbudget⟩

theorem agentBudgets_from (agents : List AgentEntry) (overlay : Option AgentSpendOverlay)
    (agent : Address) (timestamp : ℤ) :
    (agentBudgets agents overlay agent timestamp).From overlay agent timestamp agents := by
  refine List.foldlRecOn agents _ ⟨by simp, by simp⟩ ?_
  intro b hb entry hentry
  exact addAgent_from hentry hb

theorem checkCap_of_remaining {e : SigilError} {prior x cap : UInt64} (hpos : 0 < x)
    (h : (x.toNat : ℤ) ≤ (budgetOf prior.toNat cap.toNat).remaining) :
    checkCap e prior x cap = .ok () := by
  rw [checkCap_ok_iff]
  rw [UInt64.lt_iff_toNat_lt, UInt64.toNat_zero] at hpos
  unfold budgetOf at h
  dsimp only at h
  split at h <;> omega

end Resolve

section Client

variable {D : Type} [Host D] [DecidableEq D]

/-- The client's figures are the program's on every state of the spend accounts and at every clock,
so what it shows as left of a budget passes the program's check. -/
theorem client_mirrors_chain (clock : Clock) :
    (∀ t : Sigil.SpendTracker, t.Reached →
      getRolling24hUsd (decodeSpendTracker t) clock.unixTimestamp =
        (t.getRolling24hUsd clock).toNat ∧
      ∀ protocol : Address, getProtocolSpend (decodeSpendTracker t) protocol clock.unixTimestamp =
        (t.getProtocolSpend clock protocol.key).toNat) ∧
    (∀ o : Sigil.AgentSpendOverlay, o.Reached → ∀ i,
      getAgentRolling24hUsd (decodeAgentContributionEntry (o.entries i)) clock.unixTimestamp =
        (o.getAgentRolling24hUsd clock i).toNat) ∧
    ∀ {l₀ l : Ledger D} {as : List (Action D)} {a : VaultAccounts D}, l₀.Genesis →
      Run Step l₀ as l → l.live = some a → ∀ x : UInt64, 0 < x →
      ((x.toNat : ℤ) ≤ (globalBudget (some (decodeSpendTracker a.tracker))
          a.policy.dailySpendingCapUsd.toNat clock.unixTimestamp).remaining →
        a.tracker.checkDailyCap clock x a.policy.dailySpendingCapUsd = .ok ()) ∧
      ∀ (agent : Address) (entry : Sigil.AgentEntry) (i : Fin maxOverlayEntries)
        (budget : EffectiveBudget), a.vault.getAgent agent.key = some entry →
        a.overlay.findAgentSlot agent.key = some i →
        (agentBudgets (decodeAgents a.vault) (some (decodeAgentSpendOverlay a.overlay)) agent
          clock.unixTimestamp).Shows agent budget →
        (x.toNat : ℤ) ≤ budget.remaining →
        a.overlay.checkAgentLimit clock i x entry.spendingLimitUsd = .ok () := by
  refine ⟨fun t ht =>
      ⟨getRolling24hUsd_eq ht.inEpochs clock, getProtocolSpend_eq ht.inEpochs clock⟩,
    fun o ho i => getAgentRolling24hUsd_eq (ho.inEpochs i) clock, ?_⟩
  intro l₀ l as a h₀ hrun ha x hx
  have hreached := run_spendReached h₀ hrun a ha
  refine ⟨fun hleft => ?_, fun agent entry i budget hentry hi hbudget hleft => ?_⟩
  · refine checkCap_of_remaining hx ?_
    rwa [globalBudget, Option.elim_some, getRolling24hUsd_eq hreached.tracker.inEpochs] at hleft
  · obtain ⟨shown, hmem, hkey, rfl⟩ := (agentBudgets_from _ _ _ _).exists_entry hbudget
    obtain ⟨e, he, rfl⟩ := List.mem_map.mp hmem
    -- the registry has one entry for each key, so the one shown is the one that is checked
    have hsame : a.vault.getAgent agent.key = some e :=
      (FirstMatch.find?_eq_some_iff_of_nodup Sigil.AgentEntry.pubkey
        ((run_registered hrun h₀).agents a ha).distinct).mpr
        ⟨he, hkey⟩
    cases hsame.symm.trans hentry
    rw [agentEntryBudget_eq hreached.overlay.inEpochs (by rw [hkey]; exact hi)] at hleft
    unfold Sigil.AgentSpendOverlay.checkAgentLimit
    split
    · exact checkCap_of_remaining hx hleft
    · rfl

end Client

section Sample

theorem run_closedLedgerOfSample : ∃ as, Run Step emptyLedger as closedLedgerOfSample := by
  obtain ⟨as, hrun⟩ := run_operatedLedger
  have htrading : Step operatedLedger .foreign tradingLedger := .foreign _ _ _
  have hswap : Step openedLedger .foreign swapLedger := .foreign _ _ _
  exact ⟨_, (((hrun.snoc htrading).snoc (.call exec_openedLedger)).snoc hswap).snoc
    (.call exec_closedLedgerOfSample)⟩

/-- After the sample trade the client shows what the vault and its operator may still spend. -/
theorem client_mirrors_chain_swap : ∃ a i, ∃ entry : Sigil.AgentEntry,
    closedLedgerOfSample.live = some a ∧
    getRolling24hUsd (decodeSpendTracker a.tracker) 2100 = 41 ∧
    (a.tracker.getRolling24hUsd (sampleEnv 2100 31).clock).toNat = 41 ∧
    a.tracker.checkDailyCap (sampleEnv 2100 31).clock 900 a.policy.dailySpendingCapUsd = .ok () ∧
    a.overlay.checkAgentLimit (sampleEnv 2100 31).clock i 400 entry.spendingLimitUsd = .ok () := by
  let shown (a : VaultAccounts Preimage) := (agentBudgets (decodeAgents a.vault)
    (some (decodeAgentSpendOverlay a.overlay)) (.ofKey (sampleKey 9)) 2100).agentBudget
  have hfigures : (closedLedgerOfSample.live.any fun a =>
      getRolling24hUsd (decodeSpendTracker a.tracker) 2100 = 41 ∧
      900 ≤ (globalBudget (some (decodeSpendTracker a.tracker))
        a.policy.dailySpendingCapUsd.toNat 2100).remaining ∧
      (a.vault.getAgent (sampleKey 9)).isSome ∧ (a.overlay.findAgentSlot (sampleKey 9)).isSome ∧
      ((shown a).any fun b => 400 ≤ b.remaining) = true) = true := by
    decide +kernel
  obtain ⟨a, ha, hall⟩ := (Option.any_eq_true _ _).mp hfigures
  obtain ⟨hspent, hglobal, hentry, hslot, hbudget⟩ := of_decide_eq_true hall
  obtain ⟨entry, hentry⟩ := Option.isSome_iff_exists.mp hentry
  obtain ⟨i, hi⟩ := Option.isSome_iff_exists.mp hslot
  obtain ⟨budget, hbudget, hleft⟩ := (Option.any_eq_true _ _).mp hbudget
  obtain ⟨as, hrun⟩ := run_closedLedgerOfSample
  obtain ⟨htracker, -, hchecks⟩ := client_mirrors_chain (D := Preimage) (sampleEnv 2100 31).clock
  have hreached := (run_spendReached genesis_emptyLedger hrun a ha).tracker
  have hchain := (htracker a.tracker hreached).1.symm.trans hspent
  obtain ⟨hdaily, -⟩ := hchecks genesis_emptyLedger hrun ha 900 (by decide)
  obtain ⟨-, hagent⟩ := hchecks genesis_emptyLedger hrun ha 400 (by decide)
  exact ⟨a, i, entry, ha, hspent, by exact_mod_cast hchain, hdaily hglobal,
    hagent (.ofKey (sampleKey 9)) entry i budget hentry hi (.inl hbudget) (of_decide_eq_true hleft)⟩

end Sample

end Sigil.Client
