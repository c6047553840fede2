import Sigil.Authority.PolicyVersion
import Sigil.Library.SlotTable
import Sigil.Session.Destinations

/-! # The counters of the protocols

Ten counters take the spends of the protocols, each for the protocol whose spend was the first to
reach it. No counter is given back: not when its window is over, and not when its protocol leaves
the allowlist.
-/

namespace Sigil

open Guard Trace SlotTable Machine

namespace SpendTracker

def owners (t : SpendTracker) (i : Fin maxAllowedProtocols) : Pubkey :=
  (t.protocolCounters i).protocol

def counted (t : SpendTracker) : Finset Pubkey := taken Pubkey.default t.owners

variable {t t' : SpendTracker} {clock : Clock} {protocol : Pubkey} {amount : UInt64}

theorem owners_of_counters (h : t'.protocolCounters = t.protocolCounters) :
    t'.owners = t.owners := by
  unfold owners
  rw [h]

theorem owners_setProtocolCounter (i : Fin maxAllowedProtocols) (c : ProtocolSpendCounter) :
    (t.setProtocolCounter i c).owners = Function.update t.owners i c.protocol := by
  ext1 j
  by_cases hj : j = i
  · subst hj
    simp [owners, setProtocolCounter]
  · simp [owners, setProtocolCounter, hj]

theorem owners_of_find? {i : Fin maxAllowedProtocols}
    (h : (Fin.find? fun i => (t.protocolCounters i).protocol = protocol) = some i) :
    t.owners i = protocol := by
  simpa [owners] using Fin.eq_true_of_find?_eq_some h

theorem owners_ne_of_find?
    (h : (Fin.find? fun i => (t.protocolCounters i).protocol = protocol) = none)
    (i : Fin maxAllowedProtocols) : t.owners i ≠ protocol := by
  simpa [owners] using Fin.eq_false_of_find?_eq_none h i

theorem owners_recordProtocolSpend (h : t.recordProtocolSpend clock protocol amount = .ok t') :
    t'.owners = t.owners ∨ ∃ i, t.owners i = Pubkey.default ∧ (∀ j, t.owners j ≠ protocol) ∧
      t'.owners = Function.update t.owners i protocol := by
  simp only [recordProtocolSpend, ensure_seq_ok_iff] at h
  obtain ⟨-, h⟩ := h
  split at h
  · rename_i i hi
    left
    split at h
    · obtain rfl := pure_ok_iff.mp h
      rw [owners_setProtocolCounter]
      exact Function.update_eq_self i t.owners
    · simp only [someOr_seq_ok_iff, pure_ok_iff] at h
      obtain ⟨spend, -, rfl⟩ := h
      rw [owners_setProtocolCounter]
      exact Function.update_eq_self i t.owners
  · rename_i hnone
    split at h
    · rename_i i hfree
      obtain rfl := pure_ok_iff.mp h
      exact .inr ⟨i, owners_of_find? hfree, owners_ne_of_find? hnone, owners_setProtocolCounter ..⟩
    · exact absurd h fail_ne_ok

theorem recordProtocolSpend_exhausted (hclock : 0 < clock.unixTimestamp) :
    t.recordProtocolSpend clock protocol amount = .error (.sigil .protocolCapExceeded) ↔
      (∀ i, t.owners i ≠ protocol) ∧ ∀ i, t.owners i ≠ Pubkey.default := by
  unfold recordProtocolSpend
  rw [ensure_of hclock, ok_seq]
  constructor
  · intro h
    dsimp only at h
    split at h
    · split at h
      · cases h
      · rcases seq_error_iff.mp h with hoverflow | ⟨spend, -, hok⟩
        · cases (someOr_error_iff.mp hoverflow).2
        · cases hok
    · rename_i hnone
      split at h
      · cases h
      · rename_i hfull
        exact ⟨owners_ne_of_find? hnone, owners_ne_of_find? hfull⟩
  · rintro ⟨hnone, hfull⟩
    have hfind : (Fin.find? fun i => (t.protocolCounters i).protocol = protocol) = none :=
      Fin.find?_eq_none_iff.mpr fun i => decide_eq_false (hnone i)
    have hfree : (Fin.find? fun i => (t.protocolCounters i).protocol = Pubkey.default) = none :=
      Fin.find?_eq_none_iff.mpr fun i => decide_eq_false (hfull i)
    simp only [hfind, hfree]
    rfl

end SpendTracker

section Exec

variable {D : Type} [Host D] [DecidableEq D] {env : Env} {c : Call D} {l₀ l l' : Ledger D}
  {a a' : VaultAccounts D} {as : List (Action D)}

/-- A protocol gets its counter when a session of it is charged under protocol caps. -/
structure Counts (l : Ledger D) (a : VaultAccounts D) (c : Call D) (protocol : Pubkey) : Prop where
  caps : a.policy.hasProtocolCaps = true
  session : ∃ args s, c = .finalizeSession args ∧ l.sessions args.session = some s ∧
    s.authorizedProtocol = protocol

theorem exec_owners (h : exec env l c = .ok l') (ha : l.live = some a) (ha' : l'.live = some a') :
    a'.tracker.owners = a.tracker.owners ∨ ∃ protocol i, Counts l a c protocol ∧
      a.tracker.owners i = Pubkey.default ∧ (∀ j, a.tracker.owners j ≠ protocol) ∧
      a'.tracker.owners = Function.update a.tracker.owners i protocol := by
  by_cases hwrites : Part.tracker ∉ c.writes
  · exact .inl (congrArg SpendTracker.owners ((exec_frame h hwrites).eq ha ha'))
  cases c <;> simp [Call.writes, Part.ofVault] at hwrites
  case initializeVault =>
    obtain ⟨hnone, -⟩ := initializeVault_ok h
    cases hnone.symm.trans ha
  case closeVault =>
    obtain ⟨b, -, -, -, -, -, rfl⟩ := closeVault_ok h
    cases ha'
  case agentTransfer =>
    obtain ⟨b, charged, counted, source, destination, usdAmount, split, ht⟩ := agentTransfer_ok h
    cases ha.symm.trans ht.live
    obtain ⟨entry, -, hcharged⟩ := ht.charge
    obtain ⟨overlay, recorded, tracker, -, -, -, hrecorded, htracker, rfl⟩ :=
      chargeTransfer_ok hcharged
    obtain ⟨transactions, volume, fees, rfl⟩ := countTransfer_ok ht.count
    obtain ⟨tokens, rfl⟩ := ht.result
    cases ha'
    obtain ⟨-, total, -, rfl⟩ := SpendTracker.recordSpend_ok hrecorded
    have hcounters := SpendTracker.owners_of_counters (chargeRecipient_ok htracker).2
    exact .inl hcounters
  case finalizeSession args =>
    obtain ⟨b, s, revoked, outcome, vault, tracker, hclosed⟩ := finalizeSession_ok h
    cases ha.symm.trans hclosed.live
    obtain ⟨treasury, feeDest, -, -, hsettled⟩ := hclosed.settled
    have howners : tracker.owners = outcome.accounts.tracker.owners :=
      SpendTracker.owners_of_counters (chargeSessionRecipient_ok hclosed.recipient).2
    have hsession := hclosed.session
    obtain rfl := hclosed.result
    cases ha'
    change tracker.owners = _ ∨ ∃ protocol i, _ ∧ _ ∧ _ ∧ tracker.owners = _
    rw [howners]
    rcases settle_charges hsettled with hsame | ⟨amount, hcharged⟩
    · exact .inl (congrArg (fun b => b.tracker.owners) hsame)
    · obtain ⟨entry, overlay, recorded, tracker', -, -, -, -, -, hrecorded, htracker, hb⟩ :=
        chargeSession_ok hcharged
      obtain ⟨-, total, -, rfl⟩ := SpendTracker.recordSpend_ok hrecorded
      rw [hb]
      unfold recordForProtocol at htracker
      split at htracker
      · rename_i hcaps
        rcases SpendTracker.owners_recordProtocolSpend htracker with hkept | ⟨i, hfree, hnone, hnew⟩
        · exact .inl hkept
        · exact .inr ⟨_, i, ⟨hcaps, args, s, rfl, hsession, rfl⟩, hfree, hnone, hnew⟩
      · cases htracker
        exact .inl rfl

theorem exec_oneEach (h : exec env l c = .ok l')
    (hl : ∀ a ∈ l.live, OneEach Pubkey.default a.tracker.owners) :
    ∀ a' ∈ l'.live, OneEach Pubkey.default a'.tracker.owners := by
  intro a' ha'
  rcases exec_exists_live h with ⟨a, ha⟩ | ⟨owner, feeDestination, args, rfl⟩
  · rcases exec_owners h ha ha' with hkept | ⟨protocol, i, -, -, hnone, hnew⟩
    · rw [hkept]
      exact hl a ha
    · rw [hnew]
      exact (hl a ha).claim hnone
  · obtain ⟨-, -, -, -, -, -, rfl⟩ := initializeVault_ok h
    cases ha'
    exact fun _ _ hused => absurd rfl hused

/-- An instruction takes no counter away, and gives one to the protocol that it charges at most. -/
theorem exec_counted (h : exec env l c = .ok l') (ha : l.live = some a) (ha' : l'.live = some a') :
    a.tracker.counted ⊆ a'.tracker.counted ∧
      ∀ protocol ∈ a'.tracker.counted, protocol ∈ a.tracker.counted ∨ Counts l a c protocol := by
  unfold SpendTracker.counted
  rcases exec_owners h ha ha' with hkept | ⟨protocol, i, hcounts, hfree, hnone, hnew⟩
  · rw [hkept]
    exact ⟨Finset.Subset.refl _, fun _ => .inl⟩
  · have hnamed : protocol ≠ Pubkey.default := fun hdefault => hnone i (hfree.trans hdefault.symm)
    rw [hnew, taken_claim hfree hnamed]
    refine ⟨Finset.subset_insert _ _, fun other hother => ?_⟩
    rcases Finset.mem_insert.mp hother with rfl | hold
    · exact .inr hcounts
    · exact .inl hold

theorem LivesThrough.counted {bs : List (Action D)} (h : LivesThrough l bs l')
    (ha : l.live = some a) (ha' : l'.live = some a') : a.tracker.counted ⊆ a'.tracker.counted := by
  refine Run.invariant (P := fun m => ∀ b, m.live = some b →
    a.tracker.counted ⊆ b.tracker.counted) h ?_ ?_ a' ha'
  · rintro m x m' hm ⟨hstep, hlive, -⟩ b' hb'
    obtain ⟨b, hb⟩ := Option.isSome_iff_exists.mp hlive
    cases hstep with
    | foreign => exact hm b' hb'
    | call hexec => exact (hm b hb).trans (exec_counted hexec hb hb').1
  · intro b hb
    cases ha.symm.trans hb
    exact Finset.Subset.refl _

/-- Recording a spend under protocol caps finds a counter for it just if the protocol has one or
fewer than ten protocols do. A protocol gets a counter when it is first charged under protocol caps
and keeps it as long as the vault lives. -/
theorem protocol_counter_available_iff (h₀ : l₀.Genesis) (hrun : Run Step l₀ as l)
    (ha : l.live = some a) (hcaps : a.policy.hasProtocolCaps = true) :
    (∀ protocol, (∀ t clock amount, t.protocolCounters = a.tracker.protocolCounters →
        recordForProtocol a.policy t clock protocol amount ≠
          .error (.sigil .protocolCapExceeded)) ↔
      protocol ∈ a.tracker.counted ∨ a.tracker.counted.card < 10) ∧
    (∀ env c l' a', exec env l c = .ok l' → l'.live = some a' → ∀ protocol ∈ a'.tracker.counted,
      protocol ∈ a.tracker.counted ∨ Counts l a c protocol) ∧
    ∀ bs l' a', LivesThrough l bs l' → l'.live = some a' →
      a.tracker.counted ⊆ a'.tracker.counted := by
  have hone : OneEach Pubkey.default a.tracker.owners :=
    forall_live_of_run hrun h₀ exec_oneEach a ha
  have hfree : a.tracker.counted.card < 10 ↔ ∃ i, a.tracker.owners i = Pubkey.default :=
    hone.card_taken_lt_iff
  refine ⟨fun protocol => ?_, fun env c l' a' hexec ha' => (exec_counted hexec ha ha').2,
    fun bs l' a' hlives ha' => hlives.counted ha ha'⟩
  rw [hfree]
  constructor
  · intro hnever
    by_contra hlack
    obtain ⟨hnone, hfull⟩ := not_or.mp hlack
    have hfull' : ∀ i, a.tracker.owners i ≠ Pubkey.default := fun i hi => hfull ⟨i, hi⟩
    have hnone' : ∀ i, a.tracker.owners i ≠ protocol := fun i hi =>
      hnone (mem_taken.mpr ⟨fun hdefault => hfull' i (hi.trans hdefault), i, hi⟩)
    refine hnever a.tracker ⟨0, 1, by decide⟩ 0 rfl ?_
    rw [recordForProtocol, if_pos hcaps]
    exact (SpendTracker.recordProtocolSpend_exhausted (by decide)).mpr ⟨hnone', hfull'⟩
  · intro havailable t clock amount hcounters hlack
    rw [recordForProtocol, if_pos hcaps] at hlack
    have howners := SpendTracker.owners_of_counters hcounters
    by_cases hclock : 0 < clock.unixTimestamp
    · obtain ⟨hnone, hfull⟩ := (SpendTracker.recordProtocolSpend_exhausted hclock).mp hlack
      rw [howners] at hnone hfull
      rcases havailable with hcounted | ⟨i, hi⟩
      · obtain ⟨-, i, hi⟩ := mem_taken.mp hcounted
        exact hnone i hi
      · exact hfull i hi
    · unfold SpendTracker.recordProtocolSpend at hlack
      rcases seq_error_iff.mp hlack with hbroken | ⟨⟨⟩, hset, -⟩
      · cases (ensure_error_iff.mp hbroken).2
      · exact hclock (ensure_ok_iff.mp hset)

end Exec

section Sample

def tenProtocols : List Pubkey := (List.range 10).map fun i => sampleKey (.ofNat (60 + i))

def cappedArgs : InitializeVaultArgs Preimage :=
  let draft : InitializeVaultArgs Preimage := { sampleArgs with
    protocols := tenProtocols
    protocolCaps := List.replicate 10 1000 }
  { draft with
    previewDigest := liveDigest (draft.newVault (sampleKey 1) (sampleKey 4))
      (draft.newPolicy emptyLedger.vaultKey 7) }

def cappedLedger : Ledger Preimage :=
  after (sampleEnv 1000 7) emptyLedger (.initializeVault (sampleKey 1) (sampleKey 4) cappedArgs)

theorem run_cappedLedger : ∃ as, Run Step emptyLedger as (withOperator cappedLedger) := by
  have hcreate : Step emptyLedger _ cappedLedger := .after (by decide +kernel)
  have hgrant : Step cappedLedger _ (withGrant cappedLedger) := .after (by decide +kernel)
  have hseat : Step (withGrant cappedLedger) _ (withOperator cappedLedger) :=
    .after (by decide +kernel)
  exact ⟨_, ((Run.single hcreate).snoc hgrant).snoc hseat⟩

def validateWith (protocol : Pubkey) (version : UInt64) : Call Preimage :=
  .validateAndAuthorize { sampleValidate emptyLedger.vaultKey with
    targetProtocol := protocol
    expectedPolicyVersion := version
    expectedIntentDigest := computeScalarIntentDigest emptyLedger.vaultKey (sampleKey 9) sampleMint
      50 protocol }

def closeTrade : Call Preimage := .finalizeSession (sampleFinalize emptyLedger.vaultKey)

def tradeWith (protocol : Pubkey) (version slot : UInt64) (time : UInt32) : Transaction where
  clock := (sampleEnv time slot).clock
  instructions :=
    [sampleInstruction emptyLedger.vaultKey (validateWith protocol version),
      ⟨protocol, sampleMetas, []⟩, sampleInstruction emptyLedger.vaultKey closeTrade]
  ownBytes := fun _ _ => []

/-- Open a session with the protocol and let it take 40 from a vault with funds. -/
def spendWith (l : Ledger Preimage) (protocol : Pubkey) (version slot : UInt64) (time : UInt32) :
    Result (Ledger Preimage) := do
  let opened ← exec ((tradeWith protocol version slot time).env 0)
    { l with tokens := sampleTokens emptyLedger.vaultKey 0, others := sampleOthers }
    (validateWith protocol version)
  return { opened with tokens := sampleTokens emptyLedger.vaultKey 40 }

def settleWith (l : Ledger Preimage) (protocol : Pubkey) : Result (Ledger Preimage) := do
  let spent ← spendWith l protocol 1 30 2000
  exec ((tradeWith protocol 1 30 2000).env 2) spent closeTrade

theorem run_spendWith {l l' : Ledger Preimage} {protocol : Pubkey} {version slot : UInt64}
    {time : UInt32} (h : spendWith l protocol version slot time = .ok l') :
    ∃ as, Run Step l as l' := by
  simp only [spendWith, seq_ok_iff, pure_ok_iff] at h
  obtain ⟨opened, hopened, rfl⟩ := h
  exact ⟨_, ((Run.single (.foreign l _ _)).snoc (.call hopened)).snoc (.foreign opened _ _)⟩

theorem run_settleWith {protocols : List Pubkey} {l l' : Ledger Preimage}
    (h : protocols.foldlM settleWith l = .ok l') : ∃ as, Run Step l as l' := by
  refine foldlM_invariant (P := fun m => ∃ as, Run Step l as m) h ?_ ⟨[], .nil l⟩
  rintro m protocol m' ⟨as, hrun⟩ hsettle
  obtain ⟨spent, hspent, hclose⟩ := seq_ok_iff.mp hsettle
  obtain ⟨bs, hspend⟩ := run_spendWith hspent
  exact ⟨_, (hrun.append hspend).snoc (.call hclose)⟩

def tradeTen : Result (Ledger Preimage) :=
  tenProtocols.foldlM settleWith (withOperator cappedLedger)

def allCounted (l : Ledger Preimage) : Bool :=
  l.live.any fun a => a.policy.hasProtocolCaps = true ∧ a.tracker.counted.card = 10 ∧
    sampleKey 70 ∉ a.tracker.counted ∧ ∀ protocol ∈ tenProtocols, protocol ∈ a.tracker.counted

theorem tradeTen_allCounted : ∃ l, tradeTen = .ok l ∧ allCounted l = true := by
  have hcounted : (tradeTen.toOption.any allCounted) = true := by decide +kernel
  obtain ⟨l, hl, hcounted⟩ := (Option.any_eq_true _ _).mp hcounted
  exact ⟨l, toOption_eq_some_iff.mp hl, hcounted⟩

/-- Once ten protocols have been charged, each can be charged again and an eleventh cannot. -/
theorem protocol_counter_available_iff_taken :
    ∃ as l a, Run Step emptyLedger as l ∧ l.live = some a ∧ a.tracker.counted.card = 10 ∧
      (∀ protocol ∈ tenProtocols, ∀ t clock amount,
        t.protocolCounters = a.tracker.protocolCounters →
          recordForProtocol a.policy t clock protocol amount ≠
            .error (.sigil .protocolCapExceeded)) ∧
      ∃ t clock amount, t.protocolCounters = a.tracker.protocolCounters ∧
        recordForProtocol a.policy t clock (sampleKey 70) amount =
          .error (.sigil .protocolCapExceeded) := by
  obtain ⟨l, htraded, hcounted⟩ := tradeTen_allCounted
  obtain ⟨as, hcapped⟩ := run_cappedLedger
  obtain ⟨bs, htrades⟩ := run_settleWith htraded
  obtain ⟨a, ha, hstate⟩ := (Option.any_eq_true _ _).mp hcounted
  obtain ⟨hcaps, hcard, heleventh, hten⟩ := of_decide_eq_true hstate
  have havailable :=
    (protocol_counter_available_iff genesis_emptyLedger (hcapped.append htrades) ha hcaps).1
  refine ⟨_, l, a, hcapped.append htrades, ha, hcard,
    fun protocol hprotocol => (havailable protocol).mpr (.inl (hten protocol hprotocol)), ?_⟩
  have hlacks := mt (havailable (sampleKey 70)).mp (not_or.mpr ⟨heleventh, hcard.not_lt⟩)
  simpa using hlacks

/-- An update that puts one protocol in the place of the ten. -/
def allowLast : PolicyUpdate Preimage :=
  { PolicyUpdate.none with
    protocols := some [sampleKey 70]
    protocolCaps := some [1000] }

/-- Replace the ten protocols by one, once they have traded, and start a trade with it. -/
def startEleventh : Result (Ledger Preimage) := do
  let traded ← tradeTen
  let queued ← exec (sampleEnv 100000 400) traded (sampleQueue traded allowLast Pubkey.default)
  let applied ← exec (sampleEnv 101800 500) queued (.applyPendingPolicy (sampleKey 1))
  spendWith applied (sampleKey 70) 2 600 190000

theorem run_startEleventh {l : Ledger Preimage} (h : startEleventh = .ok l) :
    ∃ as, Run Step emptyLedger as l := by
  simp only [startEleventh, seq_ok_iff] at h
  obtain ⟨traded, htraded, queued, hqueued, applied, happlied, hspent⟩ := h
  obtain ⟨as, hcapped⟩ := run_cappedLedger
  obtain ⟨bs, htrades⟩ := run_settleWith htraded
  obtain ⟨cs, hspend⟩ := run_spendWith hspent
  exact ⟨_, (((hcapped.append htrades).snoc (.call hqueued)).snoc (.call happlied)).append hspend⟩

/-- The session of the eleventh protocol cannot be closed, because the ten counters belong to
protocols that have left the allowlist, with windows that are over. -/
def eleventhBlocked (l : Ledger Preimage) : Bool :=
  failure ((tradeWith (sampleKey 70) 2 600 190000).env 2) l closeTrade =
      some (.sigil .protocolCapExceeded) ∧
    (l.sessions (sampleFinalize emptyLedger.vaultKey).session).any
      (fun s => s.authorizedProtocol = sampleKey 70) = true ∧
    l.live.any (fun a => a.policy.hasProtocolCaps = true ∧ a.policy.protocols = [sampleKey 70] ∧
      ∀ i, a.tracker.owners i ∉ a.policy.protocols ∧
        144 ≤ 190000 / 600 - (a.tracker.protocolCounters i).windowStart) = true

theorem startEleventh_blocked : ∃ l, startEleventh = .ok l ∧ eleventhBlocked l = true := by
  have hblocked : startEleventh.toOption.any eleventhBlocked = true := by decide +kernel
  obtain ⟨l, hl, hblocked⟩ := (Option.any_eq_true _ _).mp hblocked
  exact ⟨l, toOption_eq_some_iff.mp hl, hblocked⟩

/-- A vault that has traded with ten protocols cannot close a session with the eleventh, the only
one it allows. -/
theorem counters_exhausted :
    ∃ as l a s, Run Step emptyLedger as l ∧ l.live = some a ∧ a.policy.hasProtocolCaps = true ∧
      l.sessions (sampleFinalize emptyLedger.vaultKey).session = some s ∧
      a.policy.protocols = [s.authorizedProtocol] ∧
      (∀ i, a.tracker.owners i ∉ a.policy.protocols ∧
        144 ≤ 190000 / 600 - (a.tracker.protocolCounters i).windowStart) ∧
      exec ((tradeWith (sampleKey 70) 2 600 190000).env 2) l closeTrade =
        .error (.sigil .protocolCapExceeded) := by
  obtain ⟨l, hstart, hblocked⟩ := startEleventh_blocked
  obtain ⟨as, hrun⟩ := run_startEleventh hstart
  obtain ⟨hfailure, hsession, hstate⟩ := of_decide_eq_true hblocked
  obtain ⟨s, hs, hprotocol⟩ := (Option.any_eq_true _ _).mp hsession
  obtain ⟨a, ha, hcounters⟩ := (Option.any_eq_true _ _).mp hstate
  obtain ⟨hcaps, hallowed, hforeign⟩ := of_decide_eq_true hcounters
  have hsame : s.authorizedProtocol = sampleKey 70 := of_decide_eq_true hprotocol
  exact ⟨as, l, a, s, hrun, ha, hcaps, hs, hsame ▸ hallowed, hforeign, exec_of_failure hfailure⟩

end Sample

end Sigil
