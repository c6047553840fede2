import Mathlib.Data.Set.Card
import Sigil.Session.Sandwich
import Sigil.System.Chain

/-! # The lifetime of a session

A session lives inside one transaction. `validate_and_authorize` opens one only if a closing
instruction is listed behind it and nothing but infrastructure before it; so at most one session
is open at a time, and it is closed before the transaction ends.
-/

namespace Sigil

open Guard Trace

section Scan

variable {D : Type} {policy : PolicyConfig D} {session targetProtocol : Pubkey}

theorem nonSpendingScan_closes {rest : List Instruction} {iter : ℕ}
    (h : nonSpendingScan policy session iter rest = .ok true) :
    ∃ y ∈ rest, Closes session y := by
  induction rest generalizing iter with
  | nil => cases h
  | cons ix rest ih =>
    simp only [nonSpendingScan, seq_ok_iff, ensure_ok_iff, exists_and_left, exists_const] at h
    obtain ⟨-, action, haction, h⟩ := h
    rcases scanInstructionShared_ok haction with ⟨rfl, hcloses⟩ | ⟨rfl, -⟩ | ⟨rfl, -⟩
    · exact ⟨ix, List.mem_cons_self, hcloses⟩
    all_goals
      obtain ⟨y, hy, hcloses⟩ := ih h
      exact ⟨y, List.mem_cons_of_mem _ hy, hcloses⟩

theorem sandwichScan_closes [Host D] {env : Env} {l : Ledger D} {remaining : List AccountMeta}
    {isSpending : Bool}
    (h : sandwichScan env l policy session targetProtocol remaining isSpending = .ok ()) :
    ∃ y ∈ following env, Closes session y := by
  cases isSpending with
  | true =>
    obtain ⟨between, defi, closing, post, hfollowing, -, -, -, hcloses⟩ := sandwichScan_grammar h
    exact ⟨closing, by simp [hfollowing], hcloses⟩
  | false =>
    simp only [sandwichScan, Bool.false_eq_true, if_false, seq_ok_iff, ensure_ok_iff] at h
    obtain ⟨found, hscan, rfl⟩ := h
    exact nonSpendingScan_closes hscan

end Scan

section Count

variable {D : Type}

def Ledger.activeSessions (l : Ledger D) : UInt8 := l.live.elim 0 fun a => a.vault.activeSessions

theorem Ledger.activeSessions_eq {l : Ledger D} {a : VaultAccounts D} (ha : l.live = some a) :
    l.activeSessions = a.vault.activeSessions := by
  rw [activeSessions, ha]
  rfl

theorem countFinalize_activeSessions {v v' : AgentVault} {expired isSpending : Bool}
    {spend developerFee : UInt64}
    (h : v.countFinalize expired isSpending spend developerFee = .ok v') :
    v'.activeSessions = v.activeSessions - min 1 v.activeSessions := by
  simp only [AgentVault.countFinalize, seq_ok_iff, pure_ok_iff] at h
  obtain ⟨fees, -, counted, hcounted, rfl⟩ := h
  have hsame : counted.activeSessions = v.activeSessions := by
    unfold AgentVault.countClosed at hcounted
    split at hcounted
    · simp only [AgentVault.countFailure, seq_ok_iff, pure_ok_iff] at hcounted
      obtain ⟨failed, -, rfl⟩ := hcounted
      rfl
    · simp only [AgentVault.countSuccess, seq_ok_iff, pure_ok_iff] at hcounted
      obtain ⟨transactions, -, volume, -, rfl⟩ := hcounted
      rfl
  rw [hsame]

variable [Host D]

theorem closeVault_idle {env : Env} {owner : Pubkey} {remaining : List AccountMeta}
    {l l' : Ledger D} (h : closeVault env owner remaining l = .ok l') : l.activeSessions = 0 := by
  simp only [closeVault, seq_ok_iff, Ledger.loadAsOwner_ok_iff, ensure_ok_iff, exists_and_left,
    exists_const] at h
  obtain ⟨a, ⟨ha, -⟩, -, -, -, hidle, -⟩ := h
  rw [Ledger.activeSessions_eq ha, hidle]

variable [DecidableEq D] {env : Env} {c : Call D} {l l' : Ledger D}

def Call.isSession : Call D → Bool
  | validateAndAuthorize .. | finalizeSession .. => true
  | _ => false

theorem exec_sessions (h : exec env l c = .ok l') (hc : c.isSession = false) :
    l'.sessions = l.sessions ∧ l'.activeSessions = l.activeSessions := by
  have hsessions : Part.sessions ∉ c.writes := by
    cases c <;> first | cases hc; done | simp [Call.writes, Part.ofVault]
  refine ⟨exec_frame h hsessions, ?_⟩
  by_cases hcount : Part.sessionCount ∉ c.writes
  · have hagree := exec_frame h hcount
    unfold Ledger.activeSessions
    cases ha : l.live with
    | none =>
      simp only [Ledger.SameAt, Ledger.Agree, ha, Option.map_none, Option.map_eq_none_iff] at hagree
      rw [hagree]
    | some a =>
      obtain ⟨a', ha', heq⟩ := Ledger.Agree.exists_after hagree ha
      rw [ha']
      exact heq
  rw [not_not] at hcount
  cases c <;> first | cases hc; done | simp [Call.writes, Part.ofVault] at hcount
  case initializeVault =>
    obtain ⟨hnew, -, -, -, -, -, rfl⟩ := initializeVault_ok h
    rw [Ledger.activeSessions, Ledger.activeSessions, hnew]
    rfl
  case closeVault =>
    rw [closeVault_idle h]
    obtain ⟨a, -, -, -, -, -, rfl⟩ := closeVault_ok h
    rfl

end Count

section Lifetime

variable {D : Type} [Host D]

/-- No session is open. -/
structure Chain.Idle (w : Chain D) : Prop where
  sessions : ∀ k address, (w.vault k).sessions address = none
  count : ∀ k, (w.vault k).activeSessions = 0

/-- After `i` instructions of a transaction one session is open, in one vault. It was opened in
this transaction, and an instruction that closes a session is still to come. -/
structure Chain.OneOpen (tx : Transaction) (i : ℕ) (w : Chain D) (k address : Pubkey)
    (s : SessionAuthority) : Prop where
  session : (w.vault k).sessions address = some s
  alone : ∀ address', address' ≠ address → (w.vault k).sessions address' = none
  elsewhere : ∀ j, j ≠ k → ∀ address', (w.vault j).sessions address' = none
  count : (w.vault k).activeSessions = 1
  idle : ∀ j, j ≠ k → (w.vault j).activeSessions = 0
  inTime : s.isExpired tx.clock.unixTimestamp = false
  opened : ∃ j ix, j < i ∧ tx.instructions[j]? = some ix ∧ isInfrastructure ix = false
  closing : ∃ j ix, i ≤ j ∧ tx.instructions[j]? = some ix ∧
    hasDiscriminator finalizeSessionDiscriminator ix = true

/-- What holds after `i` instructions of a transaction. -/
def Chain.Phase (tx : Transaction) (i : ℕ) (w : Chain D) : Prop :=
  w.Idle ∨ ∃ k address s, w.OneOpen tx i k address s

section Steps

variable [DecidableEq D] {tx : Transaction} {i : ℕ} {w w' : Chain D} {k : Pubkey} {c : Call D}
  {ix : Instruction}

omit [Host D] [DecidableEq D] in
theorem Ledger.OnlyForeign.sessions {l l' : Ledger D} (h : l.OnlyForeign l') :
    l'.sessions = l.sessions ∧ l'.activeSessions = l.activeSessions := by
  obtain ⟨tokens, others, rfl⟩ := h
  exact ⟨rfl, rfl⟩

/-- A step that opens and closes no session. -/
def SparesSessions (w w' : Chain D) : Prop :=
  ∀ k, (w'.vault k).sessions = (w.vault k).sessions ∧
    (w'.vault k).activeSessions = (w.vault k).activeSessions

omit [Host D] [DecidableEq D] in
theorem Chain.Idle.of_spares (h : w.Idle) (hs : SparesSessions w w') : w'.Idle :=
  ⟨fun k address => (hs k).1 ▸ h.sessions k address, fun k => (hs k).2.trans (h.count k)⟩

omit [Host D] [DecidableEq D] in
theorem Chain.OneOpen.of_spares {address : Pubkey} {s : SessionAuthority}
    (h : w.OneOpen tx i k address s) (hs : SparesSessions w w')
    (hix : tx.instructions[i]? = some ix)
    (hnot : hasDiscriminator finalizeSessionDiscriminator ix = false) :
    w'.OneOpen tx (i + 1) k address s where
  session := (hs k).1 ▸ h.session
  alone := (hs k).1 ▸ h.alone
  elsewhere := fun j hj => (hs j).1 ▸ h.elsewhere j hj
  count := (hs k).2.trans h.count
  idle := fun j hj => (hs j).2.trans (h.idle j hj)
  inTime := h.inTime
  opened := by
    obtain ⟨j, y, hj, hy⟩ := h.opened
    exact ⟨j, y, Nat.lt_succ_of_lt hj, hy⟩
  closing := by
    obtain ⟨j, y, hj, hy, hcloses⟩ := h.closing
    refine ⟨j, y, Nat.lt_of_le_of_ne hj ?_, hy, hcloses⟩
    rintro rfl
    cases hix.symm.trans hy
    cases hnot.symm.trans hcloses

theorem Chain.Idle.validate {args : ValidateAndAuthorizeArgs D} (h : w.Idle)
    (hlisted : tx.instructions[i]? = some ix)
    (hix : (Call.validateAndAuthorize args).Encodes k ix)
    (hexec : exec (tx.env i) (w.vault k) (.validateAndAuthorize args) = .ok (w'.vault k))
    (hother : ∀ j, j ≠ k → (w.vault j).OnlyForeign (w'.vault j)) :
    ∃ address s, w'.OneOpen tx (i + 1) k address s := by
  obtain ⟨a, vaultToken, pins, snapshots, tokens, ho⟩ := validateAndAuthorize_ok hexec
  obtain ⟨y, hy, hcloses⟩ := sandwichScan_closes ho.scan
  obtain ⟨n, hn⟩ := List.mem_iff_getElem?.mp hy
  have hcount : a.vault.activeSessions = 0 :=
    (Ledger.activeSessions_eq ho.live).symm.trans (h.count k)
  refine ⟨sessionAddress D (w.vault k).vaultKey args.agent args.tokenMint,
    newSession tx.clock (w.vault k).vaultKey a.policy args pins snapshots,
    ?_, ?_, ?_, ?_, ?_, not_isExpired_newSession _ _ _ _ _ _, ?_, ?_⟩
  · rw [ho.result]
    exact Function.update_self ..
  · intro address' hne
    rw [ho.result]
    exact (Function.update_of_ne hne ..).trans (h.sessions k address')
  · intro j hj address'
    rw [(hother j hj).sessions.1]
    exact h.sessions j address'
  · rw [ho.result]
    change a.vault.activeSessions + 1 = 1
    rw [hcount]
    rfl
  · intro j hj
    exact (hother j hj).sessions.2.trans (h.count j)
  · exact ⟨i, ix, Nat.lt_succ_self i, hlisted, not_infrastructure_of_encodes hix⟩
  · exact ⟨i + 1 + n, y, Nat.le_add_right .., List.getElem?_drop ▸ hn, hcloses.1⟩

theorem Chain.OneOpen.finalize {address : Pubkey} {s : SessionAuthority} {j : Pubkey}
    {args : FinalizeSessionArgs} (h : w.OneOpen tx i k address s)
    (hexec : exec (tx.env i) (w.vault j) (.finalizeSession args) = .ok (w'.vault j))
    (hother : ∀ k, k ≠ j → (w.vault k).OnlyForeign (w'.vault k)) : w'.Idle := by
  obtain ⟨a, s', revoked, outcome, vault, tracker, hclosed⟩ := finalizeSession_ok hexec
  obtain rfl : j = k := by
    by_contra hne
    cases (h.elsewhere j hne args.session).symm.trans hclosed.session
  obtain rfl : args.session = address := by
    by_contra hne
    cases (h.alone args.session hne).symm.trans hclosed.session
  obtain ⟨treasury, feeDest, -, -, hsettled⟩ := hclosed.settled
  obtain ⟨tracker', overlay, haccounts⟩ := settle_ok hsettled
  have hcount : a.vault.activeSessions = 1 :=
    (Ledger.activeSessions_eq hclosed.live).symm.trans h.count
  refine ⟨fun n address' => ?_, fun n => ?_⟩
  · by_cases hn : n = j
    · subst hn
      rw [hclosed.result]
      by_cases haddress : address' = args.session
      · subst haddress
        exact Function.update_self ..
      · exact (Function.update_of_ne haddress ..).trans (h.alone address' haddress)
    · rw [(hother n hn).sessions.1]
      exact h.elsewhere n hn address'
  · by_cases hn : n = j
    · subst hn
      rw [hclosed.result]
      change vault.activeSessions = 0
      rw [countFinalize_activeSessions hclosed.count, haccounts]
      change a.vault.activeSessions - min 1 a.vault.activeSessions = 0
      rw [hcount]
      rfl
    · exact (hother n hn).sessions.2.trans (h.idle n hn)

theorem Chain.OneOpen.not_validate {address : Pubkey} {s : SessionAuthority} {j : Pubkey}
    {args : ValidateAndAuthorizeArgs D} {l' : Ledger D} (h : w.OneOpen tx i k address s)
    (hexec : exec (tx.env i) (w.vault j) (.validateAndAuthorize args) = .ok l') : False := by
  obtain ⟨a, vaultToken, pins, snapshots, tokens, ho⟩ := validateAndAuthorize_ok hexec
  obtain ⟨n, y, hn, hy, hnot⟩ := h.opened
  cases hnot.symm.trans (preScan_ok ho.before n hn y hy)

omit [DecidableEq D] in
theorem hasDiscriminator_of_encodes {d : List UInt8} (hix : c.Encodes k ix)
    (hd : c.discriminator ≠ d) : hasDiscriminator d ix = false := by
  refine decide_eq_false fun h => hd ?_
  rw [← hix.discriminator, h.2]

theorem Chain.Phase.step (h : w.Phase tx i) (hstep : tx.chainStep w i w') :
    w'.Phase tx (i + 1) := by
  obtain ⟨ix, hlisted, hstep⟩ := hstep
  cases hstep with
  | @call _ _ c j hix hexec hother =>
    by_cases hc : c.isSession = true
    · cases c <;> try (cases hc; done)
      case validateAndAuthorize args =>
        rcases h with hidle | ⟨k, address, s, hopen⟩
        · exact .inr ⟨j, hidle.validate hlisted hix hexec hother⟩
        · exact (hopen.not_validate hexec).elim
      case finalizeSession args =>
        rcases h with hidle | ⟨k, address, s, hopen⟩
        · obtain ⟨a, s, revoked, outcome, vault, tracker, hclosed⟩ := finalizeSession_ok hexec
          cases (hidle.sessions j args.session).symm.trans hclosed.session
        · exact .inl (hopen.finalize hexec hother)
    · have hspares : SparesSessions w w' := by
        intro n
        by_cases hn : n = j
        · subst hn
          exact exec_sessions hexec (Bool.eq_false_iff.mpr hc)
        · exact (hother n hn).sessions
      rcases h with hidle | ⟨k, address, s, hopen⟩
      · exact .inl (hidle.of_spares hspares)
      · have hnot : c.discriminator ≠ finalizeSessionDiscriminator := by
          rintro heq
          obtain ⟨args, rfl⟩ := Call.exists_finalizeSession heq
          exact hc rfl
        exact .inr ⟨k, address, s, hopen.of_spares hspares hlisted
          (hasDiscriminator_of_encodes hix hnot)⟩
  | foreign hix hother =>
    have hspares : SparesSessions w w' := fun n => (hother n).sessions
    rcases h with hidle | ⟨k, address, s, hopen⟩
    · exact .inl (hidle.of_spares hspares)
    · refine .inr ⟨k, address, s, hopen.of_spares hspares hlisted (decide_eq_false fun h => ?_)⟩
      exact hix h.1 (.finalizeSession ⟨k, k, k, none, none, none, none, none, []⟩) h.2

theorem Chain.Idle.phase (h : w.Idle) (hrun : Run tx.chainStep w (List.range i) w') :
    w'.Phase tx i := by
  induction i generalizing w' with
  | zero =>
    obtain rfl := hrun.nil_inv
    exact .inl h
  | succ i ih =>
    rw [List.range_succ] at hrun
    obtain ⟨m, hfront, hstep⟩ := hrun.snoc_inv
    exact (ih hfront).step hstep

theorem Committed.idle (hrun : Committed w tx w') (h : w.Idle) : w'.Idle := by
  rcases h.phase hrun with hidle | ⟨k, address, s, hopen⟩
  · exact hidle
  · obtain ⟨j, y, hj, hy, -⟩ := hopen.closing
    cases (List.getElem?_eq_none hj).symm.trans hy

omit [Host D] [DecidableEq D] in
theorem Chain.Phase.count (h : w.Phase tx i) (k : Pubkey) : (w.vault k).activeSessions.toNat =
    {address | ((w.vault k).sessions address).isSome = true}.ncard := by
  have hnone : (∀ address, (w.vault k).sessions address = none) →
      {address | ((w.vault k).sessions address).isSome = true} = ∅ := by
    intro hall
    ext address
    simp [hall]
  rcases h with hidle | ⟨j, address, s, hopen⟩
  · rw [hnone (hidle.sessions k), Set.ncard_empty, hidle.count]
    rfl
  · by_cases hj : k = j
    · subst hj
      have hone : {address | ((w.vault k).sessions address).isSome = true} = {address} := by
        ext address'
        by_cases haddress : address' = address
        · simp [haddress, hopen.session]
        · simp [haddress, hopen.alone address' haddress]
      rw [hone, Set.ncard_singleton, hopen.count]
      rfl
    · rw [hnone (hopen.elsewhere k hj), Set.ncard_empty, hopen.idle k hj]
      rfl

omit [DecidableEq D] in
theorem closeVault_not_blocked {env : Env} {owner : Pubkey} {remaining : List AccountMeta}
    {l : Ledger D} (h : l.activeSessions = 0) :
    closeVault env owner remaining l ≠ fail .activeSessionsExist := by
  intro hfail
  simp only [closeVault, fail, seq_error_iff, Ledger.loadAsOwner_ok_iff] at hfail
  rcases hfail with hload | ⟨a, ⟨ha, -⟩, hfail⟩
  · simp [Ledger.loadAsOwner, mustExist, seq_error_iff, pure, Except.pure] at hload
  · have hidle : a.vault.activeSessions = 0 := (Ledger.activeSessions_eq ha).symm.trans h
    simp [rejectCpi, VaultAccounts.cosignGate, hidle, pure, Except.pure] at hfail

omit [Host D] [DecidableEq D] in
theorem Chain.Genesis.idle (h : w.Genesis) : w.Idle where
  sessions := fun k => (h k).sessions
  count := fun k => by rw [Ledger.activeSessions, (h k).live]; rfl

/-- Between transactions no session is open, and none of the past keeps a vault from being closed.
Inside a transaction the noted number of sessions is the number of session accounts, and a session
that is closed has not expired. -/
theorem session_lifetime {w₀ : Chain D} {txs : List Transaction} (hrun : Run Committed w₀ txs w)
    (h₀ : w₀.Genesis) :
    (∀ k address, (w.vault k).sessions address = none) ∧
    (∀ k, ∀ a ∈ (w.vault k).live, a.vault.activeSessions = 0) ∧
    (∀ k env owner remaining,
      closeVault env owner remaining (w.vault k) ≠ fail .activeSessionsExist) ∧
    ∀ (tx : Transaction) i m, Run tx.chainStep w (List.range i) m →
      (∀ k, ∀ a ∈ (m.vault k).live, a.vault.activeSessions.toNat =
        {address | ((m.vault k).sessions address).isSome = true}.ncard) ∧
      ∀ k args l', exec (tx.env i) (m.vault k) (.finalizeSession args) = .ok l' →
        ∀ s ∈ (m.vault k).sessions args.session,
          s.isExpired tx.clock.unixTimestamp = false := by
  have hidle : w.Idle := hrun.invariant (fun _ _ _ h hcommitted => hcommitted.idle h) h₀.idle
  refine ⟨hidle.sessions, fun k a ha => ?_, fun k env owner remaining => ?_, ?_⟩
  · exact (Ledger.activeSessions_eq ha).symm.trans (hidle.count k)
  · exact closeVault_not_blocked (hidle.count k)
  intro tx i m hinside
  have hphase := hidle.phase hinside
  refine ⟨fun k a ha => ?_, fun k args l' _ s hs => ?_⟩
  · rw [← hphase.count k, Ledger.activeSessions_eq ha]
  · rcases hphase with hnone | ⟨j, address, s', hopen⟩
    · cases (hnone.sessions k args.session).symm.trans hs
    obtain rfl : k = j := by
      by_contra hne
      cases (hopen.elsewhere k hne args.session).symm.trans hs
    obtain rfl : args.session = address := by
      by_contra hne
      cases (hopen.alone args.session hne).symm.trans hs
    obtain rfl := Option.some.inj (hopen.session.symm.trans hs)
    exact hopen.inTime

end Steps

end Lifetime

section Sample

def emptyChain : Chain Preimage where
  vault := fun k => { emptyLedger with vaultKey := k }
  key := fun _ => rfl
  tokens := fun _ _ => rfl
  others := fun _ _ => rfl

theorem genesis_emptyChain : emptyChain.Genesis :=
  fun _ => ⟨rfl, rfl, rfl, rfl, fun _ => rfl, rfl, fun _ => rfl⟩

def soloTransaction (vault : Pubkey) (clock : Clock) (c : Call Preimage) : Transaction where
  clock := clock
  instructions := [sampleInstruction vault c]
  ownBytes := fun _ _ => []

theorem committed_solo {w : Chain Preimage} {k : Pubkey} {l l' : Ledger Preimage}
    {c : Call Preimage} {time : ℤ} {slot : UInt64} {htime : Machine.InI64 time}
    (hc : c.positions k = []) (hw : w.vault k = l)
    (h : exec ((soloTransaction k ⟨slot, time, htime⟩ c).env 0) l c = .ok l') :
    ∃ w', Committed w (soloTransaction k ⟨slot, time, htime⟩ c) w' ∧ w'.vault k = l' := by
  subst hw
  have hencodes : c.Encodes k (sampleInstruction k c) :=
    ⟨rfl, by cases c <;> rfl, by simp [hc]⟩
  exact ⟨_, .single ⟨_, rfl, .put hencodes h⟩, w.vault_put _⟩

/-- Transactions lead to this ledger of the sample vault. -/
def OnChain (l : Ledger Preimage) : Prop :=
  ∃ txs w, Run Committed emptyChain txs w ∧ w.vault emptyLedger.vaultKey = l

theorem onChain_empty : OnChain emptyLedger := ⟨[], emptyChain, .nil _, rfl⟩

theorem OnChain.solo {l l' : Ledger Preimage} {c : Call Preimage} {time : ℤ} {slot : UInt64}
    {htime : Machine.InI64 time} (h : OnChain l) (hc : c.positions emptyLedger.vaultKey = [])
    (hexec : exec ((soloTransaction emptyLedger.vaultKey ⟨slot, time, htime⟩ c).env 0) l c =
      .ok l') : OnChain l' := by
  obtain ⟨txs, w, hrun, hw⟩ := h
  obtain ⟨w', hcommitted, hw'⟩ := committed_solo hc hw hexec
  exact ⟨_, w', hrun.snoc hcommitted, hw'⟩

theorem OnChain.touch {l : Ledger Preimage} (h : OnChain l) (tokens : TokenLedger.Accounts Pubkey)
    (others : Pubkey → AccountInfo) : OnChain { l with tokens := tokens, others := others } := by
  obtain ⟨txs, w, hrun, rfl⟩ := h
  let funding : Transaction := ⟨⟨25, 1700, by decide⟩, [⟨sampleKey 2, [], []⟩], fun _ _ => []⟩
  have hfunding : Committed w funding (w.touch tokens others) :=
    .single ⟨⟨sampleKey 2, [], []⟩, rfl, .foreign (fun hprogram => absurd hprogram (by decide))
      fun _ => ⟨_, _, rfl⟩⟩
  exact ⟨_, _, hrun.snoc hfunding, w.vault_touch ..⟩

theorem onChain_sampleLedger : OnChain sampleLedger :=
  onChain_empty.solo (c := sampleInitialize) rfl exec_sampleInitialize

theorem onChain_withGrant : OnChain (withGrant sampleLedger) := by
  have hgrant : exec (envAt 1000 7 (by decide)) sampleLedger
      (.queueAgentGrant (sampleKey 1) [] (sampleKey 9) capabilityOperator 500) =
        .ok (withGrant sampleLedger) :=
    exec_after (by decide +kernel)
  exact onChain_sampleLedger.solo (c := .queueAgentGrant ..) rfl hgrant

theorem onChain_tradingLedger : OnChain tradingLedger :=
  (onChain_withGrant.solo (c := .applyAgentGrant ..) rfl exec_operatedLedger).touch _ _

theorem vaultKey_tradingLedger : tradingLedger.vaultKey = emptyLedger.vaultKey := by
  decide +kernel

theorem session_lifetime_swap :
    ∃ txs w m, Run Committed emptyChain txs w ∧ (∀ k address, (w.vault k).sessions address = none) ∧
      Run (sampleTransaction tradingLedger.vaultKey).chainStep w [0] m ∧
      {address | ((m.vault tradingLedger.vaultKey).sessions address).isSome = true}.ncard = 1 := by
  obtain ⟨txs, w, hrun, hw⟩ := onChain_tradingLedger
  rw [← vaultKey_tradingLedger] at hw
  obtain ⟨hnone, -, -, hinside⟩ := session_lifetime hrun genesis_emptyChain
  have hopen : exec ((sampleTransaction tradingLedger.vaultKey).env 0)
      (w.vault tradingLedger.vaultKey)
      (.validateAndAuthorize (sampleValidate tradingLedger.vaultKey)) = .ok openedLedger :=
    hw.symm ▸ exec_openedLedger
  have hstep : Run (sampleTransaction tradingLedger.vaultKey).chainStep w [0] _ :=
    .single ⟨_, rfl, .put (encodes_sampleValidate _) hopen⟩
  refine ⟨txs, w, _, hrun, hnone, hstep, ?_⟩
  have hcount : openedLedger.live.map (fun a => a.vault.activeSessions.toNat) = some 1 := by
    decide +kernel
  obtain ⟨a, ha, hone⟩ := Option.map_eq_some_iff.mp hcount
  rw [← (hinside _ 1 _ hstep).1 tradingLedger.vaultKey a ((Chain.vault_put ..).symm ▸ ha), hone]

end Sample

end Sigil
