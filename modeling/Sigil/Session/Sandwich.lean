import Sigil.System.Transaction

/-! # The sandwich around a spend

The scans of `validate_and_authorize` and `finalize_session` each see a part of the transaction.
Together they leave one shape: infrastructure, the opening instruction, infrastructure, one
instruction of the declared protocol, the closing instruction, infrastructure.
-/

namespace Sigil

open Guard Trace

section Scans

variable {D : Type} {policy : PolicyConfig D} {session targetProtocol : Pubkey} {ix : Instruction}

def Closes (session : Pubkey) (ix : Instruction) : Prop :=
  hasDiscriminator finalizeSessionDiscriminator ix = true ∧
    ix.accounts[finalizeSessionMetaIndex]?.map AccountMeta.pubkey = some session

structure MaySpend (policy : PolicyConfig D) (targetProtocol : Pubkey) (ix : Instruction) :
    Prop where
  target : ix.programId = targetProtocol
  allowed : policy.isProtocolAllowed ix.programId = true
  synchronous : ix.programId ∉ knownAsyncFulfillmentPrograms
  unblocked : blockedOpcode ix = none
  notInfrastructure : isInfrastructure ix = false
  notClosing : hasDiscriminator finalizeSessionDiscriminator ix = false

theorem scanInstructionShared_ok {action : ScanAction}
    (h : scanInstructionShared policy session ix = .ok action) :
    (action = .foundFinalize ∧ Closes session ix) ∨
      (action = .infrastructure ∧ isInfrastructure ix = true) ∨
      (action = .passedSharedChecks ∧ MaySpend policy ix.programId ix) := by
  unfold scanInstructionShared at h
  split at h
  · rename_i hfinalize
    simp only [seq_ok_iff, someOr_ok_iff, ensure_ok_iff, exists_and_left, exists_const,
      pure_ok_iff] at h
    obtain ⟨m, hm, hsession, rfl⟩ := h
    exact .inl ⟨rfl, hfinalize, by rw [hm, ← hsession]; rfl⟩
  · rename_i hfinalize
    split at h
    · exact absurd h fail_ne_ok
    · rename_i hblocked
      split at h
      · rename_i hinfra
        exact .inr (.inl ⟨(Except.ok.inj h).symm, hinfra⟩)
      · rename_i hinfra
        simp only [seq_ok_iff, ensure_ok_iff, exists_and_left, exists_const, pure_ok_iff] at h
        obtain ⟨hasync, hallowed, rfl⟩ := h
        exact .inr (.inr ⟨rfl, rfl, hallowed, hasync, hblocked, Bool.eq_false_iff.mpr hinfra,
          Bool.eq_false_iff.mpr hfinalize⟩)

theorem preScan_ok {env : Env} (h : preScan env = .ok ()) :
    ∀ i < env.currentIndex, ∀ ix ∈ env.instructions[i]?, isInfrastructure ix = true := by
  intro i hi ix hix
  have hbody := forM_ok_iff.mp h i (List.mem_range.mpr hi)
  simp only [seq_ok_iff, ensure_ok_iff, exists_and_left, exists_const] at hbody
  exact hbody.2 ix hix

variable [Host D] {env : Env} {l : Ledger D} {remaining : List AccountMeta}

/-- The loop never forgets a protocol instruction. -/
theorem count_le_of_spendingScan {rest : List Instruction} {iter count n : ℕ} {defi : Option ℕ}
    {found : Bool} (h : spendingScan env l policy session targetProtocol remaining iter count defi
      rest = .ok (n, found)) : count ≤ n := by
  induction rest generalizing iter count defi with
  | nil =>
    obtain ⟨rfl, -⟩ := Prod.mk.inj (Except.ok.inj h)
    exact le_rfl
  | cons ix rest ih =>
    simp only [spendingScan, seq_ok_iff, ensure_ok_iff, exists_and_left, exists_const] at h
    obtain ⟨-, action, -, h⟩ := h
    cases action with
    | foundFinalize =>
      simp only [seq_ok_iff, ensure_ok_iff, exists_and_left, exists_const, pure_ok_iff] at h
      obtain ⟨-, heq⟩ := h
      exact (Prod.mk.inj heq).1.le
    | infrastructure => exact ih h
    | passedSharedChecks =>
      simp only [seq_ok_iff, ensure_ok_iff, exists_and_left, exists_const] at h
      obtain ⟨-, -, -, h⟩ := h
      exact (Nat.le_succ _).trans (ih h)

theorem spendingScan_closes {rest : List Instruction} {iter d : ℕ} (hd : d < iter)
    (h : spendingScan env l policy session targetProtocol remaining iter 1 (some d) rest =
      .ok (1, true)) :
    iter = d + 1 ∧ ∃ closing post, rest = closing :: post ∧ Closes session closing := by
  induction rest generalizing iter with
  | nil => exact absurd (Prod.mk.inj (Except.ok.inj h)).2 Bool.false_ne_true
  | cons ix rest ih =>
    simp only [spendingScan, seq_ok_iff, ensure_ok_iff, exists_and_left, exists_const] at h
    obtain ⟨-, action, haction, h⟩ := h
    rcases scanInstructionShared_ok haction with ⟨rfl, hcloses⟩ | ⟨rfl, -⟩ | ⟨rfl, -⟩
    · simp only [seq_ok_iff, ensure_ok_iff, exists_and_left, exists_const] at h
      exact ⟨h.1 d rfl, ix, rest, rfl, hcloses⟩
    · obtain ⟨hnext, -⟩ := ih (hd.trans (Nat.lt_succ_self _)) h
      exact absurd hd (by omega)
    · simp only [seq_ok_iff, ensure_ok_iff, exists_and_left, exists_const] at h
      obtain ⟨-, -, -, h⟩ := h
      exact absurd (count_le_of_spendingScan h) (by decide)

theorem spendingScan_grammar {rest : List Instruction} {iter : ℕ}
    (h : spendingScan env l policy session targetProtocol remaining iter 0 none rest =
      .ok (1, true)) :
    ∃ between defi closing post, rest = between ++ defi :: closing :: post ∧
      (∀ y ∈ between, isInfrastructure y = true) ∧ MaySpend policy targetProtocol defi ∧
      enforceDestinationAllowlist env l policy remaining defi.accounts = .ok () ∧
      Closes session closing := by
  induction rest generalizing iter with
  | nil => exact absurd (Prod.mk.inj (Except.ok.inj h)).2 Bool.false_ne_true
  | cons ix rest ih =>
    simp only [spendingScan, seq_ok_iff, ensure_ok_iff, exists_and_left, exists_const] at h
    obtain ⟨-, action, haction, h⟩ := h
    rcases scanInstructionShared_ok haction with ⟨rfl, -⟩ | ⟨rfl, hinfra⟩ | ⟨rfl, hspend⟩
    · simp only [seq_ok_iff, ensure_ok_iff, exists_and_left, exists_const, pure_ok_iff] at h
      exact absurd (Prod.mk.inj h.2).1 Nat.zero_ne_one
    · obtain ⟨between, defi, closing, post, rfl, hbetween, hdefi⟩ := ih h
      exact ⟨ix :: between, defi, closing, post, rfl, List.forall_mem_cons.mpr ⟨hinfra, hbetween⟩,
        hdefi⟩
    · simp only [seq_ok_iff, ensure_ok_iff, exists_and_left, exists_const] at h
      obtain ⟨rfl, ⟨⟩, hdestinations, h⟩ := h
      obtain ⟨-, closing, post, rfl, hclosing⟩ := spendingScan_closes (Nat.lt_succ_self iter) h
      exact ⟨[], ix, closing, post, rfl, by simp, hspend, hdestinations, hclosing⟩

theorem sandwichScan_grammar
    (h : sandwichScan env l policy session targetProtocol remaining true = .ok ()) :
    ∃ between defi closing post, following env = between ++ defi :: closing :: post ∧
      (∀ y ∈ between, isInfrastructure y = true) ∧ MaySpend policy targetProtocol defi ∧
      enforceDestinationAllowlist env l policy remaining defi.accounts = .ok () ∧
      Closes session closing := by
  simp only [sandwichScan, if_true, seq_ok_iff, ensure_ok_iff, exists_and_left, exists_const] at h
  obtain ⟨⟨n, found⟩, hscan, hone, hfound⟩ := h
  obtain rfl : n = 1 := hone
  obtain rfl : found = true := hfound
  exact spendingScan_grammar hscan

end Scans

section Grammar

variable {D : Type} [Host D] [DecidableEq D]

/-- A transaction that commits, with a `validate_and_authorize` of this vault at position `i` that
leads from `m` to `m'`. -/
structure Transaction.Validates (tx : Transaction) (i : ℕ) (ix : Instruction)
    (args : ValidateAndAuthorizeArgs D) (l m m' l' : Ledger D) : Prop where
  before : Run tx.step l (List.range i) m
  listed : tx.instructions[i]? = some ix
  encodes : (Call.validateAndAuthorize args).Encodes m.vaultKey ix
  validated : exec (tx.env i) m (.validateAndAuthorize args) = .ok m'
  after : Run tx.step m' (List.range' (i + 1) (tx.instructions.length - (i + 1))) l'

variable {tx : Transaction} {i : ℕ} {ix : Instruction} {args : ValidateAndAuthorizeArgs D}
  {l m m' l' : Ledger D}

omit [DecidableEq D] in
theorem not_infrastructure_of_encodes {c : Call D} {vault : Pubkey} (h : c.Encodes vault ix) :
    isInfrastructure ix = false := by
  unfold isInfrastructure
  rw [h.program]
  decide

theorem not_validate_of_infrastructure (h : isInfrastructure ix = true) :
    hasDiscriminator validateAndAuthorizeDiscriminator ix = false := by
  have hprogram : ix.programId ≠ programId := by
    intro heq
    unfold isInfrastructure at h
    rw [heq] at h
    exact absurd h (by decide)
  simp [hasDiscriminator, hprogram]

theorem Transaction.positions_following {between post : List Instruction}
    {defi closing : Instruction} (h : following (tx.env i) = between ++ defi :: closing :: post) :
    (∀ p < between.length, tx.instructions[i + 1 + p]? = between[p]?) ∧
      tx.instructions[i + 1 + between.length]? = some defi ∧
      tx.instructions[i + 1 + (between.length + 1)]? = some closing := by
  have hat : ∀ p, tx.instructions[i + 1 + p]? = (between ++ defi :: closing :: post)[p]? := by
    intro p
    have hrest : tx.instructions.drop (i + 1) = between ++ defi :: closing :: post := h
    rw [← hrest, List.getElem?_drop]
  refine ⟨fun p hp => ?_, ?_, ?_⟩
  · rw [hat, List.getElem?_append_left hp]
  · rw [hat, List.getElem?_append_right le_rfl, Nat.sub_self]
    rfl
  · rw [hat, List.getElem?_append_right (Nat.le_add_right _ 1), Nat.add_sub_cancel_left]
    rfl

theorem Transaction.Validates.exists_step (h : tx.Validates i ix args l m m' l') {j : ℕ}
    {y : Instruction} (hj : i < j) (hy : tx.instructions[j]? = some y) :
    ∃ s s' : Ledger D, IxStep (tx.env j) s y s' := by
  obtain ⟨hlt, -⟩ := List.getElem?_eq_some_iff.mp hy
  have hmem : j ∈ List.range' (i + 1) (tx.instructions.length - (i + 1)) := by
    rw [List.mem_range'_1]
    omega
  obtain ⟨s, s', y', hy', hstep⟩ := h.after.exists_step hmem
  cases hy.symm.trans hy'
  exact ⟨s, s', hstep⟩

/-- No later instruction opens a session, since its own scan would find the first one. -/
theorem Transaction.Validates.not_validate (h : tx.Validates i ix args l m m' l') {j : ℕ}
    {y : Instruction} (hj : i < j) (hy : tx.instructions[j]? = some y) :
    hasDiscriminator validateAndAuthorizeDiscriminator y = false := by
  by_contra hvalidate
  obtain ⟨s, s', hstep⟩ := h.exists_step hj hy
  obtain ⟨r, r', c, hc, -, hexec⟩ := hstep.exec_of_discriminator
    (c := Call.validateAndAuthorize args) (Bool.not_eq_false _ ▸ hvalidate)
  obtain ⟨args', rfl⟩ := Call.exists_validateAndAuthorize hc
  obtain ⟨a, vaultToken, pins, snapshots, tokens, hopened⟩ := validateAndAuthorize_ok hexec
  have hinfra := preScan_ok hopened.before i hj ix h.listed
  exact absurd (hinfra.symm.trans (not_infrastructure_of_encodes h.encodes)) nofun

theorem Transaction.Validates.infrastructure_after (h : tx.Validates i ix args l m m' l')
    (hlen : tx.instructions.length ≤ maxSysvarScanIterations) {j : ℕ} {session : Pubkey}
    {y : Instruction} (hj : i < j) (hy : tx.instructions[j]? = some y)
    (hcloses : Closes session y) :
    ∀ z ∈ tx.instructions.drop (j + 1), isInfrastructure z = true := by
  obtain ⟨s, s', hstep⟩ := h.exists_step hj hy
  obtain ⟨r, r', c, hc, -, hexec⟩ := hstep.exec_of_discriminator
    (c := Call.finalizeSession ⟨session, session, session, none, none, none, none, none, []⟩)
    hcloses.1
  obtain ⟨fargs, rfl⟩ := Call.exists_finalizeSession hc
  obtain ⟨a, sess, revoked, outcome, vault, tracker, hclosed⟩ := finalizeSession_ok hexec
  have hscan := ensure_ok_iff.mp hclosed.after
  rw [List.take_of_length_le] at hscan
  · exact hscan
  · simp only [following, List.length_drop]
    exact (Nat.sub_le _ _).trans hlen

/-- A transaction that commits with a spending `validate_and_authorize` is a sandwich. -/
theorem sandwich_grammar (hlen : tx.instructions.length ≤ maxSysvarScanIterations)
    (h : tx.Validates i ix args l m m' l') (hamount : 0 < args.amount) :
    ∃ a pre between defi closing post, m.live = some a ∧
      tx.instructions = pre ++ ix :: (between ++ defi :: closing :: post) ∧ pre.length = i ∧
      (∀ y ∈ pre, isInfrastructure y = true) ∧ (∀ y ∈ between, isInfrastructure y = true) ∧
      MaySpend a.policy args.targetProtocol defi ∧ args.targetProtocol ∈ a.policy.protocols ∧
      Closes (sessionAddress D m.vaultKey args.agent args.tokenMint) closing ∧
      (∀ y ∈ post, isInfrastructure y = true) ∧
      ∀ y ∈ pre ++ (between ++ defi :: closing :: post),
        hasDiscriminator validateAndAuthorizeDiscriminator y = false := by
  obtain ⟨a, vaultToken, pins, snapshots, tokens, hopened⟩ := validateAndAuthorize_ok h.validated
  have hscan := hopened.scan
  have hspending : args.isSpending = true := decide_eq_true hamount
  rw [hspending] at hscan
  obtain ⟨between, defi, closing, post, hfollowing, hbetween, hdefi, -, hclosing⟩ :=
    sandwichScan_grammar hscan
  have hrest : tx.instructions.drop (i + 1) = between ++ defi :: closing :: post := hfollowing
  have hallowed : args.targetProtocol ∈ a.policy.protocols :=
    (of_decide_eq_true hopened.protocolAllowed).2
  obtain ⟨hlt, hget⟩ := List.getElem?_eq_some_iff.mp h.listed
  have hsplit : tx.instructions =
      tx.instructions.take i ++ ix :: (between ++ defi :: closing :: post) := by
    rw [← hrest, ← hget, ← List.drop_eq_getElem_cons hlt, List.take_append_drop]
  have hpre : (tx.instructions.take i).length = i := List.length_take_of_le hlt.le
  have hbefore : ∀ y ∈ tx.instructions.take i, isInfrastructure y = true := by
    intro y hy
    obtain ⟨k, hk, rfl⟩ := List.mem_take_iff_getElem.mp hy
    exact preScan_ok hopened.before k (lt_of_lt_of_le hk (Nat.min_le_left _ _)) _
      (List.getElem?_eq_getElem _)
  obtain ⟨-, -, hclosingAt⟩ := tx.positions_following hfollowing
  have hafter := h.infrastructure_after hlen (by omega) hclosingAt hclosing
  have hpost : tx.instructions.drop (i + 1 + (between.length + 1) + 1) = post := by
    rw [Nat.add_assoc (i + 1), ← List.drop_drop, hrest, Nat.add_assoc between.length,
      List.drop_length_add_append]
    rfl
  refine ⟨a, tx.instructions.take i, between, defi, closing, post, hopened.live, hsplit, hpre,
    hbefore, hbetween, hdefi, hallowed, hclosing, hpost ▸ hafter, fun y hy => ?_⟩
  rcases List.mem_append.mp hy with hy | hy
  · exact not_validate_of_infrastructure (hbefore y hy)
  · rw [← hrest] at hy
    obtain ⟨k, hk⟩ := List.mem_iff_getElem?.mp hy
    rw [List.getElem?_drop] at hk
    exact h.not_validate (by omega) hk

end Grammar

section Sample

def withGrant (l : Ledger Preimage) : Ledger Preimage :=
  after (sampleEnv 1000 7) l
    (.queueAgentGrant (sampleKey 1) [] (sampleKey 9) capabilityOperator 500)

def withOperator (l : Ledger Preimage) : Ledger Preimage :=
  after (sampleEnv 1600 20) (withGrant l) (.applyAgentGrant (sampleKey 1) [])

def operatedLedger : Ledger Preimage := withOperator sampleLedger

theorem exec_operatedLedger : exec (envAt 1600 20 (by decide)) (withGrant sampleLedger)
    (.applyAgentGrant (sampleKey 1) []) = .ok operatedLedger :=
  exec_after (by decide +kernel)

theorem run_withGrant : ∃ as, Run Step emptyLedger as (withGrant sampleLedger) := by
  have hgrant : Step sampleLedger _ (withGrant sampleLedger) := .after (by decide +kernel)
  exact ⟨_, (Run.single step_sampleInitialize).snoc hgrant⟩

theorem run_operatedLedger : ∃ as, Run Step emptyLedger as operatedLedger := by
  obtain ⟨as, hrun⟩ := run_withGrant
  exact ⟨_, hrun.snoc (.call exec_operatedLedger)⟩

def sampleMint : Pubkey := usdcMint .mainnet

/-- An account with a balance and no delegate. -/
def sampleAccount (mint owner : Pubkey) (amount : UInt64) : TokenLedger.TokenAccount Pubkey :=
  ⟨mint, owner, amount, none, false, none, 0, none⟩

/-- The vault's stablecoin, its other token, the pool of the protocol and the treasury, with
`spent` moved to the pool. -/
def sampleTokens (vault : Pubkey) (spent : UInt64) : TokenLedger.Accounts Pubkey := fun key =>
  if key = sampleKey 20 then some (sampleAccount sampleMint vault (100 - spent))
  else if key = sampleKey 21 then some (sampleAccount (sampleKey 30) vault spent)
  else if key = sampleKey 22 then some (sampleAccount sampleMint (protocolTreasury .mainnet) 0)
  else if key = sampleKey 24 then some (sampleAccount sampleMint (sampleKey 2) spent)
  else none

def sampleOthers : Pubkey → AccountInfo := fun key =>
  if key = sampleMint then
    ⟨tokenProgramId, List.replicate 44 0 ++ [6, 1] ++ List.replicate 36 0⟩
  else .empty

def tradingLedger : Ledger Preimage :=
  { operatedLedger with
    tokens := sampleTokens operatedLedger.vaultKey 0
    others := sampleOthers }

def sampleMetas : List AccountMeta :=
  [⟨sampleKey 20, false, true⟩, ⟨sampleKey 21, false, true⟩, ⟨sampleKey 24, false, true⟩]

def sampleValidate (vault : Pubkey) : ValidateAndAuthorizeArgs Preimage where
  agent := sampleKey 9
  tokenMint := sampleMint
  amount := 50
  targetProtocol := sampleKey 2
  expectedPolicyVersion := 1
  expectedNonce := 0
  expectedIntentDigest := computeScalarIntentDigest vault (sampleKey 9) sampleMint 50 (sampleKey 2)
  vaultTokenAccount := sampleKey 20
  tokenMintAccount := sampleMint
  outputStablecoinAccount := none
  outputSwapAccount := some (sampleKey 21)
  remaining := sampleMetas

def sampleFinalize (vault : Pubkey) : FinalizeSessionArgs where
  payer := sampleKey 9
  session := sessionAddress Preimage vault (sampleKey 9) sampleMint
  sessionRentRecipient := sampleKey 9
  vaultTokenAccount := some (sampleKey 20)
  outputStablecoinAccount := none
  outputSwapAccount := some (sampleKey 21)
  protocolTreasuryTokenAccount := some (sampleKey 22)
  feeDestinationTokenAccount := none
  remaining := sampleMetas

/-- The accounts of an instruction with the given ones at their positions. -/
def metasAt (positions : List (ℕ × Pubkey)) : List AccountMeta :=
  (List.range 8).map fun i =>
    ⟨((positions.find? fun p => p.1 = i).map Prod.snd).getD Pubkey.default, false, false⟩

def sampleInstruction (vault : Pubkey) (c : Call Preimage) : Instruction :=
  ⟨programId, metasAt (c.positions vault), c.discriminator⟩

def sampleTransaction (vault : Pubkey) : Transaction where
  clock := (sampleEnv 2000 30).clock
  instructions :=
    [sampleInstruction vault (.validateAndAuthorize (sampleValidate vault)),
      ⟨sampleKey 2, sampleMetas, []⟩,
      sampleInstruction vault (.finalizeSession (sampleFinalize vault))]
  ownBytes := fun _ _ => []

theorem encodes_sampleValidate (vault : Pubkey) :
    (Call.validateAndAuthorize (sampleValidate vault)).Encodes vault
      (sampleInstruction vault (.validateAndAuthorize (sampleValidate vault))) :=
  ⟨rfl, rfl, by simp [sampleInstruction, metasAt, Call.positions, List.range_succ]⟩

theorem encodes_sampleFinalize (vault : Pubkey) :
    (Call.finalizeSession (sampleFinalize vault) : Call Preimage).Encodes vault
      (sampleInstruction vault (.finalizeSession (sampleFinalize vault))) :=
  ⟨rfl, rfl, by simp [sampleInstruction, metasAt, Call.positions, List.range_succ]⟩

def openedLedger : Ledger Preimage :=
  after ((sampleTransaction tradingLedger.vaultKey).env 0) tradingLedger
    (.validateAndAuthorize (sampleValidate tradingLedger.vaultKey))

theorem exec_openedLedger : exec ((sampleTransaction tradingLedger.vaultKey).env 0) tradingLedger
    (.validateAndAuthorize (sampleValidate tradingLedger.vaultKey)) = .ok openedLedger :=
  exec_after (by decide +kernel)

/-- The ledger once the swap has taken 40 and returned 40 of the other token. -/
def swapLedger : Ledger Preimage :=
  { openedLedger with tokens := sampleTokens tradingLedger.vaultKey 40 }

theorem vaultKey_swapLedger : swapLedger.vaultKey = tradingLedger.vaultKey := by
  decide +kernel

def closedLedgerOfSample : Ledger Preimage :=
  after ((sampleTransaction tradingLedger.vaultKey).env 2) swapLedger
    (.finalizeSession (sampleFinalize tradingLedger.vaultKey))

theorem exec_closedLedgerOfSample : exec ((sampleTransaction tradingLedger.vaultKey).env 2)
    swapLedger (.finalizeSession (sampleFinalize tradingLedger.vaultKey)) =
      .ok closedLedgerOfSample :=
  exec_after (by decide +kernel)

attribute [irreducible] operatedLedger openedLedger closedLedgerOfSample

theorem run_sampleSwap :
    Run (sampleTransaction tradingLedger.vaultKey).step openedLedger [1] swapLedger := by
  refine .single ⟨⟨sampleKey 2, sampleMetas, []⟩, rfl, .foreign ?_ _ _⟩
  exact fun hprogram => absurd hprogram (by decide)

theorem step_sampleClose :
    (sampleTransaction tradingLedger.vaultKey).step swapLedger 2 closedLedgerOfSample :=
  ⟨_, rfl, .own (vaultKey_swapLedger ▸ encodes_sampleFinalize _) exec_closedLedgerOfSample⟩

theorem sandwich_grammar_swap :
    ∃ pre between post : List Instruction, ∃ defi closing,
      (sampleTransaction tradingLedger.vaultKey).instructions =
        pre ++ sampleInstruction tradingLedger.vaultKey
          (.validateAndAuthorize (sampleValidate tradingLedger.vaultKey)) ::
            (between ++ defi :: closing :: post) ∧ pre.length = 0 := by
  have hvalidates : (sampleTransaction tradingLedger.vaultKey).Validates 0 _ _ tradingLedger
      tradingLedger openedLedger closedLedgerOfSample :=
    ⟨.nil _, rfl, encodes_sampleValidate _, exec_openedLedger, run_sampleSwap.snoc step_sampleClose⟩
  have hlen : (sampleTransaction tradingLedger.vaultKey).instructions.length ≤
      maxSysvarScanIterations := by decide
  obtain ⟨a, pre, between, defi, closing, post, -, hsplit, hpre, -⟩ :=
    sandwich_grammar hlen hvalidates (show (0 : UInt64) < 50 by decide)
  exact ⟨pre, between, post, defi, closing, hsplit, hpre⟩

end Sample

end Sigil
