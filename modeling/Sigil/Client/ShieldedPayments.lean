import Mathlib.Data.Set.Finite.Lattice
import Sigil.Client.PaymentRuns
import Sigil.Client.ShieldRuns

/-! # Payments under a shield

Before a payment is made, the shield is asked about an instruction that stands for it. The
instruction has the accounts of a transfer and no data, so the shield reads no transfer out of it:
its answer depends on what was spent before and not on the payment. The payment is recorded all the
same.
-/

namespace Sigil.Client.Shield

open X402 EpochHistory Guard RollingWindow Trace

section Synthetic

/-- The instruction by which the shield is asked about a payment. -/
def syntheticIx (selected : PaymentRequirements) (signer : String) : InspectableInstruction where
  programAddress := tokenProgramAddress
  accounts := some [signer, selected.asset, selected.payTo, signer]

theorem analyzeInstructions_syntheticIx (selected : PaymentRequirements) (signer : String) :
    analyzeInstructions [syntheticIx selected signer] signer = ⟨[tokenProgramAddress], [], 0, []⟩ :=
  rfl

variable {ctx : Context} {paused : Bool} {s : SyncedState} {now : ℤ} {signer : String}
  {selected : PaymentRequirements}

variable (ctx paused s now selected signer) in
theorem check_syntheticIx (selected' : PaymentRequirements) :
    ctx.check paused s now [syntheticIx selected signer] signer =
      ctx.check paused s now [syntheticIx selected' signer] signer := by
  simp only [Context.check, analyzeInstructions_syntheticIx]

/-- The policies leave room for payments: the token program may be called, some transactions are
allowed, and the caller's own check has nothing against a transaction without transfers. -/
structure ShieldPolicies.AdmitsPayments (resolved : ShieldPolicies) : Prop where
  program : ∀ allowed ∈ resolved.allowedProtocols, resolved.blockUnknownPrograms = true →
    tokenProgramAddress ∈ allowed
  rate : 0 < resolved.rateLimit.maxTransactions
  custom : ∀ check ∈ resolved.customCheck, (check ⟨[tokenProgramAddress], [], 0⟩).allowed = true

theorem checkPrograms_syntheticIx_eq_nil_iff {resolved : ShieldPolicies} :
    checkPrograms resolved ⟨[tokenProgramAddress], [], 0, []⟩ = [] ↔
      ∀ allowed ∈ resolved.allowedProtocols, resolved.blockUnknownPrograms = true →
        tokenProgramAddress ∈ allowed := by
  have hsystem : tokenProgramAddress ∉ systemPrograms := by decide
  unfold checkPrograms
  cases resolved.allowedProtocols with
  | none => simp
  | some allowed => cases resolved.blockUnknownPrograms <;> simp [hsystem]

theorem checkCustom_syntheticIx_eq_nil_iff {resolved : ShieldPolicies} :
    checkCustom resolved signer ⟨[tokenProgramAddress], [], 0, []⟩ = [] ↔
      ∀ check ∈ resolved.customCheck,
        (check ⟨[tokenProgramAddress], [], 0⟩).allowed = true := by
  unfold checkCustom
  cases resolved.customCheck with
  | none => simp
  | some check => simp [customAnalysis]

theorem check_syntheticIx_eq_nil_iff :
    ctx.check paused s now [syntheticIx selected signer] signer = [] ↔
      paused = false ∧ ctx.resolved.AdmitsPayments ∧
      (∀ limit ∈ ctx.resolved.spendLimits,
        spentSince s.spendEntries limit.mint (now - limit.window) ≤ limit.amount) ∧
      countSince s.txEntries (now - ctx.resolved.rateLimit.windowMs) <
        ctx.resolved.rateLimit.maxTransactions := by
  have honchain :
      checkOnChain s signer ⟨[tokenProgramAddress], [], 0, []⟩ ctx.syncNetwork = [] := by
    unfold checkOnChain
    split <;> rfl
  have hrate : checkRateLimit ctx.resolved s now = [] ↔
      countSince s.txEntries (now - ctx.resolved.rateLimit.windowMs) <
        ctx.resolved.rateLimit.maxTransactions := by
    rw [checkRateLimit, getTransactionCountInWindow, ite_eq_right_iff, ← Nat.not_le]
    exact ⟨fun h hreached => List.cons_ne_nil _ _ (h hreached), fun h hreached => absurd hreached h⟩
  cases paused with
  | true => simp [Context.check]
  | false =>
    simp only [Context.check, analyzeInstructions_syntheticIx, evaluateInstructions, honchain,
      Bool.false_eq_true, if_false, List.append_nil, List.append_eq_nil_iff,
      List.flatMap_eq_nil_iff, checkSpendLimit_eq_nil_iff, hrate,
      checkPrograms_syntheticIx_eq_nil_iff, checkCustom_syntheticIx_eq_nil_iff, true_and]
    constructor
    · rintro ⟨⟨⟨hprogram, hlimits⟩, hcount⟩, hcustom⟩
      exact ⟨⟨hprogram, (Nat.zero_le _).trans_lt hcount, hcustom⟩, hlimits, hcount⟩
    · rintro ⟨hadmits, hlimits, hcount⟩
      exact ⟨⟨⟨hadmits.program, hlimits⟩, hcount⟩, hadmits.custom⟩

end Synthetic

section Runs

def SyncedState.recordX402Spend (now : ℤ) (asset : String) (amount : ℕ) (s : SyncedState) :
    SyncedState :=
  { s with toShieldState := s.toShieldState.recordX402Spend now asset amount }

structure PaymentCall where
  config : X402Config
  call : Call
  selected : PaymentRequirements
  amount : ℕ

structure PaymentStep (ctx : Context) (signer : String) (m : ShieldAt) (p : PaymentCall)
    (m' : ShieldAt) : Prop where
  after : m.now ≤ p.call.checkedAt
  amount : bigInt p.selected.amount = some (p.amount : ℤ)
  asked : p.call.checkViolations = (ctx.check p.call.isPaused m.state p.call.checkedAt
    [syntheticIx p.selected signer] signer).map PolicyViolation.message
  passes : evaluateX402Payment p.config ⟨m.state.toShieldState, [], []⟩ p.call p.selected p.amount =
    .ok []
  recorded : m'.state = m.state.recordX402Spend p.call.recordedAt p.selected.asset p.amount
  now : m'.now = p.call.recordedAt

/-- The time and amount of a payment in a mint. -/
def PaymentCall.paid (mint : String) (p : PaymentCall) : Option (ℤ × ℕ) :=
  if p.selected.asset = mint then some (p.call.recordedAt, p.amount) else none

def paidBetween (mint : String) (a b : ℤ) (ps : List PaymentCall) : ℕ :=
  total (fun t => a ≤ t ∧ t ≤ b) (history (PaymentCall.paid mint) ps)

/-- No window of a limit holds more payments in its mint than the limit. -/
def WithinLimits (resolved : ShieldPolicies) (ps : List PaymentCall) : Prop :=
  ∀ limit ∈ resolved.spendLimits, ∀ a b, b ≤ a + limit.window →
    paidBetween limit.mint a b ps ≤ limit.amount

variable {ctx : Context} {signer : String} {limit : SpendLimit} {m m' : ShieldAt} {p : PaymentCall}
  {ps : List PaymentCall}

theorem PaymentStep.spentSince_eq (h : PaymentStep ctx signer m p m') (mint : String) {τ : ℤ}
    (hτ : m'.now - dayMs ≤ τ) : spentSince m'.state.spendEntries mint τ =
      total (τ ≤ ·) (p.paid mint).toList + spentSince m.state.spendEntries mint τ := by
  have hentries : m'.state.spendEntries = pruneSpends m'.now (m.state.spendEntries ++
      [⟨p.selected.asset, p.amount, m'.now⟩]) := by
    rw [h.recorded, h.now]
    exact pruneSpends_idem
  have hnew : ∀ e ∈ [(⟨p.selected.asset, p.amount, m'.now⟩ : SpendEntry)],
      e.timestamp = m'.now := by
    simp
  have heq : spentSince (pruneSpends m'.now (m.state.spendEntries ++
      [⟨p.selected.asset, p.amount, m'.now⟩])) mint τ +
        prunedSpend m'.now m.state.spendEntries _ mint τ = _ := spentSince_pruneSpends hnew
  rw [prunedSpend_eq_zero hτ, Nat.add_zero, ← hentries, spentSince_cons, spentSince_nil] at heq
  rw [heq, PaymentCall.paid, h.now]
  by_cases hasset : p.selected.asset = mint
  · simp only [hasset, true_and, if_true, Option.toList_some, total_cons, total_nil]
    omega
  · simp [hasset]

theorem PaymentStep.now_le (h : PaymentStep ctx signer m p m') : m.now ≤ m'.now := by
  have := h.after
  have := p.call.checked_le_released
  have := p.call.released_le_answered
  have := p.call.answered_le_recorded
  have := h.now
  omega

theorem PaymentStep.check_eq_nil (h : PaymentStep ctx signer m p m') :
    ctx.check p.call.isPaused m.state p.call.checkedAt [syntheticIx p.selected signer] signer =
      [] := by
  have hpasses := h.passes
  simp only [evaluateX402Payment, seq_ok_iff, require_ok_iff, pure_ok_iff, exists_const,
    List.append_eq_nil_iff, List.map_eq_nil_iff] at hpasses
  exact List.map_eq_nil_iff.mp (h.asked.symm.trans hpasses.2.2)

theorem PaymentStep.admitsPayments (h : PaymentStep ctx signer m p m') :
    ctx.resolved.AdmitsPayments :=
  (check_syntheticIx_eq_nil_iff.mp h.check_eq_nil).2.1

theorem total_le_spentSince (h : Run (PaymentStep ctx signer) m ps m') (mint : String) {τ : ℤ}
    (hτ : m'.now - dayMs ≤ τ) :
    total (τ ≤ ·) (history (PaymentCall.paid mint) ps) ≤
      spentSince m'.state.spendEntries mint τ := by
  refine h.induct (P := fun ps m => ∀ τ, m.now - dayMs ≤ τ →
    total (τ ≤ ·) (history (PaymentCall.paid mint) ps) ≤ spentSince m.state.spendEntries mint τ)
    (fun _ _ => Nat.zero_le _) ?_ τ hτ
  intro ps m p m' _ ih hstep τ hτ
  have hbefore := ih τ (by have := hstep.now_le; omega)
  rw [hstep.spentSince_eq mint hτ, total_history_snoc]
  omega

theorem PaymentStep.paid_before_le {m'' : ShieldAt} (h : PaymentStep ctx signer m' p m'')
    (hrun : Run (PaymentStep ctx signer) m ps m') (hlimit : limit ∈ ctx.resolved.spendLimits)
    (hday : limit.window ≤ dayMs) {a b : ℤ} (hab : b ≤ a + limit.window)
    (hb : p.call.checkedAt ≤ b) : paidBetween limit.mint a b ps ≤ limit.amount := by
  obtain ⟨-, -, hlimits, -⟩ := check_syntheticIx_eq_nil_iff.mp h.check_eq_nil
  have hafter := h.after
  calc paidBetween limit.mint a b ps
      ≤ total (p.call.checkedAt - limit.window ≤ ·) (history (PaymentCall.paid limit.mint) ps) :=
        total_mono fun y _ hy => by omega
    _ ≤ spentSince m'.state.spendEntries limit.mint (p.call.checkedAt - limit.window) :=
        total_le_spentSince hrun limit.mint (by omega)
    _ ≤ limit.amount := hlimits limit hlimit

/-- A payment of a caller without limits of its own, made at one moment. -/
def paymentOf (mint : String) (amount : ℕ) (t : ℤ) : PaymentCall where
  config := {}
  call := sampleCall accepted t
  selected := { samplePayment.selected with
    asset := mint
    amount := toString amount }
  amount := amount

theorem paidBetween_paymentOf (mint : String) (amount : ℕ) (t : ℤ) :
    paidBetween mint t t [paymentOf mint amount t] = amount := by
  have hpaid : (paymentOf mint amount t).paid mint = some (t, amount) := if_pos rfl
  simp [paidBetween, history, hpaid]

def ShieldAt.paid (m : ShieldAt) (p : PaymentCall) : ShieldAt :=
  ⟨p.call.recordedAt, m.state.recordX402Spend p.call.recordedAt p.selected.asset p.amount⟩

variable (signer) in
theorem exists_paymentStep (hday : ∀ limit ∈ ctx.resolved.spendLimits, limit.window ≤ dayMs)
    (hadmits : ctx.resolved.AdmitsPayments) (m : ShieldAt) (mint : String) (amount : ℕ) :
    ∃ t, PaymentStep ctx signer m (paymentOf mint amount t) (m.paid (paymentOf mint amount t)) := by
  obtain ⟨lastSpend, hspends⟩ : BddAbove {t | t ∈ m.state.spendEntries.map SpendEntry.timestamp} :=
    Set.Finite.bddAbove (List.finite_toSet _)
  obtain ⟨lastTx, htxs⟩ : BddAbove {t | t ∈ m.state.txEntries} :=
    Set.Finite.bddAbove (List.finite_toSet _)
  obtain ⟨t, hnow, hspend, htx⟩ : ∃ t, m.now ≤ t ∧ lastSpend + dayMs < t ∧
      lastTx + ctx.resolved.rateLimit.windowMs < t :=
    ⟨max m.now (max (lastSpend + dayMs) (lastTx + ctx.resolved.rateLimit.windowMs) + 1), by omega,
      by omega, by omega⟩
  have hcheck : ctx.check false m.state t [syntheticIx (paymentOf mint amount t).selected signer]
      signer = [] := by
    refine check_syntheticIx_eq_nil_iff.mpr ⟨rfl, hadmits, fun limit hlimit => ?_, ?_⟩
    · rw [spentSince_of_lt]
      · exact Nat.zero_le _
      · intro e he
        have hle : e.timestamp ≤ lastSpend := hspends (List.mem_map_of_mem he)
        have := hday limit hlimit
        omega
    · refine lt_of_eq_of_lt (Nat.eq_zero_of_not_pos fun hpos => ?_) hadmits.rate
      obtain ⟨t', ht', hlater⟩ := countSince_pos_iff.mp hpos
      have hle : t' ≤ lastTx := htxs ht'
      omega
  exact ⟨t, hnow, bigInt_toString amount,
    (congrArg (List.map PolicyViolation.message) hcheck).symm, rfl, rfl, rfl⟩

/-- The shield gives every payment the same answer, and lets one through only while what was paid
before it is within the limits. Payments that pass stay within the limits exactly if the policies
refuse them all or limit nothing. -/
theorem payments_within_limits_iff
    (hday : ∀ limit ∈ ctx.resolved.spendLimits, limit.window ≤ dayMs) (m : ShieldAt) :
    (∀ paused s now selected selected',
      ctx.check paused s now [syntheticIx selected signer] signer =
        ctx.check paused s now [syntheticIx selected' signer] signer) ∧
    (∀ ps m' p m'', Run (PaymentStep ctx signer) m ps m' → PaymentStep ctx signer m' p m'' →
      ∀ limit ∈ ctx.resolved.spendLimits, ∀ a b, b ≤ a + limit.window → p.call.checkedAt ≤ b →
        paidBetween limit.mint a b ps ≤ limit.amount) ∧
    ((∀ ps m', Run (PaymentStep ctx signer) m ps m' → WithinLimits ctx.resolved ps) ↔
      ¬ ctx.resolved.AdmitsPayments ∨ ∀ limit ∈ ctx.resolved.spendLimits, limit.window < 0) := by
  refine ⟨fun paused s now selected selected' => check_syntheticIx ctx paused s now signer _ _, ?_,
    ?_, ?_⟩
  · intro ps m' p m'' hrun hstep limit hlimit a b hab hb
    exact hstep.paid_before_le hrun hlimit (hday limit hlimit) hab hb
  · intro hall
    by_contra hopen
    push Not at hopen
    obtain ⟨hadmits, limit, hlimit, hwindow⟩ := hopen
    obtain ⟨t, hstep⟩ := exists_paymentStep signer hday hadmits m limit.mint (limit.amount + 1)
    have hwithin := hall _ _ (.single hstep) limit hlimit t t (by omega)
    rw [paidBetween_paymentOf] at hwithin
    omega
  · rintro (hrefuses | hnone) ps m' hrun limit hlimit a b hab
    · have hempty : ps = [] := List.eq_nil_iff_forall_not_mem.mpr fun p hp => by
        obtain ⟨_, _, hstep⟩ := hrun.exists_step hp
        exact hrefuses hstep.admitsPayments
      rw [hempty]
      exact Nat.zero_le _
    · have hwindow := hnone limit hlimit
      rw [paidBetween, total_eq_zero fun y _ hy => by omega]
      exact Nat.zero_le _

end Runs

section Sample

/-- A payment of sixty units that a caller without limits of its own makes at one moment. -/
def sixty (t : ℤ) : PaymentCall where
  config := {}
  call := sampleCall accepted t
  selected := samplePayment.selected
  amount := 60

/-- A second payment passes after the first, and a shield with a limit lets too much through. -/
theorem payments_within_limits_iff_sixty :
    (∀ a b, b ≤ a + dayMs → 1000 ≤ b → paidBetween "USDC" a b [sixty 0] ≤ 100) ∧
    paidBetween "USDC" 0 1000 [sixty 0] = 60 ∧
    ¬ ∀ ps m', Run (PaymentStep sampleContext "agent") freshShield ps m' →
      WithinLimits sampleContext.resolved ps := by
  have hday : ∀ limit ∈ sampleContext.resolved.spendLimits, limit.window ≤ dayMs := by decide
  have hfirst : Run (PaymentStep sampleContext "agent") freshShield [sixty 0]
      (freshShield.paid (sixty 0)) :=
    .single ⟨by decide, by decide +kernel, by decide, by decide, rfl, rfl⟩
  have hsecond : PaymentStep sampleContext "agent" (freshShield.paid (sixty 0)) (sixty 1000)
      ((freshShield.paid (sixty 0)).paid (sixty 1000)) :=
    ⟨by decide, by decide +kernel, by decide, by decide, rfl, rfl⟩
  have hadmits : sampleContext.resolved.AdmitsPayments :=
    ⟨by rintro _ ⟨⟩, by decide, by rintro _ ⟨⟩⟩
  obtain ⟨-, hbefore, hiff⟩ := payments_within_limits_iff hday freshShield
  refine ⟨hbefore _ _ _ _ hfirst hsecond sampleLimit List.mem_cons_self, by decide, fun hall => ?_⟩
  rcases hiff.mp hall with hrefuses | hnone
  · exact hrefuses hadmits
  · exact absurd (hnone sampleLimit List.mem_cons_self) (by decide)

/-- Two payments within a second pass a shield that allows a hundred units a day. -/
theorem payments_exceed_limit :
    sampleContext.resolved.spendLimits = [sampleLimit] ∧ sampleLimit.window = dayMs ∧
    Run (PaymentStep sampleContext "agent") freshShield [sixty 0, sixty 1000]
      ((freshShield.paid (sixty 0)).paid (sixty 1000)) ∧
    ¬ WithinLimits sampleContext.resolved [sixty 0, sixty 1000] := by
  refine ⟨rfl, rfl, ?_, ?_⟩
  · exact (Run.single ⟨by decide, by decide +kernel, by decide, by decide, rfl, rfl⟩).snoc
      ⟨by decide, by decide +kernel, by decide, by decide, rfl, rfl⟩
  · intro hwithin
    exact absurd (hwithin sampleLimit List.mem_cons_self 0 1000 (by decide)) (by decide)

end Sample

end Sigil.Client.Shield
