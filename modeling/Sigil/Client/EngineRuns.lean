import Sigil.Client.PolicyEngine
import Sigil.Library.RollingWindow

/-! # Runs of the policy engine

Transactions are accepted and recorded one after the other. A spend stays on record until so many
others, of whatever mint, have been recorded after it, and it counts in its window only so long. The
number of transactions is limited as configured as long as the record has room for the limit.
-/

namespace Sigil.Client.Core

open BoundedLog EpochHistory RollingWindow Trace
open X402 (SpendEntry dayMs)

section Steps

/-- A transaction with the times at which it is checked and recorded. -/
structure Transaction where
  analysis : TransactionAnalysis
  checkedAt : ℤ
  recordedAt : ℤ
  checked_le_recorded : checkedAt ≤ recordedAt

structure EngineAt where
  now : ℤ
  state : ShieldState

structure EngineStep (policies : ResolvedPolicies) (m : EngineAt) (t : Transaction)
    (m' : EngineAt) : Prop where
  after : m.now ≤ t.checkedAt
  enforced : enforcePolicy t.analysis policies m.state t.checkedAt = .ok ()
  state : m'.state = recordTransaction t.analysis m.state t.recordedAt
  now : m'.now = t.recordedAt

/-- What a transaction sends out of a mint. -/
def outgoing (mint : String) (analysis : TransactionAnalysis) : ℕ :=
  ((analysis.transfers.filter fun t => t.direction = .outgoing ∧ t.mint = mint).map
    TokenTransfer.amount).sum

def spentBetween (mint : String) (a b : ℤ) (ts : List Transaction) : ℕ :=
  total (fun t => a ≤ t ∧ t ≤ b)
    (history (fun t => some (t.recordedAt, outgoing mint t.analysis)) ts)

def transactionsBetween (a b : ℤ) (ts : List Transaction) : ℕ :=
  (ts.filter fun t => a ≤ t.recordedAt ∧ t.recordedAt ≤ b).length

/-- A mint that is not taken for one that is not known. -/
def Known (mint : String) : Prop := mint ≠ defaultAddress ∧ mint ≠ ""

instance (mint : String) : Decidable (Known mint) := inferInstanceAs (Decidable (_ ∧ _))

/-- What the record loses of the spend of a mint since the time `τ`. -/
def forgottenSpend (mint : String) (τ : ℤ) (s : ShieldState) (t : Transaction) : ℕ :=
  spentSince (forgotten maxSpendEntries (s.spendEntries ++
    entriesOf t.recordedAt t.analysis.transfers)) mint τ

def forgottenCount (τ : ℤ) (s : ShieldState) (t : Transaction) : ℕ :=
  countSince (forgotten maxTxEntries (s.txEntries ++ [t.recordedAt])) τ

variable {policies : ResolvedPolicies} {limit : SpendLimit} {m m' : EngineAt} {t : Transaction}
  {ts : List Transaction} {mint : String} {τ : ℤ}

theorem EngineStep.now_le (h : EngineStep policies m t m') :
    m.now ≤ t.checkedAt ∧ t.checkedAt ≤ t.recordedAt ∧ m'.now = t.recordedAt :=
  ⟨h.after, t.checked_le_recorded, h.now⟩

theorem EngineStep.spentSince_eq (h : EngineStep policies m t m') (mint : String) (τ : ℤ) :
    spentSince m'.state.spendEntries mint τ + forgottenSpend mint τ m.state t =
      spentSince m.state.spendEntries mint τ +
        if τ ≤ t.recordedAt then txSpend t.analysis mint else 0 := by
  have hnew : spentSince (entriesOf t.recordedAt t.analysis.transfers) mint τ =
      if τ ≤ t.recordedAt then txSpend t.analysis mint else 0 := by
    rw [spentSince_of_timestamp fun e he => entriesOf_timestamp he, sum_entriesOf]
  rw [h.state, recordTransaction_spendEntries, forgottenSpend, Nat.add_comm, ← spentSince_append,
    forgotten_append_keepLast, spentSince_append, hnew]

theorem EngineStep.countSince_eq (h : EngineStep policies m t m') (τ : ℤ) :
    countSince m'.state.txEntries τ + forgottenCount τ m.state t =
      countSince m.state.txEntries τ + if τ ≤ t.recordedAt then 1 else 0 := by
  rw [h.state, recordTransaction_txEntries, forgottenCount, Nat.add_comm, ← countSince_append,
    forgotten_append_keepLast, countSince_append]
  by_cases hτ : τ ≤ t.recordedAt <;> simp [countSince, hτ]

theorem known_mintKey (mint : String) : Known (mintKey mint) := by
  unfold mintKey
  split
  · decide
  · rename_i hknown
    exact not_or.mp hknown

theorem mintKey_of_known (h : Known mint) : mintKey mint = mint := if_neg (not_or.mpr h)

theorem outgoing_le_txSpend (h : Known mint) (analysis : TransactionAnalysis) :
    outgoing mint analysis ≤ txSpend analysis mint := by
  refine List.Sublist.sum_le_sum (List.Sublist.map _ ?_) fun _ _ => Nat.zero_le _
  refine List.monotone_filter_right _ fun t ht => ?_
  rw [decide_eq_true_eq] at ht ⊢
  exact ⟨ht.1, by rw [ht.2, mintKey_of_known h]⟩

theorem txSpend_of_not_known (h : ¬ Known mint) (analysis : TransactionAnalysis) :
    txSpend analysis mint = 0 := by
  have hnone : (analysis.transfers.filter fun t =>
      t.direction = .outgoing ∧ mintKey t.mint = mint) = [] := by
    refine List.filter_eq_nil_iff.mpr fun t _ ht => h ?_
    rw [decide_eq_true_eq] at ht
    exact ht.2 ▸ known_mintKey t.mint
  rw [txSpend, hnone]
  rfl

/-- What is sent out of a mint is checked against its limit, unless the mint is taken for one that
is not known. -/
theorem outgoing_le_txSpend_iff (analysis : TransactionAnalysis) :
    outgoing mint analysis ≤ txSpend analysis mint ↔ Known mint ∨ outgoing mint analysis = 0 := by
  by_cases hknown : Known mint
  · exact iff_of_true (outgoing_le_txSpend hknown analysis) (.inl hknown)
  · rw [txSpend_of_not_known hknown, Nat.le_zero]
    exact (or_iff_right hknown).symm

end Steps

section Runs

/-- The limit looks at what the transaction sends out, and nothing of its window is lost. -/
def RemembersSpend (limit : SpendLimit) (s : ShieldState) (t : Transaction) : Prop :=
  (Known limit.mint ∨ outgoing limit.mint t.analysis = 0) ∧
    forgottenSpend limit.mint (t.recordedAt - limit.window) s t = 0

/-- The record has room for the limit, or no transaction of the window is lost. -/
def RemembersCount (rateLimit : RateLimitConfig) (s : ShieldState) (t : Transaction) : Prop :=
  rateLimit.maxTransactions ≤ maxTxEntries ∨
    forgottenCount (t.recordedAt - rateLimit.windowMs) s t = 0

variable {policies : ResolvedPolicies} {limit : SpendLimit} {m m' : EngineAt} {t : Transaction}
  {ts : List Transaction} {τ τ' : ℤ}

theorem EngineStep.admits_spend (h : EngineStep policies m t m')
    (hlimit : limit ∈ policies.spendLimits) (hremembers : RemembersSpend limit m.state t) :
    Admits EngineAt.now (fun m => spentSince m.state.spendEntries limit.mint)
      (fun t => some (t.recordedAt, outgoing limit.mint t.analysis)) limit.window limit.amount
      m t m' where
  now_le := by
    have := h.now_le
    omega
  event_ge := by
    rintro y ⟨⟩
    exact h.after.trans t.checked_le_recorded
  admitted := by
    rintro y ⟨⟩
    have hle := (outgoing_le_txSpend_iff t.analysis).mpr hremembers.1
    rcases (enforcePolicy_ok h.enforced).1 limit hlimit with hzero | hfits
    · exact .inl (by omega)
    · -- the window at the record lies within the window at the check
      have hlater : spentSince m.state.spendEntries limit.mint (t.recordedAt - limit.window) ≤
          m.state.getSpendInWindow t.checkedAt limit.mint limit.window :=
        spentSince_anti (Int.sub_le_sub_right t.checked_le_recorded _)
      exact .inr (by dsimp only; omega)
  shown := by
    intro τ hτ
    have hle := (outgoing_le_txSpend_iff t.analysis).mpr hremembers.1
    have heq := h.spentSince_eq limit.mint τ
    have hlost : forgottenSpend limit.mint τ m.state t ≤
        forgottenSpend limit.mint (t.recordedAt - limit.window) m.state t :=
      spentSince_anti (h.now ▸ hτ)
    rw [hremembers.2] at hlost
    simp only [Option.toList_some, total_cons, total_nil]
    split at heq <;> split <;> omega

structure EngineAt.Ordered (m : EngineAt) : Prop where
  ordered : m.state.txEntries.Pairwise (· ≤ ·)
  le_now : ∀ x ∈ m.state.txEntries, x ≤ m.now

theorem EngineAt.Ordered.append (h : m.Ordered) (hnow : m.now ≤ τ) :
    (m.state.txEntries ++ [τ]).Pairwise (· ≤ ·) := by
  refine List.pairwise_append.mpr ⟨h.ordered, List.pairwise_singleton _ _, ?_⟩
  intro x hx y hy
  obtain rfl := List.mem_singleton.mp hy
  exact (h.le_now x hx).trans hnow

theorem EngineStep.ordered (h : EngineStep policies m t m') (hm : m.Ordered) : m'.Ordered := by
  have hnow := h.now_le
  have happend := hm.append (h.after.trans t.checked_le_recorded)
  have hentries : m'.state.txEntries.Sublist (m.state.txEntries ++ [t.recordedAt]) := by
    rw [h.state, recordTransaction_txEntries, keepLast_eq_drop]
    exact List.drop_sublist _ _
  refine ⟨happend.sublist hentries, fun x hx => ?_⟩
  rcases List.mem_append.mp (hentries.subset hx) with hx | hx
  · have := hm.le_now x hx
    omega
  · rw [List.mem_singleton.mp hx, h.now]

theorem lt_countSince_of_forgotten {n : ℕ} {xs : List ℤ} (h : xs.Pairwise (· ≤ ·)) {x : ℤ}
    (hx : x ∈ forgotten n xs) (hτ : τ ≤ x) : n < countSince xs τ := by
  have hfirst : 0 < countSince (forgotten n xs) τ := countSince_pos_iff.mpr ⟨x, hx, hτ⟩
  have hlong : n < xs.length := by
    by_contra hshort
    rw [forgotten_of_le (Nat.le_of_not_lt hshort)] at hx
    cases hx
  have hrest : countSince (keepLast n xs) τ = n := by
    rw [countSince_of_forall fun y hy => hτ.trans (rel_of_forgotten h hx hy), length_keepLast]
    omega
  rw [← forgotten_append_keepLast n xs, countSince_append]
  omega

theorem EngineStep.countSince_lt (h : EngineStep policies m t m') :
    countSince m.state.txEntries (t.recordedAt - policies.rateLimit.windowMs) <
      policies.rateLimit.maxTransactions :=
  (countSince_anti (Int.sub_le_sub_right t.checked_le_recorded _)).trans_lt
    (enforcePolicy_ok h.enforced).2

/-- Within the room of the record, an accepted transaction takes nothing of its window away. -/
theorem EngineStep.forgottenCount_eq_zero (h : EngineStep policies m t m') (hm : m.Ordered)
    (hroom : policies.rateLimit.maxTransactions ≤ maxTxEntries) :
    forgottenCount (t.recordedAt - policies.rateLimit.windowMs) m.state t = 0 := by
  by_contra hlost
  obtain ⟨x, hx, hτ⟩ := countSince_pos_iff.mp (Nat.pos_of_ne_zero hlost)
  have hmany := lt_countSince_of_forgotten
    (hm.append (h.after.trans t.checked_le_recorded)) hx hτ
  have hone : countSince [t.recordedAt] (t.recordedAt - policies.rateLimit.windowMs) ≤ 1 :=
    List.length_filter_le _ _
  have hchecked := h.countSince_lt
  rw [countSince_append] at hmany
  omega

theorem EngineStep.admits_count (h : EngineStep policies m t m') (hm : m.Ordered)
    (hremembers : RemembersCount policies.rateLimit m.state t) :
    Admits EngineAt.now (fun m => countSince m.state.txEntries) (fun t => some (t.recordedAt, 1))
      policies.rateLimit.windowMs policies.rateLimit.maxTransactions m t m' where
  now_le := by
    have := h.now_le
    omega
  event_ge := by
    rintro y ⟨⟩
    exact h.after.trans t.checked_le_recorded
  admitted := by
    rintro y ⟨⟩
    exact .inr (Nat.succ_le_of_lt h.countSince_lt)
  shown := by
    intro τ hτ
    have hnone : forgottenCount (t.recordedAt - policies.rateLimit.windowMs) m.state t = 0 :=
      hremembers.elim (h.forgottenCount_eq_zero hm) id
    have hlost : forgottenCount τ m.state t ≤
        forgottenCount (t.recordedAt - policies.rateLimit.windowMs) m.state t :=
      countSince_anti (h.now ▸ hτ)
    have heq := h.countSince_eq τ
    simp only [Option.toList_some, total_cons, total_nil]
    omega

theorem transactionsBetween_eq_total (a b : ℤ) (ts : List Transaction) :
    transactionsBetween a b ts =
      total (fun t => a ≤ t ∧ t ≤ b) (history (fun t => some (t.recordedAt, 1)) ts) := by
  induction ts using List.reverseRecOn with
  | nil => rfl
  | append_singleton ts t ih =>
    rw [total_history_snoc, ← ih, transactionsBetween, transactionsBetween, List.filter_append,
      List.length_append, Nat.add_comm]
    congr 1
    by_cases ht : a ≤ t.recordedAt ∧ t.recordedAt ≤ b <;> simp [ht]

theorem admits_count_of_run (hempty : m.state = .empty)
    (h : Run (fun m t m' => EngineStep policies m t m' ∧
      RemembersCount policies.rateLimit m.state t) m ts m') :
    m'.Ordered ∧ Run (Admits EngineAt.now (fun m => countSince m.state.txEntries)
      (fun t => some (t.recordedAt, 1)) policies.rateLimit.windowMs
      policies.rateLimit.maxTransactions) m ts m' := by
  refine h.induct (P := fun ts m' => m'.Ordered ∧ Run (Admits EngineAt.now
    (fun m => countSince m.state.txEntries) (fun t => some (t.recordedAt, 1))
    policies.rateLimit.windowMs policies.rateLimit.maxTransactions) m ts m') ?_ ?_
  · refine ⟨⟨?_, ?_⟩, .nil m⟩
    · rw [hempty]
      exact .nil
    · rw [hempty]
      exact fun x hx => nomatch hx
  · rintro ts m₁ t m₂ - ⟨hordered, hrun⟩ ⟨hstep, hremembers⟩
    exact ⟨hstep.ordered hordered, hrun.snoc (hstep.admits_count hordered hremembers)⟩

/-- A limit looks at what is sent out of its mint exactly if the mint is known, or nothing is. The
figure of its window grows by what was checked exactly if the record loses nothing of the window,
and so does the number of transactions. In every run in which the limit looks and nothing is lost,
no window holds more than the limit, and the number of transactions is limited as configured if the
record has room for the limit or nothing is lost. -/
theorem remembered_transactions_within_limits (policies : ResolvedPolicies) :
    (∀ mint analysis, outgoing mint analysis ≤ txSpend analysis mint ↔
      Known mint ∨ outgoing mint analysis = 0) ∧
    (∀ m t m', EngineStep policies m t m' → ∀ mint windowMs, 0 ≤ windowMs →
      (m'.state.getSpendInWindow t.recordedAt mint windowMs =
        m.state.getSpendInWindow t.recordedAt mint windowMs + txSpend t.analysis mint ↔
          forgottenSpend mint (t.recordedAt - windowMs) m.state t = 0) ∧
      (m'.state.getTransactionCountInWindow t.recordedAt windowMs =
        m.state.getTransactionCountInWindow t.recordedAt windowMs + 1 ↔
          forgottenCount (t.recordedAt - windowMs) m.state t = 0)) ∧
    (∀ limit ∈ policies.spendLimits, ∀ m ts m', Run (fun m t m' => EngineStep policies m t m' ∧
      RemembersSpend limit m.state t) m ts m' →
        ∀ a b, b ≤ a + limit.window → spentBetween limit.mint a b ts ≤ limit.amount) ∧
    ∀ m ts m', m.state = .empty → Run (fun m t m' => EngineStep policies m t m' ∧
      RemembersCount policies.rateLimit m.state t) m ts m' →
        ∀ a b, b ≤ a + policies.rateLimit.windowMs →
          transactionsBetween a b ts ≤ policies.rateLimit.maxTransactions := by
  refine ⟨fun mint analysis => outgoing_le_txSpend_iff analysis, ?_, ?_, ?_⟩
  · intro m t m' h mint windowMs hwindow
    have hstart : t.recordedAt - windowMs ≤ t.recordedAt := by omega
    have hspent := h.spentSince_eq mint (t.recordedAt - windowMs)
    have hcount := h.countSince_eq (t.recordedAt - windowMs)
    rw [if_pos hstart] at hspent hcount
    simp only [ShieldState.getSpendInWindow, ShieldState.getTransactionCountInWindow]
    omega
  · intro limit hlimit m ts m' hrun a b hab
    exact total_history_le (hrun.mono fun m t m' h => h.1.admits_spend hlimit h.2) hab
  · intro m ts m' hempty hrun a b hab
    rw [transactionsBetween_eq_total]
    exact total_history_le (admits_count_of_run hempty hrun).2 hab

end Runs

section Sample

def dailyCap : SpendLimit := { mint := "USDC", amount := 100 }

def dailyPolicies : ResolvedPolicies := { spendLimits := [dailyCap] }

def transfersAt (transfers : List TokenTransfer) (t : ℤ) : Transaction :=
  ⟨⟨[], transfers, 0⟩, t, t, le_rfl⟩

def wholeCap : TokenTransfer := { mint := "USDC", amount := 100, direction := .outgoing }

/-- Nothing at all, of another mint. -/
def dust : TokenTransfer := { mint := "BONK", amount := 0, direction := .outgoing }

def EngineAt.after (m : EngineAt) (t : Transaction) : EngineAt :=
  ⟨t.recordedAt, recordTransaction t.analysis m.state t.recordedAt⟩

def freshEngine : EngineAt := ⟨0, .empty⟩

theorem EngineAt.step_after {policies : ResolvedPolicies} {m : EngineAt} {t : Transaction}
    (hnow : m.now ≤ t.checkedAt) (h : evaluatePolicy t.analysis policies m.state t.checkedAt = []) :
    EngineStep policies m t (m.after t) :=
  ⟨hnow, if_pos h, rfl, rfl⟩

theorem remembered_transactions_within_limits_sample :
    spentBetween "USDC" 0 (dayMs + 1)
      [transfersAt [wholeCap] 0, transfersAt [wholeCap] (dayMs + 1)] = 200 ∧
    (∀ a, spentBetween "USDC" a (a + dayMs)
      [transfersAt [wholeCap] 0, transfersAt [wholeCap] (dayMs + 1)] ≤ 100) ∧
    ∀ a, transactionsBetween a (a + 3600000)
      [transfersAt [wholeCap] 0, transfersAt [wholeCap] (dayMs + 1)] ≤ 60 := by
  have hmain := remembered_transactions_within_limits dailyPolicies
  have hfirst : EngineStep dailyPolicies freshEngine (transfersAt [wholeCap] 0)
      (freshEngine.after (transfersAt [wholeCap] 0)) :=
    EngineAt.step_after (by decide) (by decide)
  have hsecond : EngineStep dailyPolicies (freshEngine.after (transfersAt [wholeCap] 0))
      (transfersAt [wholeCap] (dayMs + 1))
      ((freshEngine.after (transfersAt [wholeCap] 0)).after (transfersAt [wholeCap] (dayMs + 1))) :=
    EngineAt.step_after (by decide) (by decide)
  refine ⟨by decide, fun a => ?_, fun a => ?_⟩
  · have hrun : Run (fun m t m' => EngineStep dailyPolicies m t m' ∧
        RemembersSpend dailyCap m.state t) freshEngine _ _ :=
      (Run.single ⟨hfirst, .inl (by decide), by decide⟩).snoc ⟨hsecond, .inl (by decide), by decide⟩
    exact hmain.2.2.1 dailyCap List.mem_cons_self _ _ _ hrun a (a + dayMs) le_rfl
  · have hrun : Run (fun m t m' => EngineStep dailyPolicies m t m' ∧
        RemembersCount dailyPolicies.rateLimit m.state t) freshEngine _ _ :=
      (Run.single ⟨hfirst, .inl (by decide)⟩).snoc ⟨hsecond, .inl (by decide)⟩
    exact hmain.2.2.2 _ _ _ rfl hrun a (a + 3600000) le_rfl

theorem spendEntries_dust (m : EngineAt) (t : ℤ) :
    (m.after (transfersAt (List.replicate maxSpendEntries dust) t)).state.spendEntries =
      List.replicate maxSpendEntries ⟨"BONK", 0, t⟩ := by
  have hentries : entriesOf t (List.replicate maxSpendEntries dust) =
      List.replicate maxSpendEntries ⟨"BONK", 0, t⟩ := by
    rw [entriesOf, List.filter_replicate_of_pos (by decide), List.map_replicate]
    rfl
  change (recordTransaction _ _ _).spendEntries = _
  rw [recordTransaction_spendEntries]
  change keepLast _ (_ ++ entriesOf t (List.replicate maxSpendEntries dust)) = _
  rw [hentries, keepLast_append_of_length List.length_replicate]

theorem evaluatePolicy_daily {transfers : List TokenTransfer} {s : ShieldState} {t : ℤ}
    (hroom : s.txEntries.length < 60)
    (hcap : checkSpendingCap ⟨[], transfers, 0⟩ s t dailyCap = []) :
    evaluatePolicy ⟨[], transfers, 0⟩ dailyPolicies s t = [] := by
  have hcount : countSince s.txEntries (t - 3600000) < 60 :=
    (List.length_filter_le _ _).trans_lt hroom
  have hrate : checkRateLimit dailyPolicies s t = [] := checkRateLimit_eq_nil_iff.mpr hcount
  have hcaps : checkSpendingCaps ⟨[], transfers, 0⟩ dailyPolicies s t = [] := by
    rw [checkSpendingCaps, dailyPolicies, List.flatMap_singleton, hcap]
  rw [evaluatePolicy, hrate, hcaps]
  rfl

theorem step_dust {m : EngineAt} {t : ℤ} (hnow : m.now ≤ t)
    (hroom : m.state.txEntries.length < 60) :
    EngineStep dailyPolicies m (transfersAt (List.replicate maxSpendEntries dust) t)
      (m.after (transfersAt (List.replicate maxSpendEntries dust) t)) := by
  refine EngineAt.step_after hnow (evaluatePolicy_daily hroom ?_)
  refine checkSpendingCap_eq_nil_iff.mpr (.inl ?_)
  rw [txSpend, List.filter_replicate_of_neg (by decide)]
  rfl

theorem step_after_dust {m : EngineAt} {t t' : ℤ} (hlater : t ≤ t')
    (hroom : m.state.txEntries.length < 59) :
    EngineStep dailyPolicies (m.after (transfersAt (List.replicate maxSpendEntries dust) t))
      (transfersAt [wholeCap] t')
      ((m.after (transfersAt (List.replicate maxSpendEntries dust) t)).after
        (transfersAt [wholeCap] t')) := by
  have htxs :
      (m.after (transfersAt (List.replicate maxSpendEntries dust) t)).state.txEntries.length <
        60 := by
    change (recordTransaction _ _ _).txEntries.length < 60
    rw [recordTransaction_txEntries, length_keepLast, List.length_append, List.length_singleton]
    omega
  refine EngineAt.step_after hlater (evaluatePolicy_daily htxs ?_)
  refine checkSpendingCap_eq_nil_iff.mpr (.inr ?_)
  rw [ShieldState.getSpendInWindow, spendEntries_dust, spentSince,
    List.filter_replicate_of_neg (by simp [dailyCap])]
  decide

/-- No work at all, at one moment. -/
def idle : Transaction := transfersAt [] 0

def hurriedPolicies : ResolvedPolicies := { spendLimits := [], rateLimit := ⟨5001, 3600000⟩ }

theorem exists_run_idle (n : ℕ) : ∃ m', Run (EngineStep hurriedPolicies) freshEngine
    (List.replicate n idle) m' ∧ m'.now = 0 := by
  induction n with
  | zero => exact ⟨freshEngine, .nil _, rfl⟩
  | succ n ih =>
    obtain ⟨m, hrun, hnow⟩ := ih
    have hcount : countSince m.state.txEntries (0 - 3600000) < 5001 :=
      Nat.lt_succ_of_le ((List.length_filter_le _ _).trans m.state.txs_le)
    have hrate : checkRateLimit hurriedPolicies m.state 0 = [] :=
      checkRateLimit_eq_nil_iff.mpr hcount
    have hpasses : evaluatePolicy idle.analysis hurriedPolicies m.state 0 = [] := by
      rw [evaluatePolicy, hrate]
      rfl
    refine ⟨m.after idle, ?_, rfl⟩
    rw [List.replicate_succ']
    exact hrun.snoc (EngineAt.step_after hnow.le hpasses)

theorem spentBetween_around (transfers : List TokenTransfer) :
    spentBetween "USDC" 0 2000 [transfersAt [wholeCap] 0, transfersAt transfers 1000,
      transfersAt [wholeCap] 2000] = 200 + outgoing "USDC" ⟨[], transfers, 0⟩ := by
  change 100 + (outgoing "USDC" ⟨[], transfers, 0⟩ + (100 + 0)) = _
  omega

/-- The limit is used up, dust drives its spend out of the record, and it is used up again, all
within two seconds. A rate limit beyond the room of the record lets any number of transactions
through. -/
theorem forgotten_transactions_exceed_limits :
    (dailyCap ∈ dailyPolicies.spendLimits ∧ dailyCap.window = dayMs ∧ freshEngine.state = .empty ∧
      Run (EngineStep dailyPolicies) freshEngine
        [transfersAt [wholeCap] 0, transfersAt (List.replicate maxSpendEntries dust) 1000,
          transfersAt [wholeCap] 2000]
        (((freshEngine.after (transfersAt [wholeCap] 0)).after
          (transfersAt (List.replicate maxSpendEntries dust) 1000)).after
            (transfersAt [wholeCap] 2000)) ∧
      dailyCap.amount < spentBetween "USDC" 0 2000
        [transfersAt [wholeCap] 0, transfersAt (List.replicate maxSpendEntries dust) 1000,
          transfersAt [wholeCap] 2000]) ∧
    ∃ m', Run (EngineStep hurriedPolicies) freshEngine (List.replicate 5002 idle) m' ∧
      hurriedPolicies.rateLimit.maxTransactions <
        transactionsBetween 0 0 (List.replicate 5002 idle) := by
  refine ⟨⟨List.mem_cons_self, rfl, rfl, ?_, ?_⟩, ?_⟩
  · have hfirst : EngineStep dailyPolicies freshEngine (transfersAt [wholeCap] 0)
        (freshEngine.after (transfersAt [wholeCap] 0)) :=
      EngineAt.step_after (by decide) (by decide)
    exact ((Run.single hfirst).snoc (step_dust (by decide) (by decide))).snoc
      (step_after_dust (by decide) (by decide))
  · rw [spentBetween_around]
    exact Nat.lt_add_right _ (by decide)
  · obtain ⟨m', hrun, -⟩ := exists_run_idle 5002
    refine ⟨m', hrun, ?_⟩
    rw [transactionsBetween, List.filter_replicate_of_pos (by decide), List.length_replicate]
    decide

end Sample

end Sigil.Client.Core
