import Sigil.Client.Shield
import Sigil.Library.RollingWindow

/-! # Runs of enforced transactions

One signer has its transactions enforced by one shield, one after the other. What a transaction
counts against a limit bounds what may follow only as far as the record shows it: a transfer that
names no mint is recorded where no limit looks for it, and a full record forgets what is older than
a day, however long the window is.
-/

namespace Sigil.Client.Shield

open X402 EpochHistory RollingWindow Trace

section Accounting

variable {now τ : ℤ} {signer mint : String} {es : List SpendEntry}
  {transfers : List TokenTransferInfo}

/-- What the transfers that name no mint add to the spend of a limit without being recorded under
its mint. -/
def unnamedSpend (signer mint : String) (transfers : List TokenTransferInfo) : ℕ :=
  if mint = "" then 0
  else ((transfers.filter fun t => t.authority = signer ∧ t.mint = none).map
    TokenTransferInfo.amount).sum

/-- What pruning takes from the spend of a mint since the time `τ`. -/
def prunedSpend (now : ℤ) (es new : List SpendEntry) (mint : String) (τ : ℤ) : ℕ :=
  if pruneThreshold < es.length + new.length then
    spentSince (es.filter fun e => e.timestamp < now - dayMs) mint τ
  else 0

theorem counted_eq_recorded (now : ℤ) :
    ((transfers.filter fun t => t.authority = signer ∧ (t.mint = some mint ∨ t.mint = none)).map
      TokenTransferInfo.amount).sum =
    (((entriesOf now signer transfers).filter fun e => e.mint = mint).map SpendEntry.amount).sum +
      unnamedSpend signer mint transfers := by
  unfold unnamedSpend entriesOf
  induction transfers with
  | nil => simp
  | cons t transfers ih =>
    by_cases hauth : t.authority = signer
    · cases hmint : t.mint with
      | none =>
        -- recorded under the empty text
        by_cases hempty : mint = ""
        · simp [hauth, hmint, hempty] at ih ⊢
          omega
        · simp [hauth, hmint, hempty, Ne.symm hempty] at ih ⊢
          omega
      | some named =>
        by_cases hnamed : named = mint
        · simp [hauth, hmint, hnamed] at ih ⊢
          omega
        · simpa [hauth, hmint, hnamed] using ih
    · simpa [hauth] using ih

theorem spentSince_pruneSpends {new : List SpendEntry} (hnew : ∀ e ∈ new, e.timestamp = now) :
    spentSince (pruneSpends now (es ++ new)) mint τ + prunedSpend now es new mint τ =
      spentSince es mint τ + spentSince new mint τ := by
  rw [← spentSince_append, prunedSpend, pruneSpends, List.length_append]
  split
  · have hrecent : (new.filter fun e => ¬ now - dayMs ≤ e.timestamp) = [] := by
      refine List.filter_eq_nil_iff.mpr fun e he => ?_
      have hday : now - dayMs ≤ now := Int.sub_le_self now (by decide)
      simpa [hnew e he] using hday
    have hdropped : (es.filter fun e => e.timestamp < now - dayMs) =
        (es ++ new).filter fun e => ¬ now - dayMs ≤ e.timestamp := by
      rw [List.filter_append, hrecent, List.append_nil]
      simp only [not_le]
    rw [hdropped]
    exact spentSince_filter_add _
  · rfl

theorem prunedSpend_anti {new : List SpendEntry} {τ' : ℤ} (h : τ ≤ τ') :
    prunedSpend now es new mint τ' ≤ prunedSpend now es new mint τ := by
  unfold prunedSpend
  split
  · exact spentSince_anti h
  · exact le_rfl

theorem prunedSpend_eq_zero {new : List SpendEntry} (hτ : now - dayMs ≤ τ) :
    prunedSpend now es new mint τ = 0 := by
  unfold prunedSpend
  split
  · refine spentSince_of_lt fun e he => ?_
    have hold : e.timestamp < now - dayMs := by simpa using (List.mem_filter.mp he).2
    omega
  · rfl

end Accounting

section Runs

/-- A call that is enforced at one moment. -/
structure EnforceCall where
  time : ℤ
  paused : Bool := false
  instructions : List InspectableInstruction

def EnforceCall.transfers (signer : String) (c : EnforceCall) : List TokenTransferInfo :=
  (analyzeInstructions c.instructions signer).tokenTransfers

structure ShieldAt where
  now : ℤ
  state : SyncedState

structure EnforceStep (ctx : Context) (signer : String) (m : ShieldAt) (c : EnforceCall)
    (m' : ShieldAt) : Prop where
  after : m.now ≤ c.time
  enforced : ctx.enforce c.paused c.time c.instructions signer m.state = .ok m'.state
  now : m'.now = c.time

def countedBetween (signer : String) (limit : SpendLimit) (a b : ℤ) (cs : List EnforceCall) : ℕ :=
  total (fun t => a ≤ t ∧ t ≤ b)
    (history (fun c => some (c.time, counted signer c.instructions limit)) cs)

/-- The record shows all that the call counts, and loses nothing of the window. -/
def Remembers (signer : String) (limit : SpendLimit) (s : SyncedState) (c : EnforceCall) : Prop :=
  unnamedSpend signer limit.mint (c.transfers signer) = 0 ∧
    prunedSpend c.time s.spendEntries (entriesOf c.time signer (c.transfers signer)) limit.mint
      (c.time - limit.window) = 0

instance (signer : String) (limit : SpendLimit) (s : SyncedState) (c : EnforceCall) :
    Decidable (Remembers signer limit s c) :=
  inferInstanceAs (Decidable (_ ∧ _))

variable {ctx : Context} {signer : String} {limit : SpendLimit} {m m' : ShieldAt} {c : EnforceCall}
  {cs : List EnforceCall}

theorem EnforceStep.spentSince_eq (h : EnforceStep ctx signer m c m') (limit : SpendLimit) (τ : ℤ) :
    spentSince m'.state.spendEntries limit.mint τ +
        prunedSpend c.time m.state.spendEntries (entriesOf c.time signer (c.transfers signer))
          limit.mint τ +
        (if τ ≤ c.time then unnamedSpend signer limit.mint (c.transfers signer) else 0) =
      spentSince m.state.spendEntries limit.mint τ +
        if τ ≤ c.time then counted signer c.instructions limit else 0 := by
  have hentries : m'.state.spendEntries = pruneSpends c.time (m.state.spendEntries ++
      entriesOf c.time signer (c.transfers signer)) := (ctx.enforce_ok h.enforced).2
  have hcounted : counted signer c.instructions limit =
      (((entriesOf c.time signer (c.transfers signer)).filter fun e => e.mint = limit.mint).map
        SpendEntry.amount).sum + unnamedSpend signer limit.mint (c.transfers signer) :=
    counted_eq_recorded c.time
  rw [hentries, spentSince_pruneSpends fun e he => entriesOf_timestamp he,
    spentSince_of_timestamp fun e he => entriesOf_timestamp he, hcounted]
  split <;> omega

/-- The figure of the window grows by what the call counts exactly if the record shows it all. -/
theorem EnforceStep.spent_iff (h : EnforceStep ctx signer m c m') (hwindow : 0 ≤ limit.window) :
    getSpendInWindow m'.state.toShieldState c.time limit.mint limit.window =
      getSpendInWindow m.state.toShieldState c.time limit.mint limit.window +
        counted signer c.instructions limit ↔ Remembers signer limit m.state c := by
  have heq := h.spentSince_eq limit (c.time - limit.window)
  have hstart : c.time - limit.window ≤ c.time := by omega
  rw [if_pos hstart, if_pos hstart] at heq
  simp only [getSpendInWindow, Remembers]
  omega

theorem EnforceStep.admits (hlimit : limit ∈ ctx.resolved.spendLimits)
    (h : EnforceStep ctx signer m c m') (hremembers : Remembers signer limit m.state c) :
    Admits ShieldAt.now (fun m => spentSince m.state.spendEntries limit.mint)
      (fun c => some (c.time, counted signer c.instructions limit)) limit.window limit.amount
      m c m' where
  now_le := h.now ▸ h.after
  event_ge := by
    rintro y ⟨⟩
    exact h.after
  admitted := by
    rintro y ⟨⟩
    exact .inr ((ctx.enforce_ok h.enforced).1 limit hlimit)
  shown := by
    intro τ hτ
    have heq := h.spentSince_eq limit τ
    have hpruned := prunedSpend_anti (h.now ▸ hτ) |>.trans_eq hremembers.2
    simp only [hremembers.1, ite_self, Option.toList_some, total_cons, total_nil] at heq ⊢
    omega

/-- The figure of the window of a limit grows by what a call counts exactly if the call is
remembered. In every run of remembered calls, no window holds more than the limit. -/
theorem remembered_calls_within_limit (hlimit : limit ∈ ctx.resolved.spendLimits) :
    (0 ≤ limit.window → ∀ m c m', EnforceStep ctx signer m c m' →
      (getSpendInWindow m'.state.toShieldState c.time limit.mint limit.window =
        getSpendInWindow m.state.toShieldState c.time limit.mint limit.window +
          counted signer c.instructions limit ↔ Remembers signer limit m.state c)) ∧
    ∀ m cs m', Run (fun m c m' => EnforceStep ctx signer m c m' ∧ Remembers signer limit m.state c)
      m cs m' → ∀ a b, b ≤ a + limit.window →
        countedBetween signer limit a b cs ≤ limit.amount := by
  refine ⟨fun hwindow m c m' h => h.spent_iff hwindow, ?_⟩
  intro m cs m' hrun a b hab
  exact total_history_le (hrun.mono fun m c m' h => h.1.admits hlimit h.2) hab

end Runs

section Sample

def sampleLimit : SpendLimit := { mint := "USDC", amount := 100 }

def sampleContext : Context := { resolved := { spendLimits := [sampleLimit] } }

def plainTransfer (t : ℤ) : EnforceCall where
  time := t
  instructions := [⟨tokenProgramAddress, some ["source", "destination", "agent"],
    some [3, 60, 0, 0, 0, 0, 0, 0, 0]⟩]

def checkedTransfer (t : ℤ) : EnforceCall where
  time := t
  instructions := [⟨tokenProgramAddress, some ["source", "USDC", "destination", "agent"],
    some [12, 60, 0, 0, 0, 0, 0, 0, 0, 6]⟩]

def ShieldAt.after (m : ShieldAt) (c : EnforceCall) : ShieldAt :=
  ⟨c.time, (sampleContext.enforce c.paused c.time c.instructions "agent" m.state).toOption.getD
    m.state⟩

theorem ShieldAt.step_after {m : ShieldAt} {c : EnforceCall} (hnow : m.now ≤ c.time)
    (hok : (sampleContext.enforce c.paused c.time c.instructions "agent" m.state).isOk) :
    EnforceStep sampleContext "agent" m c (m.after c) := by
  refine ⟨hnow, ?_, rfl⟩
  unfold after
  cases h : sampleContext.enforce c.paused c.time c.instructions "agent" m.state with
  | error violations => simp [h, Except.isOk, Except.toBool] at hok
  | ok s => rfl

def freshShield : ShieldAt := ⟨0, { spendEntries := [], txEntries := [] }⟩

/-- Two transfers more than a day apart, of which each names its mint. -/
theorem remembered_calls_within_limit_sample :
    countedBetween "agent" sampleLimit 0 (dayMs + 1)
      [checkedTransfer 0, checkedTransfer (dayMs + 1)] = 120 ∧
    ∀ a, countedBetween "agent" sampleLimit a (a + dayMs)
      [checkedTransfer 0, checkedTransfer (dayMs + 1)] ≤ 100 := by
  have hrun : Run (fun m c m' => EnforceStep sampleContext "agent" m c m' ∧
      Remembers "agent" sampleLimit m.state c) freshShield
      [checkedTransfer 0, checkedTransfer (dayMs + 1)]
      ((freshShield.after (checkedTransfer 0)).after (checkedTransfer (dayMs + 1))) :=
    (Run.single ⟨ShieldAt.step_after (by decide) (by decide), by decide⟩).snoc
      ⟨ShieldAt.step_after (by decide) (by decide), by decide⟩
  refine ⟨by decide, fun a => ?_⟩
  exact (remembered_calls_within_limit List.mem_cons_self).2 _ _ _ hrun a (a + dayMs) le_rfl

/-- Two plain transfers are each counted against the limit of every mint, and the second is accepted
as if the first had not been made. -/
theorem plain_transfers_exceed_limit :
    sampleContext.resolved.spendLimits = [sampleLimit] ∧ sampleLimit.window = dayMs ∧
    Run (EnforceStep sampleContext "agent") freshShield [plainTransfer 0, plainTransfer 1000]
      ((freshShield.after (plainTransfer 0)).after (plainTransfer 1000)) ∧
    countedBetween "agent" sampleLimit 0 1000 [plainTransfer 0, plainTransfer 1000] = 120 := by
  refine ⟨rfl, rfl, ?_, by decide⟩
  exact (Run.single (ShieldAt.step_after (by decide) (by decide))).snoc
    (ShieldAt.step_after (by decide) (by decide))

end Sample

end Sigil.Client.Shield
