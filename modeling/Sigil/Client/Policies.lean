import Sigil.Client.ShieldedFetch

/-! # Policies

The limits that a shield enforces, the transfers they are enforced on, and what a record shows since
a given time.
-/

namespace Sigil.Client

open X402

section Types

structure SpendLimit where
  mint : String
  amount : ℕ
  windowMs : Option ℤ := none
  deriving DecidableEq

/-- A day, unless a window is given. -/
def SpendLimit.window (limit : SpendLimit) : ℤ := limit.windowMs.getD dayMs

structure RateLimitConfig where
  maxTransactions : ℕ
  windowMs : ℤ
  deriving DecidableEq

structure ResolvedPolicies where
  spendLimits : List SpendLimit
  maxTransactionSize : Option ℕ := none
  allowedProtocols : Option (List String) := none
  allowedTokens : Option (List String) := none
  blockUnknownPrograms : Bool := true
  rateLimit : RateLimitConfig := ⟨60, 3600000⟩

inductive Direction
  | outgoing
  | incoming
  | unknown
  deriving DecidableEq

structure TokenTransfer where
  mint : String
  amount : ℕ
  direction : Direction
  destination : Option String := none
  deriving DecidableEq

structure TransactionAnalysis where
  programIds : List String
  transfers : List TokenTransfer
  estimatedValueLamports : ℕ
  deriving DecidableEq

end Types

section Spent

def spentSince (es : List SpendEntry) (mint : String) (τ : ℤ) : ℕ :=
  ((es.filter fun e => e.mint = mint ∧ τ ≤ e.timestamp).map SpendEntry.amount).sum

variable {es : List SpendEntry} {mint : String} {τ τ' now : ℤ}

@[simp] theorem spentSince_nil : spentSince [] mint τ = 0 := rfl

theorem spentSince_cons (e : SpendEntry) : spentSince (e :: es) mint τ =
    (if e.mint = mint ∧ τ ≤ e.timestamp then e.amount else 0) + spentSince es mint τ := by
  by_cases he : e.mint = mint ∧ τ ≤ e.timestamp <;> simp [spentSince, he]

theorem spentSince_append (es es' : List SpendEntry) :
    spentSince (es ++ es') mint τ = spentSince es mint τ + spentSince es' mint τ := by
  simp [spentSince]

theorem spentSince_anti (h : τ ≤ τ') : spentSince es mint τ' ≤ spentSince es mint τ := by
  induction es with
  | nil => rfl
  | cons e es ih =>
    rw [spentSince_cons, spentSince_cons]
    by_cases he : e.mint = mint ∧ τ' ≤ e.timestamp
    · rw [if_pos he, if_pos ⟨he.1, h.trans he.2⟩]
      omega
    · rw [if_neg he]
      omega

theorem spentSince_of_lt (h : ∀ e ∈ es, e.timestamp < τ) : spentSince es mint τ = 0 := by
  have hnone : (es.filter fun e => e.mint = mint ∧ τ ≤ e.timestamp) = [] := by
    refine List.filter_eq_nil_iff.mpr fun e he => ?_
    have hout : ¬ (e.mint = mint ∧ τ ≤ e.timestamp) := fun hin => absurd hin.2 (h e he).not_ge
    simpa using hout
  rw [spentSince, hnone]
  rfl

theorem spentSince_filter_add (p : SpendEntry → Prop) [DecidablePred p] :
    spentSince (es.filter (p ·)) mint τ + spentSince (es.filter fun e => ¬ p e) mint τ =
      spentSince es mint τ := by
  induction es with
  | nil => rfl
  | cons e es ih =>
    by_cases hp : p e <;> simp [hp, spentSince_cons, ← ih] <;> omega

theorem spentSince_of_timestamp (h : ∀ e ∈ es, e.timestamp = now) : spentSince es mint τ =
    if τ ≤ now then ((es.filter fun e => e.mint = mint).map SpendEntry.amount).sum else 0 := by
  induction es with
  | nil => simp
  | cons e es ih =>
    obtain ⟨he, hes⟩ := List.forall_mem_cons.mp h
    rw [spentSince_cons, ih hes, he]
    by_cases hτ : τ ≤ now <;> by_cases hm : e.mint = mint <;> simp [hτ, hm]

def countSince (ts : List ℤ) (τ : ℤ) : ℕ := (ts.filter fun t => τ ≤ t).length

theorem countSince_of_forall {ts : List ℤ} (h : ∀ t ∈ ts, τ ≤ t) : countSince ts τ = ts.length := by
  rw [countSince, List.filter_eq_self.mpr fun t ht => decide_eq_true (h t ht)]

theorem countSince_pos_iff {ts : List ℤ} : 0 < countSince ts τ ↔ ∃ t ∈ ts, τ ≤ t := by
  simp [countSince, List.length_pos_iff_exists_mem]

theorem countSince_append (ts ts' : List ℤ) :
    countSince (ts ++ ts') τ = countSince ts τ + countSince ts' τ := by
  simp [countSince]

theorem countSince_anti {ts : List ℤ} (h : τ ≤ τ') : countSince ts τ' ≤ countSince ts τ := by
  induction ts with
  | nil => rfl
  | cons t ts ih =>
    by_cases ht : τ' ≤ t
    · simpa [countSince, ht, h.trans ht] using ih
    · by_cases ht' : τ ≤ t
      · simp only [countSince, List.filter_cons, ht, ht', decide_false, decide_true, if_true,
          Bool.false_eq_true, if_false, List.length_cons] at ih ⊢
        omega
      · simpa [countSince, ht, ht'] using ih

end Spent

end Sigil.Client
