import Sigil.Client.ShieldedFetch
import Sigil.Library.Trace

/-! # Runs of paid fetches

One caller makes its calls one after the other, with one shield and one configuration. The servers
answer as they like, and a signed transfer that has left the caller may land at any time. The limit
on what is spent within a window is checked against what was recorded, so it bounds the landed
payments of exactly those runs in which a payment that lands was recorded.
-/

namespace Sigil.Client.X402

open EpochHistory Trace

structure Wallet where
  now : ℤ
  state : ClientState

/-- A call with the payment it released, and whether that payment ever lands. -/
structure Fetched where
  call : Call
  released : Option Payment
  lands : Bool

/-- A call begins when the one before has ended. -/
structure FetchStep (config : X402Config) (m : Wallet) (e : Fetched) (m' : Wallet) : Prop where
  after : m.now ≤ e.call.askedAt
  released : (shieldedFetch config m.state e.call).released = e.released
  state : m'.state = (shieldedFetch config m.state e.call).state
  now : m'.now = e.call.recordedAt

/-- The time of release and the amount of a payment that lands. -/
def Fetched.landing (e : Fetched) : Option (ℤ × ℕ) :=
  if e.lands then e.released.map fun p => (e.call.releasedAt, p.amount) else none

def landed (es : List Fetched) : List (ℤ × ℕ) := es.reverse.filterMap Fetched.landing

def landedBetween (a b : ℤ) (es : List Fetched) : ℕ := total (fun t => a ≤ t ∧ t ≤ b) (landed es)

/-- Whether a payment that lands was settled by its call. -/
def Fetched.Accounted (config : X402Config) (e : Fetched) : Prop :=
  ∀ p, e.released = some p → e.lands → Settles config e.call p

variable {config : X402Config} {limit : ℕ} {m m' : Wallet} {e : Fetched} {es : List Fetched}

theorem landed_snoc_of_none (h : e.landing = none) : landed (es ++ [e]) = landed es := by
  simp [landed, h]

theorem landed_snoc_of_some {y : ℤ × ℕ} (h : e.landing = some y) :
    landed (es ++ [e]) = y :: landed es := by
  simp [landed, h]

theorem Fetched.landing_eq_some {y : ℤ × ℕ} (h : e.landing = some y) :
    ∃ p, e.lands ∧ e.released = some p ∧ y = (e.call.releasedAt, p.amount) := by
  unfold landing at h
  split at h
  · rename_i hlands
    obtain ⟨p, hp, rfl⟩ := Option.map_eq_some_iff.mp h
    exact ⟨p, hlands, hp, rfl⟩
  · cases h

/-- The shield covers the landed payments of the last day, and each was released within the
limit. -/
structure Covered (config : X402Config) (limit : ℕ) (es : List Fetched) (m : Wallet) : Prop where
  released_le : ∀ y ∈ landed es, y.1 ≤ m.now
  recorded : ∀ τ, m.now - dayMs ≤ τ →
    total (τ ≤ ·) (landed es) ≤ total (τ ≤ ·) m.state.shield.spends
  gated : Gated id (config.windowMs + 1) limit (landed es)

theorem FetchStep.now_le (h : FetchStep config m e m') :
    m.now ≤ e.call.releasedAt ∧ e.call.releasedAt ≤ m'.now := by
  have := h.after
  have := e.call.asked_le_checked
  have := e.call.checked_le_released
  have := e.call.released_le_answered
  have := e.call.answered_le_recorded
  have := h.now
  omega

theorem FetchStep.spends_le (h : FetchStep config m e m') {τ : ℤ} (hτ : m'.now - dayMs ≤ τ) :
    total (τ ≤ ·) m.state.shield.spends ≤ total (τ ≤ ·) m'.state.shield.spends := by
  rw [h.state]
  cases hrel : (shieldedFetch config m.state e.call).released with
  | none => rw [shieldedFetch_unreleased hrel]
  | some p =>
    by_cases hsettles : Settles config e.call p
    · rw [released_shield_of_settles hrel hsettles,
        ShieldState.total_recordX402Spend (h.now ▸ hτ)]
      exact Nat.le_add_left _ _
    · rw [released_shield_of_not_settles hrel hsettles]

theorem FetchStep.spends_settled (h : FetchStep config m e m') {p : Payment}
    (hrel : e.released = some p) (hsettles : Settles config e.call p) {τ : ℤ}
    (hτ : m'.now - dayMs ≤ τ) : total (τ ≤ ·) m'.state.shield.spends =
      (if τ ≤ m'.now then p.amount else 0) + total (τ ≤ ·) m.state.shield.spends := by
  rw [h.state, released_shield_of_settles (h.released.trans hrel) hsettles, h.now,
    ShieldState.total_recordX402Spend (h.now ▸ hτ)]

/-- A payment is released only if it fits beside the payments landed within the window so far. -/
theorem Covered.fits (hcov : Covered config limit es m) (h : FetchStep config m e m')
    (hlimit : config.maxCumulativeSpend = some limit) (hwindow : config.windowMs ≤ dayMs)
    {p : Payment} (hrel : e.released = some p) :
    total (fun t => e.call.releasedAt - (config.windowMs + 1) < t ∧ t ≤ e.call.releasedAt)
      (landed es) + p.amount ≤ limit := by
  have hnow := h.now_le
  have hchecked := e.call.checked_le_released
  have hwithin := released_within hlimit (h.released.trans hrel)
  rw [ShieldState.getTotalSpendInWindow_eq] at hwithin
  calc total (fun t => e.call.releasedAt - (config.windowMs + 1) < t ∧ t ≤ e.call.releasedAt)
        (landed es) + p.amount
      ≤ total (e.call.releasedAt - config.windowMs ≤ ·) (landed es) + p.amount :=
        Nat.add_le_add_right (total_mono fun y _ hy => by omega) _
    _ ≤ total (e.call.releasedAt - config.windowMs ≤ ·) m.state.shield.spends + p.amount :=
        Nat.add_le_add_right (hcov.recorded _ (by omega)) _
    _ ≤ total (e.call.checkedAt - config.windowMs ≤ ·) m.state.shield.spends + p.amount :=
        Nat.add_le_add_right (total_mono fun y _ hy => by omega) _
    _ ≤ limit := hwithin

theorem Covered.step (hcov : Covered config limit es m) (h : FetchStep config m e m')
    (hlimit : config.maxCumulativeSpend = some limit) (hwindow : config.windowMs ≤ dayMs)
    (haccounted : e.Accounted config) : Covered config limit (es ++ [e]) m' := by
  obtain ⟨hbefore, hafter⟩ := h.now_le
  cases hlanding : e.landing with
  | none =>
    have hsame : landed (es ++ [e]) = landed es := landed_snoc_of_none hlanding
    constructor
    · intro y hy
      have := hcov.released_le y (hsame ▸ hy)
      omega
    · intro τ hτ
      rw [hsame]
      exact (hcov.recorded τ (by omega)).trans (h.spends_le hτ)
    · exact hsame ▸ hcov.gated
  | some y =>
    obtain ⟨p, hlands, hrel, rfl⟩ := Fetched.landing_eq_some hlanding
    have hmore : landed (es ++ [e]) = (e.call.releasedAt, p.amount) :: landed es :=
      landed_snoc_of_some hlanding
    have hsettles := haccounted p hrel hlands
    constructor
    · intro y hy
      rw [hmore, List.mem_cons] at hy
      rcases hy with rfl | hy
      · exact hafter
      · have := hcov.released_le y hy
        omega
    · intro τ hτ
      have hold := hcov.recorded τ (by omega)
      rw [hmore, total_cons, h.spends_settled hrel hsettles hτ]
      -- the record bears a later time than the release
      by_cases hin : τ ≤ e.call.releasedAt
      · rw [if_pos hin, if_pos (hin.trans hafter)]
        omega
      · rw [if_neg hin]
        omega
    · rw [hmore]
      refine .cons hcov.gated ?_ (.inr (hcov.fits h hlimit hwindow hrel))
      intro y hy
      exact (hcov.released_le y hy).trans hbefore

theorem Covered.run (h : Run (FetchStep config) m es m')
    (hlimit : config.maxCumulativeSpend = some limit) (hwindow : config.windowMs ≤ dayMs)
    (haccounted : ∀ e ∈ es, e.Accounted config) : Covered config limit es m' := by
  refine h.induct (P := fun es m => (∀ e ∈ es, e.Accounted config) → Covered config limit es m)
    ?_ ?_ haccounted
  · intro _
    exact ⟨by simp [landed], by simp [landed], .nil⟩
  · intro es m e m' _ ih hstep hall
    have hprior : ∀ b ∈ es, b.Accounted config := fun b hb => hall b (List.mem_append_left _ hb)
    exact (ih hprior).step hstep hlimit hwindow (hall e (by simp))

/-- A released payment is recorded when its call ends exactly if it settles. In every run in which
the payments that land settle, what lands of the payments released within a window stays within the
limit. -/
theorem landed_payments_accounted (hlimit : config.maxCumulativeSpend = some limit)
    (hwindow : config.windowMs ≤ dayMs) :
    (∀ s c p, (shieldedFetch config s c).released = some p →
      (Records s.shield (shieldedFetch config s c).state.shield (p.entry c.recordedAt) ↔
        Settles config c p)) ∧
    ∀ m es m', Run (FetchStep config) m es m' → (∀ e ∈ es, e.Accounted config) →
      ∀ a b, b ≤ a + config.windowMs → landedBetween a b es ≤ limit := by
  refine ⟨fun s c p hrel => released_records_iff hrel, ?_⟩
  intro m es m' hrun haccounted a b hab
  have hgated := (Covered.run hrun hlimit hwindow haccounted).gated
  calc landedBetween a b es
      ≤ total (fun t => a ≤ id t ∧ id t < a + (config.windowMs + 1)) (landed es) :=
        total_mono fun y _ hy => ⟨hy.1, by simp only [id]; omega⟩
    _ ≤ limit := hgated.total_window_le a

section Sample

def sampleAmount : String := "60"

/-- The address up to the query, and the query. -/
def splitQuery (url : String) : ParsedUrl :=
  ⟨String.ofList (url.toList.takeWhile (· ≠ '?')), String.ofList (url.toList.dropWhile (· ≠ '?')),
    ""⟩

def sampleDemand : Response where
  status := 402
  paymentRequired := some (.json (some 2) (some [⟨some "exact", some "solana:mainnet",
    some "USDC", some sampleAmount, some "merchant"⟩]))

def samplePayment : Payment where
  selected := ⟨"exact", "solana:mainnet", "USDC", sampleAmount, "merchant"⟩
  amount := 60
  expectedTxSig := some "signed"

/-- A call at one moment, answered by a demand and then by `answer`. Every transaction but the one
that was signed has failed. -/
def sampleCall (answer : Response) (t : ℤ) : Call where
  url := "https://api"
  parseUrl := fun url => some (splitQuery url)
  maxPayment := none
  dryRun := false
  hasPaymentSignatureHeader := false
  response := some sampleDemand
  isPaused := false
  checkViolations := []
  hasRpc := true
  signed := some (some "signed")
  answers := fun _ => some answer
  polls := fun transaction => [.answered (some ⟨transaction ≠ "signed", true⟩)]
  onPayment := fun _ => true
  askedAt := t
  checkedAt := t
  releasedAt := t
  answeredAt := t
  recordedAt := t
  asked_le_checked := Int.le_refl t
  checked_le_released := Int.le_refl t
  released_le_answered := Int.le_refl t
  answered_le_recorded := Int.le_refl t

def sampleFetched (answer : Response) (t : ℤ) : Fetched :=
  ⟨sampleCall answer t, some samplePayment, true⟩

def sampleConfig : X402Config := { maxCumulativeSpend := some 100 }

def sampleWallet : Wallet := ⟨0, ⟨⟨[], []⟩, [], []⟩⟩

def Wallet.after (config : X402Config) (m : Wallet) (c : Call) : Wallet :=
  ⟨c.recordedAt, (shieldedFetch config m.state c).state⟩

theorem FetchStep.of_after {config : X402Config} {m : Wallet} {e : Fetched}
    (hafter : m.now ≤ e.call.askedAt)
    (hreleased : (shieldedFetch config m.state e.call).released = e.released) :
    FetchStep config m e (m.after config e.call) :=
  ⟨hafter, hreleased, rfl, rfl⟩

def refused : Response := { status := 500 }

def accepted : Response := { status := 200, settlement := some "signed" }

/-- An acceptance that names another transaction than the one it was sent. -/
def misnamed : Response := { status := 200, settlement := some "other" }

theorem sample_settles (t : ℤ) : Settles sampleConfig (sampleCall accepted t) samplePayment :=
  ⟨accepted, rfl, rfl, fun _ => rfl, .confirmed, rfl, by decide⟩

/-- Two accepted payments that exceed the limit together fall into no common window. -/
theorem landed_payments_accounted_sample :
    Records sampleWallet.state.shield
      (sampleWallet.after sampleConfig (sampleCall accepted 0)).state.shield
      (samplePayment.entry 0) ∧
    landedBetween 0 (dayMs + 1) [sampleFetched accepted 0, sampleFetched accepted (dayMs + 1)] =
      120 ∧
    ∀ a, landedBetween a (a + dayMs)
      [sampleFetched accepted 0, sampleFetched accepted (dayMs + 1)] ≤ 100 := by
  have hmain := landed_payments_accounted
    (show sampleConfig.maxCumulativeSpend = some 100 from rfl) (by decide)
  have hrun : Run (FetchStep sampleConfig) sampleWallet
      [sampleFetched accepted 0, sampleFetched accepted (dayMs + 1)]
      ((sampleWallet.after sampleConfig (sampleCall accepted 0)).after sampleConfig
        (sampleCall accepted (dayMs + 1))) :=
    (Run.single (.of_after (by decide) (by decide +kernel))).snoc
      (.of_after (by decide) (by decide +kernel))
  have haccounted : ∀ e ∈ [sampleFetched accepted 0, sampleFetched accepted (dayMs + 1)],
      e.Accounted sampleConfig := by
    intro e he p hp _
    simp only [List.mem_cons, List.not_mem_nil, or_false] at he
    rcases he with rfl | rfl
    · cases hp
      exact sample_settles 0
    · cases hp
      exact sample_settles (dayMs + 1)
  refine ⟨(hmain.1 _ (sampleCall accepted 0) samplePayment (by decide +kernel)).mpr
    (sample_settles 0), by decide, ?_⟩
  intro a
  exact hmain.2 _ _ _ hrun haccounted a (a + dayMs) (Int.le_refl _)

/-- The server refuses one payment and names a failed transaction for the next. Both land, neither
is recorded, and together they exceed the limit. -/
theorem unrecorded_payments_exceed_limit :
    sampleConfig.maxCumulativeSpend = some 100 ∧ sampleConfig.windowMs = dayMs ∧
    Run (FetchStep sampleConfig) sampleWallet
      [sampleFetched refused 0, sampleFetched misnamed 1000]
      ((sampleWallet.after sampleConfig (sampleCall refused 0)).after sampleConfig
        (sampleCall misnamed 1000)) ∧
    ((sampleWallet.after sampleConfig (sampleCall refused 0)).after sampleConfig
      (sampleCall misnamed 1000)).state.shield.spendEntries = [] ∧
    landedBetween 0 1000 [sampleFetched refused 0, sampleFetched misnamed 1000] = 120 := by
  refine ⟨rfl, rfl, ?_, by decide +kernel, by decide⟩
  exact (Run.single (.of_after (by decide) (by decide +kernel))).snoc
    (.of_after (by decide) (by decide +kernel))

end Sample

end Sigil.Client.X402
