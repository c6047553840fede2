import Sigil.Client.PaymentRuns

/-! # Replayed payments

All calls of a process share one table of recent payments. A payment is looked up there before it is
signed, under a key made of the address, the recipient and the text of the amount, and written there
after the server has accepted it. So a payment is not made twice within the lifetime of its key if
the server accepted it and spells the amount as it did before. A refused payment has been released
all the same, and may be demanded again at once.
-/

namespace Sigil.Client.X402

open Guard Trace

theorem buildKey_inj {c c' : Call} {payTo amount amount' : String}
    (h : c.resource = c'.resource) :
    buildKey c payTo amount = buildKey c' payTo amount' ↔ amount = amount' := by
  rw [buildKey, buildKey, h, String.append_right_inj]

namespace Nonces

variable {nonces : Nonces} {key key' : String} {cutoff now bound : ℤ}

/-- The key is there until `bound` at least. -/
def Keeps (nonces : Nonces) (key : String) (bound : ℤ) : Prop :=
  ∃ expiresAt, (key, expiresAt) ∈ nonces ∧ bound ≤ expiresAt

theorem has_iff : nonces.has key ↔ ∃ expiresAt, (key, expiresAt) ∈ nonces := by
  simp [has]

theorem Keeps.has (h : nonces.Keeps key bound) : nonces.has key := by
  obtain ⟨expiresAt, hmem, -⟩ := h
  exact has_iff.mpr ⟨expiresAt, hmem⟩

theorem Keeps.gc (h : nonces.Keeps key bound) :
    (nonces.gc cutoff).Keeps key bound ∨ bound < cutoff := by
  obtain ⟨expiresAt, hmem, hbound⟩ := h
  by_cases hold : expiresAt < cutoff
  · exact .inr (hbound.trans_lt hold)
  · exact .inl ⟨expiresAt, List.mem_filter.mpr ⟨hmem, by simpa using hold⟩, hbound⟩

theorem keeps_record (h : bound ≤ now + nonceTtlMs) : (nonces.record now key).Keeps key bound :=
  ⟨now + nonceTtlMs, List.mem_append_right _ List.mem_cons_self, h⟩

theorem Keeps.record (h : nonces.Keeps key bound) (hbound : bound ≤ now + nonceTtlMs) :
    (nonces.record now key').Keeps key bound := by
  by_cases hkey : key = key'
  · exact hkey ▸ keeps_record hbound
  · obtain ⟨expiresAt, hmem, hexp⟩ := h
    exact ⟨expiresAt,
      List.mem_append_left _ (List.mem_filter.mpr ⟨hmem, by simpa using hkey⟩), hexp⟩

end Nonces

section Nonces

def Payment.key (p : Payment) (c : Call) : String :=
  buildKey c p.selected.payTo p.selected.amount

/-- The last answer accepts the payment, and nothing throws before it is written. -/
def Noted (config : X402Config) (c : Call) (p : Payment) : Prop :=
  ∃ r, retryFetch c.answers config.attempts = some r ∧ r.ok ∧
    (mismatched p r → c.onPayment .signatureMismatch)

variable {config : X402Config} {s : ClientState} {c : Call} {p : Payment}
  {selected : PaymentRequirements}

theorem settle_nonces_of_noted (hprotected : config.replayProtected) (h : Noted config c p) :
    (settle config s c p).2.nonces = s.nonces.record c.answeredAt (p.key c) := by
  obtain ⟨r, hr, hok, hmismatch⟩ := h
  have hpass : ¬ (mismatched p r ∧ ¬ c.onPayment .signatureMismatch) :=
    fun ⟨hmis, hthrows⟩ => hthrows (hmismatch hmis)
  have hnonces : (remember config s c p).nonces = s.nonces.record c.answeredAt (p.key c) :=
    if_pos hprotected
  simp only [settle, hr, if_neg hpass, hok, not_true_eq_false, if_false]
  cases confirmation config c r with
  | error e => exact hnonces
  | ok status =>
    dsimp only
    split <;> exact hnonces

theorem settle_nonces_of_not_noted (h : ¬ Noted config c p) :
    (settle config s c p).2.nonces = s.nonces := by
  unfold settle
  cases hr : retryFetch c.answers config.attempts with
  | none => rfl
  | some r =>
    by_cases hmis : mismatched p r ∧ ¬ c.onPayment .signatureMismatch
    · simp only [if_pos hmis]
    · have hnot : ¬ r.ok := fun hok =>
        h ⟨r, hr, hok, fun hm => not_not.mp fun hthrows => hmis ⟨hm, hthrows⟩⟩
      simp only [if_neg hmis, if_pos hnot]

theorem approve_fresh (hprotected : config.replayProtected)
    (h : approve config s c selected = .ok p) : ¬ s.nonces.has (p.key c) := by
  simp only [approve, seq_ok_iff, require_ok_iff, mapError_ok_iff, okOr_ok_iff, pure_ok_iff,
    exists_const] at h
  obtain ⟨hfresh, amount, -, -, violations, -, -, -, -, -, sig, -, rfl⟩ := h
  exact fun hhas => hfresh ⟨hprotected, hhas⟩

/-- A payment is released only if its key is not there, and is written if it is noted. -/
theorem released_nonces (hprotected : config.replayProtected)
    (h : (shieldedFetch config s c).released = some p) :
    ¬ (s.nonces.gc c.askedAt).has (p.key c) ∧
    (Noted config c p → (shieldedFetch config s c).state.nonces =
      (s.nonces.gc c.askedAt).record c.answeredAt (p.key c)) ∧
    (¬ Noted config c p → (shieldedFetch config s c).state.nonces = s.nonces.gc c.askedAt) := by
  obtain ⟨selected, happ, hstate⟩ := shieldedFetch_released h
  have hexpire : (s.expireNonces config c).nonces = s.nonces.gc c.askedAt := by
    rw [ClientState.expireNonces, if_pos hprotected]
  rw [hstate, ← hexpire]
  exact ⟨approve_fresh hprotected happ, settle_nonces_of_noted hprotected,
    settle_nonces_of_not_noted⟩

theorem unreleased_nonces (hprotected : config.replayProtected)
    (h : (shieldedFetch config s c).released = none) :
    (shieldedFetch config s c).state.nonces = s.nonces ∨
      (shieldedFetch config s c).state.nonces = s.nonces.gc c.askedAt := by
  have hexpire : (s.expireNonces config c).nonces = s.nonces.gc c.askedAt := by
    rw [ClientState.expireNonces, if_pos hprotected]
  rw [← hexpire]
  unfold shieldedFetch at h ⊢
  cases hreq : request config c with
  | error result => exact .inl rfl
  | ok selected =>
    cases happ : approve config (s.expireNonces config c) c selected with
    | error result =>
      refine .inr ?_
      simp only [happ]
    | ok q => simp [hreq, happ] at h

end Nonces

section Process

structure Process where
  now : ℤ
  nonces : Nonces
  recentPayments : List ℕ

/-- A call with its configuration, the shield it was given, if any, as it is then, and the payment
it released. -/
structure Exchange where
  config : X402Config
  shield : Option ShieldState
  call : Call
  released : Option Payment

/-- Without a shield there is nothing to ask and nothing to record. -/
def Exchange.outcome (m : Process) (x : Exchange) : Outcome :=
  match x.shield with
  | some shield => shieldedFetch x.config ⟨shield, m.nonces, m.recentPayments⟩ x.call
  | none =>
    shieldedFetch { x.config with maxCumulativeSpend := none }
      ⟨⟨[], []⟩, m.nonces, m.recentPayments⟩
      { x.call with isPaused := false, checkViolations := [] }

/-- The calls of a process follow each other, all with replay protection. -/
structure ExchangeStep (m : Process) (x : Exchange) (m' : Process) : Prop where
  replayProtected : x.config.replayProtected
  after : m.now ≤ x.call.askedAt
  released : (x.outcome m).released = x.released
  nonces : m'.nonces = (x.outcome m).state.nonces
  recentPayments : m'.recentPayments = (x.outcome m).state.recentPayments
  now : m'.now = x.call.recordedAt

/-- Both calls release a payment of one amount to one recipient for one address. -/
def Exchange.Repeats (x y : Exchange) (p q : Payment) : Prop :=
  x.released = some p ∧ y.released = some q ∧ x.call.resource = y.call.resource ∧
    p.selected.payTo = q.selected.payTo ∧ p.amount = q.amount

def Exchange.Noted (x : Exchange) : Prop :=
  ∀ p, x.released = some p → X402.Noted x.config x.call p

/-- No payment is released again within the lifetime of a key. -/
def NoReplay (xs : List Exchange) : Prop :=
  xs.Pairwise fun x y => ∀ p q, x.Repeats y p q →
    x.call.releasedAt + nonceTtlMs < y.call.releasedAt

/-- One amount is always spelled in one way. -/
def SpelledAlike (xs : List Exchange) : Prop :=
  xs.Pairwise fun x y => ∀ p q, x.Repeats y p q → p.selected.amount = q.selected.amount

variable {m m' : Process} {x : Exchange} {xs : List Exchange} {p : Payment} {key : String}
  {bound : ℤ}

theorem Exchange.outcome_released (h : x.config.replayProtected)
    (hrel : (x.outcome m).released = some p) :
    ¬ (m.nonces.gc x.call.askedAt).has (p.key x.call) ∧
    (X402.Noted x.config x.call p → (x.outcome m).state.nonces =
      (m.nonces.gc x.call.askedAt).record x.call.answeredAt (p.key x.call)) ∧
    (¬ X402.Noted x.config x.call p → (x.outcome m).state.nonces = m.nonces.gc x.call.askedAt) := by
  obtain ⟨config, shield, call, released⟩ := x
  cases shield with
  | none => exact released_nonces (by exact h) hrel
  | some shield => exact released_nonces h hrel

theorem Exchange.outcome_unreleased (h : x.config.replayProtected)
    (hrel : (x.outcome m).released = none) : (x.outcome m).state.nonces = m.nonces ∨
      (x.outcome m).state.nonces = m.nonces.gc x.call.askedAt := by
  obtain ⟨config, shield, call, released⟩ := x
  cases shield with
  | none => exact unreleased_nonces (by exact h) hrel
  | some shield => exact unreleased_nonces h hrel

theorem ExchangeStep.now_le (h : ExchangeStep m x m') :
    m.now ≤ x.call.askedAt ∧ x.call.askedAt ≤ x.call.releasedAt ∧
      x.call.releasedAt ≤ x.call.answeredAt ∧ x.call.releasedAt ≤ m'.now := by
  have := h.after
  have := x.call.asked_le_checked
  have := x.call.checked_le_released
  have := x.call.released_le_answered
  have := x.call.answered_le_recorded
  have := h.now
  omega

theorem ExchangeStep.keeps (h : ExchangeStep m x m')
    (hkeeps : m.nonces.Keeps key bound ∨ bound < m.now) (hbound : bound ≤ m.now + nonceTtlMs) :
    m'.nonces.Keeps key bound ∨ bound < m'.now := by
  have hnow := h.now_le
  have hgc : (m.nonces.gc x.call.askedAt).Keeps key bound ∨ bound < x.call.askedAt := by
    rcases hkeeps with hkeeps | hpast
    · exact hkeeps.gc
    · exact .inr (hpast.trans_le h.after)
  rw [h.nonces]
  cases hrel : (x.outcome m).released with
  | none =>
    rcases x.outcome_unreleased h.replayProtected hrel with hsame | hsame
    · rw [hsame]
      exact hkeeps.imp_right (by omega)
    · rw [hsame]
      exact hgc.imp_right (by omega)
  | some p =>
    obtain ⟨-, hnoted, hnot⟩ := x.outcome_released h.replayProtected hrel
    by_cases hn : X402.Noted x.config x.call p
    · rw [hnoted hn]
      exact hgc.imp (fun hk => hk.record (by omega)) (by omega)
    · rw [hnot hn]
      exact hgc.imp_right (by omega)

/-- Every noted payment is there, or its time has passed. -/
structure Watched (xs : List Exchange) (m : Process) : Prop where
  released_le : ∀ x ∈ xs, x.call.releasedAt ≤ m.now
  keeps : ∀ x ∈ xs, ∀ p, x.released = some p → X402.Noted x.config x.call p →
    m.nonces.Keeps (p.key x.call) (x.call.releasedAt + nonceTtlMs) ∨
      x.call.releasedAt + nonceTtlMs < m.now

theorem Watched.step (hwatched : Watched xs m) (h : ExchangeStep m x m') :
    Watched (xs ++ [x]) m' := by
  have hnow := h.now_le
  constructor
  · intro y hy
    rcases List.mem_append.mp hy with hy | hy
    · have := hwatched.released_le y hy
      omega
    · obtain rfl := List.mem_singleton.mp hy
      exact hnow.2.2.2
  · intro y hy p hrel hnoted
    rcases List.mem_append.mp hy with hy | hy
    · have := hwatched.released_le y hy
      exact h.keeps (hwatched.keeps y hy p hrel hnoted) (by omega)
    · obtain rfl := List.mem_singleton.mp hy
      have hrecord := (y.outcome_released h.replayProtected (h.released.trans hrel)).2.1 hnoted
      rw [h.nonces, hrecord]
      exact .inl (Nonces.keeps_record (by omega))

theorem Watched.run (h : Run ExchangeStep m xs m') : Watched xs m' := by
  refine h.induct (P := Watched) ⟨by simp, by simp⟩ ?_
  intro xs m x m' _ hwatched hstep
  exact hwatched.step hstep

theorem Watched.apart (hwatched : Watched xs m) (h : ExchangeStep m x m') {y : Exchange}
    (hy : y ∈ xs) {p q : Payment} (hrepeats : y.Repeats x p q)
    (htext : p.selected.amount = q.selected.amount)
    (hnoted : X402.Noted y.config y.call p) :
    y.call.releasedAt + nonceTtlMs < x.call.releasedAt := by
  obtain ⟨hp, hq, hurl, hpayTo, -⟩ := hrepeats
  have hnow := h.now_le
  have hkey : p.key y.call = q.key x.call := by
    rw [Payment.key, Payment.key, hpayTo]
    exact (buildKey_inj hurl).mpr htext
  have hfresh := (x.outcome_released h.replayProtected (h.released.trans hq)).1
  rcases hwatched.keeps y hy p hp hnoted with hkeeps | hpast
  · rcases hkeeps.gc with hkept | hexpired
    · exact absurd (hkey ▸ hkept.has) hfresh
    · omega
  · omega

theorem noReplay_of_run (h : Run ExchangeStep m xs m') (hnoted : ∀ x ∈ xs, x.Noted)
    (halike : SpelledAlike xs) : NoReplay xs := by
  refine h.induct (P := fun xs _ => (∀ x ∈ xs, x.Noted) → SpelledAlike xs → NoReplay xs)
    (fun _ _ => .nil) ?_ hnoted halike
  intro xs m x m' hrun ih hstep hnoted halike
  obtain ⟨hprior, -, hlast⟩ := List.pairwise_append.mp halike
  refine List.pairwise_append.mpr
    ⟨ih (fun y hy => hnoted y (List.mem_append_left _ hy)) hprior, List.pairwise_singleton _ _, ?_⟩
  intro y hy z hz p q hrepeats
  obtain rfl := List.mem_singleton.mp hz
  exact (Watched.run hrun).apart hstep hy hrepeats (hlast y hy z hz p q hrepeats)
    (hnoted y (List.mem_append_left _ hy) p hrepeats.1)

/-- The key of a released payment is there after the call exactly if the payment is noted, and two
payments for one address and recipient have one key exactly if their amounts are spelled alike. In
every run of noted payments that spell each amount in one way, no payment is made again within the
lifetime of a key. -/
theorem noted_payments_not_replayed (m : Process) :
    (∀ x p, x.config.replayProtected → (Exchange.outcome m x).released = some p →
      ((x.outcome m).state.nonces.has (p.key x.call) ↔ Noted x.config x.call p)) ∧
    (∀ (c c' : Call) (p q : Payment), c.resource = c'.resource →
      p.selected.payTo = q.selected.payTo →
      (p.key c = q.key c' ↔ p.selected.amount = q.selected.amount)) ∧
    ∀ xs m', Run ExchangeStep m xs m' → (∀ x ∈ xs, x.Noted) → SpelledAlike xs → NoReplay xs := by
  refine ⟨?_, ?_, fun xs m' => noReplay_of_run⟩
  · intro x p hprotected hrel
    obtain ⟨hfresh, hnoted, hnot⟩ := x.outcome_released hprotected hrel
    constructor
    · intro hhas
      by_contra hn
      exact hfresh (hnot hn ▸ hhas)
    · intro hn
      rw [hnoted hn]
      exact (Nonces.keeps_record le_rfl).has
  · intro c c' p q hurl hpayTo
    rw [Payment.key, Payment.key, hpayTo]
    exact buildKey_inj hurl

end Process

section Sample

/-- A call for a page of one address, answered by a demand for `amount` and then by `answer`. -/
def pageCall (search : String) (amount : String) (answer : Response) (t : ℤ) : Call :=
  { sampleCall answer t with
    url := "https://api/" ++ search
    response := some { sampleDemand with
      paymentRequired := some (.json (some 2) (some [⟨some "exact", some "solana:mainnet",
        some "USDC", some amount, some "merchant"⟩])) } }

def pagePayment (amount : String) : Payment :=
  { samplePayment with selected := { samplePayment.selected with amount := amount } }

/-- The same number in other digits. -/
def paddedAmount : String := "060"

def pageExchange (search : String) (amount : String) (answer : Response) (t : ℤ)
    (released : Option Payment) : Exchange :=
  ⟨{}, none, pageCall search amount answer t, released⟩

def Process.after (m : Process) (x : Exchange) : Process :=
  ⟨x.call.recordedAt, (x.outcome m).state.nonces, (x.outcome m).state.recentPayments⟩

theorem ExchangeStep.of_after {m : Process} {x : Exchange} (hprotected : x.config.replayProtected)
    (hafter : m.now ≤ x.call.askedAt) (hreleased : (x.outcome m).released = x.released) :
    ExchangeStep m x (m.after x) :=
  ⟨hprotected, hafter, hreleased, rfl, rfl, rfl⟩

def sampleProcess : Process := ⟨0, [], []⟩

/-- Accepted, asked for again at once under another page, and again when the key has expired. -/
def pagedRun : List Exchange :=
  [pageExchange "" sampleAmount accepted 0 (some (pagePayment sampleAmount)),
    pageExchange "?page=2" sampleAmount accepted 1000 none,
    pageExchange "?page=3" sampleAmount accepted (nonceTtlMs + 1)
      (some (pagePayment sampleAmount))]

/-- Refused, accepted, and asked for again in other digits, within two seconds. -/
def replayedRun : List Exchange :=
  [pageExchange "" sampleAmount refused 0 (some (pagePayment sampleAmount)),
    pageExchange "?page=2" sampleAmount accepted 1000 (some (pagePayment sampleAmount)),
    pageExchange "" paddedAmount accepted 2000 (some (pagePayment paddedAmount))]

theorem run_pagedRun : Run ExchangeStep sampleProcess pagedRun
    (pagedRun.foldl Process.after sampleProcess) :=
  ((Run.single (.of_after rfl (by decide) (by decide +kernel))).snoc
    (.of_after rfl (by decide) (by decide +kernel))).snoc
    (.of_after rfl (by decide) (by decide +kernel))

theorem noted_accepted (search : String) (amount : String) (t : ℤ) (p : Payment) :
    Noted {} (pageCall search amount accepted t) p :=
  ⟨accepted, rfl, rfl, fun _ => rfl⟩

theorem released_pagedRun {x : Exchange} (hx : x ∈ pagedRun) {p : Payment}
    (h : x.released = some p) : p = pagePayment sampleAmount := by
  simp only [pagedRun, List.mem_cons, List.not_mem_nil, or_false] at hx
  rcases hx with rfl | rfl | rfl
  · exact (Option.some.inj h).symm
  · cases h
  · exact (Option.some.inj h).symm

theorem noted_payments_not_replayed_paged :
    (pagedRun.map Exchange.released).map Option.isSome = [true, false, true] ∧
    Run ExchangeStep sampleProcess pagedRun (pagedRun.foldl Process.after sampleProcess) ∧
    NoReplay pagedRun := by
  refine ⟨rfl, run_pagedRun, (noted_payments_not_replayed sampleProcess).2.2 _ _ run_pagedRun ?_ ?_⟩
  · intro x hx p _
    simp only [pagedRun, List.mem_cons, List.not_mem_nil, or_false] at hx
    rcases hx with rfl | rfl | rfl <;> exact noted_accepted _ _ _ p
  · refine List.pairwise_of_forall_mem_list fun x hx y hy p q hrepeats => ?_
    rw [released_pagedRun hx hrepeats.1, released_pagedRun hy hrepeats.2.1]

/-- The server refuses a payment, which is no reason for the caller not to make it again, and
demands the next one in other digits. All three are released within two seconds. -/
theorem refused_and_respelled_payments_replayed :
    Run ExchangeStep sampleProcess replayedRun (replayedRun.foldl Process.after sampleProcess) ∧
    ¬ NoReplay (replayedRun.take 2) ∧ ¬ NoReplay (replayedRun.drop 1) := by
  refine ⟨((Run.single (.of_after rfl (by decide) (by decide +kernel))).snoc
    (.of_after rfl (by decide) (by decide +kernel))).snoc
    (.of_after rfl (by decide) (by decide +kernel)), ?_, ?_⟩
  · intro hnone
    have hlate := List.rel_of_pairwise_cons hnone List.mem_cons_self _ _
      ⟨rfl, rfl, by decide +kernel, rfl, rfl⟩
    exact absurd hlate (by decide)
  · intro hnone
    have hlate := List.rel_of_pairwise_cons hnone List.mem_cons_self _ _
      ⟨rfl, rfl, by decide +kernel, rfl, rfl⟩
    exact absurd hlate (by decide)

end Sample

end Sigil.Client.X402
