import Mathlib.Algebra.Order.Group.Unbundled.Int
import Mathlib.Data.List.DropRight
import Sigil.Library.EpochHistory
import Sigil.Library.Guard

/-! # Fetching with payment

A server may answer a request with a demand for payment. `shieldedFetch` picks one of the options
it offers, checks the amount against the caller's limits, signs a transfer and sends it along with
the request again. What the server, the cluster and the clock do during a call is part of the call's
own record, so that every theorem holds whatever they do.

Times are in milliseconds. Headers come decoded: a field that is absent or of the wrong type is
`none`.
-/

namespace Sigil.Client.X402

open EpochHistory Guard

section ShieldState

structure SpendEntry where
  mint : String
  amount : ℕ
  timestamp : ℤ
  deriving DecidableEq

structure ShieldState where
  spendEntries : List SpendEntry
  txEntries : List ℤ
  deriving DecidableEq

def dayMs : ℤ := 86400000

def pruneThreshold : ℕ := 10000

namespace ShieldState

variable {s : ShieldState} {now τ : ℤ} {mint : String} {amount : ℕ}

def getTotalSpendInWindow (s : ShieldState) (now windowMs : ℤ) : ℕ :=
  ((s.spendEntries.filter fun e => now - windowMs ≤ e.timestamp).map SpendEntry.amount).sum

/-- Drops what is older than a day, once a list has grown beyond the threshold. -/
def prune (now : ℤ) (s : ShieldState) : ShieldState where
  spendEntries :=
    if pruneThreshold < s.spendEntries.length then
      s.spendEntries.filter fun e => now - dayMs ≤ e.timestamp
    else s.spendEntries
  txEntries :=
    if pruneThreshold < s.txEntries.length then
      s.txEntries.filter fun t => now - dayMs ≤ t
    else s.txEntries

def recordSpend (now : ℤ) (mint : String) (amount : ℕ) (s : ShieldState) : ShieldState :=
  prune now { s with spendEntries := s.spendEntries ++ [⟨mint, amount, now⟩] }

def recordTransaction (now : ℤ) (s : ShieldState) : ShieldState :=
  prune now { s with txEntries := s.txEntries ++ [now] }

def recordX402Spend (now : ℤ) (asset : String) (amount : ℕ) (s : ShieldState) : ShieldState :=
  recordTransaction now (recordSpend now asset amount s)

/-- The amounts recorded, under their times. -/
def spends (s : ShieldState) : List (ℤ × ℕ) :=
  s.spendEntries.map fun e => (e.timestamp, e.amount)

theorem sum_filter_eq_total (es : List SpendEntry) (cutoff : ℤ) :
    ((es.filter fun e => cutoff ≤ e.timestamp).map SpendEntry.amount).sum =
      total (cutoff ≤ ·) (es.map fun e => (e.timestamp, e.amount)) := by
  induction es with
  | nil => rfl
  | cons e es ih => by_cases he : cutoff ≤ e.timestamp <;> simp [he, ih]

theorem getTotalSpendInWindow_eq (s : ShieldState) (now windowMs : ℤ) :
    s.getTotalSpendInWindow now windowMs = total (now - windowMs ≤ ·) s.spends :=
  sum_filter_eq_total _ _

theorem total_filter_spends (es : List SpendEntry) {cutoff : ℤ} (hτ : cutoff ≤ τ) :
    total (τ ≤ ·) ((es.filter fun e => cutoff ≤ e.timestamp).map fun e => (e.timestamp, e.amount)) =
      total (τ ≤ ·) (es.map fun e => (e.timestamp, e.amount)) := by
  induction es with
  | nil => rfl
  | cons e es ih =>
    by_cases he : cutoff ≤ e.timestamp
    · simp [he, ih]
    · have hlate : ¬ τ ≤ e.timestamp := fun h => he (hτ.trans h)
      simp [he, hlate, ih]

theorem total_prune (hτ : now - dayMs ≤ τ) :
    total (τ ≤ ·) (s.prune now).spends = total (τ ≤ ·) s.spends := by
  unfold prune spends
  split
  · exact total_filter_spends _ hτ
  · rfl

theorem total_append_spend (es : List SpendEntry) (e : SpendEntry) :
    total (τ ≤ ·) ((es ++ [e]).map fun e => (e.timestamp, e.amount)) =
      (if τ ≤ e.timestamp then e.amount else 0) +
        total (τ ≤ ·) (es.map fun e => (e.timestamp, e.amount)) := by
  induction es with
  | nil => simp
  | cons y es ih =>
    simp only [List.cons_append, List.map_cons, total_cons, ih]
    omega

theorem total_recordX402Spend (hτ : now - dayMs ≤ τ) :
    total (τ ≤ ·) (s.recordX402Spend now mint amount).spends =
      (if τ ≤ now then amount else 0) + total (τ ≤ ·) s.spends := by
  rw [recordX402Spend, recordTransaction, total_prune hτ]
  change total (τ ≤ ·) (s.recordSpend now mint amount).spends = _
  rw [recordSpend, total_prune hτ]
  exact total_append_spend s.spendEntries ⟨mint, amount, now⟩

theorem count_prune {e : SpendEntry} (he : now - dayMs ≤ e.timestamp) :
    (s.prune now).spendEntries.count e = s.spendEntries.count e := by
  unfold prune
  dsimp only
  split
  · exact List.count_filter (by simpa using he)
  · rfl

theorem count_recordX402Spend : (s.recordX402Spend now mint amount).spendEntries.count
    ⟨mint, amount, now⟩ = s.spendEntries.count ⟨mint, amount, now⟩ + 1 := by
  have hnow : now - dayMs ≤ now := Int.sub_le_self now (by decide)
  rw [recordX402Spend, recordTransaction, count_prune hnow]
  change (s.recordSpend now mint amount).spendEntries.count _ = _
  rw [recordSpend, count_prune hnow]
  simp

end ShieldState

end ShieldState

section Header

def isWhiteSpace (c : Char) : Bool :=
  c.toNat ∈ [0x09, 0x0A, 0x0B, 0x0C, 0x0D, 0x20, 0xA0, 0x1680, 0x2028, 0x2029, 0x202F, 0x205F,
    0x3000, 0xFEFF] ∨ 0x2000 ≤ c.toNat ∧ c.toNat ≤ 0x200A

/-- The value of a digit in the bases up to 36; other characters have a larger one. -/
def digitValue (c : Char) : ℕ :=
  if '0' ≤ c ∧ c ≤ '9' then c.toNat - 48
  else if 'a' ≤ c ∧ c ≤ 'z' then c.toNat - 87
  else if 'A' ≤ c ∧ c ≤ 'Z' then c.toNat - 55
  else 36

def ofDigits (base : ℕ) (digits : List Char) : Option ℤ :=
  if digits ≠ [] ∧ digits.all fun c => digitValue c < base then
    some (digits.foldl (fun n c => base * n + digitValue c) 0 : ℕ)
  else none

/-- `BigInt(text)`, which throws on a text that is no integer. -/
def bigInt (text : String) : Option ℤ :=
  match (text.toList.dropWhile isWhiteSpace).rdropWhile isWhiteSpace with
  | [] => some 0
  | '0' :: 'x' :: digits | '0' :: 'X' :: digits => ofDigits 16 digits
  | '0' :: 'o' :: digits | '0' :: 'O' :: digits => ofDigits 8 digits
  | '0' :: 'b' :: digits | '0' :: 'B' :: digits => ofDigits 2 digits
  | '-' :: digits => (ofDigits 10 digits).map Neg.neg
  | '+' :: digits => ofDigits 10 digits
  | digits => ofDigits 10 digits

theorem isWhiteSpace_of_isDigit {c : Char} (h : c.isDigit = true) : isWhiteSpace c = false := by
  simp only [Char.isDigit, Bool.and_eq_true, decide_eq_true_eq] at h
  have hlow : 48 ≤ c.toNat := h.1
  have hhigh : c.toNat ≤ 57 := h.2
  simp only [isWhiteSpace, List.mem_cons, List.not_mem_nil, or_false]
  rw [decide_eq_false_iff_not]
  omega

theorem digitValue_of_isDigit {c : Char} (h : c.isDigit = true) : digitValue c = c.toNat - 48 := by
  simp only [Char.isDigit, Bool.and_eq_true, decide_eq_true_eq] at h
  exact if_pos h

theorem digitValue_lt_ten {c : Char} (h : c.isDigit = true) : digitValue c < 10 := by
  rw [digitValue_of_isDigit h]
  simp only [Char.isDigit, Bool.and_eq_true, decide_eq_true_eq] at h
  have hhigh : c.toNat ≤ 57 := h.2
  omega

theorem bigInt_ofList {digits : List Char} (hne : digits ≠ [])
    (h : ∀ c ∈ digits, c.isDigit = true) :
    bigInt (String.ofList digits) = some (Nat.ofDigitChars 10 digits 0 : ℤ) := by
  have htrimmed : ((String.ofList digits).toList.dropWhile isWhiteSpace).rdropWhile isWhiteSpace =
      digits := by
    rw [String.toList_ofList, List.dropWhile_eq_self_iff.mpr, List.rdropWhile_eq_self_iff.mpr]
    · intro hl
      simp [isWhiteSpace_of_isDigit (h _ (List.getLast_mem hl))]
    · intro hl
      simp [isWhiteSpace_of_isDigit (h _ (List.getElem_mem hl))]
  unfold bigInt
  rw [htrimmed]
  have hvalue : ofDigits 10 digits = some (Nat.ofDigitChars 10 digits 0 : ℤ) := by
    have hsmall : digits.all fun c => digitValue c < 10 := by
      simpa using fun c hc => digitValue_lt_ten (h c hc)
    rw [ofDigits, if_pos ⟨hne, hsmall⟩, Nat.ofDigitChars_eq_foldl]
    congr 2
    exact List.foldl_ext _ _ _ fun n c hc => by rw [digitValue_of_isDigit (h c hc)]; rfl
  -- no other form begins with a digit that is followed by digits
  split
  case h_1 => exact absurd rfl hne
  case h_10 => exact hvalue
  all_goals
    simp only [List.forall_mem_cons] at h
    first
    | exact absurd h.1 (by decide)
    | exact absurd h.2.1 (by decide)

theorem bigInt_toString (n : ℕ) : bigInt (toString n) = some (n : ℤ) := by
  rw [Nat.toString_eq_ofList_toDigits, bigInt_ofList Nat.toDigits_ne_nil fun _ =>
    Nat.isDigit_of_mem_toDigits (by decide) le_rfl, Nat.ofDigitChars_ten_toDigits]

structure OptionJson where
  scheme : Option String
  network : Option String
  asset : Option String
  amount : Option String
  payTo : Option String
  deriving DecidableEq

/-- The `PAYMENT-REQUIRED` header, decoded from base64 and JSON where that succeeds. -/
inductive RequiredHeader
  | malformed
  | json (x402Version : Option ℤ) (accepts : Option (List OptionJson))
  deriving DecidableEq

structure PaymentRequirements where
  scheme : String
  network : String
  asset : String
  amount : String
  payTo : String
  deriving DecidableEq

inductive ParseError
  | undecodable
  | version
  | accepts
  | scheme (i : ℕ)
  | network (i : ℕ)
  | asset (i : ℕ)
  | amount (i : ℕ)
  | amountNegative (i : ℕ) (amount : String)
  | amountExceedsU64 (i : ℕ) (amount : String)
  | amountInvalid (i : ℕ) (amount : String)
  | payTo (i : ℕ)
  deriving DecidableEq

def u64Max : ℤ := 2 ^ 64 - 1

def decodeOption (entry : OptionJson × ℕ) : Except ParseError PaymentRequirements := do
  let (o, i) := entry
  let scheme ← okOr (.scheme i) o.scheme
  let network ← okOr (.network i) o.network
  let asset ← okOr (.asset i) o.asset
  let amount ← okOr (.amount i) o.amount
  require (amount ≠ "") (.amount i)
  let value ← okOr (.amountInvalid i amount) (bigInt amount)
  require (0 ≤ value) (.amountNegative i amount)
  require (value ≤ u64Max) (.amountExceedsU64 i amount)
  let payTo ← okOr (.payTo i) o.payTo
  pure ⟨scheme, network, asset, amount, payTo⟩

def decodePaymentRequiredHeader :
    RequiredHeader → Except ParseError (List PaymentRequirements)
  | .malformed => .error .undecodable
  | .json x402Version accepts => do
    require x402Version.isSome .version
    let accepts ← okOr .accepts accepts
    require (accepts ≠ []) .accepts
    accepts.zipIdx.mapM decodeOption

end Header

section Config

/-- The limits of the caller. A missing field stands for its default. -/
structure X402Config where
  allowedDestinations : Option (List String) := none
  allowedTokens : Option (List String) := none
  maxPaymentPerRequest : Option ℕ := none
  maxCumulativeSpend : Option ℕ := none
  cumulativeWindowMs : Option ℤ := none
  maxRetries : Option ℤ := none
  enableReplayProtection : Option Bool := none
  allowInsecureUrls : Bool := false
  confirmPayment : Option Bool := none

namespace X402Config

def windowMs (config : X402Config) : ℤ := config.cumulativeWindowMs.getD dayMs

/-- Between one and three attempts. -/
def attempts (config : X402Config) : ℕ := (min (max (config.maxRetries.getD 1) 1) 3).toNat

def replayProtected (config : X402Config) : Bool := config.enableReplayProtection != some false

end X402Config

/-- A parsed address: scheme, host and path, then the query and the fragment with their marks. -/
structure ParsedUrl where
  base : String
  search : String
  hash : String
  deriving DecidableEq

def startsWith (text start : String) : Bool := start.toList.isPrefixOf text.toList

def allowedUrl (config : X402Config) (url : String) : Bool :=
  startsWith url "https://" || config.allowInsecureUrls && startsWith url "http://"

end Config

section Call

structure SignatureStatus where
  err : Bool
  confirmed : Bool
  deriving DecidableEq

inductive Poll
  | threw
  | answered (status : Option SignatureStatus)
  deriving DecidableEq

/-- An answer of the server. The settlement is the transaction it names, of its own choice. -/
structure Response where
  status : ℕ
  paymentRequired : Option RequiredHeader := none
  settlement : Option String := none
  deriving DecidableEq

def Response.ok (r : Response) : Bool := 200 ≤ r.status && r.status < 300

/-- An empty text names no transaction. -/
def Response.transaction (r : Response) : Option String := r.settlement.filter (· ≠ "")

inductive PaymentEvent
  | denied
  | signatureMismatch
  | paid
  | refused

/-- A call with everything that happens to it from outside. A missing response stands for a
request that was rejected. -/
structure Call where
  url : String
  /-- `new URL`, which throws on a text it cannot parse. -/
  parseUrl : String → Option ParsedUrl
  maxPayment : Option ℕ
  dryRun : Bool
  hasPaymentSignatureHeader : Bool
  response : Option Response
  isPaused : Bool
  checkViolations : List String
  hasRpc : Bool
  /-- The signature read off the signed transfer, where a transfer could be prepared. -/
  signed : Option (Option String)
  /-- The answers to the request with the payment, attempt by attempt. -/
  answers : ℕ → Option Response
  /-- The polls of a signature up to the deadline. -/
  polls : String → List Poll
  /-- Whether the audit callback returns. -/
  onPayment : PaymentEvent → Bool
  askedAt : ℤ
  checkedAt : ℤ
  releasedAt : ℤ
  answeredAt : ℤ
  recordedAt : ℤ
  asked_le_checked : askedAt ≤ checkedAt
  checked_le_released : checkedAt ≤ releasedAt
  released_le_answered : releasedAt ≤ answeredAt
  answered_le_recorded : answeredAt ≤ recordedAt

inductive Violation
  | cumulativeSpend (total limit : ℕ) (windowMs : ℤ)
  | perRequest (amount : String) (limit : ℕ)
  | shield (message : String)
  deriving DecidableEq

inductive FetchError
  | insecureUrl
  | fetchRejected
  | alreadyAttempted
  | parse (e : ParseError)
  | destinationBlocked (payTo : String) (options : ℕ)
  | unsupported
  | replay (nonceKey : String)
  | invalidAmount (amount : String)
  | notPositive (amount : String)
  | perRequestCeiling (amount : String) (limit : ℕ)
  | spike (amount : String) (median : ℕ)
  | maxPayment (amount : String) (limit : Option ℕ)
  | shieldPaused
  | denied (violations : List Violation)
  | rpcRequired
  | preparationFailed
  | pollFailed
  | callbackThrew
  deriving DecidableEq

inductive Served
  | passthrough (r : Response)
  | dryRun (selected : PaymentRequirements)
  | paid (selected : PaymentRequirements) (r : Response)
  | unpaid (selected : PaymentRequirements) (r : Response)
  deriving DecidableEq

/-- The result of a call, when it is known before a payment is made. -/
abbrev Early := Except (Except FetchError Served)

def failed (e : FetchError) : Except FetchError Served := .error e

end Call

section Select

/-- The options are tried in order; `blocked` holds the payable ones passed over so far. -/
def selectFrom (config : X402Config) (blocked : List PaymentRequirements) :
    List PaymentRequirements → Except FetchError PaymentRequirements
  | [] => match blocked with
    | [] => .error .unsupported
    | first :: rest => .error (.destinationBlocked first.payTo (rest.length + 1))
  | option :: options =>
    if ¬ startsWith option.network "solana:" then selectFrom config blocked options
    else if ¬ config.allowedTokens.all (option.asset ∈ ·) then selectFrom config blocked options
    else if ¬ config.allowedDestinations.all (option.payTo ∈ ·) then
      selectFrom config (blocked ++ [option]) options
    else .ok option

def selectPaymentOption (config : X402Config) (accepts : List PaymentRequirements) :
    Except FetchError PaymentRequirements :=
  selectFrom config [] accepts

end Select

section Nonces

/-- The keys of recent payments with the times at which they expire. -/
abbrev Nonces := List (String × ℤ)

def nonceTtlMs : ℤ := 5 * 60 * 1000

def stripTrailingSlash (s : String) : String :=
  if s.toList.getLast? = some '/' then String.ofList s.toList.dropLast else s

/-- What is left of the address in a key: neither the query nor one trailing slash. -/
def Call.resource (c : Call) : String :=
  (c.parseUrl c.url).elim c.url fun parsed => stripTrailingSlash (parsed.base ++ parsed.hash)

def buildKey (c : Call) (payTo amount : String) : String :=
  c.resource ++ "|" ++ payTo ++ "|" ++ amount

namespace Nonces

def gc (cutoff : ℤ) (nonces : Nonces) : Nonces := nonces.filter fun n => ¬ n.2 < cutoff

def has (nonces : Nonces) (key : String) : Bool := nonces.any fun n => n.1 = key

def record (now : ℤ) (key : String) (nonces : Nonces) : Nonces :=
  nonces.filter (fun n => n.1 ≠ key) ++ [(key, now + nonceTtlMs)]

end Nonces

end Nonces

section Amounts

def maxRecent : ℕ := 20

def spikeMultiplier : ℕ := 10

def getMedian (arr : List ℕ) : ℕ :=
  let sorted := arr.mergeSort
  let mid := sorted.length / 2
  if sorted.length % 2 = 0 then (sorted.getD (mid - 1) 0 + sorted.getD mid 0) / 2
  else sorted.getD mid 0

def validatePaymentAmount (config : X402Config) (recentPayments : List ℕ) (amount : String) :
    Except FetchError ℕ := do
  let parsed ← okOr (.invalidAmount amount) (bigInt amount)
  require (0 < parsed) (.notPositive amount)
  match config.maxPaymentPerRequest with
  | none => pure ()
  | some limit => require (parsed ≤ limit) (.perRequestCeiling amount limit)
  let median := getMedian recentPayments
  require (¬ (3 ≤ recentPayments.length ∧ 0 < median ∧ median * spikeMultiplier < parsed))
    (.spike amount median)
  pure parsed.toNat

def recordPaymentAmount (amount : ℕ) (recentPayments : List ℕ) : List ℕ :=
  let recent := recentPayments ++ [amount]
  if maxRecent < recent.length then recent.tail else recent

end Amounts

/-- What outlives a call. -/
structure ClientState where
  shield : ShieldState
  nonces : Nonces
  recentPayments : List ℕ
  deriving DecidableEq

structure Payment where
  selected : PaymentRequirements
  amount : ℕ
  expectedTxSig : Option String
  deriving DecidableEq

def Payment.entry (p : Payment) (now : ℤ) : SpendEntry := ⟨p.selected.asset, p.amount, now⟩

section Approve

variable (config : X402Config) (s : ClientState) (c : Call)

def evaluateX402Payment (selected : PaymentRequirements) (amount : ℕ) :
    Except FetchError (List Violation) := do
  require (¬ c.isPaused) .shieldPaused
  let currentSpend := s.shield.getTotalSpendInWindow c.checkedAt config.windowMs
  let cumulative := match config.maxCumulativeSpend with
    | none => []
    | some limit =>
      if limit < currentSpend + amount then
        [.cumulativeSpend (currentSpend + amount) limit config.windowMs]
      else []
  let perRequest := match config.maxPaymentPerRequest with
    | none => []
    | some limit => if limit < amount then [.perRequest selected.amount limit] else []
  pure (cumulative ++ perRequest ++ c.checkViolations.map .shield)

def request : Early PaymentRequirements := do
  require (allowedUrl config c.url) (failed .insecureUrl)
  let response ← okOr (failed .fetchRejected) c.response
  require (response.status = 402) (.ok (.passthrough response))
  let header ← okOr (.ok (.passthrough response)) response.paymentRequired
  require (¬ c.hasPaymentSignatureHeader) (failed .alreadyAttempted)
  let accepts ← (decodePaymentRequiredHeader header).mapError (failed ∘ .parse)
  (selectPaymentOption config accepts).mapError failed

def approve (selected : PaymentRequirements) : Early Payment := do
  let key := buildKey c selected.payTo selected.amount
  require (¬ (config.replayProtected ∧ s.nonces.has key)) (failed (.replay key))
  let amount ← (validatePaymentAmount config s.recentPayments selected.amount).mapError failed
  require (c.maxPayment.all (amount ≤ ·)) (failed (.maxPayment selected.amount c.maxPayment))
  let violations ← (evaluateX402Payment config s c selected amount).mapError failed
  require (violations = [] ∨ c.onPayment .denied) (failed .callbackThrew)
  require (violations = []) (failed (.denied violations))
  require (¬ c.dryRun) (.ok (.dryRun selected))
  require c.hasRpc (failed .rpcRequired)
  let expectedTxSig ← okOr (failed .preparationFailed) c.signed
  pure ⟨selected, amount, expectedTxSig⟩

variable {config s c} {selected : PaymentRequirements} {amount limit : ℕ} {p : Payment}

theorem evaluateX402Payment_approves (hlimit : config.maxCumulativeSpend = some limit)
    (h : evaluateX402Payment config s c selected amount = .ok []) :
    s.shield.getTotalSpendInWindow c.checkedAt config.windowMs + amount ≤ limit := by
  simp only [evaluateX402Payment, hlimit, seq_ok_iff, require_ok_iff, pure_ok_iff, exists_const,
    List.append_eq_nil_iff] at h
  obtain ⟨-, ⟨hcumulative, -⟩, -⟩ := h
  by_contra hover
  rw [if_pos (Nat.lt_of_not_le hover)] at hcumulative
  cases hcumulative

theorem approve_within (hlimit : config.maxCumulativeSpend = some limit)
    (h : approve config s c selected = .ok p) :
    s.shield.getTotalSpendInWindow c.checkedAt config.windowMs + p.amount ≤ limit := by
  simp only [approve, seq_ok_iff, require_ok_iff, mapError_ok_iff, okOr_ok_iff, pure_ok_iff,
    exists_const] at h
  obtain ⟨-, amount, -, -, violations, heval, -, rfl, -, -, sig, -, rfl⟩ := h
  exact evaluateX402Payment_approves hlimit heval

end Approve

section Settle

/-- The loop of retries: `r` is the last answer, `left` the attempts still allowed. -/
def retryFrom (answers : ℕ → Option Response) : (left attempt : ℕ) → Response → Option Response
  | 0, _, r => some r
  | left + 1, attempt, r =>
    if r.ok then some r
    else (answers attempt).bind (retryFrom answers left (attempt + 1))

/-- The last answer to the request with the payment, unless a request is rejected. -/
def retryFetch (answers : ℕ → Option Response) (maxRetries : ℕ) : Option Response :=
  (answers 0).bind (retryFrom answers (maxRetries - 1) 1)

inductive Confirmation
  | confirmed
  | failed
  | timeout
  | unpolled
  deriving DecidableEq

/-- The polls end at the deadline, which is the end of the list. -/
def confirmSettlementOnChain : List Poll → Except FetchError Confirmation
  | [] => .ok .timeout
  | .threw :: _ => .error .pollFailed
  | .answered none :: polls => confirmSettlementOnChain polls
  | .answered (some status) :: polls =>
    if status.err then .ok .failed
    else if status.confirmed then .ok .confirmed
    else confirmSettlementOnChain polls

variable (config : X402Config) (s : ClientState) (c : Call) (p : Payment)

/-- The transaction polled is the one the settlement names. -/
def confirmation (r : Response) : Except FetchError Confirmation :=
  match r.transaction with
  | none => .ok .unpolled
  | some transaction =>
    if config.confirmPayment = some false then .ok .unpolled
    else confirmSettlementOnChain (c.polls transaction)

/-- The settlement names another transaction than the one that was signed. -/
def mismatched (r : Response) : Bool :=
  p.expectedTxSig.any fun expected => r.transaction.any (· ≠ expected)

def remember : ClientState where
  shield := s.shield
  nonces :=
    if config.replayProtected then
      s.nonces.record c.answeredAt (buildKey c p.selected.payTo p.selected.amount)
    else s.nonces
  recentPayments := recordPaymentAmount p.amount s.recentPayments

/-- The payment is sent, and its spend recorded when the last answer accepts it. -/
def settle : Except FetchError Served × ClientState :=
  match retryFetch c.answers config.attempts with
  | none => (.error .fetchRejected, s)
  | some r =>
    if mismatched p r ∧ ¬ c.onPayment .signatureMismatch then (.error .callbackThrew, s)
    else if ¬ r.ok then
      (if c.onPayment .refused then .ok (.unpaid p.selected r) else .error .callbackThrew, s)
    else
      let s := remember config s c p
      match confirmation config c r with
      | .error e => (.error e, s)
      | .ok status =>
        (if c.onPayment .paid then .ok (.paid p.selected r) else .error .callbackThrew,
          if status = .failed then s
          else { s with
            shield := s.shield.recordX402Spend c.recordedAt p.selected.asset p.amount })

/-- The payment is accepted, nothing throws on the way to its record, and the transaction that is
polled has not failed. -/
def Settles : Prop :=
  ∃ r, retryFetch c.answers config.attempts = some r ∧ r.ok ∧
    (mismatched p r → c.onPayment .signatureMismatch) ∧
    ∃ status, confirmation config c r = .ok status ∧ status ≠ .failed

variable {config s c p}

theorem settle_shield_of_settles (h : Settles config c p) : (settle config s c p).2.shield =
    s.shield.recordX402Spend c.recordedAt p.selected.asset p.amount := by
  obtain ⟨r, hr, hok, hmismatch, status, hstatus, hne⟩ := h
  have hpass : ¬ (mismatched p r ∧ ¬ c.onPayment .signatureMismatch) :=
    fun ⟨hmis, hthrows⟩ => hthrows (hmismatch hmis)
  simp only [settle, hr, if_neg hpass, hok, not_true_eq_false, if_false, hstatus, if_neg hne,
    remember]

theorem settle_shield_of_not_settles (h : ¬ Settles config c p) :
    (settle config s c p).2.shield = s.shield := by
  unfold settle
  cases hr : retryFetch c.answers config.attempts with
  | none => rfl
  | some r =>
    by_cases hmis : mismatched p r ∧ ¬ c.onPayment .signatureMismatch
    · simp only [if_pos hmis]
    by_cases hok : r.ok
    · simp only [if_neg hmis, hok, not_true_eq_false, if_false]
      cases hstatus : confirmation config c r with
      | error e => rfl
      | ok status =>
        have hfailed : status = .failed := by
          by_contra hne
          exact h ⟨r, hr, hok, fun hm => not_not.mp fun hthrows => hmis ⟨hm, hthrows⟩, status,
            hstatus, hne⟩
        simp only [if_pos hfailed, remember]
    · simp only [if_neg hmis, hok, Bool.false_eq_true, not_false_eq_true, if_true]

end Settle

structure Outcome where
  result : Except FetchError Served
  released : Option Payment
  state : ClientState

/-- The replay check first drops what has expired. -/
def ClientState.expireNonces (config : X402Config) (c : Call) (s : ClientState) : ClientState :=
  if config.replayProtected then { s with nonces := s.nonces.gc c.askedAt } else s

def shieldedFetch (config : X402Config) (s : ClientState) (c : Call) : Outcome :=
  match request config c with
  | .error result => ⟨result, none, s⟩
  | .ok selected =>
    let s := s.expireNonces config c
    match approve config s c selected with
    | .error result => ⟨result, none, s⟩
    | .ok p => ⟨(settle config s c p).1, some p, (settle config s c p).2⟩

section Outcome

variable {config : X402Config} {s : ClientState} {c : Call} {p : Payment} {limit : ℕ}

@[simp] theorem ClientState.expireNonces_shield : (s.expireNonces config c).shield = s.shield := by
  unfold expireNonces
  split <;> rfl

theorem shieldedFetch_released (h : (shieldedFetch config s c).released = some p) :
    ∃ selected, approve config (s.expireNonces config c) c selected = .ok p ∧
      (shieldedFetch config s c).state = (settle config (s.expireNonces config c) c p).2 := by
  unfold shieldedFetch at h ⊢
  cases hreq : request config c with
  | error result => simp [hreq] at h
  | ok selected =>
    cases happ : approve config (s.expireNonces config c) c selected with
    | error result => simp [hreq, happ] at h
    | ok q =>
      obtain rfl : q = p := by simpa [hreq, happ] using h
      exact ⟨selected, happ, by simp only [happ]⟩

theorem shieldedFetch_unreleased (h : (shieldedFetch config s c).released = none) :
    (shieldedFetch config s c).state.shield = s.shield := by
  unfold shieldedFetch at h ⊢
  cases hreq : request config c with
  | error result => rfl
  | ok selected =>
    cases happ : approve config (s.expireNonces config c) c selected with
    | error result => simp [happ]
    | ok q => simp [hreq, happ] at h

theorem released_within (hlimit : config.maxCumulativeSpend = some limit)
    (h : (shieldedFetch config s c).released = some p) :
    s.shield.getTotalSpendInWindow c.checkedAt config.windowMs + p.amount ≤ limit := by
  obtain ⟨selected, happ, -⟩ := shieldedFetch_released h
  simpa using approve_within hlimit happ

theorem released_shield_of_settles (h : (shieldedFetch config s c).released = some p)
    (hsettles : Settles config c p) : (shieldedFetch config s c).state.shield =
      s.shield.recordX402Spend c.recordedAt p.selected.asset p.amount := by
  obtain ⟨selected, -, hstate⟩ := shieldedFetch_released h
  rw [hstate, settle_shield_of_settles hsettles, ClientState.expireNonces_shield]

theorem released_shield_of_not_settles (h : (shieldedFetch config s c).released = some p)
    (hsettles : ¬ Settles config c p) :
    (shieldedFetch config s c).state.shield = s.shield := by
  obtain ⟨selected, -, hstate⟩ := shieldedFetch_released h
  rw [hstate, settle_shield_of_not_settles hsettles, ClientState.expireNonces_shield]

def Records (before after : ShieldState) (e : SpendEntry) : Prop :=
  after.spendEntries.count e = before.spendEntries.count e + 1

instance (before after : ShieldState) (e : SpendEntry) : Decidable (Records before after e) :=
  inferInstanceAs (Decidable (_ = _))

theorem released_records_iff (h : (shieldedFetch config s c).released = some p) :
    Records s.shield (shieldedFetch config s c).state.shield (p.entry c.recordedAt) ↔
      Settles config c p := by
  constructor
  · intro hrec
    by_contra hnot
    rw [released_shield_of_not_settles h hnot] at hrec
    exact absurd hrec (Nat.ne_of_lt (Nat.lt_succ_self _))
  · intro hsettles
    rw [released_shield_of_settles h hsettles]
    exact ShieldState.count_recordX402Spend

end Outcome

end Sigil.Client.X402
