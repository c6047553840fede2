import Sigil.Client.Policies
import Sigil.Library.SelfDelimiting

/-! # The shield

A shield looks at the instructions of a transaction before it is signed. It reads the token
transfers out of them, checks the transfers of the signer against its policies and its record of
past spends, and records them if there is no objection. A plain transfer does not name its mint: it
is checked against every limit and recorded under the empty text.
-/

namespace Sigil.Client.Shield

open X402 SelfDelimiting

section Inspector

def tokenProgramAddress : String := "TokenkegQfeZyiNwAJbNbGKPFXCWuBvf9Ss623VQ5DA"

def token2022ProgramAddress : String := "TokenzQdBNbLqP5VEhdkAS6EPFLC1PHnBqCXEpPxuEb"

structure InspectableInstruction where
  programAddress : String
  accounts : Option (List String) := none
  data : Option (List UInt8) := none

/-- A transfer read out of an instruction; the mint is missing in a plain one. -/
structure TokenTransferInfo where
  mint : Option String
  amount : ℕ
  source : String
  destination : String
  authority : String
  deriving DecidableEq

inductive DangerousOperation
  | approve
  | setAuthority
  | closeAccount
  | revoke
  deriving DecidableEq

structure DangerousTokenOperation where
  operation : DangerousOperation
  account : String
  deriving DecidableEq

structure InstructionAnalysis where
  programIds : List String
  tokenTransfers : List TokenTransferInfo
  estimatedValue : ℕ
  dangerousOperations : List DangerousTokenOperation
  deriving DecidableEq

def readU64LE (data : List UInt8) (offset : ℕ) : ℕ := ofLeBytes ((data.drop offset).take 8)

/-- Data or accounts that are too short are no transfer. -/
def parseTransfer (data : List UInt8) (accounts : List String) : Option TokenTransferInfo :=
  match data.head?, accounts with
  | some 3, source :: destination :: authority :: _ =>
    if data.length < 9 then none
    else some ⟨none, readU64LE data 1, source, destination, authority⟩
  | some 12, source :: mint :: destination :: authority :: _ =>
    if data.length < 10 then none
    else some ⟨some mint, readU64LE data 1, source, destination, authority⟩
  | _, _ => none

def dangerousOperation (data : List UInt8) (accounts : List String) :
    Option DangerousTokenOperation :=
  match data.head?, accounts with
  | some 4, account :: _ => some ⟨.approve, account⟩
  | some 13, account :: _ => some ⟨.approve, account⟩
  | some 6, account :: _ => some ⟨.setAuthority, account⟩
  | some 9, account :: _ => some ⟨.closeAccount, account⟩
  | some 5, account :: _ => some ⟨.revoke, account⟩
  | _, _ => none

def inspect (signer : String) (a : InstructionAnalysis) (ix : InspectableInstruction) :
    InstructionAnalysis :=
  let a := { a with programIds :=
    if ix.programAddress ∈ a.programIds then a.programIds else a.programIds ++ [ix.programAddress] }
  if ix.programAddress ≠ tokenProgramAddress ∧ ix.programAddress ≠ token2022ProgramAddress then a
  else
    let data := ix.data.getD []
    let accounts := ix.accounts.getD []
    let transfer := parseTransfer data accounts
    { a with
      tokenTransfers := a.tokenTransfers ++ transfer.toList
      estimatedValue := a.estimatedValue +
        ((transfer.toList.filter (·.authority = signer)).map TokenTransferInfo.amount).sum
      dangerousOperations := a.dangerousOperations ++ (dangerousOperation data accounts).toList }

def analyzeInstructions (instructions : List InspectableInstruction) (signer : String) :
    InstructionAnalysis :=
  instructions.foldl (inspect signer) ⟨[], [], 0, []⟩

end Inspector

section State

inductive Cluster
  | devnet
  | mainnetBeta
  deriving DecidableEq

def isStablecoinMint (mint : String) : Cluster → Bool
  | .devnet => mint = "DMFEQFCRsvGrYzoL2gfwTEd9J8eVBQEjg7HjbJHd6oGH" ||
    mint = "43cd9ma7P968BssTtAKNs5qu6zgsErupwxwdjkiuMHze"
  | .mainnetBeta => mint = "EPjFWdd5AufqSSqeM2qN1xzybapC8G4wEGGkZwyTDt1v" ||
    mint = "Es9vMFrzaCERmJfrF4H2FYD4KCoNkY11McCe8BenwNYB"

structure Budget where
  spent24h : ℤ
  cap : ℤ
  deriving DecidableEq

structure VaultSnapshot where
  globalBudget : Budget
  agentBudget : Option Budget
  maxTransactionUsd : ℤ
  deriving DecidableEq

structure SyncedState extends ShieldState where
  resolvedState : Option VaultSnapshot := none
  localUsdAdditions : ℕ := 0
  network : Option Cluster := none
  enforceUsed : Bool := false
  deriving DecidableEq

def getSpendInWindow (s : ShieldState) (now : ℤ) (mint : String) (windowMs : ℤ) : ℕ :=
  spentSince s.spendEntries mint (now - windowMs)

def getTransactionCountInWindow (s : ShieldState) (now windowMs : ℤ) : ℕ :=
  countSince s.txEntries (now - windowMs)

end State

section Policies

structure PolicyCheckResult where
  allowed : Bool
  reason : Option String := none

/-- The policies of a shield: those of every engine and a check of the caller's own. -/
structure ShieldPolicies extends ResolvedPolicies where
  customCheck : Option (TransactionAnalysis → PolicyCheckResult) := none

inductive PolicyViolation
  | programAllowlist (programId : String)
  | spendLimit (mint : String) (attempted limit : ℕ)
  | rateLimit (count maxTransactions : ℕ)
  | custom (reason : Option String)
  | onChainTxSize (amount max : ℤ)
  | onChainVaultCap (attempted cap : ℤ)
  | onChainAgentCap (attempted cap : ℤ)
  | paused
  deriving DecidableEq

def PolicyViolation.message : PolicyViolation → String
  | .programAllowlist programId => "Program " ++ programId ++ " is not in the allowed list"
  | .spendLimit mint attempted limit =>
    "Spend limit exceeded for " ++ mint ++ ": " ++ toString attempted ++ " > " ++ toString limit
  | .rateLimit count maxTransactions =>
    "Rate limit exceeded: " ++ toString count ++ "/" ++ toString maxTransactions ++
      " transactions in window"
  | .custom reason => reason.getD "Custom policy check failed"
  | .onChainTxSize amount max =>
    "Transaction " ++ toString amount ++ " exceeds max " ++ toString max
  | .onChainVaultCap attempted cap =>
    "Would exceed on-chain daily cap: " ++ toString attempted ++ " > " ++ toString cap
  | .onChainAgentCap attempted cap =>
    "Would exceed agent spend limit: " ++ toString attempted ++ " > " ++ toString cap
  | .paused => "Shield is paused — all operations blocked until resume()"

/-- The programs that no allowlist has to name. -/
def systemPrograms : List String :=
  ["11111111111111111111111111111111", "ComputeBudget111111111111111111111111111111",
    "ATokenGPvbdGVxr1b2hvZbsiqW5xWH25efTNsLJA8knL"]

end Policies

section Evaluate

variable (resolved : ShieldPolicies) (s : SyncedState) (now : ℤ) (signer : String)
  (analysis : InstructionAnalysis)

def checkPrograms : List PolicyViolation :=
  match resolved.allowedProtocols with
  | some allowed =>
    if resolved.blockUnknownPrograms then
      (analysis.programIds.filter fun pid => pid ∉ systemPrograms ∧ pid ∉ allowed).map
        .programAllowlist
    else []
  | none => []

/-- What a transaction adds to the spend of a limit: transfers of its mint, and those that name
none. -/
def txSpend (limit : SpendLimit) : ℕ :=
  ((analysis.tokenTransfers.filter fun t =>
    t.authority = signer ∧ (t.mint = some limit.mint ∨ t.mint = none)).map
      TokenTransferInfo.amount).sum

def checkSpendLimit (limit : SpendLimit) : List PolicyViolation :=
  let attempted := getSpendInWindow s.toShieldState now limit.mint limit.window +
    txSpend signer analysis limit
  if limit.amount < attempted then [.spendLimit limit.mint attempted limit.amount] else []

def checkRateLimit : List PolicyViolation :=
  let count := getTransactionCountInWindow s.toShieldState now resolved.rateLimit.windowMs
  if resolved.rateLimit.maxTransactions ≤ count then
    [.rateLimit count resolved.rateLimit.maxTransactions]
  else []

def customAnalysis : TransactionAnalysis where
  programIds := analysis.programIds
  transfers := analysis.tokenTransfers.map fun t =>
    ⟨t.mint.getD "", t.amount, if t.authority = signer then .outgoing else .unknown,
      some t.destination⟩
  estimatedValueLamports := analysis.estimatedValue

def checkCustom : List PolicyViolation :=
  match resolved.customCheck with
  | none => []
  | some check =>
    let result := check (customAnalysis signer analysis)
    if result.allowed then [] else [.custom result.reason]

def computeStablecoinUsd (cluster : Cluster) : ℕ :=
  ((analysis.tokenTransfers.filter fun t =>
    t.authority = signer ∧ t.mint.any (isStablecoinMint · cluster)).map
      TokenTransferInfo.amount).sum

def checkOnChain (network : Option Cluster) : List PolicyViolation :=
  match s.resolvedState, network.or s.network with
  | some rs, some cluster =>
    let usd := computeStablecoinUsd signer analysis cluster
    if usd = 0 then []
    else
      (if rs.maxTransactionUsd < usd then [.onChainTxSize usd rs.maxTransactionUsd] else []) ++
      (let spent := rs.globalBudget.spent24h + s.localUsdAdditions
        if rs.globalBudget.cap < spent + usd then
          [.onChainVaultCap (spent + usd) rs.globalBudget.cap]
        else []) ++
      match rs.agentBudget with
      | none => []
      | some budget =>
        let spent := budget.spent24h + s.localUsdAdditions
        if budget.cap < spent + usd then [.onChainAgentCap (spent + usd) budget.cap] else []
  | _, _ => []

def evaluateInstructions (network : Option Cluster) : List PolicyViolation :=
  checkPrograms resolved analysis ++
  resolved.spendLimits.flatMap (checkSpendLimit s now signer analysis) ++
  checkRateLimit resolved s now ++ checkCustom resolved signer analysis ++
  checkOnChain s signer analysis network

end Evaluate

section Enforce

/-- A shield as it was made: its policies, and the cluster it reads the chain from, if it does. -/
structure Context where
  resolved : ShieldPolicies
  syncNetwork : Option Cluster := none

def Context.check (ctx : Context) (paused : Bool) (s : SyncedState) (now : ℤ)
    (instructions : List InspectableInstruction) (signer : String) : List PolicyViolation :=
  if paused then [.paused]
  else evaluateInstructions ctx.resolved s now signer (analyzeInstructions instructions signer)
    ctx.syncNetwork

def recordTransfers (now : ℤ) (signer : String) (transfers : List TokenTransferInfo)
    (s : ShieldState) : ShieldState :=
  transfers.foldl (fun s t =>
    if t.authority = signer then s.recordSpend now (t.mint.getD "") t.amount else s) s

def Context.enforce (ctx : Context) (paused : Bool) (now : ℤ)
    (instructions : List InspectableInstruction) (signer : String) (s : SyncedState) :
    Except (List PolicyViolation) SyncedState :=
  let analysis := analyzeInstructions instructions signer
  let violations := ctx.check paused s now instructions signer
  if violations ≠ [] then .error violations
  else .ok { s with
    toShieldState := (recordTransfers now signer analysis.tokenTransfers
      s.toShieldState).recordTransaction now
    localUsdAdditions := match s.resolvedState, ctx.syncNetwork with
      | some _, some cluster => s.localUsdAdditions + computeStablecoinUsd signer analysis cluster
      | _, _ => s.localUsdAdditions
    enforceUsed := true }

end Enforce

section Record

variable {now : ℤ} {signer : String} {es : List SpendEntry}

/-- The spends that pruning leaves. -/
def pruneSpends (now : ℤ) (es : List SpendEntry) : List SpendEntry :=
  if pruneThreshold < es.length then es.filter fun e => now - dayMs ≤ e.timestamp else es

def entriesOf (now : ℤ) (signer : String) (transfers : List TokenTransferInfo) : List SpendEntry :=
  (transfers.filter fun t => t.authority = signer).map fun t => ⟨t.mint.getD "", t.amount, now⟩

theorem entriesOf_timestamp {transfers : List TokenTransferInfo} {e : SpendEntry}
    (he : e ∈ entriesOf now signer transfers) : e.timestamp = now := by
  obtain ⟨t, -, rfl⟩ := List.mem_map.mp he
  rfl

theorem pruneSpends_append {new : List SpendEntry} (hnew : ∀ e ∈ new, now - dayMs ≤ e.timestamp) :
    pruneSpends now (pruneSpends now es ++ new) = pruneSpends now (es ++ new) := by
  by_cases hlen : pruneThreshold < es.length
  · have hboth : pruneThreshold < (es ++ new).length := by
      rw [List.length_append]
      omega
    have hkept : (new.filter fun e => now - dayMs ≤ e.timestamp) = new :=
      List.filter_eq_self.mpr fun e he => by simpa using hnew e he
    rw [pruneSpends, pruneSpends, pruneSpends, if_pos hlen, if_pos hboth, List.filter_append,
      List.filter_append, List.filter_filter, hkept]
    simp
  · rw [pruneSpends.eq_def now es, if_neg hlen]

theorem pruneSpends_idem : pruneSpends now (pruneSpends now es) = pruneSpends now es := by
  have hnil : ∀ e ∈ ([] : List SpendEntry), now - dayMs ≤ e.timestamp := by simp
  simpa using pruneSpends_append hnil

theorem recordTransfers_spendEntries (transfers : List TokenTransferInfo) (s : ShieldState) :
    pruneSpends now (recordTransfers now signer transfers s).spendEntries =
      pruneSpends now (s.spendEntries ++ entriesOf now signer transfers) := by
  induction transfers generalizing s with
  | nil => simp [recordTransfers, entriesOf]
  | cons t transfers ih =>
    rw [recordTransfers, List.foldl_cons]
    have hstep :=
      ih (if t.authority = signer then s.recordSpend now (t.mint.getD "") t.amount else s)
    rw [recordTransfers] at hstep
    rw [hstep]
    by_cases ht : t.authority = signer
    · rw [if_pos ht]
      have hnow : ∀ e ∈ entriesOf now signer transfers, now - dayMs ≤ e.timestamp := fun e he => by
        rw [entriesOf_timestamp he]
        exact Int.sub_le_self now (by decide)
      change pruneSpends now
        (pruneSpends now (s.spendEntries ++ [⟨t.mint.getD "", t.amount, now⟩]) ++
          entriesOf now signer transfers) = _
      rw [pruneSpends_append hnow, List.append_assoc]
      simp [entriesOf, ht]
    · rw [if_neg ht]
      simp [entriesOf, ht]

end Record

section Effect

variable {ctx : Context} {paused : Bool} {now : ℤ} {instructions : List InspectableInstruction}
  {signer : String} {s s' : SyncedState}

/-- What a transaction counts against a limit. -/
def counted (signer : String) (instructions : List InspectableInstruction)
    (limit : SpendLimit) : ℕ :=
  txSpend signer (analyzeInstructions instructions signer) limit

theorem checkSpendLimit_eq_nil_iff {analysis : InstructionAnalysis} {limit : SpendLimit} :
    checkSpendLimit s now signer analysis limit = [] ↔
      spentSince s.spendEntries limit.mint (now - limit.window) + txSpend signer analysis limit ≤
        limit.amount := by
  rw [checkSpendLimit, ite_eq_right_iff, ← Nat.not_lt]
  exact ⟨fun h hover => List.cons_ne_nil _ _ (h hover), fun h hover => absurd hover h⟩

theorem Context.check_eq_nil (h : ctx.check paused s now instructions signer = []) :
    ∀ limit ∈ ctx.resolved.spendLimits,
      spentSince s.spendEntries limit.mint (now - limit.window) +
        counted signer instructions limit ≤ limit.amount := by
  unfold check at h
  split at h
  · cases h
  · simp only [evaluateInstructions, List.append_eq_nil_iff, List.flatMap_eq_nil_iff,
      checkSpendLimit_eq_nil_iff] at h
    exact h.1.1.1.2

theorem Context.enforce_ok (h : ctx.enforce paused now instructions signer s = .ok s') :
    (∀ limit ∈ ctx.resolved.spendLimits,
      spentSince s.spendEntries limit.mint (now - limit.window) +
        counted signer instructions limit ≤ limit.amount) ∧
    s'.spendEntries = pruneSpends now (s.spendEntries ++
      entriesOf now signer (analyzeInstructions instructions signer).tokenTransfers) := by
  unfold enforce at h
  dsimp only at h
  split at h
  · cases h
  · rename_i hnone
    cases h
    exact ⟨check_eq_nil (not_not.mp hnone), recordTransfers_spendEntries _ _⟩

end Effect

end Sigil.Client.Shield
