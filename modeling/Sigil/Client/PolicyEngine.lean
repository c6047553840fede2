import Sigil.Client.Policies
import Sigil.Library.BoundedLog

/-! # The policy engine

The engine checks what a transaction would do against a set of policies and a record of what was
done before. Its record holds a fixed number of the newest spends, of all mints together, and as
many of the newest transactions.

The texts of the objections are left out. They are made from the fields that stand here.
-/

namespace Sigil.Client.Core

open BoundedLog
open X402 (SpendEntry)

section Registry

def systemPrograms : List String :=
  ["11111111111111111111111111111111", "TokenkegQfeZyiNwAJbNbGKPFXCWuBvf9Ss623VQ5DA",
    "ATokenGPvbdGVxr1b2hvZbsiqW5xWH25efTNsLJA8knL",
    "TokenzQdBNbLqP5VEhdkAS6EPFLC1PHnBqCXEpPxuEb", "ComputeBudget111111111111111111111111111111",
    "SysvarRent111111111111111111111111111111111", "SysvarC1ock11111111111111111111111111111111"]

def knownProtocols : List String :=
  ["JUP6LkbZbjS1jKKwapdHNy74zcZ3tLUZoi5QNyVTaV4", "JUP4Fb2cqiRUcaTHdrPC8h2gNsA2ETXiPDD33WcPX7a",
    "JUP2jxvXaqu7NQY1GmNF4m1vodw12LVXYxbFL2uN4e7", "JLend2fEim9xUFcaHsyGePEoBzFLvkjMi3MnPcSuCdu",
    "j1to2GQCsfSHNPfVKMcrUNyRBK8DPYECpEVPLkz1MKv",
    "DCA265Vj8a9CEuX1eb1LWRnDT7uK6q1xMipnNyatn23M",
    "whirLbMiicVdio4qvUfM5KAg6Ct8VwpYzGff3uctyCc",
    "9W959DqEETiGZocYWCQPaJ6sBmUzgfxXfqGeTEdp3aQP",
    "675kPX9MHTjS2zt1qfr1NYHuzeLXfQM9H24wFSUt1Mp8",
    "CAMMCzo5YL8w4VFF8KVHrK22GGUsp5VTaW7grrKgrWqK",
    "CPMMoo8L3F4NbTegBCKVNunggL7H1ZpdTHKxQB5qKP1C",
    "LBUZKhRxPF3XUpBCjp4YzTKgLccjZhTSDM9YuVaPwxo",
    "Eo7WjKq67rjJQSZxS6z3YkapzY3eMj6Xy8X5EQVn5UaB",
    "SSwpkEEcbUqx4vtoEByFjSkhKdCT862DNVb52nZg1UZ",
    "DecZY86MU5Gj7kppfUCEmd4LbXXuyZH1yHaP2NTqdiZB",
    "FLASH6Lo6h3iasJKWDs2F8TkW2UKf3s15C8PMGuVfgBn",
    "FSWAPViR8ny5K96hezav8jynVubP2dJ2L7SbKzds2hwm",
    "dRiftyHA39MWEi3m9aunc5MzRF1JYuBsbn6VPcn33UH", "MNGOHoFrnGrovWiCc9kHZB8xEBKM1XPYnZCpWFbRCev",
    "KLend2g3cP87ber8CzRaqeECGwNvLFM9acPVcRkRHvM", "MFv2hWf31Z9kbCa1snEPYctwafyhdvnV7FZnsebVacA",
    "So1endDq2YkqhipRh3WViPa8hFMqDSRbsHTE15WSnBt", "MarBmsSgKXdrN1egZf5sqe1TMai9K1rChYNDJgjq7aD",
    "SPoo1Ku8WFXoNDMHPsrGSTSG1Y47rzgn41SLUNakuHy",
    "J1toso1uCk3RLmjorhTtrVwY9HJ7X8V9yYac6Y7kGCPn", "11111111111111111111111111111111",
    "TokenkegQfeZyiNwAJbNbGKPFXCWuBvf9Ss623VQ5DA",
    "ATokenGPvbdGVxr1b2hvZbsiqW5xWH25efTNsLJA8knL",
    "TokenzQdBNbLqP5VEhdkAS6EPFLC1PHnBqCXEpPxuEb", "ComputeBudget111111111111111111111111111111",
    "SysvarRent111111111111111111111111111111111", "SysvarC1ock11111111111111111111111111111111"]

def isSystemProgram (programId : String) : Bool := programId ∈ systemPrograms

def isKnownProtocol (programId : String) : Bool := programId ∈ knownProtocols

end Registry

section State

def maxSpendEntries : ℕ := 5000

def maxTxEntries : ℕ := 5000

structure ShieldState where
  spendEntries : List SpendEntry
  txEntries : List ℤ
  spends_le : spendEntries.length ≤ maxSpendEntries
  txs_le : txEntries.length ≤ maxTxEntries

namespace ShieldState

def empty : ShieldState := ⟨[], [], Nat.zero_le _, Nat.zero_le _⟩

variable (now : ℤ) (s : ShieldState)

def recordSpend (mint : String) (amount : ℕ) : ShieldState :=
  { s with
    spendEntries := keepLast maxSpendEntries (s.spendEntries ++ [⟨mint, amount, now⟩])
    spends_le := length_keepLast_le _ _ }

def recordTransaction : ShieldState :=
  { s with
    txEntries := keepLast maxTxEntries (s.txEntries ++ [now])
    txs_le := length_keepLast_le _ _ }

def getSpendInWindow (mint : String) (windowMs : ℤ) : ℕ :=
  spentSince s.spendEntries mint (now - windowMs)

def getTransactionCountInWindow (windowMs : ℤ) : ℕ := countSince s.txEntries (now - windowMs)

end ShieldState

end State

section Engine

def defaultAddress : String := "11111111111111111111111111111111"

/-- The key under which a transfer is counted; a mint that is not known has one of its own. -/
def mintKey (mint : String) : String :=
  if mint = defaultAddress ∨ mint = "" then "unknown" else mint

inductive PolicyViolation
  | protocolNotAllowed (programId : String)
  | unknownProgram (programId : String)
  | tokenNotAllowed (tokenMint : String)
  | spendingCap (limit attempted remaining : ℕ) (tokenMint : String)
  | transactionSize (limit attempted : ℕ)
  | rateLimit (count maxTransactions : ℕ) (windowMs : ℤ)
  deriving DecidableEq

variable (analysis : TransactionAnalysis) (policies : ResolvedPolicies) (s : ShieldState) (now : ℤ)

def checkPrograms : List PolicyViolation :=
  analysis.programIds.flatMap fun programId =>
    if isSystemProgram programId then []
    else match policies.allowedProtocols with
      | some allowed => if programId ∈ allowed then [] else [.protocolNotAllowed programId]
      | none =>
        if policies.blockUnknownPrograms ∧ ¬ isKnownProtocol programId then
          [.unknownProgram programId]
        else []

def checkTokens : List PolicyViolation :=
  match policies.allowedTokens with
  | none => []
  | some allowed =>
    (analysis.transfers.filter fun t => t.direction = .outgoing ∧
      ¬ (t.mint = defaultAddress ∨ t.mint = "") ∧ t.mint ∉ allowed).map (.tokenNotAllowed ·.mint)

def txSpend (key : String) : ℕ :=
  ((analysis.transfers.filter fun t => t.direction = .outgoing ∧ mintKey t.mint = key).map
    TokenTransfer.amount).sum

def checkSpendingCap (limit : SpendLimit) : List PolicyViolation :=
  let attempted := txSpend analysis limit.mint
  if attempted = 0 then []
  else
    let currentSpend := s.getSpendInWindow now limit.mint limit.window
    if limit.amount < currentSpend + attempted then
      [.spendingCap limit.amount attempted (limit.amount - currentSpend) limit.mint]
    else []

def checkSpendingCaps : List PolicyViolation :=
  policies.spendLimits.flatMap (checkSpendingCap analysis s now)

/-- A size of zero is no limit. -/
def checkTransactionSize : List PolicyViolation :=
  match policies.maxTransactionSize with
  | none => []
  | some max =>
    if max ≠ 0 ∧ max < analysis.estimatedValueLamports then
      [.transactionSize max analysis.estimatedValueLamports]
    else []

def checkRateLimit : List PolicyViolation :=
  let count := s.getTransactionCountInWindow now policies.rateLimit.windowMs
  if policies.rateLimit.maxTransactions ≤ count then
    [.rateLimit count policies.rateLimit.maxTransactions policies.rateLimit.windowMs]
  else []

def evaluatePolicy : List PolicyViolation :=
  checkPrograms analysis policies ++ checkTokens analysis policies ++
    checkSpendingCaps analysis policies s now ++ checkTransactionSize analysis policies ++
    checkRateLimit policies s now

def enforcePolicy : Except (List PolicyViolation) Unit :=
  let violations := evaluatePolicy analysis policies s now
  if violations = [] then .ok () else .error violations

def recordTransfer (s : ShieldState) (transfer : TokenTransfer) : ShieldState :=
  if transfer.direction = .outgoing then s.recordSpend now (mintKey transfer.mint) transfer.amount
  else s

def recordTransaction : ShieldState :=
  (analysis.transfers.foldl (recordTransfer now) s).recordTransaction now

end Engine

section Specification

variable {analysis : TransactionAnalysis} {policies : ResolvedPolicies} {s : ShieldState} {now : ℤ}

def entriesOf (now : ℤ) (transfers : List TokenTransfer) : List SpendEntry :=
  (transfers.filter fun t => t.direction = .outgoing).map fun t => ⟨mintKey t.mint, t.amount, now⟩

theorem entriesOf_timestamp {transfers : List TokenTransfer} {e : SpendEntry}
    (he : e ∈ entriesOf now transfers) : e.timestamp = now := by
  obtain ⟨t, -, rfl⟩ := List.mem_map.mp he
  rfl

theorem sum_entriesOf (key : String) :
    (((entriesOf now analysis.transfers).filter fun e => e.mint = key).map SpendEntry.amount).sum =
      txSpend analysis key := by
  unfold entriesOf txSpend
  rw [List.filter_map, List.map_map, List.filter_filter]
  refine congrArg (fun l => (l.map TokenTransfer.amount).sum) (List.filter_congr fun t _ => ?_)
  simp [Bool.and_comm]

theorem foldl_recordTransfer_spendEntries (transfers : List TokenTransfer) :
    (transfers.foldl (recordTransfer now) s).spendEntries =
      keepLast maxSpendEntries (s.spendEntries ++ entriesOf now transfers) := by
  induction transfers generalizing s with
  | nil =>
    rw [entriesOf, List.filter_nil, List.map_nil, List.append_nil, keepLast_of_le s.spends_le]
    rfl
  | cons t transfers ih =>
    rw [List.foldl_cons, ih]
    by_cases ht : t.direction = .outgoing
    · have hrecord : (recordTransfer now s t).spendEntries =
          keepLast maxSpendEntries (s.spendEntries ++ [⟨mintKey t.mint, t.amount, now⟩]) := by
        rw [recordTransfer, if_pos ht]
        rfl
      rw [hrecord, keepLast_append, List.append_assoc]
      simp [entriesOf, ht]
    · rw [recordTransfer, if_neg ht]
      simp [entriesOf, ht]

theorem foldl_recordTransfer_txEntries (transfers : List TokenTransfer) :
    (transfers.foldl (recordTransfer now) s).txEntries = s.txEntries := by
  induction transfers generalizing s with
  | nil => rfl
  | cons t transfers ih =>
    rw [List.foldl_cons, ih, recordTransfer]
    split <;> rfl

theorem recordTransaction_spendEntries : (recordTransaction analysis s now).spendEntries =
    keepLast maxSpendEntries (s.spendEntries ++ entriesOf now analysis.transfers) :=
  foldl_recordTransfer_spendEntries analysis.transfers

theorem recordTransaction_txEntries : (recordTransaction analysis s now).txEntries =
    keepLast maxTxEntries (s.txEntries ++ [now]) := by
  change keepLast maxTxEntries
    ((analysis.transfers.foldl (recordTransfer now) s).txEntries ++ [now]) = _
  rw [foldl_recordTransfer_txEntries]

theorem checkSpendingCap_eq_nil_iff {limit : SpendLimit} :
    checkSpendingCap analysis s now limit = [] ↔ txSpend analysis limit.mint = 0 ∨
      s.getSpendInWindow now limit.mint limit.window + txSpend analysis limit.mint ≤
        limit.amount := by
  unfold checkSpendingCap
  by_cases hzero : txSpend analysis limit.mint = 0
  · simp [hzero]
  · simp [hzero]

theorem checkRateLimit_eq_nil_iff : checkRateLimit policies s now = [] ↔
    s.getTransactionCountInWindow now policies.rateLimit.windowMs <
      policies.rateLimit.maxTransactions := by
  simp [checkRateLimit]

theorem enforcePolicy_ok (h : enforcePolicy analysis policies s now = .ok ()) :
    (∀ limit ∈ policies.spendLimits, txSpend analysis limit.mint = 0 ∨
      s.getSpendInWindow now limit.mint limit.window + txSpend analysis limit.mint ≤
        limit.amount) ∧
    s.getTransactionCountInWindow now policies.rateLimit.windowMs <
      policies.rateLimit.maxTransactions := by
  unfold enforcePolicy at h
  dsimp only at h
  split at h
  · rename_i hnone
    simp only [evaluatePolicy, checkSpendingCaps, List.append_eq_nil_iff, List.flatMap_eq_nil_iff,
      checkSpendingCap_eq_nil_iff, checkRateLimit_eq_nil_iff] at hnone
    exact ⟨hnone.1.1.2, hnone.2⟩
  · cases h

end Specification

end Sigil.Client.Core
