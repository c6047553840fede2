import Sigil.Instructions.Funds

/-! # Post-execution assertions

An owner can attach up to eight assertions to a vault. They are checked for shape when they are
stored, `validate_and_authorize` takes the snapshots they need, and `finalize_session` evaluates
them against the accounts it is given.
-/

namespace Sigil

open Machine Guard SelfDelimiting TokenLedger

section Compare

/-- Compare two numbers byte by byte from position `i - 1` down, with padding on both sides. -/
def compareBelow (a b : List UInt8) (aPad bPad : UInt8) : ℕ → Ordering
  | 0 => .eq
  | i + 1 =>
    if b.getD i bPad < a.getD i aPad then .gt
    else if a.getD i aPad < b.getD i bPad then .lt
    else compareBelow a b aPad bPad i

def compareLeUnsigned (a b : List UInt8) : Ordering :=
  compareBelow a b 0 0 (max a.length b.length)

/-- The top bit of the last byte. -/
def isNegativeLe (a : List UInt8) : Bool := a.getLast?.any fun b => b &&& 0x80 ≠ 0

def compareLeSigned (a b : List UInt8) : Ordering :=
  match isNegativeLe a, isNegativeLe b with
  | true, false => .lt
  | false, true => .gt
  | true, true => compareBelow a b 0xFF 0xFF (max a.length b.length)
  | false, false => compareBelow a b 0 0 (max a.length b.length)

def bitmaskCheck (actual mask : List UInt8) : Bool :=
  mask.zipIdx.all fun (m, i) => actual.getD i 0 &&& m = m

def bytesMatch (actual : List UInt8) (operator : ConstraintOperator) (expected : List UInt8) :
    Bool :=
  match operator with
  | .eq => actual = expected
  | .ne => actual ≠ expected
  | .gte => compareLeUnsigned actual expected ≠ .lt
  | .lte => compareLeUnsigned actual expected ≠ .gt
  | .gteSigned => compareLeSigned actual expected ≠ .lt
  | .lteSigned => compareLeSigned actual expected ≠ .gt
  | .bitmask => bitmaskCheck actual expected

end Compare

namespace PostAssertionEntry

variable (e : PostAssertionEntry)

/-- The mint that the modes on token balances keep in the expected value. -/
def mint : Pubkey := keyAt e.expectedValue 0

def auxAmount : UInt64 := u64At e.auxValue.toList 0

def auxIsZero : Bool := e.auxValue = List.Vector.replicate 8 0

/-- The entry as it is stored: the expected value has exactly 32 bytes. -/
def stored : PostAssertionEntry :=
  { e with expectedValue :=
      (e.expectedValue ++ List.replicate maxConstraintValueLen 0).take maxConstraintValueLen }

def validateBytes : Result Unit := do
  ensure (0 < e.valueLen ∧ e.valueLen.toNat ≤ maxConstraintValueLen) .invalidConstraintConfig
  ensure (e.valueLen.toNat ≤ e.expectedValue.length) .invalidConstraintConfig
  ensure ((ConstraintOperator.tryFrom e.operator).isSome = true) .invalidConstraintOperator
  ensure (1 ≤ e.assertionMode ∧ e.assertionMode ≤ 3 → e.valueLen ≤ 8) .invalidConstraintConfig
  ensure (e.auxIsZero = true) .invalidConstraintConfig
  ensure (e.auxByte = 0) .invalidConstraintConfig

def validate : Result Unit := do
  let mode ← someOr .invalidConstraintConfig (AssertionMode.tryFrom e.assertionMode)
  match mode with
  | .mintDeltaCap => do
    ensure (32 ≤ e.expectedValue.length) .invalidConstraintConfig
    ensure (e.auxByte ≤ 1) .invalidConstraintConfig
    ensure (0 < e.auxAmount) .invalidConstraintConfig
  | .ataAuthorityPin => do
    ensure (e.targetAccount ≠ Pubkey.default) .invalidConstraintConfig
    ensure (e.auxIsZero = true) .invalidConstraintConfig
    ensure (e.auxByte = 0) .invalidConstraintConfig
  | .outputBalanceFloor => do
    ensure (e.targetAccount ≠ Pubkey.default) .invalidConstraintConfig
    ensure (32 ≤ e.expectedValue.length) .invalidConstraintConfig
    ensure (0 < e.auxAmount) .invalidConstraintConfig
    ensure (e.auxByte = 0) .invalidConstraintConfig
  | .declarationConsistency => do
    ensure (e.targetAccount ≠ Pubkey.default) .invalidConstraintConfig
    ensure (32 ≤ e.expectedValue.length) .invalidConstraintConfig
    ensure (e.mint ≠ Pubkey.default) .invalidConstraintConfig
    ensure (e.auxByte < 64) .invalidConstraintConfig
    ensure (e.auxIsZero = true) .invalidConstraintConfig
  | _ => e.validateBytes

end PostAssertionEntry

def validateEntries (entries : List PostAssertionEntry) : Result Unit := do
  ensure (entries ≠ [] ∧ entries.length ≤ maxPostAssertionEntries) .invalidConstraintConfig
  entries.forM PostAssertionEntry.validate

section Handlers

variable {D : Type} [Host D]

/-- The accounts with the mark of stored assertions set or taken away. -/
def VaultAccounts.markAssertions (a : VaultAccounts D) (mark : UInt8) : VaultAccounts D :=
  { a with policy := { a.policy with hasPostAssertions := mark } }

def createPostAssertions [DecidableEq D] (env : Env) (owner : Pubkey)
    (entries : List PostAssertionEntry) (expectedDigest : D) (l : Ledger D) :
    Result (Ledger D) := do
  let a ← l.loadAsOwner owner
  mustBeNew l.postAssertions
  rejectCpi env
  validateEntries entries
  let marked := a.markAssertions 1
  ensure (liveDigest marked.vault marked.policy = expectedDigest) .policyPreviewMismatch
  let sealed ← marked.reseal
  return { l with
    live := some sealed
    postAssertions := some ⟨l.vaultKey, entries.map PostAssertionEntry.stored⟩ }

def closePostAssertions [DecidableEq D] (env : Env) (owner : Pubkey)
    (remaining : List AccountMeta) (expectedDigest : D) (l : Ledger D) : Result (Ledger D) := do
  let a ← l.loadAsOwner owner
  let _ ← mustExist l.postAssertions
  rejectCpi env
  a.cosignGate remaining
  let marked := a.markAssertions 0
  ensure (liveDigest marked.vault marked.policy = expectedDigest) .policyPreviewMismatch
  let sealed ← marked.reseal
  return { l with live := some sealed, postAssertions := none }

variable [DecidableEq D] {env : Env} {owner : Pubkey} {remaining : List AccountMeta}
  {expectedDigest : D} {l l' : Ledger D}

theorem createPostAssertions_ok {entries : List PostAssertionEntry}
    (h : createPostAssertions env owner entries expectedDigest l = .ok l') :
    ∃ (a : VaultAccounts D) (assertions : PostExecutionAssertions) (version : UInt64),
      l.live = some a ∧ a.vault.owner = owner ∧ l.postAssertions = none ∧
      version.toNat = a.policy.policyVersion.toNat + 1 ∧
      l' = { l with
        live := some ((a.markAssertions 1).sealedAt version)
        postAssertions := some assertions } := by
  simp only [createPostAssertions, seq_ok_iff, Ledger.loadAsOwner_ok_iff, mustBeNew_ok_iff,
    rejectCpi_ok_iff, ensure_ok_iff, VaultAccounts.reseal_ok_iff, exists_and_left, exists_const,
    pure_ok_iff] at h
  obtain ⟨a, ⟨ha, howner⟩, hnew, -, -, -, -, sealed, ⟨version, hversion, rfl⟩, rfl⟩ := h
  exact ⟨a, _, version, ha, howner, hnew, hversion, rfl⟩

theorem createPostAssertions_stored {entries : List PostAssertionEntry}
    (h : createPostAssertions env owner entries expectedDigest l = .ok l') :
    validateEntries entries = .ok () ∧
      l'.postAssertions = some ⟨l.vaultKey, entries.map PostAssertionEntry.stored⟩ := by
  simp only [createPostAssertions, seq_ok_iff, pure_ok_iff] at h
  obtain ⟨a, -, -, -, -, -, ⟨⟩, hvalid, -, -, sealed, -, rfl⟩ := h
  exact ⟨hvalid, rfl⟩

theorem closePostAssertions_ok
    (h : closePostAssertions env owner remaining expectedDigest l = .ok l') :
    ∃ (a : VaultAccounts D) (version : UInt64), l.live = some a ∧ a.vault.owner = owner ∧
      (a.policy.cosignRequired = true →
        hasBoundCosigner remaining a.policy.cosignSessionPubkey = true) ∧
      version.toNat = a.policy.policyVersion.toNat + 1 ∧
      l' = { l with
        live := some ((a.markAssertions 0).sealedAt version)
        postAssertions := none } := by
  simp only [closePostAssertions, seq_ok_iff, Ledger.loadAsOwner_ok_iff, mustExist_ok_iff,
    rejectCpi_ok_iff, ensure_ok_iff, VaultAccounts.cosignGate_ok_iff,
    VaultAccounts.reseal_ok_iff, exists_and_left, exists_const, pure_ok_iff] at h
  obtain ⟨a, ⟨ha, howner⟩, -, -, -, hcosign, -, sealed, ⟨version, hversion, rfl⟩, rfl⟩ := h
  exact ⟨a, version, ha, howner, hcosign, hversion, rfl⟩

end Handlers

section Evaluate

variable {D : Type} [Host D]

def isTokenProgram (key : Pubkey) : Bool := key = tokenProgramId ∨ key = token2022ProgramId

/-- The balance fields of an account that a token program owns. -/
def readToken (info : AccountInfo) : Option TokenView :=
  if isTokenProgram info.owner then tokenView info.data else none

def PostAssertionEntry.slice (e : PostAssertionEntry) (data : List UInt8) : Result (List UInt8) :=
  do
    ensure (e.offset.toNat + e.valueLen.toNat ≤ data.length) .postAssertionFailed
    return (data.drop e.offset.toNat).take e.valueLen.toNat

/-- Add the vault's balance in one of its associated accounts; an account that is not such a
balance counts as zero. -/
def addVaultBalance (vaultKey mint : Pubkey) (info : AccountInfo) (total : UInt64) :
    Result UInt64 :=
  match readToken info with
  | some view =>
    addWhen (view.mint = mint ∧ view.owner = vaultKey) total view.amount
  | none => .ok total

variable (D) in
/-- The vault's associated accounts for a mint, one for each token program. -/
def deriveVaultAtas (vaultKey mint : Pubkey) : List Pubkey :=
  [associatedTokenAddress D vaultKey mint tokenProgramId,
    associatedTokenAddress D vaultKey mint token2022ProgramId]

/-- The vault's balance of a mint: over its two associated accounts, or in one named account. -/
def sumVaultMintBalance (env : Env) (l : Ledger D) (mint : Pubkey) (scope : UInt8)
    (targetAccount : Pubkey) (remaining : List AccountMeta) : Result UInt64 :=
  if scope = 0 then do
    let first ← someOr .mintDeltaCapMisconfigured (l.listedInfo env remaining
      (associatedTokenAddress D l.vaultKey mint tokenProgramId))
    let sum ← addVaultBalance l.vaultKey mint first 0
    let second ← someOr .mintDeltaCapMisconfigured (l.listedInfo env remaining
      (associatedTokenAddress D l.vaultKey mint token2022ProgramId))
    addVaultBalance l.vaultKey mint second sum
  else if scope = 1 then do
    let info ← someOr .mintDeltaCapMisconfigured (l.listedInfo env remaining targetAccount)
    let view ← someOr .mintDeltaCapMisconfigured (readToken info)
    ensure (view.mint = mint ∧ view.owner = l.vaultKey) .mintDeltaCapMisconfigured
    return view.amount
  else fail .mintDeltaCapMisconfigured

/-- The stored assertions, when their account is among the listed ones. -/
def loadAssertions (l : Ledger D) (remaining : List AccountMeta) :
    Result (Option PostExecutionAssertions) :=
  if remaining.any fun m => m.pubkey = accountAddress D "post_assertions" l.vaultKey then do
    let assertions ← someOr .postAssertionFailed l.postAssertions
    ensure (assertions.vault = l.vaultKey) .postAssertionFailed
    return some assertions
  else .ok none

/-- What a session remembers of an account for one assertion, with its length. -/
def captureSnapshot (env : Env) (l : Ledger D) (remaining : List AccountMeta)
    (e : PostAssertionEntry) : Result (List UInt8 × UInt8) :=
  let padded (bytes : List UInt8) := (bytes ++ List.replicate 32 0).take 32
  match AssertionMode.tryFrom e.assertionMode with
  | some .mintDeltaCap => do
    let sum ← sumVaultMintBalance env l e.mint e.auxByte e.targetAccount remaining
    return (padded (leBytes 8 sum.toNat), 8)
  | some .outputBalanceFloor => do
    let target ← someOr .postAssertionFailed (l.listedInfo env remaining e.targetAccount)
    let view ← someOr .postAssertionFailed (readToken target)
    ensure (view.mint = e.mint) .postAssertionFailed
    ensure (view.owner = l.vaultKey) .mintDeltaCapMisconfigured
    return (padded (leBytes 8 view.amount.toNat), 8)
  | some .absolute | some .ataAuthorityPin | some .declarationConsistency => .ok (padded [], 0)
  | _ => do
    let target ← someOr .postAssertionFailed (l.listedInfo env remaining e.targetAccount)
    let bytes ← e.slice target.data
    return (padded bytes, e.valueLen)

def verifyMintDeltaCap (env : Env) (l : Ledger D) (remaining : List AccountMeta)
    (e : PostAssertionEntry) (snapshot : List UInt8) (snapshotLen : UInt8) : Result Unit := do
  ensure (snapshotLen = 8) .snapshotNotCaptured
  let postSum ← sumVaultMintBalance env l e.mint e.auxByte e.targetAccount remaining
  ensure (saturatingSub (u64At snapshot 0) postSum ≤ e.auxAmount) .errMintDeltaCapExceeded

def verifyAtaAuthorityPin (env : Env) (l : Ledger D) (remaining : List AccountMeta)
    (e : PostAssertionEntry) : Result Unit := do
  let target ← someOr .errAtaAuthorityChanged (l.listedInfo env remaining e.targetAccount)
  ensure (isTokenProgram target.owner = true) .errAtaAuthorityChanged
  ensure (165 ≤ target.data.length) .errAtaAuthorityChanged
  ensure (keyAt target.data 32 = l.vaultKey) .errAtaAuthorityChanged

def verifyOutputBalanceFloor (env : Env) (l : Ledger D) (remaining : List AccountMeta)
    (e : PostAssertionEntry) (snapshot : List UInt8) (snapshotLen : UInt8) : Result Unit := do
  ensure (snapshotLen = 8) .snapshotNotCaptured
  let target ← someOr .postAssertionFailed (l.listedInfo env remaining e.targetAccount)
  let view ← someOr .postAssertionFailed (readToken target)
  ensure (view.owner = l.vaultKey) .mintDeltaCapMisconfigured
  ensure (e.auxAmount ≤ saturatingSub view.amount (u64At snapshot 0)) .errOutputBelowFloor

def precedingInstruction (env : Env) : Option Instruction :=
  if 1 ≤ env.currentIndex then env.instructions[env.currentIndex - 1]? else none

def verifyDeclarationConsistency (env : Env) (l : Ledger D) (remaining : List AccountMeta)
    (e : PostAssertionEntry) : Result Unit := do
  let defiIx ← someOr .errDeclarationInconsistent (precedingInstruction env)
  let m ← someOr .errDeclarationInconsistent defiIx.accounts[e.auxByte.toNat]?
  let target ← someOr .errDeclarationInconsistent (l.listedInfo env remaining m.pubkey)
  ensure (isTokenProgram target.owner = true) .errDeclarationInconsistent
  ensure (165 ≤ target.data.length) .errDeclarationInconsistent
  ensure (keyAt target.data 0 = e.mint) .errDeclarationInconsistent
  ensure (keyAt target.data 32 = e.targetAccount) .errDeclarationInconsistent

/-- An assertion on the bytes of an account, against the owner's value or the snapshot. -/
def verifyBytes (env : Env) (l : Ledger D) (remaining : List AccountMeta) (mode : AssertionMode)
    (e : PostAssertionEntry) (snapshot : List UInt8) (snapshotLen : UInt8) : Result Unit := do
  let target ← someOr .invalidPostAssertionIndex (l.listedInfo env remaining e.targetAccount)
  let actual ← e.slice target.data
  let expected := e.expectedValue.take e.valueLen.toNat
  let before := snapshot.take e.valueLen.toNat
  match mode with
  | .absolute => do
    let operator ← someOr .invalidConstraintOperator (ConstraintOperator.tryFrom e.operator)
    ensure (bytesMatch actual operator expected = true) .postAssertionFailed
  | .maxDecrease => do
    ensure (snapshotLen = e.valueLen) .snapshotNotCaptured
    ensure (saturatingSub (u64At before 0) (u64At actual 0) ≤ u64At expected 0)
      .postAssertionFailed
  | .maxIncrease => do
    ensure (snapshotLen = e.valueLen) .snapshotNotCaptured
    ensure (saturatingSub (u64At actual 0) (u64At before 0) ≤ u64At expected 0)
      .postAssertionFailed
  | .noChange => do
    ensure (snapshotLen = e.valueLen) .snapshotNotCaptured
    ensure (actual = before) .postAssertionFailed
  | _ => fail .postAssertionFailed

def verifyEntry (env : Env) (l : Ledger D) (remaining : List AccountMeta)
    (e : PostAssertionEntry) (snapshot : List UInt8) (snapshotLen : UInt8) : Result Unit := do
  let mode ← someOr .invalidConstraintConfig (AssertionMode.tryFrom e.assertionMode)
  match mode with
  | .mintDeltaCap => verifyMintDeltaCap env l remaining e snapshot snapshotLen
  | .ataAuthorityPin => verifyAtaAuthorityPin env l remaining e
  | .outputBalanceFloor => verifyOutputBalanceFloor env l remaining e snapshot snapshotLen
  | .declarationConsistency => verifyDeclarationConsistency env l remaining e
  | _ => verifyBytes env l remaining mode e snapshot snapshotLen

def SessionAuthority.snapshotAt (s : SessionAuthority) (i : ℕ) : List UInt8 × UInt8 :=
  if hi : i < maxPostAssertionEntries then (s.assertionSnapshots ⟨i, hi⟩, s.snapshotLens ⟨i, hi⟩)
  else ([], 0)

def enforcePostExecutionAssertions (env : Env) (l : Ledger D) (remaining : List AccountMeta)
    (s : SessionAuthority) : Result Unit := do
  let found ← loadAssertions l remaining
  let assertions ← someOr .postAssertionFailed found
  assertions.entries.zipIdx.forM fun (e, i) =>
    verifyEntry env l remaining e (s.snapshotAt i).1 (s.snapshotAt i).2

end Evaluate

end Sigil
