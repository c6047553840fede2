import Mathlib.Tactic.IntervalCases
import Sigil.Instructions.PostAssertions
import Sigil.Library.Slices

/-! # The reads of the assertions

The two ends of a session read the stored assertions, the snapshots and the listed accounts through
slices of their bytes. Here these functions are written with the slices the program takes, and they
return what the model's functions do: for a list that was accepted, no slice is out of range,
whatever data the accounts hold.
-/

namespace Sigil

open Machine Guard SelfDelimiting Slices

section Shape

/-- The modes that compare an account with its snapshot byte by byte. -/
def AssertionMode.isDelta : AssertionMode → Bool
  | maxDecrease | maxIncrease | noChange => true
  | _ => false

/-- The modes that read a range of an account's bytes. -/
def AssertionMode.readsBytes (mode : AssertionMode) : Bool := mode = absolute ∨ mode.isDelta

theorem AssertionMode.between_of_isDelta {v : UInt8} {mode : AssertionMode}
    (h : tryFrom v = some mode) (hdelta : mode.isDelta = true) : 1 ≤ v ∧ v ≤ 3 := by
  obtain ⟨hlt, hget⟩ := List.getElem?_eq_some_iff.mp h
  change v.toNat < 8 at hlt
  rw [UInt8.le_iff_toNat_le, UInt8.le_iff_toNat_le]
  change 1 ≤ v.toNat ∧ v.toNat ≤ 3
  generalize v.toNat = n at hlt hget
  subst hget
  interval_cases n <;> first | cases hdelta; done | decide

namespace PostAssertionEntry

structure WellShaped (e : PostAssertionEntry) (mode : AssertionMode) : Prop where
  known : AssertionMode.tryFrom e.assertionMode = some mode
  size : e.expectedValue.length = maxConstraintValueLen
  bytes : mode.readsBytes = true → 0 < e.valueLen.toNat ∧ e.valueLen.toNat ≤ maxConstraintValueLen
  delta : mode.isDelta = true → e.valueLen.toNat ≤ 8
  floor : mode = .outputBalanceFloor → 0 < e.auxAmount

theorem length_stored (e : PostAssertionEntry) :
    e.stored.expectedValue.length = maxConstraintValueLen := by
  simp [stored]

theorem wellShaped_stored {e : PostAssertionEntry} (h : e.validate = .ok ()) :
    ∃ mode, e.stored.WellShaped mode := by
  simp only [validate, seq_ok_iff, someOr_ok_iff] at h
  obtain ⟨mode, hmode, h⟩ := h
  refine ⟨mode, hmode, e.length_stored, fun hbytes => ?_, fun hdelta => ?_, ?_⟩
  · have hbody : e.validateBytes = .ok () := by
      cases mode <;> first | exact h | cases hbytes
    simp only [validateBytes, seq_ok_iff, ensure_ok_iff, exists_and_left, exists_const] at hbody
    exact ⟨hbody.1.1, hbody.1.2⟩
  · have hbody : e.validateBytes = .ok () := by
      cases mode <;> first | exact h | cases hdelta
    simp only [validateBytes, seq_ok_iff, ensure_ok_iff, exists_and_left, exists_const] at hbody
    exact hbody.2.2.2.1 (AssertionMode.between_of_isDelta hmode hdelta)
  · rintro rfl
    simp only [seq_ok_iff, ensure_ok_iff, exists_and_left, exists_const] at h
    exact h.2.2.1

theorem slice_ok {e : PostAssertionEntry} {data bytes : List UInt8} (h : e.slice data = .ok bytes) :
    e.offset.toNat + e.valueLen.toNat ≤ data.length ∧
      bytes = (data.drop e.offset.toNat).take e.valueLen.toNat := by
  simp only [slice, seq_ok_iff, ensure_ok_iff, exists_and_left, exists_const, pure_ok_iff] at h
  exact ⟨h.1, h.2.symm⟩

theorem length_of_slice_ok {e : PostAssertionEntry} {data bytes : List UInt8}
    (h : e.slice data = .ok bytes) : bytes.length = e.valueLen.toNat := by
  obtain ⟨hle, rfl⟩ := slice_ok h
  rw [List.length_take, List.length_drop]
  omega

end PostAssertionEntry

/-- The list was accepted before it was stored. -/
def PostExecutionAssertions.Accepted (A : PostExecutionAssertions) : Prop :=
  ∃ entries, validateEntries entries = .ok () ∧ A.entries = entries.map PostAssertionEntry.stored

namespace PostExecutionAssertions.Accepted

variable {A : PostExecutionAssertions} {i : ℕ} {e : PostAssertionEntry}

theorem wellShaped (h : A.Accepted) (he : A.entries[i]? = some e) :
    i < maxPostAssertionEntries ∧ ∃ mode, e.WellShaped mode := by
  obtain ⟨entries, hvalid, hentries⟩ := h
  simp only [validateEntries, seq_ok_iff, ensure_ok_iff, forM_ok_iff, exists_and_left,
    exists_const] at hvalid
  rw [hentries, List.getElem?_map, Option.map_eq_some_iff] at he
  obtain ⟨raw, hraw, rfl⟩ := he
  obtain ⟨hlt, -⟩ := List.getElem?_eq_some_iff.mp hraw
  exact ⟨hlt.trans_le hvalid.1.2, PostAssertionEntry.wellShaped_stored
    (hvalid.2 raw (List.mem_of_getElem? hraw))⟩

end PostExecutionAssertions.Accepted

end Shape

namespace Indexed

/-- What the program reads, unless it fails or panics. -/
abbrev Read (α : Type) := Panicking ProgramError α

section Arrays

def newFromArray (bytes : List UInt8) : Read Pubkey := do
  let array ← copyFromSlice (List.replicate 32 0) 32 bytes
  return keyAt array 0

/-- A word, from the first bytes of a buffer of eight. -/
def fromLeBytes (len : ℕ) (bytes : List UInt8) : Read UInt64 := do
  let buffer ← copyFromSlice (List.replicate 8 0) len bytes
  return u64At buffer 0

def readKey (data : List UInt8) (start stop : ℕ) : Read Pubkey := do
  let bytes ← slice data start stop
  newFromArray bytes

theorem returns_newFromArray {data : List UInt8} {start : ℕ} (h : start + 32 ≤ data.length) :
    Returns (newFromArray ((data.drop start).take (start + 32 - start)))
      (.ok (keyAt data start)) := by
  have hlen : ((data.drop start).take (start + 32 - start)).length = 32 := by
    rw [List.length_take, List.length_drop]
    omega
  refine (returns_copyFromSlice (by simp) hlen).ok_seq ?_
  have hkey : keyAt ((data.drop start).take (start + 32 - start) ++
      (List.replicate 32 0).drop 32) 0 = keyAt data start := by
    refine Subtype.ext ?_
    simp only [keyAt]
    rw [List.drop_zero, List.append_assoc, List.take_left' hlen, Nat.add_sub_cancel_left,
      List.take_append_of_le_length (by rw [List.length_drop]; omega)]
  exact hkey ▸ returns_pure _

theorem returns_readKey {data : List UInt8} {start : ℕ} (h : start + 32 ≤ data.length) :
    Returns (readKey data start (start + 32)) (.ok (keyAt data start)) :=
  (returns_slice (Nat.le_add_right _ _) h).ok_seq (returns_newFromArray h)

def readAmount (data : List UInt8) : Read UInt64 := do
  let bytes ← slice data 64 72
  fromLeBytes 8 bytes

theorem ofLeBytes_append_zeros (bytes : List UInt8) (n : ℕ) :
    ofLeBytes (bytes ++ List.replicate n 0) = ofLeBytes bytes := by
  induction bytes with
  | nil =>
    induction n with
    | zero => rfl
    | succ n ih => simpa [List.replicate_succ, ofLeBytes] using ih
  | cons b bytes ih => simp only [List.cons_append, ofLeBytes, ih]

theorem returns_fromLeBytes {bytes : List UInt8} {len : ℕ} (hlen : bytes.length = len)
    (h : len ≤ 8) : Returns (fromLeBytes len bytes) (.ok (u64At bytes 0)) := by
  refine (returns_copyFromSlice (by simpa using h) hlen).ok_seq ?_
  have hword : u64At (bytes ++ (List.replicate 8 0).drop len) 0 = u64At bytes 0 := by
    rw [u64At, u64At, List.drop_zero, List.drop_zero, List.drop_replicate,
      List.take_of_length_le (by simp; omega), List.take_of_length_le (by omega),
      ofLeBytes_append_zeros]
  exact hword ▸ returns_pure _

theorem returns_fromLeBytes_amount {data : List UInt8} (h : 72 ≤ data.length) :
    Returns (fromLeBytes 8 ((data.drop 64).take (72 - 64))) (.ok (u64At data 64)) := by
  have hword : u64At ((data.drop 64).take (72 - 64)) 0 = u64At data 64 := by
    rw [u64At, List.drop_zero, List.take_take]
    rfl
  exact hword ▸ returns_fromLeBytes (by simp; omega) le_rfl

theorem returns_readAmount {data : List UInt8} (h : 72 ≤ data.length) :
    Returns (readAmount data) (.ok (u64At data 64)) :=
  (returns_slice (by decide) h).ok_seq (returns_fromLeBytes_amount h)

end Arrays

section Tokens

variable {D : Type} [Host D]

/-- A field of a token account, behind the checks of its owner and its length. -/
def readTokenField {α : Type} (info : AccountInfo) (start stop : ℕ)
    (decode : List UInt8 → Read α) : Read (Option α) :=
  if isTokenProgram info.owner ∧ stop ≤ info.data.length then do
    let bytes ← slice info.data start stop
    let value ← decode bytes
    return some value
  else return none

def readTokenMint (info : AccountInfo) : Read (Option Pubkey) :=
  readTokenField info 0 32 newFromArray

def readTokenOwner (info : AccountInfo) : Read (Option Pubkey) :=
  readTokenField info 32 64 newFromArray

def readTokenAmount (info : AccountInfo) : Read (Option UInt64) :=
  readTokenField info 64 72 (fromLeBytes 8)

def addVaultBalance (vaultKey mint : Pubkey) (info : AccountInfo) (total : UInt64) :
    Read UInt64 :=
  if isTokenProgram info.owner ∧ 72 ≤ info.data.length then do
    let some accountMint ← readTokenMint info | return total
    if accountMint ≠ mint then return total
    let some accountOwner ← readTokenOwner info | return total
    if accountOwner ≠ vaultKey then return total
    let some amount ← readTokenAmount info | return total
    decided (someOr .overflow (checkedAdd total amount))
  else return total

def sumVaultMintBalance (env : Env) (l : Ledger D) (mint : Pubkey) (scope : UInt8)
    (targetAccount : Pubkey) (remaining : List AccountMeta) : Read UInt64 :=
  if scope = 0 then do
    let first ← decided (someOr .mintDeltaCapMisconfigured (l.listedInfo env remaining
      (associatedTokenAddress D l.vaultKey mint tokenProgramId)))
    let sum ← addVaultBalance l.vaultKey mint first 0
    let second ← decided (someOr .mintDeltaCapMisconfigured (l.listedInfo env remaining
      (associatedTokenAddress D l.vaultKey mint token2022ProgramId)))
    addVaultBalance l.vaultKey mint second sum
  else if scope = 1 then do
    let info ← decided (someOr .mintDeltaCapMisconfigured
      (l.listedInfo env remaining targetAccount))
    let accountMint ← readTokenMint info
    let accountMint ← decided (someOr .mintDeltaCapMisconfigured accountMint)
    decided (ensure (accountMint = mint) .mintDeltaCapMisconfigured)
    let accountOwner ← readTokenOwner info
    let accountOwner ← decided (someOr .mintDeltaCapMisconfigured accountOwner)
    decided (ensure (accountOwner = l.vaultKey) .mintDeltaCapMisconfigured)
    let amount ← readTokenAmount info
    decided (someOr .mintDeltaCapMisconfigured amount)
  else decided (fail .mintDeltaCapMisconfigured)

theorem returns_readTokenField {α : Type} {info : AccountInfo} {start stop : ℕ} {value : α}
    {decode : List UInt8 → Read α} (hle : start ≤ stop)
    (hdecode : stop ≤ info.data.length →
      Returns (decode ((info.data.drop start).take (stop - start))) (.ok value)) :
    Returns (readTokenField info start stop decode)
      (.ok (if isTokenProgram info.owner ∧ stop ≤ info.data.length then some value else none)) := by
  unfold readTokenField
  split
  · rename_i hlen
    exact (returns_slice hle hlen.2).ok_seq ((hdecode hlen.2).ok_seq (returns_pure _))
  · exact returns_pure _

theorem returns_readTokenMint (info : AccountInfo) :
    Returns (readTokenMint info) (.ok (if isTokenProgram info.owner ∧ 32 ≤ info.data.length
      then some (keyAt info.data 0) else none)) :=
  returns_readTokenField (by decide) fun h => returns_newFromArray h

theorem returns_readTokenOwner (info : AccountInfo) :
    Returns (readTokenOwner info) (.ok (if isTokenProgram info.owner ∧ 64 ≤ info.data.length
      then some (keyAt info.data 32) else none)) :=
  returns_readTokenField (by decide) fun h => returns_newFromArray h

theorem returns_readTokenAmount (info : AccountInfo) :
    Returns (readTokenAmount info) (.ok (if isTokenProgram info.owner ∧ 72 ≤ info.data.length
      then some (u64At info.data 64) else none)) :=
  returns_readTokenField (by decide) fun h => returns_fromLeBytes_amount h

theorem readToken_eq (info : AccountInfo) :
    readToken info = if isTokenProgram info.owner ∧ 72 ≤ info.data.length then
      some ⟨keyAt info.data 0, keyAt info.data 32, u64At info.data 64⟩ else none := by
  rw [readToken, tokenView, ite_and]

theorem returns_addVaultBalance (vaultKey mint : Pubkey) (info : AccountInfo) (total : UInt64) :
    Returns (addVaultBalance vaultKey mint info total)
      (Sigil.addVaultBalance vaultKey mint info total) := by
  unfold addVaultBalance Sigil.addVaultBalance
  rw [readToken_eq]
  by_cases h : isTokenProgram info.owner ∧ 72 ≤ info.data.length
  · have hmint := returns_readTokenMint info
    have howner := returns_readTokenOwner info
    have hamount := returns_readTokenAmount info
    rw [if_pos ⟨h.1, le_trans (by decide) h.2⟩] at hmint howner
    rw [if_pos h] at hamount
    rw [if_pos h, if_pos h]
    refine hmint.ok_seq ?_
    by_cases hm : keyAt info.data 0 = mint
    · simp only [hm, ne_eq, not_true_eq_false, if_false, true_and]
      refine howner.ok_seq ?_
      by_cases ho : keyAt info.data 32 = vaultKey
      · simp only [ho, not_true_eq_false, if_false, addWhen, decide_true, if_true]
        exact hamount.ok_seq (returns_decided _)
      · simp only [ho, not_false_eq_true, if_true, addWhen, decide_false,
          Bool.false_eq_true, if_false]
        exact returns_pure _
    · simp only [hm, ne_eq, not_false_eq_true, if_true, false_and, addWhen, decide_false,
        Bool.false_eq_true, if_false]
      exact returns_pure _
  · rw [if_neg h, if_neg h]
    exact returns_pure _

theorem someOr_readToken_seq {β : Type} (info : AccountInfo) (error : SigilError)
    (rest : TokenView → Result β) :
    (do let view ← someOr error (readToken info); rest view) =
      (do
        ensure (isTokenProgram info.owner = true) error
        ensure (72 ≤ info.data.length) error
        rest ⟨keyAt info.data 0, keyAt info.data 32, u64At info.data 64⟩) := by
  rw [readToken_eq]
  by_cases hprogram : isTokenProgram info.owner = true <;>
    by_cases hlen : 72 ≤ info.data.length <;>
    simp [someOr, okOr, ensure, require, hprogram, hlen, bind, Except.bind]

/-- Reading the fields one by one fails where reading all of them at once does, as the errors are
the same. -/
theorem vaultAmount_eq (vaultKey mint : Pubkey) (info : AccountInfo) (error : SigilError) :
    (do
      let view ← someOr error (readToken info)
      ensure (view.mint = mint ∧ view.owner = vaultKey) error
      return view.amount) =
    (do
      let accountMint ← someOr error (if isTokenProgram info.owner ∧ 32 ≤ info.data.length
        then some (keyAt info.data 0) else none)
      ensure (accountMint = mint) error
      let accountOwner ← someOr error (if isTokenProgram info.owner ∧ 64 ≤ info.data.length
        then some (keyAt info.data 32) else none)
      ensure (accountOwner = vaultKey) error
      someOr error (if isTokenProgram info.owner ∧ 72 ≤ info.data.length
        then some (u64At info.data 64) else none)) := by
  rw [readToken_eq]
  by_cases h : isTokenProgram info.owner ∧ 72 ≤ info.data.length
  · rw [if_pos h, if_pos h, if_pos ⟨h.1, le_trans (by decide) h.2⟩,
      if_pos ⟨h.1, le_trans (by decide) h.2⟩]
    by_cases hm : keyAt info.data 0 = mint <;> by_cases ho : keyAt info.data 32 = vaultKey <;>
      simp [someOr, okOr, ensure, require, hm, ho, ok_seq] <;> rfl
  · rw [if_neg h, if_neg h]
    split_ifs <;> simp [someOr, okOr, ensure, require, bind, Except.bind] <;> grind

theorem returns_sumVaultMintBalance (env : Env) (l : Ledger D) (mint : Pubkey) (scope : UInt8)
    (targetAccount : Pubkey) (remaining : List AccountMeta) :
    Returns (sumVaultMintBalance env l mint scope targetAccount remaining)
      (Sigil.sumVaultMintBalance env l mint scope targetAccount remaining) := by
  unfold sumVaultMintBalance Sigil.sumVaultMintBalance
  split
  · refine (returns_decided _).seq fun first _ => ?_
    refine (returns_addVaultBalance _ _ _ _).seq fun sum _ => ?_
    exact (returns_decided _).seq fun second _ => returns_addVaultBalance _ _ _ _
  split
  · refine (returns_decided _).seq fun info _ => ?_
    refine (returns_readTokenMint info).ok_seq ?_
    rw [vaultAmount_eq]
    refine (returns_decided _).seq fun accountMint _ => ?_
    refine (returns_decided _).seq fun _ _ => ?_
    refine (returns_readTokenOwner info).ok_seq ?_
    refine (returns_decided _).seq fun accountOwner _ => ?_
    refine (returns_decided _).seq fun _ _ => ?_
    exact (returns_readTokenAmount info).ok_seq (returns_decided _)
  · exact returns_decided _

end Tokens

section Snapshots

variable {D : Type} [Host D] (env : Env) (l : Ledger D) (remaining : List AccountMeta)

def mint (e : PostAssertionEntry) : Read Pubkey := readKey e.expectedValue 0 32

def range (e : PostAssertionEntry) (data : List UInt8) : Read (List UInt8) := do
  let stop := e.offset.toNat + e.valueLen.toNat
  decided (ensure (stop ≤ data.length) .postAssertionFailed)
  slice data e.offset.toNat stop

/-- `validate_and_authorize`, for an entry whose snapshot is still `blank`. -/
def captureSnapshot (e : PostAssertionEntry) (blank : List UInt8) : Read (List UInt8 × UInt8) :=
  match AssertionMode.tryFrom e.assertionMode with
  | some .mintDeltaCap => do
    let mint ← mint e
    let sum ← sumVaultMintBalance env l mint e.auxByte e.targetAccount remaining
    let snapshot ← copyFromSlice blank 8 (leBytes 8 sum.toNat)
    return (snapshot, 8)
  | some .outputBalanceFloor => do
    let target ← decided (someOr .postAssertionFailed (l.listedInfo env remaining e.targetAccount))
    decided (ensure (isTokenProgram target.owner = true) .postAssertionFailed)
    decided (ensure (72 ≤ target.data.length) .postAssertionFailed)
    let expectedMint ← mint e
    let actualMint ← readKey target.data 0 32
    decided (ensure (actualMint = expectedMint) .postAssertionFailed)
    let authority ← readKey target.data 32 64
    decided (ensure (authority = l.vaultKey) .mintDeltaCapMisconfigured)
    let balance ← readAmount target.data
    let snapshot ← copyFromSlice blank 8 (leBytes 8 balance.toNat)
    return (snapshot, 8)
  | some .absolute | some .ataAuthorityPin | some .declarationConsistency => return (blank, 0)
  | _ => do
    let target ← decided (someOr .postAssertionFailed (l.listedInfo env remaining e.targetAccount))
    let bytes ← range e target.data
    let snapshot ← copyFromSlice blank e.valueLen.toNat bytes
    return (snapshot, e.valueLen)

def captureAt (A : PostExecutionAssertions) (i : ℕ) : Read (List UInt8 × UInt8) := do
  let e ← index A.entries i
  let blank ← index (List.replicate maxPostAssertionEntries (List.replicate 32 0)) i
  captureSnapshot env l remaining e blank

variable {e : PostAssertionEntry} {mode : AssertionMode}

theorem returns_mint (h : e.WellShaped mode) : Returns (mint e) (.ok e.mint) :=
  returns_readKey h.size.ge

theorem returns_range (e : PostAssertionEntry) (data : List UInt8) :
    Returns (range e data) (e.slice data) := by
  refine (returns_decided _).seq fun _ hle => ?_
  have h := returns_slice (ε := ProgramError) (Nat.le_add_right e.offset.toNat e.valueLen.toNat)
    (ensure_ok_iff.mp hle)
  rwa [Nat.add_sub_cancel_left] at h

theorem append_drop_blank {bytes : List UInt8} {n : ℕ} (h : bytes.length = n) (hn : n ≤ 32) :
    bytes ++ (List.replicate 32 0).drop n = (bytes ++ List.replicate 32 0).take 32 := by
  rw [List.drop_replicate, List.take_append, List.take_of_length_le (by omega),
    List.take_replicate, h, min_eq_left (Nat.sub_le 32 n)]

theorem returns_captureSnapshot (h : e.WellShaped mode) :
    Returns (captureSnapshot env l remaining e (List.replicate 32 0))
      (Sigil.captureSnapshot env l remaining e) := by
  unfold captureSnapshot Sigil.captureSnapshot
  rw [h.known]
  cases mode
  case absolute | ataAuthorityPin | declarationConsistency => exact returns_pure _
  case mintDeltaCap =>
    refine (returns_mint h).ok_seq ?_
    refine (returns_sumVaultMintBalance env l _ _ _ _).seq fun sum _ => ?_
    refine (returns_copyFromSlice (by simp) (leBytes_length 8 _)).ok_seq ?_
    rw [append_drop_blank (leBytes_length 8 _) (by decide)]
    exact returns_pure _
  case outputBalanceFloor =>
    refine (returns_decided _).seq fun target _ => ?_
    rw [someOr_readToken_seq]
    refine (returns_decided _).seq fun _ _ => ?_
    refine (returns_decided _).seq fun _ hlen => ?_
    replace hlen : 72 ≤ target.data.length := ensure_ok_iff.mp hlen
    refine (returns_mint h).ok_seq ?_
    refine (returns_readKey (by omega)).ok_seq ?_
    refine (returns_decided _).seq fun _ _ => ?_
    refine (returns_readKey (by omega)).ok_seq ?_
    refine (returns_decided _).seq fun _ _ => ?_
    refine (returns_readAmount hlen).ok_seq ?_
    refine (returns_copyFromSlice (by simp) (leBytes_length 8 _)).ok_seq ?_
    rw [append_drop_blank (leBytes_length 8 _) (by decide)]
    exact returns_pure _
  all_goals
    refine (returns_decided _).seq fun target _ => ?_
    refine (returns_range e target.data).seq fun bytes hbytes => ?_
    have hlen := PostAssertionEntry.length_of_slice_ok hbytes
    have hle : e.valueLen.toNat ≤ 32 := (h.bytes rfl).2
    refine (returns_copyFromSlice (by simpa using hle) hlen).ok_seq ?_
    rw [append_drop_blank hlen hle]
    exact returns_pure _

end Snapshots

section Verification

variable {D : Type} [Host D] (env : Env) (l : Ledger D) (remaining : List AccountMeta)

def verifyMintDeltaCap (e : PostAssertionEntry) (snapshot : List UInt8) (snapshotLen : UInt8) :
    Read Unit := do
  decided (ensure (snapshotLen = 8) .snapshotNotCaptured)
  let mint ← mint e
  let postSum ← sumVaultMintBalance env l mint e.auxByte e.targetAccount remaining
  let bytes ← slice snapshot 0 8
  let preSum ← fromLeBytes 8 bytes
  decided (ensure (saturatingSub preSum postSum ≤ e.auxAmount) .errMintDeltaCapExceeded)

def verifyAtaAuthorityPin (e : PostAssertionEntry) : Read Unit := do
  let target ← decided (someOr .errAtaAuthorityChanged
    (l.listedInfo env remaining e.targetAccount))
  decided (ensure (isTokenProgram target.owner = true) .errAtaAuthorityChanged)
  decided (ensure (165 ≤ target.data.length) .errAtaAuthorityChanged)
  let authority ← readKey target.data 32 64
  decided (ensure (authority = l.vaultKey) .errAtaAuthorityChanged)

def verifyOutputBalanceFloor (e : PostAssertionEntry) (snapshot : List UInt8)
    (snapshotLen : UInt8) : Read Unit := do
  decided (ensure (snapshotLen = 8) .snapshotNotCaptured)
  let target ← decided (someOr .postAssertionFailed (l.listedInfo env remaining e.targetAccount))
  decided (ensure (isTokenProgram target.owner = true) .postAssertionFailed)
  decided (ensure (72 ≤ target.data.length) .postAssertionFailed)
  let authority ← readKey target.data 32 64
  decided (ensure (authority = l.vaultKey) .mintDeltaCapMisconfigured)
  let postBalance ← readAmount target.data
  let bytes ← slice snapshot 0 8
  let preBalance ← fromLeBytes 8 bytes
  decided (ensure (e.auxAmount ≤ saturatingSub postBalance preBalance) .errOutputBelowFloor)

def verifyDeclarationConsistency (e : PostAssertionEntry) : Read Unit := do
  let defiIx ← decided (someOr .errDeclarationInconsistent (precedingInstruction env))
  let metaIndex := e.auxByte.toNat
  decided (ensure (metaIndex < defiIx.accounts.length) .errDeclarationInconsistent)
  let m ← index defiIx.accounts metaIndex
  let target ← decided (someOr .errDeclarationInconsistent (l.listedInfo env remaining m.pubkey))
  decided (ensure (isTokenProgram target.owner = true) .errDeclarationInconsistent)
  decided (ensure (165 ≤ target.data.length) .errDeclarationInconsistent)
  let declaredMint ← mint e
  let actualMint ← readKey target.data 0 32
  let actualOwner ← readKey target.data 32 64
  decided (ensure (actualMint = declaredMint) .errDeclarationInconsistent)
  decided (ensure (actualOwner = e.targetAccount) .errDeclarationInconsistent)

/-- The three numbers that a bound on a change compares: before, now and the bound. -/
def deltaWords (e : PostAssertionEntry) (snapshot actual : List UInt8) :
    Read (UInt64 × UInt64 × UInt64) := do
  let len := e.valueLen.toNat
  let before ← slice snapshot 0 len
  let expected ← slice e.expectedValue 0 len
  let snapVal ← fromLeBytes len before
  let currVal ← fromLeBytes len actual
  let expVal ← fromLeBytes len expected
  return (snapVal, currVal, expVal)

def verifyBytes (mode : AssertionMode)
    (e : PostAssertionEntry) (snapshot : List UInt8) (snapshotLen : UInt8) :
    Read Unit := do
  let target ← decided (someOr .invalidPostAssertionIndex
    (l.listedInfo env remaining e.targetAccount))
  let actual ← range e target.data
  match mode with
  | .absolute => do
    let expected ← slice e.expectedValue 0 e.valueLen.toNat
    let operator ← decided (someOr .invalidConstraintOperator
      (ConstraintOperator.tryFrom e.operator))
    decided (ensure (bytesMatch actual operator expected = true) .postAssertionFailed)
  | .maxDecrease => do
    decided (ensure (snapshotLen = e.valueLen) .snapshotNotCaptured)
    let (snapVal, currVal, expVal) ← deltaWords e snapshot actual
    decided (ensure (saturatingSub snapVal currVal ≤ expVal) .postAssertionFailed)
  | .maxIncrease => do
    decided (ensure (snapshotLen = e.valueLen) .snapshotNotCaptured)
    let (snapVal, currVal, expVal) ← deltaWords e snapshot actual
    decided (ensure (saturatingSub currVal snapVal ≤ expVal) .postAssertionFailed)
  | .noChange => do
    decided (ensure (snapshotLen = e.valueLen) .snapshotNotCaptured)
    let before ← slice snapshot 0 e.valueLen.toNat
    decided (ensure (actual = before) .postAssertionFailed)
  | _ => decided (fail .postAssertionFailed)

def verifyEntry (e : PostAssertionEntry) (snapshot : List UInt8) (snapshotLen : UInt8) :
    Read Unit := do
  let mode ← decided (someOr .invalidConstraintConfig (AssertionMode.tryFrom e.assertionMode))
  match mode with
  | .mintDeltaCap => verifyMintDeltaCap env l remaining e snapshot snapshotLen
  | .ataAuthorityPin => verifyAtaAuthorityPin env l remaining e
  | .outputBalanceFloor => verifyOutputBalanceFloor env l remaining e snapshot snapshotLen
  | .declarationConsistency => verifyDeclarationConsistency env l remaining e
  | _ => verifyBytes env l remaining mode e snapshot snapshotLen

/-- `finalize_session`, for the entry at a position of the stored list. -/
def verifyAt (s : SessionAuthority)
    (A : PostExecutionAssertions) (i : ℕ) : Read Unit := do
  let e ← index A.entries i
  let snapshot ← index (List.ofFn s.assertionSnapshots) i
  let snapshotLen ← index (List.ofFn s.snapshotLens) i
  verifyEntry env l remaining e snapshot snapshotLen

variable {e : PostAssertionEntry} {mode : AssertionMode} {snapshot : List UInt8}
  {snapshotLen : UInt8}

theorem returns_slice_front {data : List UInt8} {stop : ℕ} (h : stop ≤ data.length) :
    Returns (slice data 0 stop : Read _) (.ok (data.take stop)) :=
  returns_slice (Nat.zero_le stop) h

theorem returns_snapshotWord (h : snapshot.length = 32) :
    Returns (fromLeBytes 8 (snapshot.take 8)) (.ok (u64At snapshot 0)) := by
  have hword : u64At (snapshot.take 8) 0 = u64At snapshot 0 := by
    rw [u64At, u64At, List.drop_zero, List.drop_zero, List.take_take, min_self]
  exact hword ▸ returns_fromLeBytes (by simp [h]) le_rfl

theorem returns_verifyMintDeltaCap (h : e.WellShaped mode) (hsnapshot : snapshot.length = 32) :
    Returns (verifyMintDeltaCap env l remaining e snapshot snapshotLen)
      (Sigil.verifyMintDeltaCap env l remaining e snapshot snapshotLen) := by
  refine (returns_decided _).seq fun _ _ => ?_
  refine (returns_mint h).ok_seq ?_
  refine (returns_sumVaultMintBalance env l _ _ _ _).seq fun postSum _ => ?_
  refine (returns_slice_front (by omega)).ok_seq ?_
  exact (returns_snapshotWord hsnapshot).ok_seq (returns_decided _)

theorem returns_verifyAtaAuthorityPin :
    Returns (verifyAtaAuthorityPin env l remaining e)
      (Sigil.verifyAtaAuthorityPin env l remaining e) := by
  refine (returns_decided _).seq fun target _ => ?_
  refine (returns_decided _).seq fun _ _ => ?_
  refine (returns_decided _).seq fun _ hlen => ?_
  replace hlen : 165 ≤ target.data.length := ensure_ok_iff.mp hlen
  exact (returns_readKey (by omega)).ok_seq (returns_decided _)

theorem returns_verifyOutputBalanceFloor (hsnapshot : snapshot.length = 32) :
    Returns (verifyOutputBalanceFloor env l remaining e snapshot snapshotLen)
      (Sigil.verifyOutputBalanceFloor env l remaining e snapshot snapshotLen) := by
  refine (returns_decided _).seq fun _ _ => ?_
  refine (returns_decided _).seq fun target _ => ?_
  rw [someOr_readToken_seq]
  refine (returns_decided _).seq fun _ _ => ?_
  refine (returns_decided _).seq fun _ hlen => ?_
  replace hlen : 72 ≤ target.data.length := ensure_ok_iff.mp hlen
  refine (returns_readKey (by omega)).ok_seq ?_
  refine (returns_decided _).seq fun _ _ => ?_
  refine (returns_readAmount hlen).ok_seq ?_
  refine (returns_slice_front (by omega)).ok_seq ?_
  exact (returns_snapshotWord hsnapshot).ok_seq (returns_decided _)

theorem returns_verifyDeclarationConsistency (h : e.WellShaped mode) :
    Returns (verifyDeclarationConsistency env l remaining e)
      (Sigil.verifyDeclarationConsistency env l remaining e) := by
  refine (returns_decided _).seq fun defiIx _ => ?_
  cases hm : defiIx.accounts[e.auxByte.toNat]? with
  | none =>
    have hle := List.getElem?_eq_none_iff.mp hm
    exact Returns.error_seq (congrArg some (if_neg hle.not_gt))
  | some m =>
    obtain ⟨hlt, -⟩ := List.getElem?_eq_some_iff.mp hm
    refine Returns.ok_seq (congrArg some (if_pos hlt)) ?_
    refine (returns_index hm).ok_seq ?_
    refine (returns_decided _).seq fun target _ => ?_
    refine (returns_decided _).seq fun _ _ => ?_
    refine (returns_decided _).seq fun _ hlen => ?_
    replace hlen : 165 ≤ target.data.length := ensure_ok_iff.mp hlen
    refine (returns_mint h).ok_seq ?_
    refine (returns_readKey (by omega)).ok_seq ?_
    refine (returns_readKey (by omega)).ok_seq ?_
    exact (returns_decided _).seq fun _ _ => returns_decided _

theorem returns_deltaWords (h : e.WellShaped mode) (hdelta : mode.isDelta = true)
    (hsnapshot : snapshot.length = 32) {actual : List UInt8}
    (hactual : actual.length = e.valueLen.toNat) :
    Returns (deltaWords e snapshot actual) (.ok (u64At (snapshot.take e.valueLen.toNat) 0,
      u64At actual 0, u64At (e.expectedValue.take e.valueLen.toNat) 0)) := by
  have hlen := h.delta hdelta
  have hsize : e.expectedValue.length = 32 := h.size
  refine (returns_slice_front (by omega)).ok_seq ?_
  refine (returns_slice_front (by omega)).ok_seq ?_
  refine (returns_fromLeBytes (by rw [List.length_take]; omega) hlen).ok_seq ?_
  refine (returns_fromLeBytes hactual hlen).ok_seq ?_
  exact (returns_fromLeBytes (by rw [List.length_take]; omega) hlen).ok_seq (returns_pure _)

theorem returns_verifyBytes (h : e.WellShaped mode) (hreads : mode.readsBytes = true)
    (hsnapshot : snapshot.length = 32) :
    Returns (verifyBytes env l remaining mode e snapshot snapshotLen)
      (Sigil.verifyBytes env l remaining mode e snapshot snapshotLen) := by
  have hlen : e.valueLen.toNat ≤ 32 := (h.bytes hreads).2
  have hsize : e.expectedValue.length = 32 := h.size
  refine (returns_decided _).seq fun target _ => ?_
  refine (returns_range e target.data).seq fun actual hactual => ?_
  replace hactual := PostAssertionEntry.length_of_slice_ok hactual
  cases mode <;> first | cases hreads; done | skip
  case absolute =>
    refine (returns_slice_front (by omega)).ok_seq ?_
    exact (returns_decided _).seq fun _ _ => returns_decided _
  case noChange =>
    refine (returns_decided _).seq fun _ _ => ?_
    exact (returns_slice_front (by omega)).ok_seq (returns_decided _)
  all_goals
    refine (returns_decided _).seq fun _ _ => ?_
    exact (returns_deltaWords h rfl hsnapshot hactual).ok_seq (returns_decided _)

theorem returns_verifyEntry (h : e.WellShaped mode) (hsnapshot : snapshot.length = 32) :
    Returns (verifyEntry env l remaining e snapshot snapshotLen)
      (Sigil.verifyEntry env l remaining e snapshot snapshotLen) := by
  refine (returns_decided _).seq fun mode' hmode => ?_
  obtain rfl : mode = mode' := Option.some.inj (h.known.symm.trans (someOr_ok_iff.mp hmode))
  cases mode
  case mintDeltaCap => exact returns_verifyMintDeltaCap env l remaining h hsnapshot
  case ataAuthorityPin => exact returns_verifyAtaAuthorityPin env l remaining
  case outputBalanceFloor => exact returns_verifyOutputBalanceFloor env l remaining hsnapshot
  case declarationConsistency => exact returns_verifyDeclarationConsistency env l remaining h
  all_goals exact returns_verifyBytes env l remaining h rfl hsnapshot

end Verification

section Stored

def structSize : ℕ := 32 + 78 * maxPostAssertionEntries + 1 + 1 + 6

/-- The discriminator and the body of the account of the assertions, as both ends read them. -/
def assertionsAccount (data : List UInt8) :
    Read (List UInt8 × List UInt8) := do
  decided (ensure (8 + structSize ≤ data.length) .postAssertionFailed)
  let discriminator ← slice data 0 8
  let body ← slice data 8 (8 + structSize)
  return (discriminator, body)

def validate (e : PostAssertionEntry) : Read Unit := do
  let mode ← decided (someOr .invalidConstraintConfig (AssertionMode.tryFrom e.assertionMode))
  match mode with
  | .declarationConsistency => do
    decided (ensure (e.targetAccount ≠ Pubkey.default) .invalidConstraintConfig)
    decided (ensure (32 ≤ e.expectedValue.length) .invalidConstraintConfig)
    let mint ← mint e
    decided (ensure (mint ≠ Pubkey.default) .invalidConstraintConfig)
    decided (ensure (e.auxByte < 64) .invalidConstraintConfig)
    decided (ensure (e.auxIsZero = true) .invalidConstraintConfig)
  | _ => decided e.validate

/-- `create_post_assertions`, for the expected value of the entry at a position. -/
def packAt (entries : List PostAssertionEntry) (i : ℕ) :
    Read (List UInt8) := do
  let e ← index entries i
  let blank ← index
    (List.replicate maxPostAssertionEntries (List.replicate maxConstraintValueLen 0)) i
  let len := min e.expectedValue.length maxConstraintValueLen
  let value ← slice e.expectedValue 0 len
  copyFromSlice blank len value

theorem returns_assertionsAccount (data : List UInt8) :
    Returns (assertionsAccount data) (do
      ensure (8 + structSize ≤ data.length) .postAssertionFailed
      return (data.take 8, (data.drop 8).take structSize)) := by
  refine (returns_decided _).seq fun _ hlen => ?_
  replace hlen : 8 + structSize ≤ data.length := ensure_ok_iff.mp hlen
  refine (returns_slice_front (by omega)).ok_seq ?_
  have hbody := returns_slice (ε := ProgramError) (Nat.le_add_right 8 structSize) hlen
  rw [Nat.add_sub_cancel_left] at hbody
  exact hbody.ok_seq (returns_pure _)

theorem returns_validate (e : PostAssertionEntry) : Returns (validate e) e.validate := by
  unfold validate PostAssertionEntry.validate
  refine (returns_decided _).seq fun mode hmode => ?_
  cases mode
  case declarationConsistency =>
    refine (returns_decided _).seq fun _ _ => ?_
    refine (returns_decided _).seq fun _ hlen => ?_
    refine (returns_readKey (ensure_ok_iff.mp hlen)).ok_seq ?_
    refine (returns_decided _).seq fun _ _ => ?_
    exact (returns_decided _).seq fun _ _ => returns_decided _
  all_goals
    rw [hmode]
    exact returns_decided _

theorem returns_packAt {entries : List PostAssertionEntry} (h : validateEntries entries = .ok ())
    {i : ℕ} {e : PostAssertionEntry} (he : entries[i]? = some e) :
    Returns (packAt entries i) (.ok e.stored.expectedValue) := by
  simp only [validateEntries, seq_ok_iff, ensure_ok_iff, exists_and_left, exists_const] at h
  obtain ⟨hlt, -⟩ := List.getElem?_eq_some_iff.mp he
  refine (returns_index he).ok_seq ?_
  refine (returns_index (List.getElem?_replicate_of_lt (hlt.trans_le h.1.2))).ok_seq ?_
  refine (returns_slice_front (Nat.min_le_left _ _)).ok_seq ?_
  have hlen : (e.expectedValue.take (min e.expectedValue.length maxConstraintValueLen)).length =
      min e.expectedValue.length maxConstraintValueLen := by
    rw [List.length_take, min_eq_left (Nat.min_le_left _ _)]
  have hstored : e.expectedValue.take (min e.expectedValue.length maxConstraintValueLen) ++
      (List.replicate maxConstraintValueLen 0).drop
        (min e.expectedValue.length maxConstraintValueLen) = e.stored.expectedValue := by
    rw [PostAssertionEntry.stored, List.take_append, List.take_replicate, List.drop_replicate]
    rcases Nat.le_total e.expectedValue.length maxConstraintValueLen with hle | hle
    · rw [min_eq_left hle, List.take_length, List.take_of_length_le hle,
        min_eq_left (Nat.sub_le _ _)]
    · rw [min_eq_right hle, Nat.sub_self, Nat.sub_eq_zero_of_le hle, Nat.zero_min]
  exact hstored ▸ returns_copyFromSlice (by simp) hlen

end Stored

section Accepted

variable {D : Type} [Host D] {A : PostExecutionAssertions} {i : ℕ} {e : PostAssertionEntry}
  (env : Env) (l : Ledger D) (remaining : List AccountMeta)

theorem returns_captureAt (h : A.Accepted) (he : A.entries[i]? = some e) :
    Returns (captureAt env l remaining A i) (Sigil.captureSnapshot env l remaining e) := by
  obtain ⟨hi, mode, hshape⟩ := h.wellShaped he
  refine (returns_index he).ok_seq ?_
  refine (returns_index (List.getElem?_replicate_of_lt hi)).ok_seq ?_
  exact returns_captureSnapshot env l remaining hshape

theorem returns_verifyAt (h : A.Accepted) (he : A.entries[i]? = some e) {s : SessionAuthority}
    (hs : ∀ j, (s.assertionSnapshots j).length = 32) :
    Returns (verifyAt env l remaining s A i)
      (Sigil.verifyEntry env l remaining e (s.snapshotAt i).1 (s.snapshotAt i).2) := by
  obtain ⟨hi, mode, hshape⟩ := h.wellShaped he
  refine (returns_index he).ok_seq ?_
  refine (returns_index_ofFn s.assertionSnapshots hi).ok_seq ?_
  refine (returns_index_ofFn s.snapshotLens hi).ok_seq ?_
  rw [SessionAuthority.snapshotAt, dif_pos hi]
  exact returns_verifyEntry env l remaining hshape (hs _)

variable (D) in
/-- Every slice that is taken for a list of assertions is in range: the program ends as the model's
function does when it checks a list and packs it, and when it reads the list's account, takes the
snapshots and verifies the entries, whatever accounts it is given. -/
structure InRange (A : PostExecutionAssertions) : Prop where
  validates : ∀ e : PostAssertionEntry, Returns (validate e) e.validate
  packs : ∀ (entries : List PostAssertionEntry) (i : ℕ) (e : PostAssertionEntry),
    validateEntries entries = .ok () → entries[i]? = some e →
      Returns (packAt entries i) (.ok e.stored.expectedValue)
  loads : ∀ data : List UInt8, Returns (assertionsAccount data) (do
    ensure (8 + structSize ≤ data.length) .postAssertionFailed
    return (data.take 8, (data.drop 8).take structSize))
  captures : ∀ (i : ℕ) (e : PostAssertionEntry), A.entries[i]? = some e →
    ∀ (env : Env) (l : Ledger D) (remaining : List AccountMeta),
      Returns (captureAt env l remaining A i) (Sigil.captureSnapshot env l remaining e)
  -- a snapshot is an array of 32 bytes
  verifies : ∀ (i : ℕ) (e : PostAssertionEntry), A.entries[i]? = some e →
    ∀ (env : Env) (l : Ledger D) (remaining : List AccountMeta) (s : SessionAuthority),
      (∀ j, (s.assertionSnapshots j).length = 32) →
        Returns (verifyAt env l remaining s A i)
          (Sigil.verifyEntry env l remaining e (s.snapshotAt i).1 (s.snapshotAt i).2)

theorem inRange_of_accepted (h : A.Accepted) : InRange D A where
  validates := returns_validate
  packs _ _ _ hvalid he := returns_packAt hvalid he
  loads := returns_assertionsAccount
  captures _ _ he env l remaining := returns_captureAt env l remaining h he
  verifies _ _ he env l remaining _ hs := returns_verifyAt env l remaining h he hs

end Accepted

end Indexed

end Sigil
