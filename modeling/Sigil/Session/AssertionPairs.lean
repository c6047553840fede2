import Sigil.Session.AssertionReads
import Sigil.Session.Held

/-! # Assertions over a session

`validate_and_authorize` takes a snapshot for each stored assertion, and `finalize_session` compares
the snapshot of the same position with what it finds. Both read the accounts that the agent lists.
An account that is missing from either list makes one of the two fail, so a session that is closed
has met every assertion between the state it was opened in and the state it leaves.
-/

namespace Sigil

open Machine Guard SelfDelimiting Trace

section Bounds

variable {D : Type} [Host D]

/-- What the vault holds of a mint in one account. -/
def vaultHolding (vaultKey mint : Pubkey) (info : AccountInfo) : ℕ :=
  (readToken info).elim 0 fun view =>
    if view.mint = mint ∧ view.owner = vaultKey then view.amount.toNat else 0

def vaultHoldings (vaultKey mint : Pubkey) (infoOf : Pubkey → AccountInfo) (keys : List Pubkey) :
    ℕ :=
  (keys.map fun key => vaultHolding vaultKey mint (infoOf key)).sum

/-- The vault's balances of a mint in its derived accounts, added up. -/
def Ledger.derivedHolding (env : Env) (l : Ledger D) (mint : Pubkey) : ℕ :=
  vaultHoldings l.vaultKey mint (l.accountInfo env) (deriveVaultAtas D l.vaultKey mint)

def Lists (remaining : List AccountMeta) (keys : List Pubkey) : Prop :=
  ∀ key ∈ keys, ∃ m ∈ remaining, m.pubkey = key

namespace PostAssertionEntry

variable (e : PostAssertionEntry)

/-- The bytes that the entry names are there. -/
def Covers (info : AccountInfo) : Prop :=
  e.offset.toNat + e.valueLen.toNat ≤ info.data.length

def bytesOf (info : AccountInfo) : List UInt8 :=
  (info.data.drop e.offset.toNat).take e.valueLen.toNat

def valueOf (info : AccountInfo) : ℕ := ofLeBytes (e.bytesOf info)

/-- The owner's bound on a change of the value. -/
def bound : ℕ := ofLeBytes (e.expectedValue.take e.valueLen.toNat)

variable (D) in
/-- The accounts whose balances of the mint are added up. -/
def measuredAccounts (vaultKey : Pubkey) : List Pubkey :=
  if e.auxByte = 0 then deriveVaultAtas D vaultKey e.mint else [e.targetAccount]

variable (D) in
def holdingOf (vaultKey : Pubkey) (infoOf : Pubkey → AccountInfo) : ℕ :=
  vaultHoldings vaultKey e.mint infoOf (e.measuredAccounts D vaultKey)

variable (D) in
/-- The bound of an entry holds between two states of the accounts. -/
def Met (vaultKey : Pubkey) (before after : Pubkey → AccountInfo) : AssertionMode → Prop
  | .maxDecrease =>
    e.Covers (before e.targetAccount) ∧ e.Covers (after e.targetAccount) ∧
      e.valueOf (before e.targetAccount) ≤ e.valueOf (after e.targetAccount) + e.bound
  | .maxIncrease =>
    e.Covers (before e.targetAccount) ∧ e.Covers (after e.targetAccount) ∧
      e.valueOf (after e.targetAccount) ≤ e.valueOf (before e.targetAccount) + e.bound
  | .noChange =>
    e.Covers (before e.targetAccount) ∧ e.Covers (after e.targetAccount) ∧
      e.bytesOf (after e.targetAccount) = e.bytesOf (before e.targetAccount)
  | .mintDeltaCap =>
    e.holdingOf D vaultKey before ≤ e.holdingOf D vaultKey after + e.auxAmount.toNat
  | .outputBalanceFloor =>
    ∃ u v, readToken (before e.targetAccount) = some u ∧
      readToken (after e.targetAccount) = some v ∧
      u.mint = e.mint ∧ u.owner = vaultKey ∧ v.owner = vaultKey ∧
      u.amount.toNat + e.auxAmount.toNat ≤ v.amount.toNat
  | _ => True

end PostAssertionEntry

/-- What a session remembers, in the 32 bytes of its snapshot. -/
def padded (bytes : List UInt8) : List UInt8 := (bytes ++ List.replicate 32 0).take 32

theorem take_padded {bytes : List UInt8} (h : bytes.length ≤ 32) :
    (padded bytes).take bytes.length = bytes := by
  rw [padded, List.take_take, min_eq_left h, List.take_left]

theorem u64At_padded (v : UInt64) : u64At (padded (leBytes 8 v.toNat)) 0 = v := by
  have hpadded : padded (leBytes 8 v.toNat) = leBytes 8 v.toNat ++ List.replicate 24 0 := by
    rw [padded, List.take_append, leBytes_length, List.take_of_length_le (by simp)]
    rfl
  rw [hpadded]
  exact u64At_append v [] _

variable {env : Env} {l : Ledger D} {remaining : List AccountMeta} {e : PostAssertionEntry}
  {info : AccountInfo}

omit [Host D] in
theorem addVaultBalance_ok_iff {vaultKey mint : Pubkey} {total total' : UInt64} :
    addVaultBalance vaultKey mint info total = .ok total' ↔
      total'.toNat = total.toNat + vaultHolding vaultKey mint info := by
  have hsame : (.ok total : Result UInt64) = .ok total' ↔ total'.toNat = total.toNat := by
    rw [Except.ok.injEq, UInt64.toNat_inj, eq_comm]
  unfold addVaultBalance vaultHolding
  cases readToken info with
  | none => exact hsame
  | some view =>
    by_cases hmatch : view.mint = mint ∧ view.owner = vaultKey
    · simp only [addWhen, hmatch, and_self, decide_true, if_true, someOr_ok_iff,
        checkedAdd_eq_some, Option.elim_some]
    · simpa only [addWhen, hmatch, decide_false, Bool.false_eq_true, if_false, Option.elim_some,
        add_zero] using hsame

/-- The vault-wide sum is there exactly when all derived accounts are listed and their balances
fit. -/
theorem sumVaultMintBalance_ok_iff {mint targetAccount : Pubkey} {sum : UInt64} :
    sumVaultMintBalance env l mint 0 targetAccount remaining = .ok sum ↔
      Lists remaining (deriveVaultAtas D l.vaultKey mint) ∧
        sum.toNat = l.derivedHolding env mint := by
  simp only [sumVaultMintBalance, if_true, seq_ok_iff, someOr_ok_iff, listedInfo_eq_some_iff,
    addVaultBalance_ok_iff, Lists, Ledger.derivedHolding, deriveVaultAtas, vaultHoldings,
    List.mem_cons, List.not_mem_nil, or_false, forall_eq_or_imp, forall_eq, List.map_cons,
    List.map_nil, List.sum_cons, List.sum_nil]
  constructor
  · rintro ⟨first, ⟨hfirst, rfl⟩, part, hpart, second, ⟨hsecond, rfl⟩, hsum⟩
    refine ⟨⟨hfirst, hsecond⟩, ?_⟩
    rw [hsum, hpart]
    simp
  · rintro ⟨⟨hfirst, hsecond⟩, hsum⟩
    -- the sum of both fits, so the first balance does
    have hlt := sum.toNat_lt
    refine ⟨_, ⟨hfirst, rfl⟩, UInt64.ofNat (vaultHolding l.vaultKey mint (l.accountInfo env
      (associatedTokenAddress D l.vaultKey mint tokenProgramId))), ?_, _, ⟨hsecond, rfl⟩, ?_⟩
    · rw [UInt64.toNat_ofNat_of_lt' (by unfold UInt64.size; omega)]
      simp
    · rw [hsum, UInt64.toNat_ofNat_of_lt' (by unfold UInt64.size; omega), Nat.add_zero]

theorem sumVaultMintBalance_ok {sum : UInt64}
    (h : sumVaultMintBalance env l e.mint e.auxByte e.targetAccount remaining = .ok sum) :
    sum.toNat = e.holdingOf D l.vaultKey (l.accountInfo env) := by
  unfold PostAssertionEntry.holdingOf PostAssertionEntry.measuredAccounts
  by_cases hscope : e.auxByte = 0
  · rw [hscope] at h
    rw [if_pos hscope]
    exact (sumVaultMintBalance_ok_iff.mp h).2
  · rw [sumVaultMintBalance, if_neg hscope] at h
    split at h
    · simp only [seq_ok_iff, someOr_ok_iff, ensure_ok_iff, exists_and_left, exists_const,
        pure_ok_iff] at h
      obtain ⟨info, hinfo, view, hview, hmatch, rfl⟩ := h
      obtain rfl := listedInfo_eq_some hinfo
      simp [hscope, vaultHoldings, vaultHolding, hview, hmatch]
    · exact absurd h fail_ne_ok

theorem PostAssertionEntry.Covers.length_bytesOf (h : e.Covers info) :
    (e.bytesOf info).length = e.valueLen.toNat := by
  unfold PostAssertionEntry.Covers at h
  simp only [bytesOf, List.length_take, List.length_drop]
  omega

/-- The modes for which a session takes a snapshot. -/
def AssertionMode.takesSnapshot (mode : AssertionMode) : Bool :=
  mode.isDelta ∨ mode = mintDeltaCap ∨ mode = outputBalanceFloor

omit [Host D] in
theorem PostAssertionEntry.WellShaped.ne_zero_of_isDelta {mode : AssertionMode}
    (h : e.WellShaped mode) (hdelta : mode.isDelta = true) : (0 : UInt8) ≠ e.valueLen := by
  intro hzero
  have hpos := (h.bytes (by simp [AssertionMode.readsBytes, hdelta])).1
  rw [← hzero] at hpos
  exact absurd hpos (by decide)

theorem not_takesSnapshot_of_verifyEntry {mode : AssertionMode} {snapshot : List UInt8}
    (hshape : e.WellShaped mode) (h : verifyEntry env l remaining e snapshot 0 = .ok ()) :
    mode.takesSnapshot = false := by
  simp only [verifyEntry, hshape.known, seq_ok_iff, someOr_ok_iff, Option.some.injEq,
    exists_eq_left'] at h
  cases mode
  case absolute | ataAuthorityPin | declarationConsistency => rfl
  case mintDeltaCap =>
    simp only [verifyMintDeltaCap, seq_ok_iff, ensure_ok_iff, exists_and_left] at h
    exact absurd h.1 (by decide)
  case outputBalanceFloor =>
    simp only [verifyOutputBalanceFloor, seq_ok_iff, ensure_ok_iff, exists_and_left] at h
    exact absurd h.1 (by decide)
  all_goals
    simp only [verifyBytes, seq_ok_iff, ensure_ok_iff, exists_and_left] at h
    obtain ⟨-, -, -, -, hlen, -⟩ := h
    exact absurd hlen (hshape.ne_zero_of_isDelta rfl)

section Pair

variable {env' : Env} {l' : Ledger D} {remaining' : List AccountMeta} {mode : AssertionMode}
  {snapshot : List UInt8 × UInt8}

theorem met_of_verifyBytes (hshape : e.WellShaped mode) (hdelta : mode.isDelta = true)
    (hcapture : captureSnapshot env l remaining e = .ok snapshot)
    (h : verifyBytes env' l' remaining' mode e snapshot.1 snapshot.2 = .ok ()) :
    e.Met D l.vaultKey (l.accountInfo env) (l'.accountInfo env') mode := by
  have hbody : ∃ bytes, e.slice (l.accountInfo env e.targetAccount).data = .ok bytes ∧
      snapshot.1 = padded bytes := by
    cases mode <;> first | cases hdelta; done | skip
    all_goals
      simp only [captureSnapshot, hshape.known, seq_ok_iff, someOr_ok_iff, pure_ok_iff] at hcapture
      obtain ⟨info, hinfo, bytes, hbytes, rfl⟩ := hcapture
      obtain rfl := listedInfo_eq_some hinfo
      exact ⟨bytes, hbytes, rfl⟩
  obtain ⟨bytes, hbytes, hsnapshot⟩ := hbody
  obtain ⟨hcovers, rfl⟩ := PostAssertionEntry.slice_ok hbytes
  replace hcovers : e.Covers (l.accountInfo env e.targetAccount) := hcovers
  have hlen := hshape.delta hdelta
  have hbefore : snapshot.1.take e.valueLen.toNat =
      e.bytesOf (l.accountInfo env e.targetAccount) := by
    rw [hsnapshot]
    nth_rewrite 1 [← hcovers.length_bytesOf]
    exact take_padded (by rw [hcovers.length_bytesOf]; omega)
  have hbound : (u64At (e.expectedValue.take e.valueLen.toNat) 0).toNat = e.bound :=
    u64At_toNat (by rw [List.length_take]; omega)
  simp only [verifyBytes, seq_ok_iff, someOr_ok_iff] at h
  obtain ⟨info, hinfo, actual, hactual, h⟩ := h
  obtain rfl := listedInfo_eq_some hinfo
  obtain ⟨hcovers', rfl⟩ := PostAssertionEntry.slice_ok hactual
  replace hcovers' : e.Covers (l'.accountInfo env' e.targetAccount) := hcovers'
  rw [hbefore] at h
  have hvalue := u64At_toNat (hcovers.length_bytesOf.le.trans hlen)
  have hvalue' := u64At_toNat (hcovers'.length_bytesOf.le.trans hlen)
  cases mode <;> first | cases hdelta; done | skip
  case noChange =>
    simp only [seq_ok_iff, ensure_ok_iff, exists_and_left, exists_const] at h
    exact ⟨hcovers, hcovers', h.2⟩
  all_goals
    simp only [seq_ok_iff, ensure_ok_iff, exists_and_left, exists_const, UInt64.le_iff_toNat_le,
      saturatingSub_toNat] at h
    refine ⟨hcovers, hcovers', ?_⟩
    have hle := h.2
    rw [hbound, hvalue] at hle
    rw [← PostAssertionEntry.bytesOf, hvalue'] at hle
    exact Nat.sub_le_iff_le_add'.mp hle

theorem met_of_verifyMintDeltaCap (hshape : e.WellShaped .mintDeltaCap)
    (hkey : l'.vaultKey = l.vaultKey)
    (hcapture : captureSnapshot env l remaining e = .ok snapshot)
    (h : verifyMintDeltaCap env' l' remaining' e snapshot.1 snapshot.2 = .ok ()) :
    e.Met D l.vaultKey (l.accountInfo env) (l'.accountInfo env') .mintDeltaCap := by
  simp only [captureSnapshot, hshape.known, seq_ok_iff, pure_ok_iff] at hcapture
  obtain ⟨sum, hsum, rfl⟩ := hcapture
  simp only [verifyMintDeltaCap, seq_ok_iff, ensure_ok_iff, exists_and_left, exists_const] at h
  obtain ⟨-, sum', hsum', hle⟩ := h
  change saturatingSub (u64At (padded (leBytes 8 sum.toNat)) 0) sum' ≤ _ at hle
  rw [u64At_padded, UInt64.le_iff_toNat_le, saturatingSub_toNat, sumVaultMintBalance_ok hsum,
    sumVaultMintBalance_ok hsum', hkey] at hle
  change e.holdingOf D l.vaultKey _ ≤ e.holdingOf D l.vaultKey _ + _
  omega

theorem met_of_verifyOutputBalanceFloor (hshape : e.WellShaped .outputBalanceFloor)
    (hkey : l'.vaultKey = l.vaultKey)
    (hcapture : captureSnapshot env l remaining e = .ok snapshot)
    (h : verifyOutputBalanceFloor env' l' remaining' e snapshot.1 snapshot.2 = .ok ()) :
    e.Met D l.vaultKey (l.accountInfo env) (l'.accountInfo env') .outputBalanceFloor := by
  simp only [captureSnapshot, hshape.known, seq_ok_iff, someOr_ok_iff, ensure_ok_iff,
    exists_and_left, exists_const, pure_ok_iff] at hcapture
  obtain ⟨info, hinfo, u, hu, hmint, howner, rfl⟩ := hcapture
  obtain rfl := listedInfo_eq_some hinfo
  simp only [verifyOutputBalanceFloor, seq_ok_iff, someOr_ok_iff, ensure_ok_iff, exists_and_left,
    exists_const] at h
  obtain ⟨-, info', hinfo', v, hv, howner', hle⟩ := h
  obtain rfl := listedInfo_eq_some hinfo'
  change _ ≤ saturatingSub v.amount (u64At (padded (leBytes 8 u.amount.toNat)) 0) at hle
  rw [u64At_padded, UInt64.le_iff_toNat_le, saturatingSub_toNat] at hle
  have hpos : 0 < e.auxAmount.toNat := UInt64.lt_iff_toNat_lt.mp (hshape.floor rfl)
  refine ⟨u, v, hu, hv, hmint, howner, howner'.trans hkey, ?_⟩
  omega

theorem met_of_verifyEntry (hshape : e.WellShaped mode) (hkey : l'.vaultKey = l.vaultKey)
    (hcapture : captureSnapshot env l remaining e = .ok snapshot)
    (h : verifyEntry env' l' remaining' e snapshot.1 snapshot.2 = .ok ()) :
    e.Met D l.vaultKey (l.accountInfo env) (l'.accountInfo env') mode := by
  simp only [verifyEntry, hshape.known, seq_ok_iff, someOr_ok_iff, Option.some.injEq,
    exists_eq_left'] at h
  cases mode
  case absolute | ataAuthorityPin | declarationConsistency => trivial
  case mintDeltaCap => exact met_of_verifyMintDeltaCap hshape hkey hcapture h
  case outputBalanceFloor => exact met_of_verifyOutputBalanceFloor hshape hkey hcapture h
  all_goals exact met_of_verifyBytes hshape rfl hcapture h

end Pair

end Bounds

section Session

variable {D : Type} [Host D]

omit [Host D] in
theorem snapshotAt_newSession (clock : Clock) (vaultKey : Pubkey) (policy : PolicyConfig D)
    (args : ValidateAndAuthorizeArgs D) (pins : OutputPins)
    (snapshots : List (List UInt8 × UInt8)) {j : ℕ} (hj : j < maxPostAssertionEntries) :
    (∀ snapshot, snapshots[j]? = some snapshot →
      (newSession clock vaultKey policy args pins snapshots).snapshotAt j = snapshot) ∧
    (snapshots = [] →
      ((newSession clock vaultKey policy args pins snapshots).snapshotAt j).2 = 0) := by
  simp only [SessionAuthority.snapshotAt, hj, dif_pos, newSession, List.getD_eq_getElem?_getD]
  constructor
  · intro snapshot hsnapshot
    rw [hsnapshot]
    rfl
  · rintro rfl
    rfl

theorem captureSnapshots_ok {env : Env} {l : Ledger D} {policy : PolicyConfig D}
    {remaining : List AccountMeta} {snapshots : List (List UInt8 × UInt8)}
    (h : captureSnapshots env l policy remaining = .ok snapshots) :
    snapshots = [] ∨ ∃ A, l.postAssertions = some A ∧
      A.entries.mapM (captureSnapshot env l remaining) = .ok snapshots := by
  unfold captureSnapshots at h
  split at h
  · exact .inl (Except.ok.inj h).symm
  simp only [loadAssertions, seq_ok_iff] at h
  obtain ⟨found, hfound, h⟩ := h
  split at hfound
  · simp only [seq_ok_iff, someOr_ok_iff, ensure_ok_iff, exists_and_left, exists_const,
      pure_ok_iff] at hfound
    obtain ⟨A, hA, -, rfl⟩ := hfound
    exact .inr ⟨A, hA, h⟩
  · cases hfound
    exact .inl (Except.ok.inj h).symm

theorem enforcePostExecutionAssertions_ok {env : Env} {l : Ledger D}
    {remaining : List AccountMeta} {s : SessionAuthority} {A : PostExecutionAssertions}
    (h : enforcePostExecutionAssertions env l remaining s = .ok ()) (hA : l.postAssertions = some A)
    {j : ℕ} {e : PostAssertionEntry} (he : A.entries[j]? = some e) :
    verifyEntry env l remaining e (s.snapshotAt j).1 (s.snapshotAt j).2 = .ok () := by
  simp only [enforcePostExecutionAssertions, loadAssertions, seq_ok_iff, someOr_ok_iff] at h
  obtain ⟨found, hfound, B, rfl, h⟩ := h
  split at hfound
  · simp only [seq_ok_iff, someOr_ok_iff, ensure_ok_iff, exists_and_left, exists_const,
      pure_ok_iff] at hfound
    obtain ⟨C, hC, -, hsome⟩ := hfound
    obtain rfl := Option.some.inj hsome
    obtain rfl := Option.some.inj (hC.symm.trans hA)
    have hmem : (e, j) ∈ C.entries.zipIdx := by
      rw [List.mem_zipIdx_iff_getElem?]
      exact he
    exact forM_ok_iff.mp h (e, j) hmem
  · cases hfound

variable [DecidableEq D] {env : Env} {args : ValidateAndAuthorizeArgs D} {l m : Ledger D}
  {a : VaultAccounts D} {vaultToken : TokenLedger.TokenAccount Pubkey} {pins : OutputPins}
  {snapshots : List (List UInt8 × UInt8)} {tokens : TokenLedger.Accounts Pubkey}

omit [DecidableEq D] in
theorem SessionOpened.accountInfo
    (h : SessionOpened env args l m a vaultToken pins snapshots tokens) (env' : Env) :
    m.accountInfo env' =
      Ledger.accountInfo { l.withBlankSession args with tokens := tokens } env' := by
  have howns : ∀ key, m.ownsAccount key =
      Ledger.ownsAccount { l.withBlankSession args with tokens := tokens } key := by
    intro key
    have hsession : (m.sessions key).isSome = ((l.withBlankSession args).sessions key).isSome := by
      simp only [h.result, Ledger.withBlankSession, Ledger.setSession, Function.update_apply]
      split <;> rfl
    have hlive : m.live.isSome = l.live.isSome := by
      rw [h.result, h.live]
      rfl
    unfold Ledger.ownsAccount
    rw [hsession, hlive, h.result]
    rfl
  funext key
  unfold Ledger.accountInfo
  rw [howns, h.result]
  rfl

variable {tx : Transaction} {i k : ℕ} {fargs : FinalizeSessionArgs} {n l' : Ledger D}

/-- A session that is closed while its vault has assertions meets each of them between the state
it was opened in and the state it leaves, whatever accounts the agent listed at the two ends, and
no end takes a slice that is out of range. -/
theorem assertions_paired (h : tx.Holds i k args fargs l m n l') {A : PostExecutionAssertions}
    (hA : A.Accepted) (hopened : l.postAssertions = some A) (hclosed : n.postAssertions = some A)
    (hlive : n.live = some a) (hset : a.policy.hasPostAssertions ≠ 0) :
    (∀ (j : ℕ) (e : PostAssertionEntry), A.entries[j]? = some e →
      ∃ mode, AssertionMode.tryFrom e.assertionMode = some mode ∧
      e.Met D l.vaultKey (m.accountInfo (tx.env i))
        (Ledger.accountInfo { n with tokens := l'.tokens } (tx.env k)) mode) ∧
    Indexed.InRange D A := by
  refine ⟨fun j e he => ?_, Indexed.inRange_of_accepted hA⟩
  obtain ⟨hj, mode, hshape⟩ := hA.wellShaped he
  refine ⟨mode, hshape.known, ?_⟩
  obtain ⟨b, vaultToken, pins, snapshots, tokens, b', revoked, outcome, vault, tracker, ho, hc⟩ :=
    h.ends
  obtain rfl := Option.some.inj (hc.live.symm.trans hlive)
  have hasserted := hc.asserted
  rw [ensureAssertions, if_pos ⟨not_isExpired_newSession _ _ _ _ _ _, hset⟩] at hasserted
  have hverify := enforcePostExecutionAssertions_ok hasserted hclosed he
  have hkey : n.vaultKey = l.vaultKey := h.vaultKey_sessions.1
  have htokens : l'.tokens = outcome.tokens := by rw [hc.result]
  obtain ⟨hat, hnone⟩ :=
    snapshotAt_newSession tx.clock l.vaultKey b.policy args pins snapshots hj
  rw [ho.accountInfo, htokens]
  rcases captureSnapshots_ok ho.captured with hempty | ⟨B, hB, hcaptured⟩
  · -- nothing was captured, so an entry that needs a snapshot would have failed
    rw [hnone hempty] at hverify
    have hmode := not_takesSnapshot_of_verifyEntry hshape hverify
    cases mode <;> first | exact True.intro | cases hmode
  · cases hB.symm.trans hopened
    obtain ⟨snapshot, hsnapshot, hcapture⟩ := mapM_ok_getElem? hcaptured he
    rw [hat snapshot hsnapshot] at hverify
    exact met_of_verifyEntry hshape hkey hcapture hverify

theorem exec_accepted {c : Call D} (h : exec env l c = .ok m)
    (hl : ∀ A ∈ l.postAssertions, A.Accepted) : ∀ A ∈ m.postAssertions, A.Accepted := by
  by_cases hwrites : Part.assertionList ∉ c.writes
  · have hsame : m.postAssertions = l.postAssertions := exec_frame h hwrites
    rwa [hsame]
  cases c <;> simp [Call.writes, Part.ofVault] at hwrites
  case createPostAssertions =>
    obtain ⟨hvalid, hstored⟩ := createPostAssertions_stored h
    rintro A hA
    cases hstored.symm.trans hA
    exact ⟨_, hvalid, rfl⟩
  case closePostAssertions =>
    obtain ⟨b, version, -, -, -, -, rfl⟩ := closePostAssertions_ok h
    intro A hA
    cases hA

theorem run_accepted {as : List (Action D)} (hrun : Run Step l as m) (hl : l.Genesis) :
    ∀ A ∈ m.postAssertions, A.Accepted := by
  refine hrun.invariant (P := fun s => ∀ A ∈ s.postAssertions, A.Accepted) ?_
    (by simp [hl.postAssertions])
  intro s x s' hs hstep
  cases hstep with
  | call hexec => exact exec_accepted hexec hs
  | foreign => exact hs

end Session

section Sample

/-- At most 45 of the stablecoin may leave, by bytes and by balance, and 40 of the other token must
come in. -/
def sampleEntries : List PostAssertionEntry :=
  let word (v : UInt8) : List.Vector UInt8 8 := List.Vector.ofFn fun i => if i = 0 then v else 0
  [⟨sampleKey 20, 64, 8, 0, leBytes 8 45, 1, word 0, 0⟩,
    ⟨sampleKey 20, 0, 0, 0, sampleMint.bytes, 4, word 45, 1⟩,
    ⟨sampleKey 21, 0, 0, 0, (sampleKey 30).bytes, 6, word 40, 0⟩]

def assertingLedger : Ledger Preimage :=
  after (sampleEnv 1800 26) tradingLedger
    (.createPostAssertions (sampleKey 1) sampleEntries (tradingLedger.live.elim Host.zeroDigest
      fun a => liveDigest a.vault (a.markAssertions 1).policy))

/-- The accounts of the sample trade and the one of the assertions. -/
def assertingMetas (vault : Pubkey) : List AccountMeta :=
  sampleMetas ++ [⟨accountAddress Preimage "post_assertions" vault, false, false⟩]

def assertingValidate (vault : Pubkey) : ValidateAndAuthorizeArgs Preimage :=
  { sampleValidate vault with expectedPolicyVersion := 2, remaining := assertingMetas vault }

def assertingFinalize (vault : Pubkey) : FinalizeSessionArgs :=
  { sampleFinalize vault with remaining := assertingMetas vault }

def assertingTransaction (vault : Pubkey) : Transaction :=
  { sampleTransaction vault with
    instructions :=
      [sampleInstruction vault (.validateAndAuthorize (assertingValidate vault)),
        ⟨sampleKey 2, sampleMetas, []⟩,
        sampleInstruction vault (.finalizeSession (assertingFinalize vault))] }

def assertingOpened : Ledger Preimage :=
  after ((assertingTransaction assertingLedger.vaultKey).env 0) assertingLedger
    (.validateAndAuthorize (assertingValidate assertingLedger.vaultKey))

def assertingSwapped : Ledger Preimage :=
  { assertingOpened with tokens := sampleTokens assertingLedger.vaultKey 40 }

def assertingClosed : Ledger Preimage :=
  after ((assertingTransaction assertingLedger.vaultKey).env 2) assertingSwapped
    (.finalizeSession (assertingFinalize assertingLedger.vaultKey))

theorem holds_asserting :
    (assertingTransaction assertingLedger.vaultKey).Holds 0 2
      (assertingValidate assertingLedger.vaultKey) (assertingFinalize assertingLedger.vaultKey)
      assertingLedger assertingOpened assertingSwapped assertingClosed := by
  have hkey : assertingSwapped.vaultKey = assertingLedger.vaultKey := by decide +kernel
  refine ⟨⟨_, rfl, rfl, rfl, ?_⟩, exec_after (by decide +kernel), ?_, ⟨_, rfl, rfl, rfl, ?_⟩,
    exec_after (by decide +kernel), rfl⟩
  · simp [sampleInstruction, metasAt, Call.positions, List.range_succ]
  · refine .single ⟨⟨sampleKey 2, sampleMetas, []⟩, rfl, .foreign ?_ _ _⟩
    exact fun hprogram => absurd hprogram (by decide)
  · rw [hkey]
    simp [sampleInstruction, metasAt, Call.positions, List.range_succ]

theorem onChain_assertingLedger : OnChain assertingLedger := by
  let storing : Call Preimage := .createPostAssertions (sampleKey 1) sampleEntries
    (tradingLedger.live.elim Host.zeroDigest
      fun a => liveDigest a.vault (a.markAssertions 1).policy)
  have hstored : exec ((soloTransaction emptyLedger.vaultKey ⟨26, 1800, by decide⟩
      storing).env 0) tradingLedger storing = .ok assertingLedger := exec_after (by decide +kernel)
  exact onChain_tradingLedger.solo rfl hstored

theorem assertions_paired_swap :
    (sampleEntries.map PostAssertionEntry.stored).length = 3 ∧
    ∀ (j : ℕ) (e : PostAssertionEntry), (sampleEntries.map PostAssertionEntry.stored)[j]? = some e →
      ∃ mode, AssertionMode.tryFrom e.assertionMode = some mode ∧
        e.Met Preimage assertingLedger.vaultKey
          (assertingOpened.accountInfo ((assertingTransaction assertingLedger.vaultKey).env 0))
          (Ledger.accountInfo { assertingSwapped with tokens := assertingClosed.tokens }
            ((assertingTransaction assertingLedger.vaultKey).env 2)) mode := by
  refine ⟨rfl, fun j e he => ?_⟩
  have hstored : assertingLedger.postAssertions =
      some ⟨assertingLedger.vaultKey, sampleEntries.map PostAssertionEntry.stored⟩ := by
    decide +kernel
  have hkept : assertingSwapped.postAssertions =
      some ⟨assertingLedger.vaultKey, sampleEntries.map PostAssertionEntry.stored⟩ := by
    decide +kernel
  have hlive : assertingSwapped.live.any (fun a => a.policy.hasPostAssertions ≠ 0) = true := by
    decide +kernel
  obtain ⟨a, ha, hset⟩ := (Option.any_eq_true _ _).mp hlive
  -- the list was stored by a transaction, so it was accepted
  obtain ⟨txs, w, hrun, hw⟩ := onChain_assertingLedger
  obtain ⟨as, hsteps⟩ := exists_run_of_committed hrun emptyLedger.vaultKey
  have haccepted := run_accepted (hw ▸ hsteps) (genesis_emptyChain _) _ hstored
  exact (assertions_paired holds_asserting haccepted hstored hkept ha
    (of_decide_eq_true hset)).1 j e he

end Sample

end Sigil
