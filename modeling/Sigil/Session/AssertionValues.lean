import Sigil.Library.ByteOrder
import Sigil.Session.AssertionPairs

/-! # What assertions measure

An assertion on bytes compares numbers, and a cap on a mint compares sums of balances. The byte
comparisons of the program are the orders of the integers that the bytes denote, whatever the
lengths. The vault-wide sum of a mint ranges over two derived addresses, whichever accounts are
listed and however often, so the two ends of a session add up the same accounts.
-/

namespace Sigil

open Machine Guard SelfDelimiting ByteOrder

section Compare

variable (a b : List UInt8)

theorem compareBelow_eq (aPad bPad : UInt8) (n : ℕ) : compareBelow a b aPad bPad n =
    compare (valueBelow (a.getD · aPad) n) (valueBelow (b.getD · bPad) n) := by
  induction n with
  | zero => rfl
  | succ n ih => rw [compareBelow, compare_valueBelow_succ, ih]

theorem compareLeUnsigned_eq : compareLeUnsigned a b = compare (ofLeBytes a) (ofLeBytes b) := by
  rw [compareLeUnsigned, compareBelow_eq, valueBelow_getD_zero a (le_max_left _ _),
    valueBelow_getD_zero b (le_max_right _ _)]

theorem signedOfLeBytes_of_isNegativeLe (h : isNegativeLe a = true) :
    signedOfLeBytes a = ofLeBytes a - 256 ^ a.length := by
  rw [signedOfLeBytes_eq, if_pos ((getLast?_any_0x80_iff a).mp h)]

theorem signedOfLeBytes_of_not_isNegativeLe (h : isNegativeLe a = false) :
    signedOfLeBytes a = ofLeBytes a := by
  have hnonneg : ¬ 256 ^ a.length ≤ 2 * ofLeBytes a := by
    rw [← getLast?_any_0x80_iff]
    exact Bool.eq_false_iff.mp h
  rw [signedOfLeBytes_eq, if_neg hnonneg]

theorem signedOfLeBytes_neg_of_isNegativeLe (h : isNegativeLe a = true) :
    signedOfLeBytes a < 0 := by
  have hlt : (ofLeBytes a : ℤ) < 256 ^ a.length := mod_cast ofLeBytes_lt a
  rw [signedOfLeBytes_of_isNegativeLe a h]
  omega

theorem compareBelow_ones (ha : isNegativeLe a = true) (hb : isNegativeLe b = true) :
    compareBelow a b 0xFF 0xFF (max a.length b.length) =
      compare (signedOfLeBytes a) (signedOfLeBytes b) := by
  have hvalue {bs : List UInt8} (hbs : isNegativeLe bs = true) {n : ℕ} (hn : bs.length ≤ n) :
      signedOfLeBytes bs = (valueBelow (bs.getD · 0xFF) n : ℤ) - 256 ^ n := by
    have hones : (valueBelow (bs.getD · 0xFF) n : ℤ) + 256 ^ bs.length =
        ofLeBytes bs + 256 ^ n := mod_cast valueBelow_getD_ones bs hn
    rw [signedOfLeBytes_of_isNegativeLe bs hbs]
    omega
  rw [compareBelow_eq, hvalue ha (le_max_left _ _), hvalue hb (le_max_right _ _)]
  generalize valueBelow (a.getD · 0xFF) _ = x
  generalize valueBelow (b.getD · 0xFF) _ = y
  rcases lt_trichotomy x y with h | h | h
  · rw [compare_lt_iff_lt.mpr h, eq_comm, compare_lt_iff_lt]
    omega
  · rw [compare_eq_iff_eq.mpr h, eq_comm, compare_eq_iff_eq]
    omega
  · rw [compare_gt_iff_gt.mpr h, eq_comm, compare_gt_iff_gt]
    omega

theorem compareLeSigned_eq :
    compareLeSigned a b = compare (signedOfLeBytes a) (signedOfLeBytes b) := by
  unfold compareLeSigned
  cases ha : isNegativeLe a <;> cases hb : isNegativeLe b
  case false.false =>
    rw [signedOfLeBytes_of_not_isNegativeLe a ha, signedOfLeBytes_of_not_isNegativeLe b hb]
    refine (compareLeUnsigned_eq a b).trans ?_
    rcases lt_trichotomy (ofLeBytes a) (ofLeBytes b) with h | h | h
    · rw [compare_lt_iff_lt.mpr h, eq_comm, compare_lt_iff_lt]
      exact mod_cast h
    · rw [compare_eq_iff_eq.mpr h, eq_comm, compare_eq_iff_eq, h]
    · rw [compare_gt_iff_gt.mpr h, eq_comm, compare_gt_iff_gt]
      exact mod_cast h
  case false.true =>
    have hneg := signedOfLeBytes_neg_of_isNegativeLe b hb
    rw [signedOfLeBytes_of_not_isNegativeLe a ha, eq_comm, compare_gt_iff_gt]
    omega
  case true.false =>
    have hneg := signedOfLeBytes_neg_of_isNegativeLe a ha
    rw [signedOfLeBytes_of_not_isNegativeLe b hb, eq_comm, compare_lt_iff_lt]
    omega
  case true.true => exact compareBelow_ones a b ha hb

/-- The comparisons are those of the integers that the bytes denote, and so are the operators. -/
theorem bytesMatch_orders :
    compareLeUnsigned a b = compare (ofLeBytes a) (ofLeBytes b) ∧
    compareLeSigned a b = compare (signedOfLeBytes a) (signedOfLeBytes b) ∧
    (bytesMatch a .gte b = true ↔ ofLeBytes b ≤ ofLeBytes a) ∧
    (bytesMatch a .lte b = true ↔ ofLeBytes a ≤ ofLeBytes b) ∧
    (bytesMatch a .gteSigned b = true ↔ signedOfLeBytes b ≤ signedOfLeBytes a) ∧
    (bytesMatch a .lteSigned b = true ↔ signedOfLeBytes a ≤ signedOfLeBytes b) := by
  refine ⟨compareLeUnsigned_eq a b, compareLeSigned_eq a b, ?_, ?_, ?_, ?_⟩
  · rw [bytesMatch, decide_eq_true_iff, compareLeUnsigned_eq, compare_ge_iff_ge]
  · rw [bytesMatch, decide_eq_true_iff, compareLeUnsigned_eq, compare_le_iff_le]
  · rw [bytesMatch, decide_eq_true_iff, compareLeSigned_eq, compare_ge_iff_ge]
  · rw [bytesMatch, decide_eq_true_iff, compareLeSigned_eq, compare_le_iff_le]

-- Minus one in one byte is minus one in three, and below the empty string, which is zero.
example : compareLeSigned [0xFF] [0xFF, 0xFF, 0xFF] = .eq ∧ compareLeSigned [0xFF] [] = .lt ∧
    compareLeUnsigned [0xFF] [0xFF, 0xFF, 0xFF] = .lt := by decide

end Compare

section Sums

variable {D : Type} [Host D]

variable {env env' : Env} {l l' : Ledger D} {remaining remaining' : List AccountMeta}
  {e : PostAssertionEntry} {snapshot : List UInt8 × UInt8}

/-- A snapshot of the vault-wide sum is taken exactly when all derived accounts are listed and
their balances fit, and it is their sum. -/
theorem captureSnapshot_vaultWide
    (hmode : AssertionMode.tryFrom e.assertionMode = some .mintDeltaCap)
    (hscope : e.auxByte = 0) (h : captureSnapshot env l remaining e = .ok snapshot) :
    Lists remaining (deriveVaultAtas D l.vaultKey e.mint) ∧ snapshot.2 = 8 ∧
      (u64At snapshot.1 0).toNat = l.derivedHolding env e.mint := by
  simp only [captureSnapshot, hmode, hscope, seq_ok_iff, pure_ok_iff,
    sumVaultMintBalance_ok_iff] at h
  obtain ⟨sum, ⟨hlists, hsum⟩, rfl⟩ := h
  refine ⟨hlists, rfl, ?_⟩
  rw [← hsum]
  exact congrArg UInt64.toNat (u64At_padded sum)

/-- The vault-wide sum is that of the derived accounts whenever there is one, and there is none
while a derived account is not listed; the two sums that the cap compares range over the same
accounts. -/
theorem sumVaultMintBalance_exact
    (hmode : AssertionMode.tryFrom e.assertionMode = some .mintDeltaCap) (hscope : e.auxByte = 0)
    (hkey : l'.vaultKey = l.vaultKey) :
    (∀ mint targetAccount remaining sum,
      sumVaultMintBalance env l mint 0 targetAccount remaining = .ok sum ↔
        Lists remaining (deriveVaultAtas D l.vaultKey mint) ∧
          sum.toNat = ((deriveVaultAtas D l.vaultKey mint).map fun key =>
            vaultHolding l.vaultKey mint (l.accountInfo env key)).sum) ∧
    ∀ remaining remaining' snapshot, captureSnapshot env l remaining e = .ok snapshot →
      (verifyMintDeltaCap env' l' remaining' e snapshot.1 snapshot.2 = .ok () ↔
        Lists remaining' (deriveVaultAtas D l.vaultKey e.mint) ∧
        l'.derivedHolding env' e.mint < 2 ^ 64 ∧
        l.derivedHolding env e.mint ≤ l'.derivedHolding env' e.mint + e.auxAmount.toNat) := by
  refine ⟨fun _ _ _ _ => sumVaultMintBalance_ok_iff, fun remaining remaining' snapshot h => ?_⟩
  obtain ⟨-, hlen, hbefore⟩ := captureSnapshot_vaultWide hmode hscope h
  simp only [verifyMintDeltaCap, hscope, seq_ok_iff, ensure_ok_iff, exists_const,
    sumVaultMintBalance_ok_iff, hkey, hlen, true_and, UInt64.le_iff_toNat_le, saturatingSub_toNat,
    hbefore]
  constructor
  · rintro ⟨sum, ⟨hlists, hsum⟩, hle⟩
    rw [hsum] at hle
    exact ⟨hlists, hsum ▸ sum.toNat_lt, Nat.sub_le_iff_le_add'.mp hle⟩
  · rintro ⟨hlists, hlt, hle⟩
    have hsum : (UInt64.ofNat (l'.derivedHolding env' e.mint)).toNat =
        l'.derivedHolding env' e.mint :=
      UInt64.toNat_ofNat_of_lt' hlt
    refine ⟨_, ⟨hlists, hsum⟩, ?_⟩
    rw [hsum]
    exact Nat.sub_le_iff_le_add'.mpr hle

end Sums

section Sample

/-- A host whose derived addresses keep the start of every seed. -/
structure Spread where
  word : List UInt8
  deriving DecidableEq

instance : Host Spread where
  cluster := .mainnet
  sha256 := Spread.mk
  digestBytes := Spread.word
  zeroDigest := ⟨[]⟩
  findProgramAddress seeds _ := Pubkey.ofBytes (seeds.flatMap (List.take 8))

/-- A vault with balances of the stablecoin under both token programs. -/
def holdingLedger (classic token2022 : UInt64) : Ledger Spread where
  vaultKey := sampleKey 7
  live := none
  pendingPolicy := none
  pendingOwner := none
  pendingGrant := none
  pendingPerms := fun _ => none
  postAssertions := none
  sessions := fun _ => none
  tokens := fun key =>
    if key = associatedTokenAddress Spread (sampleKey 7) sampleMint tokenProgramId then
      some (sampleAccount sampleMint (sampleKey 7) classic)
    else none
  others := fun key =>
    if key = associatedTokenAddress Spread (sampleKey 7) sampleMint token2022ProgramId then
      ⟨token2022ProgramId, packToken (sampleAccount sampleMint (sampleKey 7) token2022)⟩
    else .empty

/-- The vault may lose twenty units of the stablecoin over all its accounts. -/
def vaultWideCap : PostAssertionEntry :=
  ⟨sampleKey 0, 0, 0, 0, sampleMint.bytes, 4,
    List.Vector.ofFn fun i => if i.val = 0 then 20 else 0, 0⟩

/-- The derived accounts, the second of them twice. -/
def derivedMetas : List AccountMeta :=
  (deriveVaultAtas Spread (sampleKey 7) sampleMint ++
    (deriveVaultAtas Spread (sampleKey 7) sampleMint).drop 1).map fun key => ⟨key, false, false⟩

theorem sumVaultMintBalance_exact_moved :
    (holdingLedger 50 30).derivedHolding (sampleEnv 10 1) sampleMint = 80 ∧
    verifyMintDeltaCap (sampleEnv 20 2) (holdingLedger 5 60) derivedMetas.reverse vaultWideCap
      (padded (leBytes 8 80)) 8 = .ok () := by
  have hcapture : captureSnapshot (sampleEnv 10 1) (holdingLedger 50 30) derivedMetas vaultWideCap =
      .ok (padded (leBytes 8 80), 8) := by decide +kernel
  have hmode : AssertionMode.tryFrom vaultWideCap.assertionMode = some .mintDeltaCap := rfl
  have hkey : (holdingLedger 5 60).vaultKey = (holdingLedger 50 30).vaultKey := rfl
  refine ⟨by decide +kernel, ((sumVaultMintBalance_exact hmode rfl hkey).2
    _ _ _ hcapture).mpr ⟨?_, by decide +kernel, by decide +kernel⟩⟩
  intro key hkey
  simp only [derivedMetas, List.mem_reverse, List.mem_map, List.mem_append]
  exact ⟨_, ⟨key, .inl hkey, rfl⟩, rfl⟩

end Sample

end Sigil
