import Sigil.State.SpendCaps
import Sigil.System.Ledger

/-! # Moving funds

Deposits and withdrawals of the owner, and the arithmetic and the checks that the two spending
paths of an agent share: fees, the walk over the vault's stablecoin accounts, and the extension
check of token mints.
-/

namespace Sigil

open Machine Guard TokenLedger

def feeRateDenominator : UInt64 := 1000000

def protocolFeeRate : UInt16 := 200

def usdDecimals : UInt8 := 6

/-- A fee in millionths of the amount, rounded up. -/
def ceilFee (amount rate : UInt64) : Result UInt64 := do
  let product ← someOr .overflow (checkedMul amount rate)
  let raised ← someOr .overflow (checkedAdd product (feeRateDenominator - 1))
  return raised / feeRateDenominator

def stablecoinToUsd (amount : UInt64) (tokenDecimals : UInt8) : Result UInt64 :=
  if tokenDecimals = usdDecimals then .ok amount
  else if tokenDecimals < usdDecimals then
    someOr .overflow (checkedMul amount (UInt64.ofNat (10 ^ (usdDecimals - tokenDecimals).toNat)))
  else if 10 ^ (tokenDecimals - usdDecimals).toNat < 2 ^ 64 then
    .ok (amount / UInt64.ofNat (10 ^ (tokenDecimals - usdDecimals).toNat))
  else fail .overflow

def addWhen (p : Bool) (total amount : UInt64) : Result UInt64 :=
  if p then someOr .overflow (checkedAdd total amount) else .ok total

section Extensions

def token2022MintBaseLen : ℕ := 82

def token2022AccountTypeIndex : ℕ := 165

def maxTlvIterations : ℕ := 64

def u16At (data : List UInt8) (offset : ℕ) : ℕ :=
  SelfDelimiting.ofLeBytes ((data.drop offset).take 2)

/-- Memo transfer, and the pointer, metadata and group extensions. -/
def isAllowlistedExtension (extType : ℕ) : Bool := extType ∈ [8, 18, 19, 20, 21, 22, 23]

/-- Walk the extensions of a mint from `cursor`; a zero type ends the list. -/
def walkExtensions (data : List UInt8) : ℕ → ℕ → Result Unit
  | 0, cursor => ensure (data.length < cursor + 4) .errToken2022ExtensionForbidden
  | fuel + 1, cursor =>
    if data.length < cursor + 4 then .ok ()
    else if u16At data cursor = 0 then .ok ()
    else do
      ensure (isAllowlistedExtension (u16At data cursor) = true) .errToken2022ExtensionForbidden
      let next := cursor + 4 + u16At data (cursor + 2)
      ensure (next ≤ data.length) .errToken2022ExtensionForbidden
      walkExtensions data fuel next

def enforceToken2022ExtensionAllowlist (mint : AccountInfo) : Result Unit :=
  if mint.owner ≠ token2022ProgramId then .ok ()
  else if mint.data.length ≤ token2022MintBaseLen then .ok ()
  else do
    ensure (token2022AccountTypeIndex < mint.data.length) .errToken2022ExtensionForbidden
    ensure (∀ b ∈ (mint.data.take token2022AccountTypeIndex).drop token2022MintBaseLen, b = 0)
      .errToken2022ExtensionForbidden
    ensure (mint.data.getD token2022AccountTypeIndex 0 = 1) .errToken2022ExtensionForbidden
    walkExtensions mint.data maxTlvIterations (token2022AccountTypeIndex + 1)

end Extensions

section Tokens

variable {D : Type} (l : Ledger D)

/-- An optional token account, with its address, as the framework loads it. -/
def Ledger.loadOptionalToken (key : Option Pubkey) :
    Result (Option (Pubkey × TokenAccount Pubkey)) :=
  match key with
  | none => .ok none
  | some k => do
    let t ← l.loadToken k
    return some (k, t)

/-- A token account of the vault, created empty when it does not exist yet. -/
def Ledger.initIfNeeded (key mint : Pubkey) : Ledger D :=
  match l.tokens key with
  | some _ => l
  | none =>
    let fresh : TokenAccount Pubkey := ⟨mint, l.vaultKey, 0, none, false, none, 0, none⟩
    { l with tokens := Function.update l.tokens key (some fresh) }

theorem Ledger.initIfNeeded_eq (key mint : Pubkey) :
    ∃ tokens, l.initIfNeeded key mint = { l with tokens := tokens } := by
  unfold initIfNeeded
  split
  · exact ⟨l.tokens, rfl⟩
  · exact ⟨_, rfl⟩

/-- Pay a fee out of a token account of the vault to the account of the expected owner. -/
def payFee (tokens : Accounts Pubkey) (vaultKey source mint expectedOwner : Pubkey)
    (fee : UInt64) (dest : Option (Pubkey × TokenAccount Pubkey)) (e : SigilError) :
    Result (Accounts Pubkey) :=
  if 0 < fee then do
    let (key, t) ← someOr e dest
    ensure (t.owner = expectedOwner) e
    ensure (t.mint = mint) e
    viaToken (transfer tokens source key vaultKey fee)
  else .ok tokens

/-- `transfer_measured_fees`: the protocol's fee goes to the treasury, the developer's to the fee
destination of the vault. -/
def transferMeasuredFees (cluster : Cluster) (tokens : Accounts Pubkey)
    (vaultKey source mint feeDestination : Pubkey) (protocolFee developerFee : UInt64)
    (treasury feeDest : Option (Pubkey × TokenAccount Pubkey)) : Result (Accounts Pubkey) := do
  let paid ← payFee tokens vaultKey source mint (protocolTreasury cluster) protocolFee treasury
    .invalidProtocolTreasury
  payFee paid vaultKey source mint feeDestination developerFee feeDest .invalidFeeDestination

end Tokens

section Owner

variable {D : Type} [Host D]

/-- Walk over listed accounts and add up the stablecoin balances of the vault that `counts`
admits, each account once and at most `limit` of them in all. -/
def sumStableBalances (env : Env) (l : Ledger D)
    (counts : Pubkey → AccountInfo → TokenView → Bool) :
    ℕ → List Pubkey → UInt64 → List AccountMeta → Result UInt64
  | _, _, total, [] => .ok total
  | 0, _, _, _ :: _ => fail .ixMetaCountExceeded
  | limit + 1, seen, total, m :: rest =>
    let info := l.accountInfo env m.pubkey
    if m.pubkey ∈ seen then sumStableBalances env l counts limit seen total rest
    else if info.owner ≠ tokenProgramId ∧ info.owner ≠ token2022ProgramId then
      sumStableBalances env l counts limit seen total rest
    else match tokenView info.data with
      | none => sumStableBalances env l counts limit seen total rest
      | some view =>
        if view.owner = l.vaultKey ∧ isStablecoinMint (Host.cluster D) view.mint = true ∧
            counts m.pubkey info view = true then do
          let total' ← someOr .overflow (checkedAdd total view.amount)
          sumStableBalances env l counts limit (m.pubkey :: seen) total' rest
        else sumStableBalances env l counts limit seen total rest

def depositFunds (env : Env) (owner mint : Pubkey) (amount : UInt64) (l : Ledger D) :
    Result (Ledger D) := do
  let a ← l.loadAsOwner owner
  let decimals ← mustExist (unpackMint (l.accountInfo env mint))
  let ownerAta := associatedTokenAddress D owner mint tokenProgramId
  let vaultAta := associatedTokenAddress D l.vaultKey mint tokenProgramId
  let source ← l.loadToken ownerAta
  require (source.owner = owner) (.anchor .constraintTokenOwner)
  require (source.mint = mint) (.anchor .constraintTokenMint)
  let l₁ := l.initIfNeeded vaultAta mint
  let target ← l₁.loadToken vaultAta
  require (target.owner = l.vaultKey) (.anchor .constraintTokenOwner)
  require (target.mint = mint) (.anchor .constraintTokenMint)
  rejectCpi env
  ensure (a.vault.status ≠ .closed) .vaultAlreadyClosed
  ensure (isPinnedDepositMint (Host.cluster D) mint = true) .errMintNotPinned
  enforceToken2022ExtensionAllowlist (l.accountInfo env mint)
  ensure (decimals = 6) .unsupportedToken
  let tokens ← viaToken (transfer l₁.tokens ownerAta vaultAta owner amount)
  let deposited ← addWhen (isStablecoinMint (Host.cluster D) mint) a.vault.totalDepositedUsd amount
  return { l₁ with
    live := some { a with vault := { a.vault with totalDepositedUsd := deposited } }
    tokens := tokens }

def withdrawFunds (env : Env) (owner mint : Pubkey) (remaining : List AccountMeta)
    (amount : UInt64) (l : Ledger D) : Result (Ledger D) := do
  let a ← l.loadAsOwner owner
  let _ ← mustExist (unpackMint (l.accountInfo env mint))
  let vaultAta := associatedTokenAddress D l.vaultKey mint tokenProgramId
  let ownerAta := associatedTokenAddress D owner mint tokenProgramId
  let source ← l.loadToken vaultAta
  require (source.owner = l.vaultKey) (.anchor .constraintTokenOwner)
  require (source.mint = mint) (.anchor .constraintTokenMint)
  let target ← l.loadToken ownerAta
  require (target.owner = owner) (.anchor .constraintTokenOwner)
  require (target.mint = mint) (.anchor .constraintTokenMint)
  rejectCpi env
  ensure (a.vault.status ≠ .closed) .vaultAlreadyClosed
  a.cosignGate remaining
  ensure (amount ≤ source.amount) .insufficientBalance
  let tokens ← viaToken (transfer l.tokens vaultAta ownerAta l.vaultKey amount)
  let withdrawn ← addWhen (isStablecoinMint (Host.cluster D) mint) a.vault.totalWithdrawnUsd amount
  return { l with
    live := some { a with vault := { a.vault with totalWithdrawnUsd := withdrawn } }
    tokens := tokens }

variable {env : Env} {owner mint : Pubkey} {remaining : List AccountMeta} {amount : UInt64}
  {l l' : Ledger D}

theorem depositFunds_ok (h : depositFunds env owner mint amount l = .ok l') :
    ∃ (a : VaultAccounts D) (deposited : UInt64) (tokens : Accounts Pubkey),
      l.live = some a ∧ a.vault.owner = owner ∧
      l' = { l with
        live := some { a with vault := { a.vault with totalDepositedUsd := deposited } }
        tokens := tokens } := by
  simp only [depositFunds, seq_ok_iff, Ledger.loadAsOwner_ok_iff, mustExist_ok_iff, require_ok_iff,
    rejectCpi_ok_iff, ensure_ok_iff, viaToken_ok_iff, exists_and_left, exists_const,
    pure_ok_iff] at h
  obtain ⟨a, ⟨ha, howner⟩, -, -, -, -, -, -, -, -, -, -, -, -, -, -, -, -, tokens, -, deposited, -,
    rfl⟩ := h
  obtain ⟨_, hinit⟩ :=
    l.initIfNeeded_eq (associatedTokenAddress D l.vaultKey mint tokenProgramId) mint
  rw [hinit]
  exact ⟨a, deposited, tokens, ha, howner, rfl⟩

theorem withdrawFunds_ok (h : withdrawFunds env owner mint remaining amount l = .ok l') :
    ∃ (a : VaultAccounts D) (withdrawn : UInt64) (tokens : Accounts Pubkey),
      l.live = some a ∧ a.vault.owner = owner ∧ (a.policy.cosignRequired = true →
        hasBoundCosigner remaining a.policy.cosignSessionPubkey = true) ∧
      l' = { l with
        live := some { a with vault := { a.vault with totalWithdrawnUsd := withdrawn } }
        tokens := tokens } := by
  simp only [withdrawFunds, seq_ok_iff, Ledger.loadAsOwner_ok_iff, mustExist_ok_iff, require_ok_iff,
    rejectCpi_ok_iff, ensure_ok_iff, VaultAccounts.cosignGate_ok_iff, viaToken_ok_iff,
    exists_and_left, exists_const, pure_ok_iff] at h
  obtain ⟨a, ⟨ha, howner⟩, -, -, -, -, -, -, -, -, -, -, -, -, hcosign, -, tokens, -, withdrawn, -,
    rfl⟩ := h
  exact ⟨a, withdrawn, tokens, ha, howner, hcosign, rfl⟩

end Owner

end Sigil
