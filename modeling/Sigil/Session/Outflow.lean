import Sigil.Session.Sandwich
import Sigil.Spending.Charges

/-! # What leaves the vault is what is recorded

A session measures its input account before and after the spend and then pays the fees out of the
same account. Its caps are charged with the measured spend and the fees, which is what the account
loses in all, except for a fee that is paid back into the account itself.
-/

namespace Sigil

open Machine Guard TokenLedger Trace

section Fees

variable {tokens tokens' : Accounts Pubkey} {t : TokenAccount Pubkey}
  {vaultKey source mint expectedOwner feeDestination : Pubkey}
  {fee protocolFee developerFee : UInt64}
  {dest treasury feeDest : Option (Pubkey × TokenAccount Pubkey)} {e : SigilError}
  {cluster : Cluster}

/-- The part of a fee that comes back to the account it is paid from. -/
def keptFee (source : Pubkey) (dest : Option Pubkey) (fee : UInt64) : ℕ :=
  if dest = some source then fee.toNat else 0

theorem payFee_source
    (h : payFee tokens vaultKey source mint expectedOwner fee dest e = .ok tokens')
    (ht : tokens source = some t) (hdelegate : t.delegate = none) :
    ∃ t', tokens' source = some t' ∧ t'.delegate = none ∧
      t.amount.toNat + keptFee source (dest.map Prod.fst) fee = t'.amount.toNat + fee.toNat := by
  unfold payFee at h
  split at h
  · simp only [seq_ok_iff, someOr_ok_iff, ensure_ok_iff, viaToken_ok_iff, exists_and_left,
      exists_const] at h
    obtain ⟨⟨key, account⟩, rfl, -, -, htransfer⟩ := h
    obtain ⟨t', ht', -, hnone, hamount⟩ := transfer_source htransfer ht
    refine ⟨t', ht', hnone hdelegate, ?_⟩
    simpa only [keptFee, Option.map_some, Option.some.injEq] using hamount
  · rename_i hzero
    cases h
    have hfee : fee.toNat = 0 := by simpa [UInt64.lt_iff_toNat_lt] using hzero
    exact ⟨t, ht, hdelegate, by simp [keptFee, hfee]⟩

theorem payFee_owner (h : payFee tokens vaultKey source mint expectedOwner fee dest e = .ok tokens')
    (hdest : ∀ p ∈ dest, p.1 = source → p.2.owner = vaultKey)
    (hkept : keptFee source (dest.map Prod.fst) fee ≠ 0) : expectedOwner = vaultKey := by
  unfold payFee at h
  split at h
  · simp only [seq_ok_iff, someOr_ok_iff, ensure_ok_iff, exists_and_left, exists_const] at h
    obtain ⟨⟨key, account⟩, rfl, howner, -⟩ := h
    have hsource : key = source := by
      by_contra hne
      exact hkept (if_neg fun heq => hne (Option.some.inj heq))
    exact howner.symm.trans (hdest _ rfl hsource)
  · rename_i hzero
    have hfee : fee.toNat = 0 := by simpa [UInt64.lt_iff_toNat_lt] using hzero
    exact absurd (by simp [keptFee, hfee]) hkept

theorem transferMeasuredFees_source
    (h : transferMeasuredFees cluster tokens vaultKey source mint feeDestination protocolFee
      developerFee treasury feeDest = .ok tokens')
    (ht : tokens source = some t) (hdelegate : t.delegate = none) :
    ∃ t', tokens' source = some t' ∧ t'.delegate = none ∧
      t.amount.toNat + (keptFee source (treasury.map Prod.fst) protocolFee +
          keptFee source (feeDest.map Prod.fst) developerFee) =
        t'.amount.toNat + (protocolFee.toNat + developerFee.toNat) := by
  simp only [transferMeasuredFees, seq_ok_iff] at h
  obtain ⟨paid, hprotocol, hdeveloper⟩ := h
  obtain ⟨t₁, ht₁, hdelegate₁, hamount₁⟩ := payFee_source hprotocol ht hdelegate
  obtain ⟨t₂, ht₂, hdelegate₂, hamount₂⟩ := payFee_source hdeveloper ht₁ hdelegate₁
  refine ⟨t₂, ht₂, hdelegate₂, ?_⟩
  omega

theorem transferMeasuredFees_owner
    (h : transferMeasuredFees cluster tokens vaultKey source mint feeDestination protocolFee
      developerFee treasury feeDest = .ok tokens')
    (htreasury : ∀ p ∈ treasury, p.1 = source → p.2.owner = vaultKey)
    (hfeeDest : ∀ p ∈ feeDest, p.1 = source → p.2.owner = vaultKey) :
    (keptFee source (treasury.map Prod.fst) protocolFee ≠ 0 → protocolTreasury cluster = vaultKey) ∧
      (keptFee source (feeDest.map Prod.fst) developerFee ≠ 0 → feeDestination = vaultKey) := by
  simp only [transferMeasuredFees, seq_ok_iff] at h
  obtain ⟨paid, hprotocol, hdeveloper⟩ := h
  exact ⟨payFee_owner hprotocol htreasury, payFee_owner hdeveloper hfeeDest⟩

theorem loadOptionalToken_ok {D : Type} {l : Ledger D} {key : Option Pubkey}
    (h : l.loadOptionalToken key = .ok dest) :
    dest.map Prod.fst = key ∧ ∀ p ∈ dest, l.tokens p.1 = some p.2 := by
  unfold Ledger.loadOptionalToken at h
  split at h
  · cases h
    exact ⟨rfl, nofun⟩
  · simp only [Ledger.loadToken, seq_ok_iff, mustExist_ok_iff, pure_ok_iff] at h
    obtain ⟨account, haccount, rfl⟩ := h
    refine ⟨rfl, fun p hp => ?_⟩
    cases hp
    exact haccount

end Fees

section Settle

variable {D : Type} [Host D] {clock : Clock} {l : Ledger D} {a : VaultAccounts D}
  {s : SessionAuthority} {args : FinalizeSessionArgs} {source : Pubkey} {outputSwap : Option Pubkey}
  {treasury feeDest : Option (Pubkey × TokenAccount Pubkey)} {spend : UInt64} {outcome : Outcome D}

theorem settleSpend_ok
    (h : settleSpend clock l a s source outputSwap treasury feeDest spend = .ok outcome) :
    ∃ protocolFee developerFee total,
      spendWithFees spend a.policy.developerFeeRate = .ok (protocolFee, developerFee, total) ∧
      a.chargeSession clock s total = .ok outcome.accounts ∧
      transferMeasuredFees (Host.cluster D) l.tokens l.vaultKey source s.authorizedToken
        a.vault.feeDestination protocolFee developerFee treasury feeDest = .ok outcome.tokens := by
  simp only [settleSpend, seq_ok_iff, pure_ok_iff] at h
  obtain ⟨-, -, ⟨protocolFee, developerFee, total⟩, hfees, charged, hcharged, tokens, htokens, -, -,
    rfl⟩ := h
  exact ⟨protocolFee, developerFee, total, hfees, hcharged, htokens⟩

/-- An account went down by the recorded amount, which is a spend with its fees, but for a fee that
was paid back into it. Only a vault that is itself the owner of the fees gets one back. -/
def Outflow (vaultKey source : Pubkey) (treasury feeDest : Option Pubkey) (a : VaultAccounts D)
    (before after recorded : UInt64) : Prop :=
  ∃ spend protocolFee developerFee,
    spendWithFees spend a.policy.developerFeeRate = .ok (protocolFee, developerFee, recorded) ∧
    before.toNat + (keptFee source treasury protocolFee + keptFee source feeDest developerFee) =
      after.toNat + recorded.toNat ∧
    (keptFee source treasury protocolFee ≠ 0 → protocolTreasury (Host.cluster D) = vaultKey) ∧
    (keptFee source feeDest developerFee ≠ 0 → a.vault.feeDestination = vaultKey)

theorem settleSpend_outflow {t after : TokenAccount Pubkey} {before : UInt64}
    (h : settleSpend clock l a s source outputSwap treasury feeDest spend = .ok outcome)
    (ht : l.tokens source = some t) (hdelegate : t.delegate = none)
    (hspend : before.toNat = t.amount.toNat + spend.toNat)
    (htreasury : ∀ p ∈ treasury, p.1 = source → p.2.owner = l.vaultKey)
    (hfeeDest : ∀ p ∈ feeDest, p.1 = source → p.2.owner = l.vaultKey)
    (hafter : outcome.tokens source = some after) :
    after.delegate = none ∧ ∃ recorded, a.chargeSession clock s recorded = .ok outcome.accounts ∧
      Outflow l.vaultKey source (treasury.map Prod.fst) (feeDest.map Prod.fst) a before after.amount
        recorded := by
  obtain ⟨protocolFee, developerFee, total, hfees, hcharged, hpaid⟩ := settleSpend_ok h
  obtain ⟨t', ht', hnone, hamount⟩ := transferMeasuredFees_source hpaid ht hdelegate
  cases hafter.symm.trans ht'
  have htotal : total.toNat = spend.toNat + protocolFee.toNat + developerFee.toNat :=
    spendWithFees_ok hfees
  refine ⟨hnone, total, hcharged, spend, protocolFee, developerFee, hfees, ?_,
    transferMeasuredFees_owner hpaid htreasury hfeeDest⟩
  omega

theorem settleStablecoin_ok (h : settleStablecoin clock l a s args treasury feeDest = .ok outcome)
    (hsource : args.vaultTokenAccount = some source) :
    ∃ t, l.tokens source = some t ∧
      ((s.stablecoinBalanceBefore ≤ t.amount ∧ outcome.tokens = l.tokens) ∨
        ∃ spend : UInt64, s.stablecoinBalanceBefore.toNat = t.amount.toNat + spend.toNat ∧
          settleSpend clock l a s source args.outputSwapAccount treasury feeDest spend =
            .ok outcome) := by
  simp only [settleStablecoin, measuredAccount, seq_ok_iff, someOr_ok_iff, ensure_ok_iff,
    pure_ok_iff, exists_and_left, exists_const, hsource, Option.some.injEq] at h
  obtain ⟨_, rfl, t, ⟨t, ht, -, -, rfl⟩, -, h⟩ := h
  refine ⟨t, ht, ?_⟩
  split at h
  · rename_i hpos
    rw [UInt64.lt_iff_toNat_lt, UInt64.toNat_zero, saturatingSub_toNat] at hpos
    refine .inr ⟨_, ?_, h⟩
    rw [saturatingSub_toNat]
    omega
  · rename_i hzero
    obtain rfl := pure_ok_iff.mp h
    refine .inl ⟨?_, rfl⟩
    rw [UInt64.lt_iff_toNat_lt, UInt64.toNat_zero, saturatingSub_toNat] at hzero
    rw [UInt64.le_iff_toNat_le]
    omega

theorem stablecoin_ne_default {cluster : Cluster} {mint : Pubkey}
    (h : isStablecoinMint cluster mint = true) : mint ≠ Pubkey.default := by
  rintro rfl
  cases cluster <;> exact absurd h (by decide)

theorem pinOutputs_ok {policy : PolicyConfig D} {vargs : ValidateAndAuthorizeArgs D}
    {vaultKey : Pubkey} {vaultToken : TokenAccount Pubkey}
    {outputStablecoin outputSwap : Option (Pubkey × TokenAccount Pubkey)} {pins : OutputPins}
    (h : pinOutputs vaultKey policy vargs vaultToken outputStablecoin outputSwap = .ok pins)
    (hamount : 0 < vargs.amount)
    (hstable : isStablecoinMint (Host.cluster D) vargs.tokenMint = true) :
    pins.outputMint = vargs.tokenMint ∧ pins.stablecoinBalanceBefore = vaultToken.amount := by
  have hspending : vargs.isSpending = true := decide_eq_true hamount
  simp only [pinOutputs, hspending, hstable, if_true, ensure_seq_ok_iff] at h
  obtain ⟨-, h⟩ := h
  unfold pinSwapAccount at h
  split at h
  · cases h
    exact ⟨rfl, rfl⟩
  · simp only [ensure_seq_ok_iff, pure_ok_iff] at h
    obtain ⟨-, -, rfl⟩ := h
    exact ⟨rfl, rfl⟩

end Settle

section Close

variable {D : Type} [Host D] {env : Env} {fargs : FinalizeSessionArgs} {l l' : Ledger D}
  {a : VaultAccounts D} {s : SessionAuthority} {revoked : Accounts Pubkey} {outcome : Outcome D}
  {vault : AgentVault} {tracker : SpendTracker} {args : ValidateAndAuthorizeArgs D}
  {before : UInt64} {after : TokenAccount Pubkey}

variable (D) in
/-- A session on stablecoin as it was opened, with the balance it remembers. -/
structure SessionAuthority.DelegatesStablecoin (s : SessionAuthority) (clock : Clock)
    (args : ValidateAndAuthorizeArgs D) (before : UInt64) : Prop where
  agent : s.agent = args.agent
  protocol : s.authorizedProtocol = args.targetProtocol
  delegated : s.delegated = true
  account : s.delegationTokenAccount = args.vaultTokenAccount
  balance : s.stablecoinBalanceBefore = before
  stablecoin : isStablecoinMint (Host.cluster D) s.authorizedToken = true
  measured : s.isMeasured clock.unixTimestamp = true

theorem SessionClosed.revoked_source
    (h : SessionClosed env fargs l l' a s revoked outcome vault tracker)
    (hs : s.DelegatesStablecoin D env.clock args before) :
    ∃ t, l.tokens args.vaultTokenAccount = some t ∧ t.owner = l.vaultKey ∧
      revoked args.vaultTokenAccount =
        some { t with delegate := none, delegatedAmount := 0 } := by
  have hrevoke := h.revocation
  rw [revokeDelegation, if_pos hs.delegated, viaToken_ok_iff, hs.account] at hrevoke
  obtain ⟨t, ht, howner, rfl⟩ := setDelegate_ok hrevoke
  exact ⟨t, ht, howner, Function.update_self _ _ _⟩

theorem SessionClosed.owner_of_loaded
    (h : SessionClosed env fargs l l' a s revoked outcome vault tracker)
    (hs : s.DelegatesStablecoin D env.clock args before) {key : Option Pubkey}
    {dest : Option (Pubkey × TokenAccount Pubkey)} (hdest : l.loadOptionalToken key = .ok dest) :
    ∀ p ∈ dest, p.1 = args.vaultTokenAccount → p.2.owner = l.vaultKey := by
  intro p hp hkey
  obtain ⟨t, ht, howner, -⟩ := h.revoked_source hs
  have hloaded := (loadOptionalToken_ok hdest).2 p hp
  rw [hkey, ht, Option.some.injEq] at hloaded
  rwa [← hloaded]

theorem SessionClosed.outflow
    (h : SessionClosed env fargs l l' a s revoked outcome vault tracker)
    (hs : s.DelegatesStablecoin D env.clock args before)
    (hafter : l'.tokens args.vaultTokenAccount = some after) (hlower : after.amount < before) :
    ∃ a' recorded, l'.live = some a' ∧
      Outflow l.vaultKey args.vaultTokenAccount fargs.protocolTreasuryTokenAccount
        fargs.feeDestinationTokenAccount a before after.amount recorded ∧
      SpendRecorded env.clock args.agent recorded a a' ∧
      ProtocolRecorded env.clock args.targetProtocol recorded a a' ∧ after.delegate = none := by
  obtain ⟨t₀, ht₀, howner, hrevoked⟩ := h.revoked_source hs
  obtain ⟨treasury, feeDest, htreasury, hfeeDest, hsettled⟩ := h.settled
  have hsource := h.delegation hs.delegated
  rw [hs.account] at hsource
  rw [settle, if_pos hs.measured, if_pos hs.stablecoin] at hsettled
  have htokens : outcome.tokens args.vaultTokenAccount = some after := by
    rwa [h.result] at hafter
  obtain ⟨t, ht, ⟨hle, hsame⟩ | ⟨spend, hspend, hsettle⟩⟩ := settleStablecoin_ok hsettled hsource
  · rw [hsame, ht, Option.some.injEq] at htokens
    rw [htokens, hs.balance] at hle
    exact absurd hlower (UInt64.not_lt.mpr hle)
  cases hrevoked.symm.trans ht
  rw [hs.balance] at hspend
  obtain ⟨hdelegate, recorded, hcharged, houtflow⟩ := settleSpend_outflow hsettle ht rfl hspend
    (h.owner_of_loaded hs htreasury) (h.owner_of_loaded hs hfeeDest) htokens
  rw [(loadOptionalToken_ok htreasury).1, (loadOptionalToken_ok hfeeDest).1] at houtflow
  obtain ⟨hspent, hprotocol⟩ := chargeSession_recorded hcharged
  obtain ⟨hbuckets, hcounters⟩ := chargeSessionRecipient_ok h.recipient
  rw [hs.agent] at hspent
  rw [hs.protocol] at hprotocol
  exact ⟨{ outcome.accounts with vault := vault, tracker := tracker }, recorded, by rw [h.result],
    houtflow, hspent.congr hbuckets rfl, hprotocol.congr hcounters, hdelegate⟩

end Close

section Outflow

variable {D : Type} [Host D] [DecidableEq D] {tx : Transaction} {i k : ℕ}
  {args : ValidateAndAuthorizeArgs D} {fargs : FinalizeSessionArgs} {l m m' l' : Ledger D}

/-- A transfer sends the net amount to its destination and the fees to the two fee accounts. -/
def AgentTransferArgs.Pays (targs : AgentTransferArgs) (l l' : Ledger D) (a : VaultAccounts D)
    (split : TransferSplit) : Prop :=
  ∃ source moved treasury feeDest, l.tokens targs.vaultTokenAccount = some source ∧
    transfer l.tokens targs.vaultTokenAccount targs.destinationTokenAccount l.vaultKey split.net =
      .ok moved ∧
    l.loadOptionalToken targs.protocolTreasuryTokenAccount = .ok treasury ∧
    l.loadOptionalToken targs.feeDestinationTokenAccount = .ok feeDest ∧
    transferMeasuredFees (Host.cluster D) moved l.vaultKey targs.vaultTokenAccount source.mint
      a.vault.feeDestination split.protocolFee split.developerFee treasury feeDest = .ok l'.tokens

/-- A transaction opens a session on stablecoin at position `i` and closes it at position `k`, and
what stands in between belongs to other programs. -/
structure Transaction.SpendsStablecoin (tx : Transaction) (i k : ℕ)
    (args : ValidateAndAuthorizeArgs D) (fargs : FinalizeSessionArgs) (l m m' l' : Ledger D) :
    Prop where
  amount : 0 < args.amount
  stablecoin : isStablecoinMint (Host.cluster D) args.tokenMint = true
  opens : exec (tx.env i) l (.validateAndAuthorize args) = .ok m
  between : Run tx.step m (List.range' (i + 1) (k - (i + 1))) m'
  foreign : ∀ j, i < j → j < k → ∀ ix ∈ tx.instructions[j]?, ix.programId ≠ programId
  closes : exec (tx.env k) m' (.finalizeSession fargs) = .ok l'
  session : fargs.session = sessionAddress D l.vaultKey args.agent args.tokenMint

theorem Transaction.SpendsStablecoin.untouched (h : tx.SpendsStablecoin i k args fargs l m m' l') :
    ∃ tokens others, m' = { m with tokens := tokens, others := others } := by
  refine h.between.invariant_of (Q := fun j => i < j ∧ j < k)
    (P := fun s => ∃ tokens others, s = { m with tokens := tokens, others := others }) ?_ ?_
    ⟨m.tokens, m.others, rfl⟩
  · rintro s j s' ⟨hij, hjk⟩ ⟨tokens, others, rfl⟩ ⟨ix, hix, hstep⟩
    have hprogram := h.foreign j hij hjk ix hix
    cases hstep with
    | own hview => exact absurd hview.program hprogram
    | elsewhere hview => exact absurd hview.program hprogram
    | foreign _ tokens' others' => exact ⟨tokens', others', rfl⟩
  · intro j hj
    rw [List.mem_range'_1] at hj
    omega

/-- The session that the closing instruction finds, and the accounts of the vault as they were left
when it was opened. -/
theorem Transaction.SpendsStablecoin.found (h : tx.SpendsStablecoin i k args fargs l m m' l')
    {before : TokenAccount Pubkey} (hbefore : l.tokens args.vaultTokenAccount = some before) :
    ∃ a s, l.live = some a ∧ m'.live = some (a.opened args.agent tx.clock.unixTimestamp) ∧
      m'.vaultKey = l.vaultKey ∧ m'.sessions fargs.session = some s ∧
      s.DelegatesStablecoin D tx.clock args before.amount := by
  obtain ⟨a, vaultToken, pins, snapshots, tokens, hopened⟩ := validateAndAuthorize_ok h.opens
  obtain ⟨tokens', others', rfl⟩ := h.untouched
  obtain ⟨outputStablecoin, outputSwap, hpins⟩ := hopened.pinned
  obtain ⟨hmint, hbalance⟩ := pinOutputs_ok hpins h.amount h.stablecoin
  cases hbefore.symm.trans hopened.tokenAccount
  refine ⟨a, newSession tx.clock l.vaultKey a.policy args pins snapshots, hopened.live, ?_, ?_, ?_,
    ?_⟩
  · rw [hopened.result]
    rfl
  · rw [hopened.result]
    rfl
  · rw [hopened.result, h.session]
    exact Function.update_self _ _ _
  · have hmeasured : pins.outputMint ≠ Pubkey.default := hmint ▸ stablecoin_ne_default h.stablecoin
    exact ⟨rfl, rfl, decide_eq_true h.amount, rfl, hbalance, h.stablecoin,
      decide_eq_true ⟨not_isExpired_newSession _ _ _ _ _ _, hmeasured⟩⟩

/-- What an agent takes out of the vault is what the caps are charged with: in a session the fall
of the input account, up to fees that the vault pays to itself, and in a direct transfer the amount
with its fees. -/
theorem outflow_recorded :
    (∀ (tx : Transaction) (i k : ℕ) (args : ValidateAndAuthorizeArgs D)
      (fargs : FinalizeSessionArgs) (l m m' l' : Ledger D) (before after : TokenAccount Pubkey),
      tx.SpendsStablecoin i k args fargs l m m' l' →
      l.tokens args.vaultTokenAccount = some before →
      l'.tokens args.vaultTokenAccount = some after → after.amount < before.amount →
      ∃ a a' recorded, l.live = some a ∧ l'.live = some a' ∧
        Outflow l.vaultKey args.vaultTokenAccount fargs.protocolTreasuryTokenAccount
          fargs.feeDestinationTokenAccount a before.amount after.amount recorded ∧
        SpendRecorded tx.clock args.agent recorded a a' ∧
        ProtocolRecorded tx.clock args.targetProtocol recorded a a' ∧ after.delegate = none) ∧
    ∀ (env : Env) (targs : AgentTransferArgs) (l l' : Ledger D),
      exec env l (.agentTransfer targs) = .ok l' →
      (∀ source ∈ l.tokens targs.vaultTokenAccount,
        unpackMint (l.accountInfo env source.mint) = some usdDecimals) →
      ∃ a a' split, l.live = some a ∧ l'.live = some a' ∧
        split.net.toNat + split.protocolFee.toNat + split.developerFee.toNat =
          targs.amount.toNat ∧
        targs.Pays l l' a split ∧ SpendRecorded env.clock targs.agent targs.amount a a' := by
  constructor
  · intro tx i k args fargs l m m' l' before after h hbefore hafter hlower
    obtain ⟨a, s, hlive, hlive', hkey, hsession, hs⟩ := h.found hbefore
    obtain ⟨b, s', revoked, outcome, vault, tracker, hclosed⟩ := finalizeSession_ok h.closes
    obtain rfl := Option.some.inj (hclosed.live.symm.trans hlive')
    obtain rfl := Option.some.inj (hclosed.session.symm.trans hsession)
    obtain ⟨a', recorded, ha', houtflow, hspent, hprotocol, hdelegate⟩ :=
      hclosed.outflow hs hafter hlower
    rw [hkey] at houtflow
    exact ⟨a, a', recorded, hlive, ha', houtflow, hspent.of_opened,
      ⟨hprotocol.counter, hprotocol.cap⟩, hdelegate⟩
  · intro env targs l l' h hdecimals
    obtain ⟨a, charged, counted, source, destination, usdAmount, split, htransferred⟩ :=
      agentTransfer_ok h
    obtain ⟨decimals, hmint, husd⟩ := htransferred.converted
    rw [hdecimals source htransferred.sourceAccount, Option.some.injEq] at hmint
    obtain rfl : targs.amount = usdAmount := by
      rw [← hmint, stablecoinToUsd, if_pos rfl] at husd
      exact Except.ok.inj husd
    obtain ⟨entry, hentry, hcharged⟩ := htransferred.charge
    obtain ⟨transactions, volume, fees, rfl⟩ := countTransfer_ok htransferred.count
    obtain ⟨moved, feeDest, treasury, tokens, hmoved, hfeeDest, htreasury, hpaid, rfl⟩ :=
      htransferred.payments
    exact ⟨a, _, split, htransferred.live, rfl, splitTransfer_ok htransferred.parts,
      ⟨source, moved, treasury, feeDest, htransferred.sourceAccount, hmoved, htreasury, hfeeDest,
        hpaid⟩, (chargeTransfer_recorded hentry hcharged).congr rfl rfl⟩

end Outflow

section Sample

theorem spends_sampleTransaction :
    (sampleTransaction tradingLedger.vaultKey).SpendsStablecoin 0 2
      (sampleValidate tradingLedger.vaultKey) (sampleFinalize tradingLedger.vaultKey) tradingLedger
      openedLedger swapLedger closedLedgerOfSample where
  amount := by decide
  stablecoin := by decide
  opens := exec_openedLedger
  between := run_sampleSwap
  foreign := by
    intro j hij hjk ix hix
    obtain rfl : j = 1 := by omega
    cases hix
    decide
  closes := exec_closedLedgerOfSample
  session := rfl

/-- The trading vault with a token account of its allowed destination. -/
def payingLedger : Ledger Preimage :=
  { tradingLedger with
    tokens := Function.update tradingLedger.tokens (sampleKey 25)
      (some (sampleAccount sampleMint (sampleKey 3) 0)) }

def sampleTransfer : AgentTransferArgs where
  agent := sampleKey 9
  vaultTokenAccount := sampleKey 20
  tokenMintAccount := sampleMint
  destinationTokenAccount := sampleKey 25
  feeDestinationTokenAccount := none
  protocolTreasuryTokenAccount := some (sampleKey 22)
  amount := 50
  expectedPolicyVersion := 1
  remaining := []

theorem exec_sampleTransfer : (exec (envAt 2000 30 (by decide)) payingLedger
    (.agentTransfer sampleTransfer)).isOk = true := by
  decide +kernel

theorem outflow_recorded_swap :
    (∃ a a' : VaultAccounts Preimage, ∃ recorded, tradingLedger.live = some a ∧
      closedLedgerOfSample.live = some a' ∧
      Outflow tradingLedger.vaultKey (sampleKey 20) (some (sampleKey 22)) none a 100 59 recorded ∧
      SpendRecorded ⟨30, 2000, by decide⟩ (sampleKey 9) recorded a a') ∧
    ∃ a a' : VaultAccounts Preimage, payingLedger.live = some a ∧
      SpendRecorded ⟨30, 2000, by decide⟩ (sampleKey 9) 50 a a' := by
  constructor
  · obtain ⟨a, a', recorded, ha, ha', houtflow, hspent, -⟩ := outflow_recorded.1 _ 0 2 _ _ _ _ _ _
      (sampleAccount sampleMint tradingLedger.vaultKey 100)
      (sampleAccount sampleMint tradingLedger.vaultKey 59) spends_sampleTransaction
      (by decide +kernel) (by decide +kernel) (by decide)
    exact ⟨a, a', recorded, ha, ha', houtflow, hspent⟩
  · obtain ⟨a, a', split, ha, -, -, -, hspent⟩ := outflow_recorded.2 _ _ _ _
      (exec_after exec_sampleTransfer) (by decide +kernel)
    exact ⟨a, a', ha, hspent⟩

/-- A vault that names itself as the destination of its developer fees. -/
def ownFeeInitialize : Call Preimage :=
  let draft : InitializeVaultArgs Preimage := { sampleArgs with developerFeeRate := 500 }
  .initializeVault (sampleKey 1) emptyLedger.vaultKey { draft with
    previewDigest := liveDigest (draft.newVault (sampleKey 1) emptyLedger.vaultKey)
      (draft.newPolicy emptyLedger.vaultKey 7) }

def ownFeeLedger : Ledger Preimage := after (sampleEnv 1000 7) emptyLedger ownFeeInitialize

def ownFeeTrading : Ledger Preimage :=
  { withOperator ownFeeLedger with
    tokens := sampleTokens emptyLedger.vaultKey 0
    others := sampleOthers }

def ownFeeOpened : Ledger Preimage :=
  after ((sampleTransaction emptyLedger.vaultKey).env 0) ownFeeTrading
    (.validateAndAuthorize (sampleValidate emptyLedger.vaultKey))

def ownFeeSwapped : Ledger Preimage :=
  { ownFeeOpened with tokens := sampleTokens emptyLedger.vaultKey 40 }

/-- The session is closed with its own input account as the fee account. -/
def ownFeeFinalize : FinalizeSessionArgs :=
  { sampleFinalize emptyLedger.vaultKey with feeDestinationTokenAccount := some (sampleKey 20) }

def ownFeeClosed : Ledger Preimage :=
  after ((sampleTransaction emptyLedger.vaultKey).env 2) ownFeeSwapped
    (.finalizeSession ownFeeFinalize)

theorem ownFee_ok :
    (exec (sampleEnv 1000 7) emptyLedger ownFeeInitialize).isOk = true ∧
      (exec (sampleEnv 1000 7) ownFeeLedger
        (.queueAgentGrant (sampleKey 1) [] (sampleKey 9) capabilityOperator 500)).isOk = true ∧
      (exec (sampleEnv 1600 20) (withGrant ownFeeLedger)
        (.applyAgentGrant (sampleKey 1) [])).isOk = true ∧
      (exec ((sampleTransaction emptyLedger.vaultKey).env 0) ownFeeTrading
        (.validateAndAuthorize (sampleValidate emptyLedger.vaultKey))).isOk = true ∧
      (exec ((sampleTransaction emptyLedger.vaultKey).env 2) ownFeeSwapped
        (.finalizeSession ownFeeFinalize)).isOk = true := by
  decide +kernel

theorem run_ownFeeTrading : ∃ as, Run Step emptyLedger as ownFeeTrading := by
  obtain ⟨hinitialized, hqueued, happlied, -⟩ := ownFee_ok
  have hinitialize : Step emptyLedger _ ownFeeLedger := .after hinitialized
  have hqueue : Step ownFeeLedger _ (withGrant ownFeeLedger) := .after hqueued
  have happly : Step (withGrant ownFeeLedger) _ (withOperator ownFeeLedger) := .after happlied
  exact ⟨_, .snoc (.snoc (.snoc (.single hinitialize) hqueue) happly) (.foreign _ _ _)⟩

theorem spends_ownFee :
    (sampleTransaction emptyLedger.vaultKey).SpendsStablecoin 0 2
      (sampleValidate emptyLedger.vaultKey) ownFeeFinalize ownFeeTrading ownFeeOpened ownFeeSwapped
      ownFeeClosed where
  amount := by decide
  stablecoin := by decide
  opens := exec_after ownFee_ok.2.2.2.1
  between := .single ⟨⟨sampleKey 2, sampleMetas, []⟩, rfl,
    .foreign (fun hprogram => absurd hprogram (by decide)) _ _⟩
  foreign := by
    intro j hij hjk ix hix
    obtain rfl : j = 1 := by omega
    cases hix
    decide
  closes := exec_after ownFee_ok.2.2.2.2
  session := by decide +kernel

attribute [irreducible] ownFeeLedger ownFeeOpened ownFeeClosed ownFeeTrading

/-- The vault loses 41 and its tracker counts 42, since the developer's fee never leaves. -/
theorem own_fee_recorded_not_lost :
    ∃ (l m m' l' : Ledger Preimage) (a a' : VaultAccounts Preimage)
      (before after : TokenAccount Pubkey), (∃ as, Run Step emptyLedger as l) ∧
      (sampleTransaction l.vaultKey).SpendsStablecoin 0 2 (sampleValidate l.vaultKey)
        ownFeeFinalize l m m' l' ∧
      l.tokens (sampleKey 20) = some before ∧ l'.tokens (sampleKey 20) = some after ∧
      after.amount < before.amount ∧ l.live = some a ∧ l'.live = some a' ∧
      ∀ recorded : UInt64, before.amount.toNat = after.amount.toNat + recorded.toNat →
        ¬ SpendRecorded (sampleTransaction l.vaultKey).clock (sampleKey 9) recorded a a' := by
  obtain ⟨hkey, hlive, hbefore⟩ : ownFeeTrading.vaultKey = emptyLedger.vaultKey ∧
      ownFeeTrading.live.isSome = true ∧ ownFeeTrading.tokens (sampleKey 20) =
        some (sampleAccount sampleMint emptyLedger.vaultKey 100) := by decide +kernel
  obtain ⟨hlive', hafter, hfound⟩ : ownFeeClosed.live.isSome = true ∧
      ownFeeClosed.tokens (sampleKey 20) =
        some (sampleAccount sampleMint emptyLedger.vaultKey 59) ∧
      ownFeeClosed.live.map (fun a => (a.tracker.buckets 3).usdAmount) = some 42 := by
    decide +kernel
  obtain ⟨a, ha⟩ := Option.isSome_iff_exists.mp hlive
  obtain ⟨a', ha'⟩ := Option.isSome_iff_exists.mp hlive'
  refine ⟨ownFeeTrading, ownFeeOpened, ownFeeSwapped, ownFeeClosed, a, a',
    sampleAccount sampleMint emptyLedger.vaultKey 100,
    sampleAccount sampleMint emptyLedger.vaultKey 59, run_ownFeeTrading,
    by rw [hkey]; exact spends_ownFee, hbefore, hafter, by decide, ha, ha', ?_⟩
  intro recorded hlost hspent
  obtain ⟨t, ht, hbuckets⟩ := hspent.tracker
  have hlost' : 100 = 59 + recorded.toNat := hlost
  obtain rfl : recorded = 41 := UInt64.toNat_inj.mp (show recorded.toNat = 41 by omega)
  have hcounted : ownFeeTrading.live.map (fun a =>
      (a.tracker.recordSpend (sampleTransaction ownFeeTrading.vaultKey).clock 41).toOption.map
        fun t => (t.buckets 3).usdAmount) = some (some 41) := by decide +kernel
  rw [ha, Option.map_some, ht] at hcounted
  rw [ha', Option.map_some, hbuckets] at hfound
  simp [Except.toOption, Option.some.inj hfound] at hcounted

end Sample

end Sigil
