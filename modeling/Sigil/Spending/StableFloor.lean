import Mathlib.Algebra.Order.BigOperators.Group.Finset
import Sigil.Session.Outflow

/-! # The stablecoin floor

The floor of a policy is checked by two walks over accounts that the caller lists. Each walk counts
an account at most once and only when the vault holds stablecoin in it, so a walk never finds more
than the vault has.
-/

namespace Sigil

open Machine Guard TokenLedger

section Walk

variable {D : Type} [Host D]

def Ledger.stableHolding (l : Ledger D) (env : Env) (key : Pubkey) : ℕ :=
  (readToken (l.accountInfo env key)).elim 0 fun view =>
    if view.owner = l.vaultKey ∧ isStablecoinMint (Host.cluster D) view.mint = true then
      view.amount.toNat
    else 0

variable {env : Env} {l l' : Ledger D} {key : Pubkey}

theorem Ledger.stableHolding_of_token {t : TokenAccount Pubkey} (ht : l.tokens key = some t) :
    l.stableHolding env key =
      if t.owner = l.vaultKey ∧ isStablecoinMint (Host.cluster D) t.mint = true then t.amount.toNat
      else 0 := by
  have hinfo : l.accountInfo env key = ⟨tokenProgramId, packToken t⟩ := by
    rw [Ledger.accountInfo, ht]
  have hprogram : isTokenProgram tokenProgramId = true := by decide
  rw [Ledger.stableHolding, hinfo, readToken, if_pos hprogram, tokenView_packToken]
  rfl

theorem Ledger.stableHolding_mono (hkey : l'.vaultKey = l.vaultKey) (htokens : l'.tokens = l.tokens)
    (hothers : l'.others = l.others)
    (howns : l'.ownsAccount key = true → l.ownsAccount key = true) :
    l.stableHolding env key ≤ l'.stableHolding env key := by
  have hprogram : isTokenProgram programId = false := by decide
  unfold Ledger.stableHolding Ledger.accountInfo
  rw [hkey, htokens, hothers]
  cases l.tokens key with
  | some t => exact le_rfl
  | none =>
    by_cases hown : l.ownsAccount key = true
    · simp only [hown, if_true, readToken, hprogram, Bool.false_eq_true, if_false, Option.elim_none,
        zero_le]
    · have hown' : ¬ l'.ownsAccount key = true := fun h => hown (howns h)
      simp only [hown, hown', le_refl]

theorem sumStableBalances_ok {counts : Pubkey → AccountInfo → TokenView → Bool} {limit : ℕ}
    {seen : List Pubkey} {total total' : UInt64} {remaining : List AccountMeta}
    (h : sumStableBalances env l counts limit seen total remaining = .ok total') :
    ∃ counted : Finset Pubkey, (∀ key ∈ counted, key ∉ seen) ∧
      total'.toNat = total.toNat + ∑ key ∈ counted, l.stableHolding env key := by
  induction remaining generalizing limit seen total with
  | nil =>
    rw [sumStableBalances, Except.ok.injEq] at h
    exact ⟨∅, by simp, by simp [h]⟩
  | cons m rest ih =>
    cases limit with
    | zero => exact absurd h fail_ne_ok
    | succ limit =>
      simp only [sumStableBalances] at h
      split at h
      · exact ih h
      rename_i hfresh
      split at h
      · exact ih h
      rename_i hprogram
      cases hview : tokenView (l.accountInfo env m.pubkey).data with
      | none =>
        rw [hview] at h
        exact ih h
      | some view =>
        rw [hview] at h
        simp only at h
        split at h
        · rename_i hcounted
          simp only [seq_ok_iff, someOr_ok_iff, checkedAdd_eq_some] at h
          obtain ⟨middle, hmiddle, h⟩ := h
          obtain ⟨counted, hunseen, hsum⟩ := ih h
          -- the account itself is in the list of seen ones, so it is not counted again
          have hnew : m.pubkey ∉ counted := fun hmem => hunseen _ hmem List.mem_cons_self
          have htoken : isTokenProgram (l.accountInfo env m.pubkey).owner = true := by
            rw [isTokenProgram, decide_eq_true_iff]
            by_contra hneither
            exact hprogram (not_or.mp hneither)
          have hholding : l.stableHolding env m.pubkey = view.amount.toNat := by
            rw [Ledger.stableHolding, readToken, if_pos htoken, hview, Option.elim_some,
              if_pos ⟨hcounted.1, hcounted.2.1⟩]
          refine ⟨insert m.pubkey counted, fun key hkey => ?_, ?_⟩
          · rcases Finset.mem_insert.mp hkey with rfl | hmem
            · exact hfresh
            · exact fun hseen => hunseen key hmem (List.mem_cons_of_mem _ hseen)
          · rw [Finset.sum_insert hnew, hsum, hmiddle, hholding, Nat.add_assoc]
        · exact ih h

/-- Finitely many accounts hold all the stablecoin of the vault. -/
def Ledger.HoldsWithin (l : Ledger D) (env : Env) (accounts : Finset Pubkey) : Prop :=
  ∀ key ∉ accounts, l.stableHolding env key = 0

theorem Ledger.HoldsWithin.sum_le {accounts : Finset Pubkey} (h : l.HoldsWithin env accounts)
    (counted : Finset Pubkey) :
    ∑ key ∈ counted, l.stableHolding env key ≤ ∑ key ∈ accounts, l.stableHolding env key := by
  apply Finset.sum_le_sum_of_ne_zero
  intro key _ hne
  by_contra hout
  exact hne (h key hout)

variable {accounts : Finset Pubkey} {total : UInt64} {remaining : List AccountMeta}

theorem transferFloorSum_le {source : Pubkey}
    (h : transferFloorSum env l source remaining = .ok total)
    (hwithin : l.HoldsWithin env accounts) :
    total.toNat ≤ ∑ key ∈ accounts, l.stableHolding env key := by
  simp only [transferFloorSum, Ledger.loadToken, seq_ok_iff, mustExist_ok_iff] at h
  obtain ⟨t, ht, start, hstart, h⟩ := h
  obtain ⟨counted, hunseen, hsum⟩ := sumStableBalances_ok h
  have hsource : start.toNat = l.stableHolding env source := by
    rw [Ledger.stableHolding_of_token ht]
    unfold addWhen at hstart
    split at hstart
    · rename_i hstable
      rw [if_pos (of_decide_eq_true hstable)]
      simpa using checkedAdd_eq_some.mp (someOr_ok_iff.mp hstart)
    · rename_i hstable
      cases hstart
      rw [if_neg fun h => hstable (decide_eq_true h)]
      rfl
  have hnew : source ∉ counted := fun hmem => hunseen source hmem List.mem_cons_self
  calc total.toNat = ∑ key ∈ insert source counted, l.stableHolding env key := by
        rw [Finset.sum_insert hnew, hsum, hsource]
    _ ≤ ∑ key ∈ accounts, l.stableHolding env key := hwithin.sum_le _

theorem canonicalStableBalance_le :
    (canonicalStableBalance l key).toNat ≤ l.stableHolding env key := by
  unfold canonicalStableBalance
  cases ht : l.tokens key with
  | none => exact Nat.zero_le _
  | some t =>
    rw [Ledger.stableHolding_of_token ht]
    by_cases hcounts : t.owner = l.vaultKey ∧ isStablecoinMint (Host.cluster D) t.mint = true ∧
        key = associatedTokenAddress D l.vaultKey t.mint tokenProgramId
    · simp only [if_pos hcounts, if_pos (And.intro hcounts.1 hcounts.2.1), le_refl]
    · simp only [if_neg hcounts]
      exact Nat.zero_le _

theorem named_le (input output : Option Pubkey) :
    (input.elim 0 (canonicalStableBalance l)).toNat +
        (if output = input then 0 else output.elim 0 (canonicalStableBalance l)).toNat ≤
      ∑ key ∈ (input.toList ++ output.toList).toFinset, l.stableHolding env key := by
  rcases input with - | input
  · rcases output with - | output
    · simp
    · simpa using canonicalStableBalance_le
  · rcases output with - | output
    · simpa using canonicalStableBalance_le
    · rcases eq_or_ne output input with rfl | hne
      · simpa using canonicalStableBalance_le
      · have hpair : (([input] : List Pubkey) ++ [output]).toFinset = {input, output} := by simp
        simp only [Option.some.injEq, hne, if_false, Option.elim_some, Option.toList_some, hpair]
        rw [Finset.sum_pair hne.symm]
        exact Nat.add_le_add canonicalStableBalance_le canonicalStableBalance_le

theorem sessionFloorSum_le {args : FinalizeSessionArgs}
    (h : sessionFloorSum env l args = .ok total) (hwithin : l.HoldsWithin env accounts) :
    total.toNat ≤ ∑ key ∈ accounts, l.stableHolding env key := by
  simp only [sessionFloorSum, seq_ok_iff, someOr_ok_iff, checkedAdd_eq_some] at h
  obtain ⟨start, hstart, h⟩ := h
  obtain ⟨counted, hunseen, hsum⟩ := sumStableBalances_ok h
  let named := (args.vaultTokenAccount.toList ++ args.outputStablecoinAccount.toList).toFinset
  have hdisjoint : Disjoint named counted := by
    rw [Finset.disjoint_right]
    intro key hkey hnamed
    exact hunseen key hkey (List.mem_toFinset.mp hnamed)
  calc total.toNat = start.toNat + ∑ key ∈ counted, l.stableHolding env key := hsum
    _ ≤ ∑ key ∈ named, l.stableHolding env key + ∑ key ∈ counted, l.stableHolding env key :=
        Nat.add_le_add_right (hstart ▸ named_le _ _) _
    _ = ∑ key ∈ named ∪ counted, l.stableHolding env key := (Finset.sum_union hdisjoint).symm
    _ ≤ ∑ key ∈ accounts, l.stableHolding env key := hwithin.sum_le _

end Walk

section Floor

variable {D : Type} [Host D] {env : Env} {l l' : Ledger D} {a : VaultAccounts D}
  {accounts : Finset Pubkey}

/-- The combined balance that an instruction compares with the floor. -/
def Call.floorSum (env : Env) (l : Ledger D) : Call D → Option (Result UInt64)
  | agentTransfer args => some (transferFloorSum env l args.vaultTokenAccount args.remaining)
  | finalizeSession args => some (sessionFloorSum env l args)
  | _ => none

theorem floorSum_le {c : Call D} {total : UInt64} (h : c.floorSum env l = some (.ok total))
    (hwithin : l.HoldsWithin env accounts) :
    total.toNat ≤ ∑ key ∈ accounts, l.stableHolding env key := by
  cases c <;> first | cases h | skip
  case agentTransfer => exact transferFloorSum_le (Option.some.inj h) hwithin
  case finalizeSession => exact sessionFloorSum_le (Option.some.inj h) hwithin

omit [Host D] in
theorem checkStableFloor_ok {policy : PolicyConfig D} {sum : Result UInt64}
    (h : checkStableFloor policy sum = .ok ()) (hpos : 0 < policy.stableBalanceFloor) :
    ∃ total, sum = .ok total ∧ policy.stableBalanceFloor.toNat ≤ total.toNat := by
  rw [checkStableFloor, if_pos hpos] at h
  simp only [seq_ok_iff, ensure_ok_iff] at h
  exact h

variable [DecidableEq D]

theorem exec_floor {c : Call D} (h : exec env l c = .ok l')
    (hc : (c.floorSum env l).isSome = true) (ha : l.live = some a) :
    (∃ sum, c.floorSum env { l with tokens := l'.tokens } = some sum ∧
      checkStableFloor a.policy sum = .ok ()) ∧
    ∀ key, Ledger.stableHolding { l with tokens := l'.tokens } env key ≤
      l'.stableHolding env key := by
  cases c <;> first | cases hc; done | skip
  case agentTransfer args =>
    obtain ⟨b, charged, counted, source, destination, usdAmount, split, ht⟩ := agentTransfer_ok h
    obtain rfl := Option.some.inj (ht.live.symm.trans ha)
    refine ⟨⟨_, rfl, ht.floor⟩, fun key => ?_⟩
    obtain ⟨tokens, rfl⟩ := ht.result
    refine Ledger.stableHolding_mono rfl rfl rfl fun howns => ?_
    simpa only [Ledger.ownsAccount, ha, Option.isSome_some] using howns
  case finalizeSession args =>
    obtain ⟨b, s, revoked, outcome, vault, tracker, hclosed⟩ := finalizeSession_ok h
    obtain rfl := Option.some.inj (hclosed.live.symm.trans ha)
    have hresult := hclosed.result
    have htokens : l'.tokens = outcome.tokens := by rw [hresult]
    rw [htokens]
    refine ⟨⟨_, rfl, hclosed.floor⟩, fun key => ?_⟩
    subst hresult
    refine Ledger.stableHolding_mono rfl rfl rfl fun howns => ?_
    -- closing the session is the only account that goes
    have hsession : (Function.update l.sessions args.session none key).isSome = true →
        (l.sessions key).isSome = true := by
      rcases eq_or_ne key args.session with rfl | hne
      · rw [Function.update_self]
        exact fun h => absurd h Bool.false_ne_true
      · rw [Function.update_of_ne hne]
        exact id
    simp only [Ledger.ownsAccount, Ledger.setSession, ha, Option.isSome_some, true_and,
      decide_eq_true_iff] at howns ⊢
    exact howns.imp_right (Or.imp_right (Or.imp_right (Or.imp_right (Or.imp_right
      (Or.imp_right hsession)))))

/-- Whatever accounts a caller lists, the floor check of the two instructions never finds more
stablecoin than the vault holds; so a vault with a floor holds at least that much after them. -/
theorem stable_floor_sound :
    (∀ (env : Env) (l : Ledger D) (c : Call D) (total : UInt64) (accounts : Finset Pubkey),
      c.floorSum env l = some (.ok total) → l.HoldsWithin env accounts →
      total.toNat ≤ ∑ key ∈ accounts, l.stableHolding env key) ∧
    ∀ (env : Env) (l l' : Ledger D) (c : Call D) (a : VaultAccounts D) (accounts : Finset Pubkey),
      exec env l c = .ok l' → (c.floorSum env l).isSome = true → l.live = some a →
      0 < a.policy.stableBalanceFloor → l'.HoldsWithin env accounts →
      a.policy.stableBalanceFloor.toNat ≤ ∑ key ∈ accounts, l'.stableHolding env key := by
  refine ⟨fun env l c total accounts hsum hwithin => floorSum_le hsum hwithin, ?_⟩
  intro env l l' c a accounts h hc ha hpos hwithin
  obtain ⟨⟨sum, hsum, hcheck⟩, hmono⟩ := exec_floor h hc ha
  obtain ⟨total, rfl, hfloor⟩ := checkStableFloor_ok hcheck hpos
  have hbefore : Ledger.HoldsWithin { l with tokens := l'.tokens } env accounts :=
    fun key hkey => Nat.le_zero.mp ((hmono key).trans (hwithin key hkey).le)
  calc a.policy.stableBalanceFloor.toNat ≤ total.toNat := hfloor
    _ ≤ ∑ key ∈ accounts, Ledger.stableHolding { l with tokens := l'.tokens } env key :=
        floorSum_le hsum hbefore
    _ ≤ ∑ key ∈ accounts, l'.stableHolding env key := Finset.sum_le_sum fun key _ => hmono key

omit [DecidableEq D] in
theorem agentTransfer_of_ne {args : AgentTransferArgs} (h : agentTransfer env args l = .ok l')
    {key : Pubkey} (hsource : key ≠ args.vaultTokenAccount)
    (hdest : key ≠ args.destinationTokenAccount)
    (htreasury : some key ≠ args.protocolTreasuryTokenAccount)
    (hfee : some key ≠ args.feeDestinationTokenAccount) :
    l'.tokens key = l.tokens key ∧ l'.others = l.others := by
  have hpay : ∀ {tokens tokens' : Accounts Pubkey} {mint owner : Pubkey} {fee : UInt64}
      {named : Option Pubkey} {dest : Option (Pubkey × TokenAccount Pubkey)} {e : SigilError},
      l.loadOptionalToken named = .ok dest → some key ≠ named →
      payFee tokens l.vaultKey args.vaultTokenAccount mint owner fee dest e = .ok tokens' →
      tokens' key = tokens key := by
    intro tokens tokens' mint owner fee named dest e hload hne hpaid
    unfold payFee at hpaid
    split at hpaid
    · simp only [seq_ok_iff, someOr_ok_iff, ensure_ok_iff, viaToken_ok_iff, exists_and_left,
        exists_const] at hpaid
      obtain ⟨⟨dest, account⟩, rfl, -, -, htransfer⟩ := hpaid
      refine transfer_of_ne htransfer hsource ?_
      rintro rfl
      exact hne (loadOptionalToken_ok hload).1
    · rw [Except.ok.inj hpaid]
  obtain ⟨a, charged, counted, source, destination, usdAmount, split, ht⟩ := agentTransfer_ok h
  obtain ⟨moved, feeDest, treasury, tokens, hmoved, hfeeDest, hload, hfees, rfl⟩ := ht.payments
  simp only [transferMeasuredFees, seq_ok_iff] at hfees
  obtain ⟨paid, hpaid, hdeveloper⟩ := hfees
  refine ⟨?_, rfl⟩
  change tokens key = l.tokens key
  rw [hpay hfeeDest hfee hdeveloper, hpay hload htreasury hpaid,
    transfer_of_ne hmoved hsource hdest]

end Floor

section Sample

/-- A vault that keeps 40 of its stablecoin. -/
def floorInitialize : Call Preimage :=
  let draft : InitializeVaultArgs Preimage := { sampleArgs with stableBalanceFloor := 40 }
  .initializeVault (sampleKey 1) (sampleKey 4) { draft with
    previewDigest := liveDigest (draft.newVault (sampleKey 1) (sampleKey 4))
      (draft.newPolicy emptyLedger.vaultKey 7) }

def floorLedger : Ledger Preimage :=
  { withOperator (after (sampleEnv 1000 7) emptyLedger floorInitialize) with
    tokens := Function.update (sampleTokens emptyLedger.vaultKey 0) (sampleKey 25)
      (some (sampleAccount sampleMint (sampleKey 3) 0))
    others := sampleOthers }

/-- The source account is listed twice more. -/
def floorTransfer : AgentTransferArgs :=
  { sampleTransfer with remaining := [⟨sampleKey 20, false, false⟩, ⟨sampleKey 20, false, false⟩] }

def floorPaid : Ledger Preimage :=
  after (sampleEnv 2000 30) floorLedger (.agentTransfer floorTransfer)

theorem exec_floorPaid :
    exec (sampleEnv 2000 30) floorLedger (.agentTransfer floorTransfer) = .ok floorPaid :=
  exec_after (by decide +kernel)

theorem holdsWithin_floorPaid : floorPaid.HoldsWithin (sampleEnv 2000 30) {sampleKey 20} := by
  intro key hkey
  by_cases hnamed : key ∈ [sampleKey 21, sampleKey 22, sampleKey 24, sampleKey 25, sampleMint]
  · have hall : ∀ key ∈ [sampleKey 21, sampleKey 22, sampleKey 24, sampleKey 25, sampleMint],
        floorPaid.stableHolding (sampleEnv 2000 30) key = 0 := by
      decide +kernel
    exact hall key hnamed
  · simp only [List.mem_cons, List.not_mem_nil, or_false, not_or,
      Finset.mem_singleton] at hnamed hkey
    obtain ⟨h21, h22, h24, h25, hmint⟩ := hnamed
    have hpaid : agentTransfer (sampleEnv 2000 30) floorTransfer floorLedger = .ok floorPaid :=
      exec_floorPaid
    obtain ⟨hkept, hrest⟩ := agentTransfer_of_ne hpaid hkey h25
      (fun h => h22 (Option.some.inj h)) nofun
    have htokens : floorPaid.tokens key = none := by
      rw [hkept]
      change Function.update (sampleTokens emptyLedger.vaultKey 0) (sampleKey 25) _ key = none
      rw [Function.update_of_ne h25]
      simp [sampleTokens, hkey, h21, h22, h24]
    have hothers : floorPaid.others key = .empty := by
      rw [hrest]
      exact if_neg hmint
    have hprogram : isTokenProgram programId = false := by decide
    have hsystem : isTokenProgram AccountInfo.empty.owner = false := by decide
    unfold Ledger.stableHolding Ledger.accountInfo
    rw [htokens, hothers]
    by_cases howns : floorPaid.ownsAccount key = true <;>
      simp [howns, readToken, hprogram, hsystem]

theorem stable_floor_sound_transfer :
    40 ≤ ∑ key ∈ ({sampleKey 20} : Finset Pubkey),
      floorPaid.stableHolding (sampleEnv 2000 30) key := by
  have hlive : floorLedger.live.any (fun a => a.policy.stableBalanceFloor = 40) = true := by
    decide +kernel
  obtain ⟨a, ha, hfloor⟩ := (Option.any_eq_true _ _).mp hlive
  have hforty : a.policy.stableBalanceFloor = 40 := of_decide_eq_true hfloor
  have hkept := stable_floor_sound.2 _ _ _ _ a _ exec_floorPaid rfl ha (by rw [hforty]; decide)
    holdsWithin_floorPaid
  rwa [hforty] at hkept

end Sample

end Sigil
