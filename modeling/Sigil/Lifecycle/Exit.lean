import Sigil.Authority.PolicyBounds
import Sigil.Cosign.CosignerInvariant
import Sigil.Lifecycle.FrozenAssertions

/-! # The way out

An owner who wants to leave takes the tokens out mint by mint, gives up the stored assertions and
closes the vault. Between two transactions no reachable state of a vault stands in the way: not its
status, not its agents and not what is pending. A cosigner must sign along where one is bound.
-/

namespace Sigil

open Machine Guard TokenLedger Trace

section Status

variable {D : Type} [Host D] [DecidableEq D] {env : Env} {c : Call D} {l l' : Ledger D}

theorem exec_not_closed (h : exec env l c = .ok l') (hl : ∀ a ∈ l.live, a.vault.status ≠ .closed) :
    ∀ a ∈ l'.live, a.vault.status ≠ .closed := by
  intro a' ha'
  by_cases hwrites : Part.status ∉ c.writes
  · obtain ⟨a, ha, hstatus⟩ := Ledger.Agree.exists_before (exec_frame h hwrites) ha'
    have hsame : a'.vault.status = a.vault.status := (Prod.mk.inj hstatus).1
    exact hsame ▸ hl a ha
  cases c <;> simp [Call.writes, Part.ofVault] at hwrites
  case initializeVault =>
    obtain ⟨-, -, -, -, -, -, rfl⟩ := initializeVault_ok h
    cases ha'
    rintro ⟨⟩
  case closeVault =>
    obtain ⟨b, -, -, -, -, -, rfl⟩ := closeVault_ok h
    cases ha'
  case freezeVault =>
    obtain ⟨b, pending, tokens, -, -, -, rfl⟩ := freezeVault_ok h
    cases ha'
    rintro ⟨⟩
  case reactivateVault =>
    obtain ⟨b, g, version, -, -, -, -, -, rfl⟩ := reactivateVault_ok h
    cases ha'
    rintro ⟨⟩
  case revokeAgent =>
    obtain ⟨b, version, hb, -, -, -, rfl⟩ := revokeAgent_ok h
    cases ha'
    change (b.vault.removeAgent _ _).status ≠ _
    unfold AgentVault.removeAgent
    dsimp only
    split
    · rintro ⟨⟩
    · exact hl b hb

end Status

section Withdraw

variable {D : Type} [Host D]

/-- The owner and the vault have their accounts for a mint, and nothing holds the tokens back. -/
structure Ledger.Withdrawable (l : Ledger D) (owner mint : Pubkey)
    (source target : TokenAccount Pubkey) : Prop where
  isMint : l.tokens mint = none ∧ l.ownsAccount mint = false ∧
    (unpackMint (l.others mint)).isSome = true
  vaultAccount : l.tokens (associatedTokenAddress D l.vaultKey mint tokenProgramId) = some source
  ownerAccount : l.tokens (associatedTokenAddress D owner mint tokenProgramId) = some target
  sourceOwner : source.owner = l.vaultKey
  sourceMint : source.mint = mint
  targetOwner : target.owner = owner
  targetMint : target.mint = mint
  thawed : source.frozen = false ∧ target.frozen = false
  free : source.delegate ≠ some l.vaultKey
  room : target.amount.toNat + source.amount.toNat < 2 ^ 64

/-- What the instructions of the way out ask of the vault and of the accounts listed with them. -/
structure Ledger.Leaving (l : Ledger D) (a : VaultAccounts D) (remaining : List AccountMeta) :
    Prop where
  live : l.live = some a
  status : a.vault.status ≠ .closed
  idle : a.vault.activeSessions = 0
  marked : l.AssertionsMarked
  cosigned : a.policy.cosignRequired = true →
    hasBoundCosigner remaining a.policy.cosignSessionPubkey = true
  pending : a.policy.hasPendingPolicy = true → l.pendingPolicy.isSome = true ∧
    remaining.head?.any (fun m => m.pubkey = accountAddress D "pending_policy" l.vaultKey) = true

def Ledger.withdrawn (l : Ledger D) (a : VaultAccounts D) (mint : Pubkey) (total received : UInt64)
    (source target : TokenAccount Pubkey) : Ledger D :=
  { l with
    live := some { a with vault := { a.vault with totalWithdrawnUsd := total } }
    tokens := Function.update (Function.update l.tokens
      (associatedTokenAddress D l.vaultKey mint tokenProgramId) (some { source with amount := 0 }))
      (associatedTokenAddress D a.vault.owner mint tokenProgramId)
      (some { target with amount := received }) }

variable (D) in
/-- What a withdrawal adds to the total of the vault: only stablecoins are counted. -/
def countedWithdrawal (mint : Pubkey) (amount : UInt64) : ℕ :=
  if isStablecoinMint (Host.cluster D) mint then amount.toNat else 0

variable {env : Env} {l : Ledger D} {a : VaultAccounts D} {remaining : List AccountMeta}
  {mint : Pubkey} {source target : TokenAccount Pubkey}

theorem exists_addWhen {p : Bool} {total amount : UInt64}
    (h : total.toNat + (if p then amount.toNat else 0) < 2 ^ 64) :
    ∃ sum, addWhen p total amount = .ok sum ∧
      sum.toNat = total.toNat + (if p then amount.toNat else 0) := by
  cases p with
  | true =>
    have hsum : (UInt64.ofNat (total.toNat + amount.toNat)).toNat = total.toNat + amount.toNat :=
      UInt64.toNat_ofNat_of_lt' h
    exact ⟨_, someOr_ok_iff.mpr (checkedAdd_eq_some.mpr hsum), hsum⟩
  | false => exact ⟨total, rfl, rfl⟩

theorem Ledger.Withdrawable.addresses_ne (hw : l.Withdrawable a.vault.owner mint source target)
    (hne : a.vault.owner ≠ l.vaultKey) : associatedTokenAddress D l.vaultKey mint tokenProgramId ≠
      associatedTokenAddress D a.vault.owner mint tokenProgramId := by
  intro hsame
  have hboth := hw.vaultAccount
  rw [hsame, hw.ownerAccount] at hboth
  cases hboth
  exact hne (hw.targetOwner.symm.trans hw.sourceOwner)

theorem withdrawFunds_all (hl : l.Leaving a remaining) (hne : a.vault.owner ≠ l.vaultKey)
    (hw : l.Withdrawable a.vault.owner mint source target)
    (htotal : a.vault.totalWithdrawnUsd.toNat + countedWithdrawal D mint source.amount < 2 ^ 64)
    (henv : env.stackHeight = transactionLevelStackHeight) :
    ∃ total received,
      withdrawFunds env a.vault.owner mint remaining source.amount l =
        .ok (l.withdrawn a mint total received source target) ∧
      total.toNat = a.vault.totalWithdrawnUsd.toNat + countedWithdrawal D mint source.amount ∧
      received.toNat = target.amount.toNat + source.amount.toNat := by
  obtain ⟨total, hadd, hsum⟩ := exists_addWhen htotal
  have hreceived : (UInt64.ofNat (target.amount.toNat + source.amount.toNat)).toNat =
      target.amount.toNat + source.amount.toNat := UInt64.toNat_ofNat_of_lt' hw.room
  have hinfo : (unpackMint (l.accountInfo env mint)).isSome = true := by
    rw [Ledger.accountInfo, hw.isMint.1]
    simpa [hw.isMint.2.1] using hw.isMint.2.2
  obtain ⟨decimals, hdecimals⟩ := Option.isSome_iff_exists.mp hinfo
  have hmoved := transfer_of_owner (hw.addresses_ne hne) hw.vaultAccount hw.ownerAccount hw.thawed
    (hw.sourceMint.trans hw.targetMint.symm) hw.sourceOwner hw.free
    (by simp : source.amount.toNat = (0 : UInt64).toNat + source.amount.toNat) hreceived
  refine ⟨total, _, ?_, hsum, hreceived⟩
  simp only [withdrawFunds, seq_ok_iff, Ledger.loadAsOwner_ok_iff, Ledger.loadToken,
    mustExist_ok_iff, require_ok_iff, rejectCpi_ok_iff, ensure_ok_iff,
    VaultAccounts.cosignGate_ok_iff, viaToken_ok_iff, exists_and_left, exists_const, pure_ok_iff]
  exact ⟨a, ⟨hl.live, rfl⟩, decimals, hdecimals, source, hw.vaultAccount, hw.sourceOwner,
    hw.sourceMint, target, hw.ownerAccount, hw.targetOwner, hw.targetMint, henv, hl.status,
    hl.cosigned, UInt64.le_refl _, _, hmoved, total, hadd, rfl⟩

theorem Ledger.Leaving.withdrawn (hl : l.Leaving a remaining) (total received : UInt64) :
    (l.withdrawn a mint total received source target).Leaving
      { a with vault := { a.vault with totalWithdrawnUsd := total } } remaining where
  live := rfl
  status := hl.status
  idle := hl.idle
  marked := by
    have hmarked := hl.marked
    rw [Ledger.AssertionsMarked, hl.live] at hmarked
    exact hmarked
  cosigned := hl.cosigned
  pending := hl.pending

theorem Ledger.Withdrawable.tokens_withdrawn (hw : l.Withdrawable a.vault.owner mint source target)
    (total received : UInt64) {key : Pubkey}
    (hkey : ∀ t ∈ l.tokens key, t.mint ≠ mint) :
    (l.withdrawn a mint total received source target).tokens key = l.tokens key := by
  have hsource : key ≠ associatedTokenAddress D l.vaultKey mint tokenProgramId := by
    rintro rfl
    exact hkey source hw.vaultAccount hw.sourceMint
  have htarget : key ≠ associatedTokenAddress D a.vault.owner mint tokenProgramId := by
    rintro rfl
    exact hkey target hw.ownerAccount hw.targetMint
  exact (Function.update_of_ne htarget ..).trans (Function.update_of_ne hsource ..)

theorem Ledger.Withdrawable.withdrawn {other : Pubkey} {source' target' : TokenAccount Pubkey}
    (hl : l.Leaving a remaining) (hother : other ≠ mint)
    (hw : l.Withdrawable a.vault.owner mint source target)
    (hw' : l.Withdrawable a.vault.owner other source' target') (total received : UInt64) :
    (l.withdrawn a mint total received source target).Withdrawable a.vault.owner other source'
      target' where
  isMint := by
    obtain ⟨hnone, howns, hmint⟩ := hw'.isMint
    refine ⟨?_, ?_, hmint⟩
    · rw [hw.tokens_withdrawn total received (by simp [hnone]), hnone]
    · rw [Ledger.ownsAccount, hl.live] at howns
      exact howns
  vaultAccount := (hw.tokens_withdrawn total received fun t ht => by
    rwa [← Option.some.inj (hw'.vaultAccount.symm.trans ht), hw'.sourceMint]).trans
      hw'.vaultAccount
  ownerAccount := (hw.tokens_withdrawn total received fun t ht => by
    rwa [← Option.some.inj (hw'.ownerAccount.symm.trans ht), hw'.targetMint]).trans
      hw'.ownerAccount
  sourceOwner := hw'.sourceOwner
  sourceMint := hw'.sourceMint
  targetOwner := hw'.targetOwner
  targetMint := hw'.targetMint
  thawed := hw'.thawed
  free := hw'.free
  room := hw'.room

end Withdraw

section Leave

variable {D : Type} [Host D] [DecidableEq D] {l : Ledger D} {a : VaultAccounts D}
  {remaining : List AccountMeta} {source target : Pubkey → TokenAccount Pubkey}

def withdrawals (owner : Pubkey) (remaining : List AccountMeta)
    (source : Pubkey → TokenAccount Pubkey) (visits : List (Env × Pubkey)) : List (Action D) :=
  visits.map fun v => .call v.1 (.withdrawFunds owner v.2 remaining (source v.2).amount)

/-- The tokens of a mint are all with the owner. -/
def Ledger.TakenOut (l : Ledger D) (owner mint : Pubkey) (source target : TokenAccount Pubkey) :
    Prop :=
  (∃ t, l.tokens (associatedTokenAddress D l.vaultKey mint tokenProgramId) = some t ∧
    t.mint = mint ∧ t.amount = 0) ∧
  ∃ t, l.tokens (associatedTokenAddress D owner mint tokenProgramId) = some t ∧
    t.mint = mint ∧ t.amount.toNat = target.amount.toNat + source.amount.toNat

theorem withdrawals_run (visits : List (Env × Pubkey)) (hl : l.Leaving a remaining)
    (hne : a.vault.owner ≠ l.vaultKey) (hdistinct : (visits.map Prod.snd).Nodup)
    (hw : ∀ v ∈ visits, l.Withdrawable a.vault.owner v.2 (source v.2) (target v.2))
    (hsum : a.vault.totalWithdrawnUsd.toNat +
      (visits.map fun v => countedWithdrawal D v.2 (source v.2).amount).sum < 2 ^ 64)
    (henv : ∀ v ∈ visits, v.1.stackHeight = transactionLevelStackHeight) :
    ∃ l' a', Run Step l (withdrawals a.vault.owner remaining source visits) l' ∧
      l'.Leaving a' remaining ∧ a'.vault.owner = a.vault.owner ∧ a'.policy = a.policy ∧
      l'.vaultKey = l.vaultKey ∧
      (∀ v ∈ visits, l'.TakenOut a.vault.owner v.2 (source v.2) (target v.2)) ∧
      ∀ key, (∀ t ∈ l.tokens key, ∀ v ∈ visits, t.mint ≠ v.2) → l'.tokens key = l.tokens key := by
  induction visits generalizing l a with
  | nil => exact ⟨l, a, .nil l, hl, rfl, rfl, rfl, by simp, fun _ _ => rfl⟩
  | cons v visits ih =>
    obtain ⟨env, mint⟩ := v
    rw [List.map_cons, List.nodup_cons] at hdistinct
    rw [List.map_cons, List.sum_cons] at hsum
    dsimp only at hsum
    have hfirst : l.Withdrawable a.vault.owner mint (source mint) (target mint) :=
      hw (env, mint) List.mem_cons_self
    obtain ⟨total, received, hexec, htotal, hreceived⟩ := withdrawFunds_all hl hne hfirst
      (by omega) (henv (env, mint) List.mem_cons_self)
    have hrest : ∀ v ∈ visits, v.2 ≠ mint := fun v hv hsame =>
      hdistinct.1 (List.mem_map.mpr ⟨v, hv, hsame⟩)
    obtain ⟨l', a', hrun, hleaving, howner, hpolicy, hkey, htaken, hspared⟩ := ih
      (hl.withdrawn total received) hne hdistinct.2
      (fun v hv => hfirst.withdrawn hl (hrest v hv) (hw v (List.mem_cons_of_mem _ hv)) ..)
      (by dsimp only; omega) fun v hv => henv v (List.mem_cons_of_mem _ hv)
    have hmint : ∀ key t, (l.withdrawn a mint total received (source mint) (target mint)).tokens
        key = some t → t.mint = mint → l'.tokens key = some t := by
      intro key t ht hmint
      rw [hspared key fun t' ht' v hv => ?_, ht]
      rw [← Option.some.inj (ht.symm.trans ht'), hmint]
      exact (hrest v hv).symm
    refine ⟨l', a', (Run.single (.call hexec)).append hrun, hleaving, howner, hpolicy, hkey,
      ?_, ?_⟩
    · rintro v (_ | ⟨_, hv⟩)
      · refine ⟨⟨{ source mint with amount := 0 }, ?_, hfirst.sourceMint, rfl⟩,
          ⟨_, hmint _ _ (Function.update_self ..) hfirst.targetMint, hfirst.targetMint,
            hreceived⟩⟩
        rw [hkey]
        exact hmint _ _ ((Function.update_of_ne (hfirst.addresses_ne hne) ..).trans
          (Function.update_self ..)) hfirst.sourceMint
      · exact htaken v hv
    · intro key hother
      rw [hspared key ?_, hfirst.tokens_withdrawn total received fun t ht =>
        hother t ht (env, mint) List.mem_cons_self]
      intro t ht v hv
      rw [hfirst.tokens_withdrawn total received fun t ht =>
        hother t ht (env, mint) List.mem_cons_self] at ht
      exact hother t ht v (List.mem_cons_of_mem _ hv)

/-- Give up the stored assertions, if there are any, and close the vault. -/
def closings (owner : Pubkey) (policy : PolicyConfig D) (remaining : List AccountMeta) (digest : D)
    (env env' : Env) : List (Action D) :=
  (if policy.hasPostAssertions = 0 then []
    else [.call env (.closePostAssertions owner remaining digest)]) ++
  [.call env' (.closeVault owner remaining)]

omit [DecidableEq D] in
theorem closeVault_of_leaving {env : Env} (hl : l.Leaving a remaining)
    (henv : env.stackHeight = transactionLevelStackHeight)
    (hassertions : a.policy.hasPostAssertions = 0) :
    closeVault env a.vault.owner remaining l = .ok (closedLedger a remaining l) := by
  simp only [closeVault, seq_ok_iff, Ledger.loadAsOwner_ok_iff, rejectCpi_ok_iff, ensure_ok_iff,
    VaultAccounts.cosignGate_ok_iff, exists_and_left, exists_const, pure_ok_iff]
  exact ⟨a, ⟨hl.live, rfl⟩, henv, hl.status, hl.idle, hassertions, hl.cosigned, hl.pending, rfl⟩

theorem closings_run {env env' : Env} (hl : l.Leaving a remaining)
    (hversion : a.policy.hasPostAssertions ≠ 0 → a.policy.policyVersion.toNat + 1 < 2 ^ 64)
    (henv : env.stackHeight = transactionLevelStackHeight)
    (henv' : env'.stackHeight = transactionLevelStackHeight) :
    ∃ digest l', Run Step l (closings a.vault.owner a.policy remaining digest env env') l' ∧
      l'.live = none ∧ l'.vaultKey = l.vaultKey ∧ l'.tokens = l.tokens := by
  by_cases hassertions : a.policy.hasPostAssertions = 0
  · refine ⟨Host.zeroDigest, closedLedger a remaining l, ?_, rfl, rfl, rfl⟩
    rw [closings, if_pos hassertions]
    exact .single (.call (closeVault_of_leaving hl henv' hassertions))
  · have hstored : l.postAssertions.isSome = true := by
      rw [hl.marked, hl.live]
      exact decide_eq_true hassertions
    obtain ⟨assertions, hstored⟩ := Option.isSome_iff_exists.mp hstored
    have hnext : (UInt64.ofNat (a.policy.policyVersion.toNat + 1)).toNat =
        a.policy.policyVersion.toNat + 1 := UInt64.toNat_ofNat_of_lt' (hversion hassertions)
    let b := (a.markAssertions 0).sealedAt (UInt64.ofNat (a.policy.policyVersion.toNat + 1))
    let m : Ledger D := { l with live := some b, postAssertions := none }
    have hgive : closePostAssertions env a.vault.owner remaining
        (liveDigest (a.markAssertions 0).vault (a.markAssertions 0).policy) l = .ok m := by
      simp only [closePostAssertions, seq_ok_iff, Ledger.loadAsOwner_ok_iff, mustExist_ok_iff,
        rejectCpi_ok_iff, ensure_ok_iff, VaultAccounts.cosignGate_ok_iff,
        VaultAccounts.reseal_ok_iff, exists_and_left, exists_const, pure_ok_iff]
      exact ⟨a, ⟨hl.live, rfl⟩, assertions, hstored, henv, hl.cosigned, rfl, b,
        ⟨_, hnext, rfl⟩, rfl⟩
    have hm : m.Leaving b remaining :=
      ⟨rfl, hl.status, hl.idle, rfl, hl.cosigned, hl.pending⟩
    refine ⟨liveDigest (a.markAssertions 0).vault (a.markAssertions 0).policy,
      closedLedger b remaining m, ?_, rfl, rfl, rfl⟩
    rw [closings, if_neg hassertions]
    have hclosed := closeVault_of_leaving hm henv' rfl
    exact (Run.single (.call hgive)).append (.single (.call hclosed))

/-- The accounts listed with every instruction of the way out: the pending policy update comes
first, and a bound cosigner signs. -/
def exitAccounts (vault : Pubkey) (policy : PolicyConfig D) : List AccountMeta :=
  (if policy.hasPendingPolicy then
    [⟨accountAddress D "pending_policy" vault, false, true⟩] else []) ++
  (if policy.cosignRequired then [⟨policy.cosignSessionPubkey, true, false⟩] else [])

variable {w₀ w : Chain D} {txs : List Transaction} {k : Pubkey}

theorem secondKey_of_committed (hrun : Run Committed w₀ txs w) (h₀ : w₀.Genesis)
    (ha : (w.vault k).live = some a) : a.SecondKey := by
  obtain ⟨as, hreach⟩ := exists_run_of_committed hrun k
  exact forall_live_of_run hreach (h₀ k) exec_secondKey a ha

/-- Between two transactions nothing is in the way but what the listed accounts answer for. -/
theorem leaving_of_listed (hrun : Run Committed w₀ txs w) (h₀ : w₀.Genesis)
    (ha : (w.vault k).live = some a)
    (hcosigned : a.policy.cosignRequired = true →
      hasBoundCosigner remaining a.policy.cosignSessionPubkey = true)
    (hlisted : a.policy.hasPendingPolicy = true →
      remaining.head?.any (fun m => m.pubkey = accountAddress D "pending_policy" k) = true) :
    (w.vault k).Leaving a remaining := by
  obtain ⟨as, hreach⟩ := exists_run_of_committed hrun k
  have hidle : w.Idle := hrun.invariant (fun _ _ _ h hcommitted => hcommitted.idle h) h₀.idle
  have hmarked := (run_policyInOrder (h₀ k) hreach).marked
  rw [ha, Option.any_some] at hmarked
  refine ⟨ha, forall_live_of_run hreach (h₀ k) exec_not_closed a ha, ?_,
    run_assertionsMarked (h₀ k) hreach, hcosigned, fun hpending => ⟨?_, ?_⟩⟩
  · exact (Ledger.activeSessions_eq ha).symm.trans (hidle.count k)
  · rw [hmarked, hpending]
  · rw [w.key k]
    exact hlisted hpending

theorem leaving_of_committed (hrun : Run Committed w₀ txs w) (h₀ : w₀.Genesis)
    (ha : (w.vault k).live = some a) : (w.vault k).Leaving a (exitAccounts k a.policy) := by
  apply leaving_of_listed hrun h₀ ha
  · intro hcosign
    simp [hasBoundCosigner, exitAccounts, hcosign,
      (secondKey_of_committed hrun h₀ ha).bound hcosign]
  · intro hpending
    simp [exitAccounts, hpending]

/-- Between two transactions nothing in the program keeps an owner in. Whatever the status of the
vault, its agents and what is pending, the owner, together with the cosigner if one is bound, can
take out the whole balance of any number of mints whose accounts are in order and close the vault,
in instructions that all succeed at any time. -/
theorem owner_can_leave (hrun : Run Committed w₀ txs w) (h₀ : w₀.Genesis)
    (ha : (w.vault k).live = some a) (hne : a.vault.owner ≠ k)
    (hversion : a.policy.hasPostAssertions ≠ 0 → a.policy.policyVersion.toNat + 1 < 2 ^ 64)
    (source target : Pubkey → TokenAccount Pubkey) (visits : List (Env × Pubkey))
    (hdistinct : (visits.map Prod.snd).Nodup)
    (hw : ∀ v ∈ visits, (w.vault k).Withdrawable a.vault.owner v.2 (source v.2) (target v.2))
    (hsum : a.vault.totalWithdrawnUsd.toNat +
      (visits.map fun v => countedWithdrawal D v.2 (source v.2).amount).sum < 2 ^ 64)
    (henv : ∀ v ∈ visits, v.1.stackHeight = transactionLevelStackHeight) (env env' : Env)
    (hgive : env.stackHeight = transactionLevelStackHeight)
    (hclose : env'.stackHeight = transactionLevelStackHeight) :
    ∃ digest l', Run Step (w.vault k)
        (withdrawals a.vault.owner (exitAccounts k a.policy) source visits ++
          closings a.vault.owner a.policy (exitAccounts k a.policy) digest env env') l' ∧
      l'.live = none ∧ ∀ v ∈ visits, l'.TakenOut a.vault.owner v.2 (source v.2) (target v.2) := by
  have hl := leaving_of_committed hrun h₀ ha
  obtain ⟨m, b, hout, hm, howner, hpolicy, -, htaken, -⟩ :=
    withdrawals_run visits hl ((w.key k).symm ▸ hne) hdistinct hw hsum henv
  obtain ⟨digest, l', hclosed, hgone, hkey, htokens⟩ :=
    closings_run hm (hpolicy.symm ▸ hversion) hgive hclose
  rw [howner, hpolicy] at hclosed
  refine ⟨digest, l', hout.append hclosed, hgone, fun v hv => ?_⟩
  rw [Ledger.TakenOut, htokens, hkey]
  exact htaken v hv

end Leave

section Sample

/-- The sample vault with a grant that is pending, on the way to a bound cosigner. -/
def bindingLedger : Ledger Preimage :=
  after (sampleEnv 1000 7) (withGrant sampleLedger)
    (sampleQueue (withGrant sampleLedger) enableCosign Pubkey.default)

def boundLedger : Ledger Preimage :=
  after (sampleEnv 2800 100) bindingLedger (.applyPendingPolicy (sampleKey 1))

/-- The vault with a bound cosigner, with a grant and an update of the policy that are pending. -/
def encumberedLedger : Ledger Preimage :=
  after (sampleEnv 3000 110) boundLedger (sampleQueue boundLedger (raiseCap 2000) (sampleKey 5))

def guardedEncumbered : Ledger Preimage :=
  after (sampleEnv 3100 120) encumberedLedger (.createPostAssertions (sampleKey 1)
    [decreaseGuard 45] (digestWithMark encumberedLedger 1))

def frozenEncumbered : Ledger Preimage :=
  after (sampleEnv 3200 130) guardedEncumbered (.freezeVault (sampleKey 1) [])

theorem onChain_encumbered : OnChain encumberedLedger := by
  have hqueued : exec (envAt 1000 7 (by decide)) (withGrant sampleLedger)
      (sampleQueue (withGrant sampleLedger) enableCosign Pubkey.default) = .ok bindingLedger :=
    exec_after (by decide +kernel)
  have happlied : exec (envAt 2800 100 (by decide)) bindingLedger
      (.applyPendingPolicy (sampleKey 1)) = .ok boundLedger := exec_after (by decide +kernel)
  have hraised : exec (envAt 3000 110 (by decide)) boundLedger
      (sampleQueue boundLedger (raiseCap 2000) (sampleKey 5)) = .ok encumberedLedger :=
    exec_after (by decide +kernel)
  exact ((onChain_withGrant.solo (c := sampleQueue ..) rfl hqueued).solo
    (c := .applyPendingPolicy _) rfl happlied).solo (c := sampleQueue ..) rfl hraised

theorem onChain_frozenEncumbered : OnChain frozenEncumbered := by
  let guarding : Call Preimage := .createPostAssertions (sampleKey 1) [decreaseGuard 45]
    (digestWithMark encumberedLedger 1)
  let freezing : Call Preimage := .freezeVault (sampleKey 1) []
  have hguarded : exec ((soloTransaction emptyLedger.vaultKey ⟨120, 3100, by decide⟩
      guarding).env 0) encumberedLedger guarding = .ok guardedEncumbered :=
    exec_after (by decide +kernel)
  have hfrozen : exec ((soloTransaction emptyLedger.vaultKey ⟨130, 3200, by decide⟩
      freezing).env 0) guardedEncumbered freezing = .ok frozenEncumbered :=
    exec_after (by decide +kernel)
  exact (onChain_encumbered.solo rfl hguarded).solo rfl hfrozen

/-- The owner of the sample vault has an account for the stablecoin, and the vault's is full. -/
def exitTokens : Accounts Pubkey := fun key =>
  if key = associatedTokenAddress Preimage emptyLedger.vaultKey sampleMint tokenProgramId then
    some (sampleAccount sampleMint emptyLedger.vaultKey 100)
  else if key = associatedTokenAddress Preimage (sampleKey 1) sampleMint tokenProgramId then
    some (sampleAccount sampleMint (sampleKey 1) 5)
  else none

/-- The vault that its owner leaves: frozen, with a bound cosigner, a stored assertion, and a grant
and an update that are pending. -/
def exitLedger : Ledger Preimage :=
  { frozenEncumbered with tokens := exitTokens, others := sampleOthers }

theorem exitLedger_encumbered : (exitLedger.live.any fun a => a.vault.owner = sampleKey 1 ∧
    a.vault.status = .frozen ∧ a.vault.totalWithdrawnUsd = 0 ∧ a.policy.policyVersion = 2 ∧
    a.policy.hasPostAssertions ≠ 0 ∧ a.policy.hasPendingPolicy = true ∧
    a.policy.cosignRequired = true) = true := by
  decide +kernel

theorem withdrawable_exitLedger : exitLedger.Withdrawable (sampleKey 1) sampleMint
    (sampleAccount sampleMint emptyLedger.vaultKey 100)
    (sampleAccount sampleMint (sampleKey 1) 5) := by
  have hkey : exitLedger.vaultKey = emptyLedger.vaultKey := by decide +kernel
  have hsource : exitTokens
      (associatedTokenAddress Preimage emptyLedger.vaultKey sampleMint tokenProgramId) =
        some (sampleAccount sampleMint emptyLedger.vaultKey 100) := if_pos rfl
  obtain ⟨hnone, howns, hmint, htarget⟩ : exitTokens sampleMint = none ∧
      exitLedger.ownsAccount sampleMint = false ∧
      (unpackMint (sampleOthers sampleMint)).isSome = true ∧
      exitTokens (associatedTokenAddress Preimage (sampleKey 1) sampleMint tokenProgramId) =
        some (sampleAccount sampleMint (sampleKey 1) 5) := by decide +kernel
  refine ⟨⟨hnone, howns, hmint⟩, ?_, htarget, hkey.symm, rfl, rfl, rfl, ⟨rfl, rfl⟩, nofun,
    by decide⟩
  rw [hkey]
  exact hsource

/-- The owner of the sample vault leaves with a hundred stablecoins. -/
theorem owner_can_leave_encumbered : ∃ txs w a actions l', Run Committed emptyChain txs w ∧
    (w.vault emptyLedger.vaultKey).live = some a ∧ a.vault.status = .frozen ∧
    a.policy.hasPostAssertions ≠ 0 ∧ a.policy.hasPendingPolicy = true ∧
    a.policy.cosignRequired = true ∧
    Run Step (w.vault emptyLedger.vaultKey) actions l' ∧ l'.live = none ∧
    l'.TakenOut (sampleKey 1) sampleMint (sampleAccount sampleMint emptyLedger.vaultKey 100)
      (sampleAccount sampleMint (sampleKey 1) 5) := by
  obtain ⟨txs, w, hrun, hw⟩ := onChain_frozenEncumbered.touch exitTokens sampleOthers
  have hvault : w.vault emptyLedger.vaultKey = exitLedger := hw
  obtain ⟨a, ha, hfields⟩ := (Option.any_eq_true _ _).mp exitLedger_encumbered
  obtain ⟨howner, hfrozen, hzero, hversion, hassertions, hpending, hcosigned⟩ :=
    of_decide_eq_true hfields
  have hkey : sampleKey 1 ≠ emptyLedger.vaultKey := by decide +kernel
  obtain ⟨digest, l', hleave, hgone, htaken⟩ := owner_can_leave hrun genesis_emptyChain
    (hvault ▸ ha) (howner ▸ hkey) (fun _ => hversion ▸ by decide)
    (fun _ => sampleAccount sampleMint emptyLedger.vaultKey 100)
    (fun _ => sampleAccount sampleMint (sampleKey 1) 5) [(sampleEnv 5000 40, sampleMint)]
    (by simp) (by
      rintro v (_ | ⟨_, hv⟩)
      · rw [hvault, howner]
        exact withdrawable_exitLedger
      · cases hv)
    (by rw [hzero]; decide +kernel) (by simp; rfl) (sampleEnv 5000 40) (sampleEnv 5000 40) rfl rfl
  rw [howner] at htaken
  exact ⟨txs, w, a, _, l', hrun, hvault ▸ ha, hfrozen, hassertions, hpending, hcosigned, hleave,
    hgone, htaken _ List.mem_cons_self⟩

end Sample

end Sigil
