import Sigil.Spending.CappedRuns

/-! # Spends that fit the daily cap

The caps bound what is booked. Here is the other side: the daily cap stands in the way of a spend
only when that spend and what was booked in the last day and ten minutes exceed it. A vault that
would make the spend under some other cap makes it under its own.
-/

namespace Sigil

open Machine Guard TokenLedger Trace EpochHistory Finset

section Figure

variable {t : SpendTracker} {h : List (ℤ × ℕ)} {clock : Clock} {now : ℤ}

namespace SpendTracker

theorem Tracks.oldestShare_le (ht : Tracks t h) (hle : t.lastWriteEpoch ≤ epochOf now) :
    t.oldestShare now ≤ total (fun k => epochOf k = epochOf now - 144) h := by
  by_cases hlast : t.lastWriteEpoch = epochOf now
  · rw [ht.oldestShare_eq_zero hlast]
    exact Nat.zero_le _
  · rw [ht.oldestShare_eq hle hlast]
    have hpart : (600 - now % 600).toNat ≤ 600 := by omega
    exact Nat.div_le_of_le_mul (by nlinarith)

theorem Tracks.getRolling24hUsd_le (ht : Tracks t h) (hpos : 0 < clock.unixTimestamp)
    (hle : t.lastWriteEpoch ≤ epochOf clock.unixTimestamp) :
    (t.getRolling24hUsd clock).toNat ≤ total (fun k => clock.unixTimestamp - 87000 < k) h := by
  have hread : ∀ k ∈ Icc (epochOf clock.unixTimestamp - 143) (epochOf clock.unixTimestamp),
      t.read k = total (fun j => epochOf j = k) h := by
    intro k hk
    rw [mem_Icc] at hk
    exact ht.read_eq (by omega)
  have hnow := epochOf_bounds clock.unixTimestamp
  calc (t.getRolling24hUsd clock).toNat
      ≤ t.rollingTotal clock.unixTimestamp := by
        rw [ht.getRolling24hUsd_toNat hpos hle]
        exact min_le_left _ _
    _ = total (fun j => epochOf clock.unixTimestamp - 143 ≤ epochOf j ∧
          epochOf j ≤ epochOf clock.unixTimestamp) h + t.oldestShare clock.unixTimestamp := by
        rw [ht.rollingTotal_eq hpos clock.inI64 hle, sum_congr rfl hread, sum_total]
    _ ≤ total (fun j => epochOf clock.unixTimestamp - 143 ≤ epochOf j ∧
          epochOf j ≤ epochOf clock.unixTimestamp) h +
          total (fun j => epochOf j = epochOf clock.unixTimestamp - 144) h :=
        Nat.add_le_add_left (ht.oldestShare_le hle) _
    _ ≤ total (fun k => clock.unixTimestamp - 87000 < k) h := by
        apply total_add_le
        · intro y _ hin hold
          omega
        · intro y _ hin
          have := epochOf_bounds y.1
          omega

end SpendTracker

end Figure

section Recap

variable {D : Type} {cap : UInt64} {a b : VaultAccounts D} {clock : Clock} {agent : Pubkey}
  {recipient : Pubkey} {amount : UInt64} {entry : AgentEntry} {s : SessionAuthority}

def VaultAccounts.recap (cap : UInt64) (a : VaultAccounts D) : VaultAccounts D :=
  { a with policy := { a.policy with dailySpendingCapUsd := cap } }

def Ledger.recap (cap : UInt64) (l : Ledger D) : Ledger D :=
  { l with live := l.live.map (VaultAccounts.recap cap) }

theorem Ledger.live_recap (l : Ledger D) (cap : UInt64) (ha : l.live = some a) :
    (l.recap cap).live = some (a.recap cap) := by
  rw [Ledger.recap, ha, Option.map_some]

def Outcome.recap (cap : UInt64) (o : Outcome D) : Outcome D :=
  { o with accounts := o.accounts.recap cap }

theorem chargeTransfer_of_recap
    (h : (a.recap cap).chargeTransfer clock agent recipient amount entry = .ok b)
    (hdaily : a.tracker.checkDailyCap clock amount a.policy.dailySpendingCapUsd = .ok ()) :
    a.chargeTransfer clock agent recipient amount entry =
      .ok (b.recap a.policy.dailySpendingCapUsd) := by
  obtain ⟨overlay, recorded, tracker, hsize, -, hoverlay, hrecorded, htracker, rfl⟩ :=
    chargeTransfer_ok h
  simp only [VaultAccounts.chargeTransfer, seq_ok_iff, ensure_ok_iff, exists_and_left,
    exists_const, pure_ok_iff]
  exact ⟨hsize, (), hdaily, overlay, hoverlay, recorded, hrecorded, tracker, htracker, rfl⟩

theorem chargeSession_of_recap (h : (a.recap cap).chargeSession clock s amount = .ok b)
    (hdaily : a.tracker.checkDailyCap clock amount a.policy.dailySpendingCapUsd = .ok ()) :
    a.chargeSession clock s amount = .ok (b.recap a.policy.dailySpendingCapUsd) := by
  obtain ⟨entry, overlay, recorded, tracker, hsize, -, hentry, hoverlay, hprotocol, hrecorded,
    htracker, rfl⟩ := chargeSession_ok h
  simp only [VaultAccounts.chargeSession, seq_ok_iff, ensure_ok_iff, someOr_ok_iff,
    exists_and_left, exists_const, pure_ok_iff]
  exact ⟨hsize, (), hdaily, entry, hentry, overlay, hoverlay, (), hprotocol, recorded, hrecorded,
    tracker, htracker, rfl⟩

theorem countTransfer_recap {developerFee : UInt64}
    (h : a.countTransfer amount developerFee = .ok b) :
    (a.recap cap).countTransfer amount developerFee = .ok (b.recap cap) := by
  simp only [VaultAccounts.countTransfer, seq_ok_iff, pure_ok_iff] at h ⊢
  obtain ⟨transactions, htransactions, volume, hvolume, fees, hfees, rfl⟩ := h
  exact ⟨transactions, htransactions, volume, hvolume, fees, hfees, rfl⟩

variable [Host D] {l : Ledger D} {env : Env}

theorem Ledger.accountInfo_recap (key : Pubkey) :
    (l.recap cap).accountInfo env key = l.accountInfo env key := by
  have howns : (l.recap cap).ownsAccount key = l.ownsAccount key := by
    simp [Ledger.ownsAccount, Ledger.recap]
  simp only [Ledger.accountInfo, howns]
  rfl

theorem Ledger.listedInfo_recap (listed : List AccountMeta) (key : Pubkey) :
    (l.recap cap).listedInfo env listed key = l.listedInfo env listed key := by
  simp only [Ledger.listedInfo, Ledger.accountInfo_recap]

omit [Host D] in
theorem Ledger.vaultKey_recap : (l.recap cap).vaultKey = l.vaultKey := rfl

omit [Host D] in
theorem Ledger.postAssertions_recap : (l.recap cap).postAssertions = l.postAssertions := rfl

theorem sumStableBalances_recap (counts : Pubkey → AccountInfo → TokenView → Bool) (limit : ℕ)
    (seen : List Pubkey) (total : UInt64) (metas : List AccountMeta) :
    sumStableBalances env (l.recap cap) counts limit seen total metas =
      sumStableBalances env l counts limit seen total metas := by
  induction metas generalizing limit seen total with
  | nil => cases limit <;> rfl
  | cons m rest ih =>
    cases limit with
    | zero => rfl
    | succ limit =>
      simp only [sumStableBalances, Ledger.accountInfo_recap, Ledger.vaultKey_recap, ih]

theorem transferFloorSum_recap (source : Pubkey) (remaining : List AccountMeta) :
    transferFloorSum env (l.recap cap) source remaining =
      transferFloorSum env l source remaining := by
  simp only [transferFloorSum, sumStableBalances_recap]
  rfl

theorem sessionFloorSum_recap (args : FinalizeSessionArgs) :
    sessionFloorSum env (l.recap cap) args = sessionFloorSum env l args := by
  simp only [sessionFloorSum, sumStableBalances_recap]
  rfl

theorem enforcePostExecutionAssertions_recap (remaining : List AccountMeta) :
    enforcePostExecutionAssertions env (l.recap cap) remaining s =
      enforcePostExecutionAssertions env l remaining s := by
  have hentry (e : PostAssertionEntry) (snapshot : List UInt8) (snapshotLen : UInt8) :
      verifyEntry env (l.recap cap) remaining e snapshot snapshotLen =
        verifyEntry env l remaining e snapshot snapshotLen := by
    simp only [verifyEntry, verifyMintDeltaCap, verifyAtaAuthorityPin, verifyOutputBalanceFloor,
      verifyDeclarationConsistency, verifyBytes, sumVaultMintBalance, Ledger.listedInfo_recap,
      Ledger.vaultKey_recap]
    rfl
  simp only [enforcePostExecutionAssertions, loadAssertions, hentry, Ledger.vaultKey_recap,
    Ledger.postAssertions_recap]
  rfl

theorem chargeSessionRecipient_recap (t : SpendTracker) (remaining : List AccountMeta)
    (spend : UInt64) :
    chargeSessionRecipient env (l.recap cap) (a.recap cap).policy t remaining spend =
      chargeSessionRecipient env l a.policy t remaining spend := by
  have hrecipient : recipientOf env (l.recap cap) (a.recap cap).policy remaining =
      recipientOf env l a.policy remaining := by
    funext m
    simp only [recipientOf, Ledger.listedInfo_recap, Ledger.vaultKey_recap]
    rfl
  simp only [chargeSessionRecipient, hrecipient]
  rfl

theorem agentTransfer_of_recap {args : AgentTransferArgs} {p : Spend} {l' : Ledger D}
    (ha : l.live = some a) (h : agentTransfer env args (l.recap cap) = .ok l')
    (hp : (l.recap cap).spendOf env (.agentTransfer args) = some p)
    (hdaily : a.tracker.checkDailyCap env.clock p.amount a.policy.dailySpendingCapUsd = .ok ()) :
    ∃ l'', agentTransfer env args l = .ok l'' := by
  have hlive := l.live_recap cap ha
  simp only [agentTransfer, Ledger.loadToken, seq_ok_iff, mustExist_ok_iff, rejectCpi_ok_iff,
    ensure_ok_iff, someOr_ok_iff, viaToken_ok_iff, exists_and_left, exists_const,
    pure_ok_iff] at h ⊢
  obtain ⟨b, hb, hagent, source, hsource, howner, decimals, hdecimals, hmint, destination,
    hdestination, feeDest, hfeeDest, treasury, htreasury, htop, hversion, hactive, hpaused, entry,
    hentry, hcapability, hamount, hstable, hallowed, hfree, hsame, usdAmount, husd, charged,
    hcharged, split, hsplit, moved, hmoved, tokens, htokens, ⟨⟩, hfloor, counted, hcounted, -⟩ := h
  cases hlive.symm.trans hb
  have hspend : usdAmount = p.amount := by
    simp only [Ledger.spendOf, hlive, hsource, hdestination, hmint ▸ hdecimals, husd,
      Except.toOption, Option.bind_eq_bind, Option.bind_some] at hp
    exact congrArg Spend.amount (Option.some.inj hp)
  rw [Ledger.accountInfo_recap] at hdecimals
  refine ⟨_, a, ha, hagent, source, hsource, howner, decimals, hdecimals, hmint, destination,
    hdestination, feeDest, hfeeDest, treasury, htreasury, htop, hversion, hactive, hpaused, entry,
    hentry, hcapability, hamount, hstable, hallowed, hfree, hsame, usdAmount, husd, _,
    chargeTransfer_of_recap hcharged (hspend ▸ hdaily), split, hsplit, moved, hmoved, tokens,
    htokens, (), ?_, _, countTransfer_recap hcounted, rfl⟩
  rw [← transferFloorSum_recap]
  exact hfloor

/-- A session that settles under another daily cap settles under this one, if the charge fits. -/
theorem settle_of_recap {args : FinalizeSessionArgs}
    {treasury feeDest : Option (Pubkey × TokenAccount Pubkey)} {outcome : Outcome D}
    (h : settle clock (l.recap cap) (a.recap cap) s args treasury feeDest = .ok outcome)
    (hdaily : ∀ amount, s.chargedAmount (Host.cluster D) clock.unixTimestamp
        a.policy.developerFeeRate outcome.spend = some amount →
      a.tracker.checkDailyCap clock amount a.policy.dailySpendingCapUsd = .ok ()) :
    settle clock l a s args treasury feeDest =
      .ok (outcome.recap a.policy.dailySpendingCapUsd) := by
  unfold settle at h ⊢
  unfold SessionAuthority.chargedAmount at hdaily
  split at h
  · rename_i hmeasured
    simp only [hmeasured, if_true] at hdaily ⊢
    split at h
    · rename_i hstable
      simp only [hstable, if_true] at hdaily ⊢
      simp only [settleStablecoin, seq_ok_iff] at h ⊢
      obtain ⟨source, hsource, t, ht, u, hwithin, h⟩ := h
      refine ⟨source, hsource, t, ht, u, hwithin, ?_⟩
      split at h
      · rename_i hpos
        simp only [settleSpend, seq_ok_iff, pure_ok_iff] at h ⊢
        obtain ⟨v, hout, fees, hfees, charged, hcharged, tokens, htokens, total, htotal, rfl⟩ := h
        have hamount : (spendWithFees (saturatingSub s.stablecoinBalanceBefore t.amount)
            a.policy.developerFeeRate).toOption.map (·.2.2) = some fees.2.2 := by
          change (spendWithFees _ (a.recap cap).policy.developerFeeRate).toOption.map _ = _
          rw [hfees]
          rfl
        have hcharge := chargeSession_of_recap hcharged
          (hdaily _ ((if_pos hpos).trans hamount))
        rw [if_pos hpos]
        simp only [seq_ok_iff, pure_ok_iff]
        exact ⟨v, hout, fees, hfees, _, hcharge, tokens, htokens, total, htotal, rfl⟩
      · rename_i hzero
        rw [if_neg hzero]
        obtain rfl := pure_ok_iff.mp h
        rfl
    · rename_i hother
      rw [if_neg hother] at hdaily ⊢
      simp only [settleInflow, seq_ok_iff, pure_ok_iff] at h ⊢
      obtain ⟨key, hkey, u, hsame, t, ht, v, hgrown, delta, hdelta, charged, hcharged, rfl⟩ := h
      exact ⟨key, hkey, u, hsame, t, ht, v, hgrown, delta, hdelta, _,
        chargeSession_of_recap hcharged (hdaily _ rfl), rfl⟩
  · rename_i hmeasured
    rw [if_neg hmeasured]
    cases h
    rfl

theorem finalizeSession_of_recap {args : FinalizeSessionArgs} {p : Spend} {l' : Ledger D}
    (ha : l.live = some a) (h : finalizeSession env args (l.recap cap) = .ok l')
    (hp : (l.recap cap).spendOf env (.finalizeSession args) = some p)
    (hdaily : a.tracker.checkDailyCap env.clock p.amount a.policy.dailySpendingCapUsd = .ok ()) :
    ∃ l'', finalizeSession env args l = .ok l'' := by
  have hlive := l.live_recap cap ha
  simp only [finalizeSession, seq_ok_iff, mustExist_ok_iff, rejectCpi_ok_iff, ensure_ok_iff,
    require_ok_iff, exists_and_left, exists_const, pure_ok_iff] at h ⊢
  obtain ⟨b, hb, s, hs, hvault, hseeds, vaultToken, hvaultToken, howner, out, hout, swap, hswap,
    treasury, htreasury, feeDest, hfeeDest, htop, hrent, hpayer, hauthorized, hdelegation, revoked,
    hrevoked, outcome, hsettled, ⟨⟩, hmeasurable, ⟨⟩, hcomplete, tracker, htracker, ⟨⟩, hfloor,
    vault, hcount, ⟨⟩, hasserted, nonce, hnonce, ⟨⟩, hafter, -⟩ := h
  cases hlive.symm.trans hb
  have houtcome : (l.recap cap).outcome env args (a.recap cap) s = .ok outcome := by
    simp only [Ledger.outcome, htreasury, hfeeDest, hrevoked, ok_seq, hsettled]
  have hcharge (amount : UInt64) (hamount : s.chargedAmount (Host.cluster D)
      env.clock.unixTimestamp a.policy.developerFeeRate outcome.spend = some amount) :
      a.tracker.checkDailyCap env.clock amount a.policy.dailySpendingCapUsd = .ok () := by
    have hsame : (a.recap cap).policy.developerFeeRate = a.policy.developerFeeRate := rfl
    simp only [Ledger.spendOf, hlive, hs, houtcome, hsame, hamount, Except.toOption,
      Option.bind_eq_bind, Option.bind_some] at hp
    rw [← Option.some.inj hp] at hdaily
    exact hdaily
  have hsettle := settle_of_recap (l := { l with tokens := revoked }) hsettled hcharge
  refine ⟨_, a, ha, s, hs, hvault, hseeds, vaultToken, hvaultToken, howner, out, hout, swap, hswap,
    treasury, htreasury, feeDest, hfeeDest, htop, hrent, hpayer, hauthorized, hdelegation, revoked,
    hrevoked, _, hsettle, (), hmeasurable, (), hcomplete, tracker, ?_, (), ?_, vault, hcount, (),
    ?_, nonce, hnonce, (), hafter, rfl⟩
  · rw [← chargeSessionRecipient_recap]
    exact htracker
  · rw [← sessionFloorSum_recap]
    exact hfloor
  · unfold ensureAssertions at hasserted ⊢
    rw [← enforcePostExecutionAssertions_recap]
    exact hasserted

end Recap

section Runs

variable {D : Type} {l₀ l l' : Ledger D} {as : List (Action D)} {h : List Spend} {env : Env}
  {c : Call D} {a : VaultAccounts D} {p : Spend}

/-- What a spend at a given time is held against, with the spend itself, fits the cap as soon as
the booked spends of the last day and ten minutes do. -/
theorem RingHolds.checkDailyCap_ok (hr : RingHolds as h a.tracker)
    (hclock : Chronological (as ++ [.call env c])) (hpos : 0 < env.clock.unixTimestamp)
    {amount : UInt64} (hfits : total (fun q => env.clock.unixTimestamp - 87000 < q.time)
      (charges h) + amount.toNat ≤ a.policy.dailySpendingCapUsd.toNat) :
    a.tracker.checkDailyCap env.clock amount a.policy.dailySpendingCapUsd = .ok () := by
  have hfigure := hr.tracks.getRolling24hUsd_le hpos (hr.last.le hclock hpos)
  rw [total_chargeTimes] at hfigure
  exact checkCap_ok_iff.mpr (by omega)

variable [Host D] [DecidableEq D]

/-- The daily cap refuses no spend that fits it: after every run with a clock that does not go
back, a spend that the program would make under some other daily cap is made under the cap of the
vault, provided that it does not exceed that cap together with the spends booked in the last day
and ten minutes. -/
theorem daily_cap_refuses_only_overspending (h₀ : l₀.Genesis)
    (hrun : Run BookedStep (l₀, []) as (l, h)) (hclock : Chronological (as ++ [.call env c]))
    (ha : l.live = some a) (cap : UInt64) (hother : exec env (l.recap cap) c = .ok l')
    (hp : (l.recap cap).spendOf env c = some p)
    (hfits : total (fun q => env.clock.unixTimestamp - 87000 < q.time) (charges h) +
      p.amount.toNat ≤ a.policy.dailySpendingCapUsd.toNat) :
    ∃ l'', exec env l c = .ok l'' := by
  have hlive := l.live_recap cap ha
  have hpos : 0 < env.clock.unixTimestamp := by
    rcases exec_exists_after hother hlive with ⟨a', ha'⟩ | ⟨owner, remaining, rfl⟩
    · rcases exec_booked hother hlive ha' with ⟨q, -, hbooked⟩ | ⟨hnone, -⟩
      · obtain ⟨t, hrecord, -⟩ := hbooked.ring
        exact (SpendTracker.recordSpend_ok hrecord).1
      · cases hnone.symm.trans hp
    · cases hp
  have hdaily := (ringHolds_run h₀ hrun hclock.of_append a ha).checkDailyCap_ok hclock hpos hfits
  cases c with
  | agentTransfer args => exact agentTransfer_of_recap ha hother hp hdaily
  | finalizeSession args => exact finalizeSession_of_recap ha hother hp hdaily
  | _ => cases hp

end Runs

section Sample

/-- After the two spends of the sample vault another protocol takes 40. -/
def thirdSpend : List SampleEvent :=
  [.inr (meteredTokens 0, sampleOthers),
    .inl ((tradeWith (sampleKey 61) 1 50 3200).env 0, validateWith (sampleKey 61) 1),
    .inr (meteredTokens 40, sampleOthers)]

def spendingRun : List SampleEvent := meteredSetup ++ meteredSpends ++ thirdSpend

def spendingLedger : Ledger Preimage :=
  ((play spendingRun (emptyLedger, [])).toOption.map Prod.fst).getD emptyLedger

def closeThird : Action Preimage := .call ((tradeWith (sampleKey 61) 1 50 3200).env 2) closeTrade

theorem run_spending :
    Run BookedStep (emptyLedger, []) (spendingRun.map SampleEvent.action)
      (spendingLedger, meteredBook) := by
  have hbook : (play spendingRun (emptyLedger, [])).toOption.map Prod.snd = some meteredBook := by
    decide +kernel
  obtain ⟨l, hplayed⟩ := exists_played hbook
  have hl : spendingLedger = l := by
    rw [spendingLedger, hplayed]
    rfl
  exact hl ▸ run_play hplayed

theorem spendingLedger_ok :
    (exec ((tradeWith (sampleKey 61) 1 50 3200).env 2) (spendingLedger.recap 777)
      closeTrade).toOption.isSome = true ∧
    ((spendingLedger.recap 777).spendOf ((tradeWith (sampleKey 61) 1 50 3200).env 2)
      closeTrade).map Spend.amount = some 41 ∧
    spendingLedger.live.map (fun a => a.policy.dailySpendingCapUsd) = some 1000 ∧
    (spendingRun.map SampleEvent.action ++ [closeThird]).filterMap Action.time =
      ([1000, 1000, 1600, 2000, 2600, 2600, 3200, 3200] : List ℤ) := by
  decide +kernel

/-- With 91 booked in the last day, so it can under the cap of 1000 that the vault has. -/
theorem daily_cap_refuses_only_overspending_metered :
    total (fun q => 3200 - 87000 < q.time) (charges meteredBook) = 91 ∧
    ∃ l', exec ((tradeWith (sampleKey 61) 1 50 3200).env 2) spendingLedger closeTrade = .ok l' := by
  obtain ⟨hexec, hspend, hcap, htimes⟩ := spendingLedger_ok
  obtain ⟨p, hp, hamount⟩ := Option.map_eq_some_iff.mp hspend
  obtain ⟨a, ha, hcap⟩ := Option.map_eq_some_iff.mp hcap
  have hclock : Chronological (spendingRun.map SampleEvent.action ++ [closeThird]) := by
    rw [Chronological, htimes]
    decide
  obtain ⟨l', hother⟩ := Option.isSome_iff_exists.mp hexec
  refine ⟨by decide, daily_cap_refuses_only_overspending genesis_emptyLedger run_spending hclock ha
    777 (toOption_eq_some_iff.mp hother) hp ?_⟩
  rw [hamount, hcap]
  decide

end Sample

end Sigil
