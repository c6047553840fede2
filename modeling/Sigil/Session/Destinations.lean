import Sigil.Session.Held
import Sigil.Spending.Graylist

/-! # Where a session can send funds

The two ends of a session look up the instruction of the protocol in different ways: the opening
one scans forward, the closing one reads the instruction before its own. Both find the same one, so
each of its writable accounts is listed and checked at the one end and seen by the recipient cap at
the other.
-/

namespace Sigil

open Machine Guard TokenLedger Trace

section Recipients

variable {D : Type} [Host D] {env : Env} {l : Ledger D} {policy : PolicyConfig D}
  {remaining metas : List AccountMeta} {x : AccountMeta} {r : Pubkey}

/-- A writable account can take in stablecoin for an allowed recipient other than the vault. -/
def Ledger.PaysOut (l : Ledger D) (env : Env) (policy : PolicyConfig D) (x : AccountMeta)
    (r : Pubkey) : Prop :=
  x.isWritable = true ∧ ∃ view, readToken (l.accountInfo env x.pubkey) = some view ∧
    view.owner = r ∧ r ≠ l.vaultKey ∧ isStablecoinMint (Host.cluster D) view.mint = true ∧
    policy.isDestinationAllowed r = true

theorem recipientOf_eq_some : recipientOf env l policy remaining x = some r ↔
    remaining.any (fun y => y.pubkey = x.pubkey) = true ∧ l.PaysOut env policy x r := by
  unfold recipientOf Ledger.PaysOut Ledger.listedInfo
  by_cases hlisted : remaining.any (fun y => y.pubkey = x.pubkey) = true
  · rw [if_pos hlisted, Option.bind_some]
    cases readToken (l.accountInfo env x.pubkey) with
    | none => simp
    | some view =>
      simp only [hlisted, Option.ite_none_right_eq_some, Option.some.injEq, true_and]
      constructor
      · rintro ⟨hwritable, ⟨howner, hmint, hallowed⟩, rfl⟩
        exact ⟨hwritable, view, rfl, rfl, howner, hmint, hallowed⟩
      · rintro ⟨hwritable, _, rfl, rfl, howner, hmint, hallowed⟩
        exact ⟨hwritable, ⟨howner, hmint, hallowed⟩, rfl⟩
  · simp [hlisted]

theorem walkRecipients_ok {recipientOf : AccountMeta → Option Pubkey} {fuel : ℕ}
    {seen found : Option Pubkey} (h : walkRecipients recipientOf fuel seen metas = .ok found) :
    found = some r ↔ seen = some r ∨ ∃ x ∈ metas, recipientOf x = some r := by
  fun_induction walkRecipients recipientOf fuel seen metas with
  | case1 fuel seen =>
    cases h
    simp
  | case2 => exact absurd h fail_ne_ok
  | case3 seen fuel x metas hx ih => simp [ih h, hx]
  | case4 fuel x metas r₀ hx ih => simp [ih h, hx]
  | case5 fuel x metas r₀ hx ih => simp [ih h, hx]
  | case6 => exact absurd h fail_ne_ok

omit [Host D] in
theorem chargeRecipient_record {t t' : SpendTracker} {clock : Clock} {amount : UInt64}
    (hcap : 0 < policy.perRecipientDailyCapUsd)
    (h : chargeRecipient policy t clock r amount = .ok t') :
    t.recordRecipientSpend clock r amount = .ok t' := by
  rw [chargeRecipient, if_pos hcap] at h
  obtain ⟨⟨⟩, -, hrecord⟩ := seq_ok_iff.mp h
  exact hrecord

/-- The spend was counted for the one recipient among the accounts of an instruction. -/
structure RecipientCharged (env : Env) (l : Ledger D) (policy : PolicyConfig D)
    (metas : List AccountMeta) (spend : UInt64) (t t' : SpendTracker) : Prop where
  charged : ∀ x ∈ metas, x.pubkey ≠ l.vaultKey → ∀ r, l.PaysOut env policy x r →
    t.recordRecipientSpend env.clock r spend = .ok t'
  unique : ∀ x ∈ metas, ∀ y ∈ metas, x.pubkey ≠ l.vaultKey → y.pubkey ≠ l.vaultKey →
    ∀ r r', l.PaysOut env policy x r → l.PaysOut env policy y r' → r = r'
  within : t' = t ∨ ∃ x ∈ metas, ∃ r, l.PaysOut env policy x r ∧
    t.recordRecipientSpend env.clock r spend = .ok t'

theorem chargeSessionRecipient_charged {t t' : SpendTracker} {spend : UInt64} {ix : Instruction}
    (hix : precedingInstruction env = some ix) (hcap : 0 < policy.perRecipientDailyCapUsd)
    (hspend : 0 < spend)
    (hlisted : ∀ x ∈ ix.accounts, x.isWritable = true → x.pubkey ≠ l.vaultKey →
      remaining.any (fun y => y.pubkey = x.pubkey) = true)
    (h : chargeSessionRecipient env l policy t remaining spend = .ok t') :
    RecipientCharged env l policy ix.accounts spend t t' := by
  simp only [chargeSessionRecipient, hcap, hspend, and_self, if_true, seq_ok_iff, ensure_ok_iff,
    someOr_ok_iff, exists_and_left, exists_const, hix, Option.some.injEq] at h
  obtain ⟨-, _, rfl, found, hwalk, hcharge⟩ := h
  have hfound : ∀ x ∈ ix.accounts, x.pubkey ≠ l.vaultKey → ∀ r, l.PaysOut env policy x r →
      found = some r := by
    intro x hx hkey r hpays
    have hrecipient := recipientOf_eq_some.mpr ⟨hlisted x hx hpays.1 hkey, hpays⟩
    exact (walkRecipients_ok hwalk).mpr (.inr ⟨x, hx, hrecipient⟩)
  refine ⟨?_, ?_, ?_⟩
  · intro x hx hkey r hpays
    rw [hfound x hx hkey r hpays] at hcharge
    exact chargeRecipient_record hcap hcharge
  · intro x hx y hy hxkey hykey r r' hr hr'
    exact Option.some.inj ((hfound x hx hxkey r hr).symm.trans (hfound y hy hykey r' hr'))
  · cases found with
    | none => exact .inl (Except.ok.inj hcharge).symm
    | some r =>
      rcases (walkRecipients_ok hwalk).mp rfl with hnone | ⟨x, hx, hrecipient⟩
      · cases hnone
      · exact .inr ⟨x, hx, r, (recipientOf_eq_some.mp hrecipient).2,
          chargeRecipient_record hcap hcharge⟩

theorem recordProtocolSpend_ok {t t' : SpendTracker} {clock : Clock} {protocol : Pubkey}
    {amount : UInt64} (h : t.recordProtocolSpend clock protocol amount = .ok t') :
    ∃ counters, t' = { t with protocolCounters := counters } := by
  simp only [SpendTracker.recordProtocolSpend, ensure_seq_ok_iff] at h
  obtain ⟨-, h⟩ := h
  split at h
  · split at h
    · exact ⟨_, (pure_ok_iff.mp h).symm⟩
    · simp only [someOr_seq_ok_iff, pure_ok_iff] at h
      obtain ⟨spend, -, rfl⟩ := h
      exact ⟨_, rfl⟩
  · split at h
    · exact ⟨_, (pure_ok_iff.mp h).symm⟩
    · exact absurd h fail_ne_ok

def SpendTracker.SameRecipients (t t' : SpendTracker) : Prop :=
  t'.perRecipient = t.perRecipient ∧ t'.perRecipientCount = t.perRecipientCount

omit [Host D] in
theorem sameRecipients_chargeSession {a a' : VaultAccounts D} {s : SessionAuthority} {clock : Clock}
    {usdAmount : UInt64} (h : a.chargeSession clock s usdAmount = .ok a') :
    a.tracker.SameRecipients a'.tracker := by
  obtain ⟨entry, overlay, recorded, tracker, -, -, -, -, -, hrecorded, htracker, rfl⟩ :=
    chargeSession_ok h
  obtain ⟨-, total, -, rfl⟩ := SpendTracker.recordSpend_ok hrecorded
  unfold recordForProtocol at htracker
  split at htracker
  · obtain ⟨counters, rfl⟩ := recordProtocolSpend_ok htracker
    exact ⟨rfl, rfl⟩
  · cases htracker
    exact ⟨rfl, rfl⟩

end Recipients

section Measure

variable {D : Type} [Host D]

def balanceAt (tokens : Accounts Pubkey) (key : Pubkey) : ℕ :=
  (tokens key).elim 0 fun t => t.amount.toNat

variable (D) in
/-- What a session has spent by the time it is closed, without the fees: what is missing from its
stablecoin account, or the stablecoin that came in. -/
def measuredSpend (s : SessionAuthority) (tokens : Accounts Pubkey) : ℕ :=
  if isStablecoinMint (Host.cluster D) s.authorizedToken then
    s.stablecoinBalanceBefore.toNat - balanceAt tokens s.delegationTokenAccount
  else balanceAt tokens s.outputStablecoinAccount - s.stablecoinBalanceBefore.toNat

variable {env : Env} {fargs : FinalizeSessionArgs} {l l' : Ledger D} {a : VaultAccounts D}
  {s : SessionAuthority} {revoked : Accounts Pubkey} {outcome : Outcome D} {vault : AgentVault}
  {tracker : SpendTracker} {clock : Clock}
  {treasury feeDest : Option (Pubkey × TokenAccount Pubkey)}

theorem settle_spend (h : settle clock l a s fargs treasury feeDest = .ok outcome)
    (hmeasured : s.isMeasured clock.unixTimestamp = true)
    (hsource : fargs.vaultTokenAccount = some s.delegationTokenAccount) :
    outcome.spend.toNat = measuredSpend D s l.tokens := by
  rw [settle, if_pos hmeasured] at h
  unfold measuredSpend
  split at h
  · rename_i hstable
    rw [if_pos hstable]
    simp only [settleStablecoin, measuredAccount, seq_ok_iff, someOr_ok_iff, ensure_ok_iff,
      pure_ok_iff, exists_and_left, exists_const, hsource, Option.some.injEq] at h
    obtain ⟨_, rfl, _, ⟨t, ht, -, -, rfl⟩, -, h⟩ := h
    have hspend : outcome.spend = saturatingSub s.stablecoinBalanceBefore t.amount := by
      split at h
      · simp only [settleSpend, seq_ok_iff, pure_ok_iff] at h
        obtain ⟨-, -, fees, -, charged, -, -, -, -, -, rfl⟩ := h
        rfl
      · obtain rfl := pure_ok_iff.mp h
        rfl
    rw [hspend, saturatingSub_toNat, balanceAt, ht]
    rfl
  · rename_i hstable
    rw [if_neg hstable]
    simp only [settleInflow, measuredAccount, seq_ok_iff, someOr_ok_iff, ensure_ok_iff, pure_ok_iff,
      exists_and_left, exists_const, checkedSub_eq_some] at h
    obtain ⟨_, -, rfl, _, ⟨t, ht, -, -, rfl⟩, -, delta, hdelta, charged, -, rfl⟩ := h
    rw [balanceAt, ht]
    change delta.toNat = t.amount.toNat - s.stablecoinBalanceBefore.toNat
    omega

theorem sameRecipients_settle (h : settle clock l a s fargs treasury feeDest = .ok outcome) :
    a.tracker.SameRecipients outcome.accounts.tracker := by
  rcases settle_charges h with hsame | ⟨amount, hcharged⟩
  · rw [hsame]
    exact ⟨rfl, rfl⟩
  · exact sameRecipients_chargeSession hcharged

omit [Host D] in
theorem balanceAt_revoked (h : revokeDelegation l s = .ok revoked) (key : Pubkey) :
    balanceAt revoked key = balanceAt l.tokens key := by
  unfold revokeDelegation at h
  split at h
  · rw [viaToken_ok_iff] at h
    obtain ⟨t, ht, -, rfl⟩ := setDelegate_ok h
    unfold balanceAt
    rcases eq_or_ne key s.delegationTokenAccount with rfl | hne
    · rw [Function.update_self, ht]
      rfl
    · rw [Function.update_of_ne hne]
  · cases h
    rfl

theorem SessionClosed.spend_eq (h : SessionClosed env fargs l l' a s revoked outcome vault tracker)
    (hmeasured : s.isMeasured env.clock.unixTimestamp = true) (hdelegated : s.delegated = true) :
    outcome.spend.toNat = measuredSpend D s l.tokens := by
  obtain ⟨treasury, feeDest, -, -, hsettled⟩ := h.settled
  rw [settle_spend hsettled hmeasured (h.delegation hdelegated)]
  simp only [measuredSpend, balanceAt_revoked h.revocation]

end Measure

section Trades

variable {D : Type} [Host D] [DecidableEq D]

/-- A session that spends, closed by the first instruction behind its opening that names it. -/
structure Transaction.Trades (tx : Transaction) (i k : ℕ) (args : ValidateAndAuthorizeArgs D)
    (fargs : FinalizeSessionArgs) (l m n l' : Ledger D) : Prop extends
    tx.Holds i k args fargs l m n l' where
  amount : 0 < args.amount
  first : ∀ j ix, i < j → j < k → tx.instructions[j]? = some ix → ¬ Closes fargs.session ix

variable {tx : Transaction} {i k : ℕ} {args : ValidateAndAuthorizeArgs D}
  {fargs : FinalizeSessionArgs} {l m n l' : Ledger D} {a a' b : VaultAccounts D}
  {s : SessionAuthority}

theorem Transaction.Holds.lt (h : tx.Holds i k args fargs l m n l') : i < k := by
  obtain ⟨ix, hix, hopens⟩ := h.opening
  obtain ⟨iy, hiy, hcloses⟩ := h.closing
  obtain ⟨a, vaultToken, pins, snapshots, tokens, hopened⟩ := validateAndAuthorize_ok h.opens
  rcases lt_trichotomy i k with hlt | rfl | hgt
  · exact hlt
  · cases hix.symm.trans hiy
    have hsame := hopens.discriminator.symm.trans hcloses.discriminator
    exact absurd hsame
      (show validateAndAuthorizeDiscriminator ≠ finalizeSessionDiscriminator by decide)
  · have hinfra := preScan_ok hopened.before k hgt iy hiy
    cases hinfra.symm.trans (not_infrastructure_of_encodes hcloses)

/-- The instruction that the opening scan checks is the one before the closing instruction. -/
theorem Transaction.Trades.scanned (h : tx.Trades i k args fargs l m n l')
    (ha : l.live = some a) :
    ∃ defi, tx.instructions[k - 1]? = some defi ∧ i < k - 1 ∧
      (∀ j ix, i < j → j < k - 1 → tx.instructions[j]? = some ix → isInfrastructure ix = true) ∧
      MaySpend a.policy args.targetProtocol defi ∧
      enforceDestinationAllowlist (tx.env i) (l.withBlankSession args) a.policy args.remaining
        defi.accounts = .ok () := by
  have hlt := h.toHolds.lt
  obtain ⟨iy, hiy, hcloses⟩ := h.closing
  obtain ⟨_, vaultToken, pins, snapshots, tokens, hopened⟩ := validateAndAuthorize_ok h.opens
  cases ha.symm.trans hopened.live
  have hscan := hopened.scan
  have hspending : args.isSpending = true := decide_eq_true h.amount
  rw [hspending] at hscan
  obtain ⟨between, defi, closing, post, hfollowing, hbetween, hdefi, hchecked, hclosing⟩ :=
    sandwichScan_grammar hscan
  obtain ⟨hat, hdefiAt, hclosingAt⟩ := tx.positions_following hfollowing
  have hbetweenAt : ∀ p < between.length, ∀ ix, tx.instructions[i + 1 + p]? = some ix →
      isInfrastructure ix = true := by
    intro p hp ix hix
    rw [hat p hp] at hix
    exact hbetween ix (List.mem_of_getElem? hix)
  -- `k` is not behind the instruction that the scan stopped at, and nothing before it closes
  have hk : k = i + 1 + (between.length + 1) := by
    have hle : k ≤ i + 1 + (between.length + 1) := by
      by_contra hgt
      refine h.first _ closing (by omega) (by omega) hclosingAt ?_
      rwa [h.session]
    obtain ⟨p, rfl⟩ := Nat.exists_eq_add_of_le hlt
    rcases Nat.lt_trichotomy p between.length with hp | rfl | hp
    · have hinfra := hbetweenAt p hp iy hiy
      cases hinfra.symm.trans (not_infrastructure_of_encodes hcloses)
    · obtain rfl := Option.some.inj (hdefiAt.symm.trans hiy)
      have hfinalize : hasDiscriminator finalizeSessionDiscriminator defi = true :=
        decide_eq_true ⟨hcloses.program, hcloses.discriminator⟩
      cases hfinalize.symm.trans hdefi.notClosing
    · omega
  have hbefore : k - 1 = i + 1 + between.length := by omega
  rw [hbefore]
  refine ⟨defi, hdefiAt, by omega, ?_, hdefi, hchecked⟩
  intro j ix hj hjk hix
  obtain ⟨p, rfl⟩ := Nat.exists_eq_add_of_le hj
  exact hbetweenAt p (by omega) ix hix

omit [DecidableEq D] in
theorem outputMint_ne_default {policy : PolicyConfig D} {vaultKey : Pubkey}
    {vaultToken : TokenAccount Pubkey}
    {outputStablecoin outputSwap : Option (Pubkey × TokenAccount Pubkey)} {pins : OutputPins}
    (h : pinOutputs vaultKey policy args vaultToken outputStablecoin outputSwap = .ok pins)
    (hamount : 0 < args.amount) : pins.outputMint ≠ Pubkey.default := by
  by_cases hstable : isStablecoinMint (Host.cluster D) args.tokenMint = true
  · rw [(pinOutputs_ok h hamount hstable).1]
    exact stablecoin_ne_default hstable
  · have hspending : args.isSpending = true := decide_eq_true hamount
    rw [pinOutputs, if_pos hspending, if_neg hstable] at h
    simp only [pinStablecoinAccount, seq_ok_iff, someOr_ok_iff, ensure_ok_iff, exists_and_left,
      exists_const, pure_ok_iff] at h
    obtain ⟨⟨key, t⟩, -, -, hmint, rfl⟩ := h
    exact stablecoin_ne_default hmint

/-- What the end of a session that spends found: a measured spend, with all accounts of the
instruction before listed and its recipient charged. -/
theorem Transaction.Trades.measured (h : tx.Trades i k args fargs l m n l')
    (hs : m.sessions fargs.session = some s) (ha' : n.live = some a') (hb : l'.live = some b)
    {defi : Instruction} (hdefi : tx.instructions[k - 1]? = some defi)
    (hspend : 0 < measuredSpend D s n.tokens) :
    (∀ x ∈ defi.accounts, x.isWritable = true → x.pubkey ≠ n.vaultKey →
      fargs.remaining.any (fun y => y.pubkey = x.pubkey) = true) ∧
    (0 < a'.policy.perRecipientDailyCapUsd → ∃ (t : SpendTracker) (spend : UInt64),
      a'.tracker.SameRecipients t ∧ spend.toNat = measuredSpend D s n.tokens ∧
      RecipientCharged (tx.env k) { n with tokens := l'.tokens } a'.policy defi.accounts spend t
        b.tracker) := by
  have hlt := h.toHolds.lt
  obtain ⟨a, vaultToken, pins, snapshots, tokens, b', revoked, outcome, vault, tracker, ho, hc⟩ :=
    h.toHolds.ends
  obtain rfl := Option.some.inj (hc.live.symm.trans ha')
  obtain rfl : newSession tx.clock l.vaultKey a.policy args pins snapshots = s :=
    Option.some.inj (hc.session.symm.trans (h.toHolds.session_kept.trans hs))
  obtain ⟨outputStablecoin, outputSwap, hpins⟩ := ho.pinned
  have hmeasured : (newSession tx.clock l.vaultKey a.policy args pins snapshots).isMeasured
      (tx.env k).clock.unixTimestamp = true :=
    decide_eq_true ⟨not_isExpired_newSession _ _ _ _ _ _, outputMint_ne_default hpins h.amount⟩
  have hamount := hc.spend_eq hmeasured (decide_eq_true h.amount)
  have hpos : 0 < outcome.spend := by
    rw [UInt64.lt_iff_toNat_lt, hamount]
    exact hspend
  have hbefore : precedingInstruction (tx.env k) = some defi := by
    have hfrom : 1 ≤ (tx.env k).currentIndex := Nat.one_le_of_lt hlt
    rw [precedingInstruction, if_pos hfrom]
    exact hdefi
  have hcomplete := hc.complete
  simp only [enforceFinalizeCompleteness, hmeasured, hpos, and_self, if_true, seq_ok_iff,
    ensure_ok_iff, someOr_ok_iff, exists_and_left, exists_const, hbefore, Option.some.injEq]
    at hcomplete
  obtain ⟨-, _, rfl, ⟨⟩, -, hlisted⟩ := hcomplete
  refine ⟨hlisted, fun hcap => ⟨outcome.accounts.tracker, outcome.spend, ?_, hamount, ?_⟩⟩
  · obtain ⟨treasury, feeDest, -, -, hsettled⟩ := hc.settled
    exact sameRecipients_settle hsettled
  · have htokens : l'.tokens = outcome.tokens := by rw [hc.result]
    have htracker : b.tracker = tracker := by
      rw [hc.result] at hb
      exact congrArg VaultAccounts.tracker (Option.some.inj hb).symm
    rw [htokens, htracker]
    exact chargeSessionRecipient_charged hbefore hcap hpos hlisted hc.recipient

/-- Every writable account but the vault's of the instruction that a session spends by is listed and
checked when the session is opened and listed when it is closed with a spend, whatever accounts the
agent lists, and with a cap on recipients the spend counts for the one allowed recipient among
them. -/
theorem destinations_complete (h : tx.Trades i k args fargs l m n l')
    (hs : m.sessions fargs.session = some s) (ha : l.live = some a) (ha' : n.live = some a')
    (hb : l'.live = some b) :
    ∃ defi, tx.instructions[k - 1]? = some defi ∧ i < k - 1 ∧
      (∀ j ix, i < j → j < k - 1 → tx.instructions[j]? = some ix → isInfrastructure ix = true) ∧
      MaySpend a.policy args.targetProtocol defi ∧
      (∀ x ∈ defi.accounts, x.isWritable = true → x.pubkey ≠ l.vaultKey →
        DestinationChecked (tx.env i) (l.withBlankSession args) a.policy args.remaining x.pubkey ∧
        (0 < measuredSpend D s n.tokens →
          fargs.remaining.any (fun y => y.pubkey = x.pubkey) = true)) ∧
      (0 < a'.policy.perRecipientDailyCapUsd → 0 < measuredSpend D s n.tokens →
        ∃ (t : SpendTracker) (spend : UInt64), a'.tracker.SameRecipients t ∧
          spend.toNat = measuredSpend D s n.tokens ∧
          RecipientCharged (tx.env k) { n with tokens := l'.tokens } a'.policy defi.accounts spend t
            b.tracker) := by
  obtain ⟨defi, hdefi, hbehind, hbetween, hmay, hchecked⟩ := h.scanned ha
  have hmeasured := h.measured hs ha' hb hdefi
  refine ⟨defi, hdefi, hbehind, hbetween, hmay, ?_, fun hcap hspend => (hmeasured hspend).2 hcap⟩
  intro x hx hwritable hkey
  refine ⟨enforceDestinationAllowlist_ok hchecked hx hwritable hkey, fun hspend => ?_⟩
  refine (hmeasured hspend).1 x hx hwritable ?_
  rwa [h.toHolds.vaultKey_sessions.1]

end Trades

section Sample

theorem not_closes_swap (session : Pubkey) : ¬ Closes session ⟨sampleKey 2, sampleMetas, []⟩ :=
  fun h => absurd (of_decide_eq_true h.1).1 (by decide)

theorem trades_sample :
    (sampleTransaction tradingLedger.vaultKey).Trades 0 2 (sampleValidate tradingLedger.vaultKey)
      (sampleFinalize tradingLedger.vaultKey) tradingLedger openedLedger swapLedger
      closedLedgerOfSample where
  opening := ⟨_, rfl, encodes_sampleValidate _⟩
  opens := exec_openedLedger
  between := run_sampleSwap
  closing := ⟨_, rfl, vaultKey_swapLedger ▸ encodes_sampleFinalize _⟩
  closes := exec_closedLedgerOfSample
  session := rfl
  amount := show (0 : UInt64) < 50 by decide
  first := by
    intro j ix hj hk hix
    obtain rfl : j = 1 := by omega
    cases hix
    exact not_closes_swap _

theorem destinations_complete_swap :
    ∃ defi, (sampleTransaction tradingLedger.vaultKey).instructions[1]? = some defi ∧
      ∀ x ∈ defi.accounts, x.isWritable = true → x.pubkey ≠ tradingLedger.vaultKey →
        (sampleValidate tradingLedger.vaultKey).remaining.any
          (fun y => y.pubkey = x.pubkey) = true ∧
        (sampleFinalize tradingLedger.vaultKey).remaining.any (fun y => y.pubkey = x.pubkey) =
          true := by
  obtain ⟨hsession, htrading, hswapped, hclosed⟩ :
      (openedLedger.sessions (sampleFinalize tradingLedger.vaultKey).session).any
        (fun s => 0 < measuredSpend Preimage s swapLedger.tokens) = true ∧
      tradingLedger.live.isSome = true ∧ swapLedger.live.isSome = true ∧
      closedLedgerOfSample.live.isSome = true := by
    decide +kernel
  obtain ⟨s, hs, hspend⟩ := (Option.any_eq_true _ _).mp hsession
  obtain ⟨a, ha⟩ := Option.isSome_iff_exists.mp htrading
  obtain ⟨a', ha'⟩ := Option.isSome_iff_exists.mp hswapped
  obtain ⟨b, hb⟩ := Option.isSome_iff_exists.mp hclosed
  obtain ⟨defi, hdefi, -, -, -, hall, -⟩ := destinations_complete trades_sample hs ha ha' hb
  refine ⟨defi, hdefi, fun x hx hwritable hkey => ?_⟩
  obtain ⟨hchecked, hlisted⟩ := hall x hx hwritable hkey
  exact ⟨hchecked.listed, hlisted (of_decide_eq_true hspend)⟩

/-- The trade of a vault that has just been put on its own allowlist. -/
def laterOpened (vault : Pubkey) : Ledger Preimage :=
  after ((laterTransaction vault).env 0) (fundedLedger vault)
    (.validateAndAuthorize (laterValidate vault))

def laterSwapped (vault : Pubkey) : Ledger Preimage :=
  { laterOpened vault with tokens := sampleTokens vault 40 }

def laterClosed (vault : Pubkey) : Ledger Preimage :=
  after ((laterTransaction vault).env 2) (laterSwapped vault)
    (.finalizeSession (sampleFinalize vault))

theorem runs_later :
    (fundedLedger operatedLedger.vaultKey).vaultKey = operatedLedger.vaultKey ∧
    (exec ((laterTransaction operatedLedger.vaultKey).env 0) (fundedLedger operatedLedger.vaultKey)
      (.validateAndAuthorize (laterValidate operatedLedger.vaultKey))).isOk = true ∧
    (laterSwapped operatedLedger.vaultKey).vaultKey = operatedLedger.vaultKey ∧
    (exec ((laterTransaction operatedLedger.vaultKey).env 2) (laterSwapped operatedLedger.vaultKey)
      (.finalizeSession (sampleFinalize operatedLedger.vaultKey))).isOk = true ∧
    (sampleFinalize operatedLedger.vaultKey).session = sessionAddress Preimage
      (fundedLedger operatedLedger.vaultKey).vaultKey (laterValidate operatedLedger.vaultKey).agent
      (laterValidate operatedLedger.vaultKey).tokenMint := by
  decide +kernel

theorem trades_later : (laterTransaction operatedLedger.vaultKey).Trades 0 2
    (laterValidate operatedLedger.vaultKey) (sampleFinalize operatedLedger.vaultKey)
    (fundedLedger operatedLedger.vaultKey) (laterOpened operatedLedger.vaultKey)
    (laterSwapped operatedLedger.vaultKey) (laterClosed operatedLedger.vaultKey) where
  opening := by
    obtain ⟨hprogram, hdiscriminator, haccounts⟩ := encodes_sampleValidate operatedLedger.vaultKey
    rw [runs_later.1]
    exact ⟨_, rfl, hprogram, hdiscriminator, haccounts⟩
  opens := exec_after runs_later.2.1
  between := by
    refine .single ⟨⟨sampleKey 2, sampleMetas, []⟩, rfl, .foreign ?_ _ _⟩
    exact fun hprogram => absurd hprogram (by decide)
  closing := by
    rw [runs_later.2.2.1]
    exact ⟨_, rfl, encodes_sampleFinalize _⟩
  closes := exec_after runs_later.2.2.2.1
  session := runs_later.2.2.2.2
  amount := show (0 : UInt64) < 50 by decide
  first := by
    intro j ix hj hk hix
    obtain rfl : j = 1 := by omega
    cases hix
    exact not_closes_swap _

/-- A session goes through with a writable token account whose owner is allowed and within its
window, when that owner is the vault. -/
theorem own_account_within_window :
    let vault := operatedLedger.vaultKey
    (∃ as, Run Step emptyLedger as (fundedLedger vault)) ∧
      (laterTransaction vault).Trades 0 2 (laterValidate vault) (sampleFinalize vault)
        (fundedLedger vault) (laterOpened vault) (laterSwapped vault) (laterClosed vault) ∧
      ∃ a defi, (fundedLedger vault).live = some a ∧
        (laterTransaction vault).instructions[1]? = some defi ∧
        ∃ x ∈ defi.accounts, x.isWritable = true ∧ x.pubkey ≠ vault ∧
          ∃ view, readToken (((fundedLedger vault).withBlankSession
              (laterValidate vault)).accountInfo ((laterTransaction vault).env 0) x.pubkey) =
              some view ∧
            a.policy.isDestinationAllowed view.owner = true ∧
            a.policy.isDestinationGraylisted view.owner
              (laterTransaction vault).clock.unixTimestamp = true := by
  intro vault
  obtain ⟨hqueues, happlies, hgray, hview, hother⟩ :
      (exec (sampleEnv 1700 21) operatedLedger
        (sampleQueue operatedLedger (allowAlso vault) Pubkey.default)).isOk = true ∧
      (exec (sampleEnv 3500 110) (invitingLedger vault)
        (.applyPendingPolicy (sampleKey 1))).isOk = true ∧
      (fundedLedger vault).live.any (fun a => a.policy.isDestinationAllowed vault = true ∧
        a.policy.isDestinationGraylisted vault
          (laterTransaction vault).clock.unixTimestamp = true) = true ∧
      (readToken (((fundedLedger vault).withBlankSession (laterValidate vault)).accountInfo
        ((laterTransaction vault).env 0) (sampleKey 20))).map TokenView.owner = some vault ∧
      sampleKey 20 ≠ vault := by
    decide +kernel
  obtain ⟨as, hinviting⟩ := run_invitingLedger vault hqueues
  have hinvited : Step (invitingLedger vault) _ (invitedLedger vault) := .after happlies
  obtain ⟨a, ha, hpolicy⟩ := (Option.any_eq_true _ _).mp hgray
  obtain ⟨view, hread, howner⟩ := Option.map_eq_some_iff.mp hview
  refine ⟨⟨_, (hinviting.snoc hinvited).snoc (.foreign _ _ _)⟩, trades_later, a,
    ⟨sampleKey 2, sampleMetas, []⟩, ha, rfl, ⟨sampleKey 20, false, true⟩, List.mem_cons_self, rfl,
    hother, view, hread, ?_⟩
  rw [howner]
  exact of_decide_eq_true hpolicy

end Sample

end Sigil
