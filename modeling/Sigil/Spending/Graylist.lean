import Sigil.Cosign.PendingUpdate
import Sigil.Session.Outflow
import Sigil.System.PolicyOrigin

/-! # The friction of new destinations

A destination that an update adds to the allowlist is graylisted for a day. While it stays allowed
and is not promoted, no agent reaches a token account of it, by a transfer or by the instruction of
a session. One destination is outside of this: the vault itself can be put on its own allowlist,
and the check of a session passes over the accounts it owns.
-/

namespace Sigil

open Guard Trace

section Graylist

variable {D : Type}

def Ledger.Allows (l : Ledger D) (destination : Pubkey) : Prop :=
  ∃ a, l.live = some a ∧ destination ∈ a.policy.allowedDestinations

def Action.Promotes (destination : Pubkey) : Action D → Prop
  | .call _ (.promoteGraylistDestination _ _ promoted) => promoted = destination
  | _ => False

/-- No destination has two entries on the graylist. -/
def PolicyConfig.SingleEntries (p : PolicyConfig D) : Prop :=
  (p.destinationGraylist.map DestinationGraylistEntry.destination).Nodup

def Ledger.Waits (l : Ledger D) (destination : Pubkey) (unlockUnix : ℤ) : Prop :=
  ∃ a, l.live = some a ∧ unlockOf a.policy.destinationGraylist destination = some unlockUnix

variable [Host D] [DecidableEq D] {env : Env} {c : Call D} {l l' m n : Ledger D}
  {owner destination : Pubkey} {unlockUnix : ℤ}

/-- A run in which a destination stays on the allowlist and is not promoted. -/
def StaysGray (destination : Pubkey) : Ledger D → List (Action D) → Ledger D → Prop :=
  Run fun l x l' => Step l x l' ∧ l'.Allows destination ∧ ¬ x.Promotes destination

/-- An update adds a destination, and new destinations are not promoted automatically. -/
structure Adds (env : Env) (owner destination : Pubkey) (l l' : Ledger D) : Prop where
  applied : exec env l (.applyPendingPolicy owner) = .ok l'
  manual : ∀ a ∈ l.live, a.policy.autoPromoteGrays = false
  new : ¬ l.Allows destination
  allowed : l'.Allows destination

theorem exec_singleEntries (h : exec env l c = .ok l')
    (hl : ∀ a ∈ l.live, a.policy.SingleEntries) : ∀ a' ∈ l'.live, a'.policy.SingleEntries := by
  intro a' ha'
  by_cases hwrites : Part.graylist ∉ c.writes
  · obtain ⟨a, ha, hsame⟩ := (exec_frame h hwrites).exists_before ha'
    have hsingle := hl a ha
    rwa [PolicyConfig.SingleEntries, ← hsame] at hsingle
  rw [not_not] at hwrites
  cases c <;> simp [Call.writes, Part.ofVault] at hwrites
  case initializeVault =>
    obtain ⟨-, -, -, -, -, -, rfl⟩ := initializeVault_ok h
    cases ha'
    exact List.nodup_nil
  case closeVault =>
    obtain ⟨a, -, -, -, -, -, rfl⟩ := closeVault_ok h
    cases ha'
  case applyPendingPolicy =>
    obtain ⟨a, pending, merged, _, version, ha, -, -, -, -, hmerged, -, -, rfl, -, rfl⟩ :=
      applyPendingPolicy_ok h
    cases ha'
    obtain ⟨graylist, hgraylist, rfl, -⟩ := applyUpdate_ok hmerged
    exact (unlockOf_graylistNewDestinations hgraylist).2.2 (hl a ha)
  case promoteGraylistDestination =>
    obtain ⟨a, graylist, ha, -, -, hat, rfl⟩ := promoteGraylistDestination_ok h
    cases ha'
    exact hat.single (hl a ha)

theorem exec_restricted (h : exec env l c = .ok l')
    (hl : ∀ a ∈ l.live, a.policy.destinationMode = destinationModeRestricted) :
    ∀ a' ∈ l'.live, a'.policy.destinationMode = destinationModeRestricted := by
  intro a' ha'
  cases exec_policyOrigin h ha' with
  | @kept _ a ha hcore =>
    change a'.policy.core.destinationMode = destinationModeRestricted
    rw [hcore]
    exact hl a ha
  | created _ _ _ ha' =>
    rw [ha']
    rfl
  | @applied _ a _ merged ha _ _ hmerged hcore =>
    change a'.policy.core.destinationMode = destinationModeRestricted
    rw [hcore]
    change merged.destinationMode = destinationModeRestricted
    exact applyUpdate_destinationMode hmerged (hl a ha)
  | @handedOver newOwner a _ ha ha' =>
    rw [ha']
    change (a.policy.collapseCosigner newOwner).destinationMode = destinationModeRestricted
    unfold PolicyConfig.collapseCosigner
    split <;> exact hl a ha

theorem exec_waits (h : exec env l c = .ok l') (hl : l.Allows destination)
    (hl' : l'.Allows destination) (hpromotes : ¬ (Action.call env c).Promotes destination)
    (hwaits : l.Waits destination unlockUnix) : l'.Waits destination unlockUnix := by
  obtain ⟨a, ha, hallowed⟩ := hl
  obtain ⟨_, hb, hunlock⟩ := hwaits
  cases ha.symm.trans hb
  by_cases hwrites : Part.graylist ∉ c.writes
  · obtain ⟨a', ha', hsame⟩ := (exec_frame h hwrites).exists_after ha
    exact ⟨a', ha', (congrArg (unlockOf · destination) hsame).trans hunlock⟩
  rw [not_not] at hwrites
  cases c <;> simp [Call.writes, Part.ofVault] at hwrites
  case initializeVault =>
    obtain ⟨hnone, -⟩ := initializeVault_ok h
    cases hnone.symm.trans ha
  case closeVault =>
    obtain ⟨_, -, -, -, -, -, rfl⟩ := closeVault_ok h
    obtain ⟨a', ha', -⟩ := hl'
    cases ha'
  case applyPendingPolicy =>
    obtain ⟨_, pending, merged, _, version, hc, -, -, -, -, hmerged, -, -, rfl, -, rfl⟩ :=
      applyPendingPolicy_ok h
    cases ha.symm.trans hc
    obtain ⟨graylist, hgraylist, rfl, -⟩ := applyUpdate_ok hmerged
    have hkept := (unlockOf_graylistNewDestinations hgraylist).1 destination hallowed
    exact ⟨_, rfl, hkept.trans hunlock⟩
  case promoteGraylistDestination =>
    obtain ⟨_, graylist, hc, -, -, hat, rfl⟩ := promoteGraylistDestination_ok h
    cases ha.symm.trans hc
    have hother := hat.others destination fun hsame => hpromotes hsame.symm
    exact ⟨_, rfl, hother.trans hunlock⟩

theorem StaysGray.waits {as : List (Action D)} (h : StaysGray destination m as n)
    (hm : m.Allows destination) (hwaits : m.Waits destination unlockUnix) :
    n.Allows destination ∧ n.Waits destination unlockUnix := by
  refine Run.invariant (P := fun k => k.Allows destination ∧ k.Waits destination unlockUnix) h ?_
    ⟨hm, hwaits⟩
  rintro k x k' ⟨hk, hkwaits⟩ ⟨hstep, hk', hpromotes⟩
  cases hstep with
  | call hexec => exact ⟨hk', exec_waits hexec hk hk' hpromotes hkwaits⟩
  | foreign => exact ⟨hk', hkwaits⟩

theorem StaysGray.run {as : List (Action D)} (h : StaysGray destination m as n) :
    Run Step m as n :=
  Run.mono h fun _ _ _ hstep => hstep.1

/-- A new destination waits for the whole window, also one that was on the allowlist before. -/
theorem Adds.waits (h : Adds env owner destination l l') :
    l'.Waits destination (env.clock.unixTimestamp + graylistFrictionSeconds) := by
  obtain ⟨a, pending, merged, _, version, ha, -, -, -, -, hmerged, -, -, rfl, -, rfl⟩ :=
    applyPendingPolicy_ok h.applied
  obtain ⟨graylist, hgraylist, rfl, -⟩ := applyUpdate_ok hmerged
  obtain ⟨_, hb, hallowed⟩ := h.allowed
  cases hb
  have hnew : destination ∉ a.policy.allowedDestinations := fun hold => h.new ⟨a, ha, hold⟩
  refine ⟨_, rfl, ?_⟩
  change destination ∈ pending.update.allowedDestinations.getD a.policy.allowedDestinations
    at hallowed
  cases hupdate : pending.update.allowedDestinations with
  | none =>
    rw [hupdate] at hallowed
    exact absurd hallowed hnew
  | some new =>
    rw [hupdate] at hallowed
    exact (unlockOf_graylistNewDestinations hgraylist).2.1 new hupdate destination hallowed hnew
      (h.manual a ha)

end Graylist

section Friction

variable {D : Type} [Host D]

/-- At the address stands a token account of either token program with the given owner. An address
of the vault's own accounts holds no other account. -/
def Ledger.TokenAccountOf (env : Env) (l : Ledger D) (owner key : Pubkey) : Prop :=
  l.ownsAccount key = false ∧
    ∃ view, readToken (l.accountInfo env key) = some view ∧ view.owner = owner

variable [DecidableEq D] {env : Env} {l l' : Ledger D} {destination : Pubkey} {unlockUnix : ℤ}

theorem Ledger.Waits.no_transfer {args : AgentTransferArgs}
    (h : l.Waits destination unlockUnix) (hnow : env.clock.unixTimestamp < unlockUnix)
    (hexec : exec env l (.agentTransfer args) = .ok l') :
    ∀ t ∈ l.tokens args.destinationTokenAccount, t.owner ≠ destination := by
  rintro t ht rfl
  obtain ⟨a, ha, hunlock⟩ := h
  obtain ⟨_, charged, counted, source, paid, usdAmount, split, htransferred⟩ :=
    agentTransfer_ok hexec
  cases ha.symm.trans htransferred.live
  cases ht.symm.trans htransferred.destinationAccount
  have hgray := isDestinationGraylisted_of_unlockOf hunlock hnow
  exact Bool.false_ne_true (htransferred.destinationFree.symm.trans hgray)

/-- The instruction of a session has no writable token account of a destination that waits. -/
theorem Ledger.Waits.no_session {args : ValidateAndAuthorizeArgs D}
    (h : l.Waits destination unlockUnix) (hnow : env.clock.unixTimestamp < unlockUnix)
    (hallows : l.Allows destination)
    (hmode : ∀ a ∈ l.live, a.policy.destinationMode = destinationModeRestricted)
    (hvault : destination ≠ l.vaultKey) (hamount : 0 < args.amount)
    (hexec : exec env l (.validateAndAuthorize args) = .ok l') :
    ∃ between defi rest, following env = between ++ defi :: rest ∧
      (∀ y ∈ between, isInfrastructure y = true) ∧ isInfrastructure defi = false ∧
      ∀ m ∈ defi.accounts, m.isWritable = true →
        ¬ (l.withBlankSession args).TokenAccountOf env destination m.pubkey := by
  obtain ⟨a, ha, hunlock⟩ := h
  obtain ⟨_, hb, hallowed⟩ := hallows
  cases ha.symm.trans hb
  obtain ⟨_, vaultToken, pins, snapshots, tokens, hopened⟩ := validateAndAuthorize_ok hexec
  cases ha.symm.trans hopened.live
  have hspending : args.isSpending = true := decide_eq_true hamount
  have hscan := hopened.scan
  rw [hspending] at hscan
  obtain ⟨between, defi, closing, post, hfollowing, hbetween, hdefi, hdestinations, -⟩ :=
    sandwichScan_grammar hscan
  refine ⟨between, defi, closing :: post, hfollowing, hbetween, hdefi.notInfrastructure, ?_⟩
  rintro m hm hwritable ⟨hforeign, view, hview, rfl⟩
  have hkey : m.pubkey ≠ (l.withBlankSession args).vaultKey := by
    intro hsame
    simp only [Ledger.ownsAccount, decide_eq_false_iff_not, not_or, not_and] at hforeign
    exact (hforeign.1 (Option.isSome_iff_exists.mpr ⟨a, ha⟩)).1 hsame
  have hchecked := enforceDestinationAllowlist_ok hdestinations hm hwritable hkey
  have hfree := hchecked.outOfWindow view hview hvault (decide_eq_true ⟨hmode a ha, hallowed⟩)
  have hgray := isDestinationGraylisted_of_unlockOf hunlock hnow
  exact Bool.false_ne_true (hfree.symm.trans hgray)

/-- A destination other than the vault that an update adds cannot be paid by an agent within the
friction window, and the graylist has one entry for a destination at most. -/
theorem graylist_friction {l₀ m : Ledger D} {as : List (Action D)} (h₀ : l₀.Genesis)
    (hreach : Run Step l₀ as m) :
    (∀ a ∈ m.live, a.policy.SingleEntries) ∧
      ∀ (env env' : Env) (owner destination : Pubkey) (m' n : Ledger D) (bs : List (Action D)),
        Adds env owner destination m m' → destination ≠ m.vaultKey →
        StaysGray destination m' bs n →
        env'.clock.unixTimestamp < env.clock.unixTimestamp + graylistFrictionSeconds →
        (∀ args l', exec env' n (.agentTransfer args) = .ok l' →
          ∀ t ∈ n.tokens args.destinationTokenAccount, t.owner ≠ destination) ∧
        ∀ args l', 0 < args.amount → exec env' n (.validateAndAuthorize args) = .ok l' →
          ∃ between defi rest, following env' = between ++ defi :: rest ∧
            (∀ y ∈ between, isInfrastructure y = true) ∧ isInfrastructure defi = false ∧
            ∀ x ∈ defi.accounts, x.isWritable = true →
              ¬ (n.withBlankSession args).TokenAccountOf env' destination x.pubkey := by
  refine ⟨forall_live_of_run hreach h₀ exec_singleEntries, ?_⟩
  intro env env' owner destination m' n bs hadds hvault hgray hnow
  obtain ⟨hallows, hwaits⟩ := hgray.waits hadds.allowed hadds.waits
  have hreach' : Run Step l₀ (as ++ [.call env (.applyPendingPolicy owner)] ++ bs) n :=
    (hreach.snoc (.call hadds.applied)).append hgray.run
  have hmode := forall_live_of_run hreach' h₀ exec_restricted
  have hkey : destination ≠ n.vaultKey := by
    rw [vaultKey_of_run hgray.run, exec_vaultKey hadds.applied]
    exact hvault
  exact ⟨fun args l' hexec => hwaits.no_transfer hnow hexec,
    fun args l' hamount hexec => hwaits.no_session hnow hallows hmode hkey hamount hexec⟩

end Friction

section Sample

def allowAlso (destination : Pubkey) : PolicyUpdate Preimage :=
  { PolicyUpdate.none with allowedDestinations := some [sampleKey 3, destination] }

def invitingLedger (destination : Pubkey) : Ledger Preimage :=
  after (sampleEnv 1700 21) operatedLedger
    (sampleQueue operatedLedger (allowAlso destination) Pubkey.default)

def invitedLedger (destination : Pubkey) : Ledger Preimage :=
  after (sampleEnv 3500 110) (invitingLedger destination)
    (.applyPendingPolicy (sampleKey 1))

/-- The accounts of the sample trade and a token account of the new destination. -/
def fundedLedger (destination : Pubkey) : Ledger Preimage :=
  { invitedLedger destination with
    tokens := Function.update (sampleTokens operatedLedger.vaultKey 0) (sampleKey 25)
      (some (sampleAccount sampleMint destination 0))
    others := sampleOthers }

theorem run_invitingLedger (destination : Pubkey)
    (h : (exec (envAt 1700 21 (by decide)) operatedLedger
      (sampleQueue operatedLedger (allowAlso destination) Pubkey.default)).isOk = true) :
    ∃ as, Run Step emptyLedger as (invitingLedger destination) := by
  obtain ⟨as, hrun⟩ := run_operatedLedger
  exact ⟨_, hrun.snoc (.after h)⟩

theorem adds_invitedLedger (destination : Pubkey)
    (happly : (exec (envAt 3500 110 (by decide)) (invitingLedger destination)
      (.applyPendingPolicy (sampleKey 1))).isOk = true)
    (hbefore : (invitingLedger destination).live.all (fun a =>
      a.policy.autoPromoteGrays = false ∧ destination ∉ a.policy.allowedDestinations) = true)
    (hafter : (invitedLedger destination).live.any (fun a =>
      destination ∈ a.policy.allowedDestinations) = true) :
    Adds (envAt 3500 110 (by decide)) (sampleKey 1) destination (invitingLedger destination)
      (invitedLedger destination) where
  applied := exec_after happly
  manual a ha := (of_decide_eq_true ((Option.all_eq_true _ _).mp hbefore a ha)).1
  new := by
    rintro ⟨a, ha, hallowed⟩
    exact (of_decide_eq_true ((Option.all_eq_true _ _).mp hbefore a ha)).2 hallowed
  allowed := by
    obtain ⟨a, ha, hallowed⟩ := (Option.any_eq_true _ _).mp hafter
    exact ⟨a, ha, of_decide_eq_true hallowed⟩

theorem staysGray_fundedLedger {destination : Pubkey}
    (h : (invitedLedger destination).Allows destination) :
    StaysGray destination (invitedLedger destination) [.foreign] (fundedLedger destination) :=
  .single ⟨.foreign _ _ _, h, id⟩

def laterTransfer : AgentTransferArgs := { sampleTransfer with expectedPolicyVersion := 2 }

/-- The transfer to a new destination fails in the last second of the window and works after it. -/
theorem graylist_friction_newcomer :
    (exec (envAt 89900 5000 (by decide)) (fundedLedger (sampleKey 6))
      (.agentTransfer laterTransfer)).isOk = true ∧
    ∀ l', exec (envAt 89899 5000 (by decide)) (fundedLedger (sampleKey 6))
      (.agentTransfer laterTransfer) ≠ .ok l' := by
  refine ⟨by decide +kernel, fun l' hexec => ?_⟩
  obtain ⟨hqueued, happlied, hbefore, hafter⟩ :
      (exec (envAt 1700 21 (by decide)) operatedLedger
        (sampleQueue operatedLedger (allowAlso (sampleKey 6)) Pubkey.default)).isOk = true ∧
        (exec (envAt 3500 110 (by decide)) (invitingLedger (sampleKey 6))
          (.applyPendingPolicy (sampleKey 1))).isOk = true ∧
        (invitingLedger (sampleKey 6)).live.all (fun a => a.policy.autoPromoteGrays = false ∧
          sampleKey 6 ∉ a.policy.allowedDestinations) = true ∧
        (invitedLedger (sampleKey 6)).live.any (fun a =>
          sampleKey 6 ∈ a.policy.allowedDestinations) = true := by decide +kernel
  obtain ⟨as, hreach⟩ := run_invitingLedger (sampleKey 6) hqueued
  have hadds := adds_invitedLedger (sampleKey 6) happlied hbefore hafter
  have hfriction := (graylist_friction genesis_emptyLedger hreach).2 _
    (envAt 89899 5000 (by decide)) _ _ _ _ _ hadds (by decide +kernel)
    (staysGray_fundedLedger hadds.allowed) (by decide)
  have htoken : (fundedLedger (sampleKey 6)).tokens laterTransfer.destinationTokenAccount =
      some (sampleAccount sampleMint (sampleKey 6) 0) := by
    simp [fundedLedger, laterTransfer, sampleTransfer]
  exact hfriction.1 _ _ hexec _ htoken rfl

def laterTransaction (vault : Pubkey) : Transaction :=
  { sampleTransaction vault with clock := ⟨120, 3600, by decide⟩ }

def laterValidate (vault : Pubkey) : ValidateAndAuthorizeArgs Preimage :=
  { sampleValidate vault with expectedPolicyVersion := 2 }

/-- The vault is added to its own allowlist, and a moment later the instruction of a session passes
the check with a writable token account of the vault. -/
theorem vault_skips_friction :
    let vault := operatedLedger.vaultKey
    (∃ as, Run Step emptyLedger as (invitingLedger vault)) ∧
      Adds (envAt 3500 110 (by decide)) (sampleKey 1) vault (invitingLedger vault)
        (invitedLedger vault) ∧
      StaysGray vault (invitedLedger vault) [.foreign] (fundedLedger vault) ∧
      ((laterTransaction vault).env 0).clock.unixTimestamp < 3500 + graylistFrictionSeconds ∧
      (exec ((laterTransaction vault).env 0) (fundedLedger vault)
        (.validateAndAuthorize (laterValidate vault))).isOk = true ∧
      ∃ defi rest, following ((laterTransaction vault).env 0) = defi :: rest ∧
        isInfrastructure defi = false ∧ ∃ x ∈ defi.accounts, x.isWritable = true ∧
          ((fundedLedger vault).withBlankSession (laterValidate vault)).TokenAccountOf
            ((laterTransaction vault).env 0) vault x.pubkey := by
  intro vault
  obtain ⟨hqueued, happlied, hbefore, hafter⟩ :
      (exec (envAt 1700 21 (by decide)) operatedLedger
        (sampleQueue operatedLedger (allowAlso vault) Pubkey.default)).isOk = true ∧
        (exec (envAt 3500 110 (by decide)) (invitingLedger vault)
          (.applyPendingPolicy (sampleKey 1))).isOk = true ∧
        (invitingLedger vault).live.all (fun a =>
          a.policy.autoPromoteGrays = false ∧ vault ∉ a.policy.allowedDestinations) = true ∧
        (invitedLedger vault).live.any (fun a => vault ∈ a.policy.allowedDestinations) = true := by
    decide +kernel
  have hadds := adds_invitedLedger vault happlied hbefore hafter
  have hview : (readToken (((fundedLedger vault).withBlankSession
      (laterValidate vault)).accountInfo ((laterTransaction vault).env 0) (sampleKey 20))).map
        TokenView.owner = some vault := by decide +kernel
  refine ⟨run_invitingLedger _ hqueued, hadds, staysGray_fundedLedger hadds.allowed,
    by decide, by decide +kernel, ⟨sampleKey 2, sampleMetas, []⟩, _, rfl, by decide,
    ⟨sampleKey 20, false, true⟩, List.mem_cons_self, rfl, by decide +kernel, ?_⟩
  exact Option.map_eq_some_iff.mp hview

end Sample

end Sigil
