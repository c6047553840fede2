import Sigil.Session.OverlaySlots
import Sigil.Session.Sandwich

/-! # Errors about slots

The program has two errors for a slot that cannot be found or given. They are raised where an agent
is seated, where its limit changes and where a spend is charged to it, and nowhere else. While the
slots are in order none of these places raises them.
-/

namespace Sigil

open Guard Trace TokenLedger AgentSpendOverlay

def ProgramError.IsSlot (e : ProgramError) : Prop :=
  e = .sigil .agentSlotNotFound ∨ e = .sigil .overlaySlotExhausted

abbrev SlotSafe {α : Type} (x : Result α) : Prop := Spares ProgramError.IsSlot x

section Rules

variable {α : Type} {e : SigilError}

@[simp] theorem isSlot_sigil :
    (ProgramError.sigil e).IsSlot ↔ e = .agentSlotNotFound ∨ e = .overlaySlotExhausted := by
  simp [ProgramError.IsSlot]

@[simp] theorem not_isSlot_anchor {e : AnchorError} : ¬ (ProgramError.anchor e).IsSlot := by
  simp [ProgramError.IsSlot]

@[simp] theorem not_isSlot_token {e : TokenError} : ¬ (ProgramError.token e).IsSlot := by
  simp [ProgramError.IsSlot]

@[simp] theorem slotSafe_ensure_iff {p : Prop} [Decidable p] :
    SlotSafe (ensure p e) ↔ (¬ p → ¬ (ProgramError.sigil e).IsSlot) :=
  spares_require_iff

@[simp] theorem slotSafe_someOr_iff {x : Option α} :
    SlotSafe (someOr e x) ↔ (x = none → ¬ (ProgramError.sigil e).IsSlot) :=
  spares_okOr_iff

@[simp] theorem slotSafe_fail_iff :
    SlotSafe (fail e : Result α) ↔ ¬ (ProgramError.sigil e).IsSlot :=
  spares_error_iff

@[simp] theorem slotSafe_viaToken (x : Except TokenError α) : SlotSafe (viaToken x) := by
  cases x <;> simp [viaToken]

@[simp] theorem slotSafe_mustExist (x : Option α) : SlotSafe (mustExist x) := by
  simp [mustExist]

@[simp] theorem slotSafe_mustBeNew (x : Option α) : SlotSafe (mustBeNew x) := by
  simp [mustBeNew]

end Rules

section Parts

variable {D : Type} {env : Env} {l : Ledger D} {a : VaultAccounts D}
  {remaining : List AccountMeta} {policy : PolicyConfig D} {clock : Clock}

@[simp] theorem slotSafe_rejectCpi : SlotSafe (rejectCpi env) := by
  simp [rejectCpi]

@[simp] theorem slotSafe_cosignGate : SlotSafe (a.cosignGate remaining) := by
  simp [VaultAccounts.cosignGate]

@[simp] theorem slotSafe_nextVersion : SlotSafe a.nextVersion := by
  simp [VaultAccounts.nextVersion]

@[simp] theorem slotSafe_bumpVersion : SlotSafe a.bumpVersion := by
  simp [VaultAccounts.bumpVersion]

@[simp] theorem slotSafe_reseal [Host D] : SlotSafe a.reseal := by
  simp [VaultAccounts.reseal]

@[simp] theorem slotSafe_loadAsOwner (owner : Pubkey) : SlotSafe (l.loadAsOwner owner) := by
  simp [Ledger.loadAsOwner]

@[simp] theorem slotSafe_loadToken (key : Pubkey) : SlotSafe (l.loadToken key) := by
  simp [Ledger.loadToken]

@[simp] theorem slotSafe_loadOptionalToken (key : Option Pubkey) :
    SlotSafe (l.loadOptionalToken key) := by
  cases key <;> simp [Ledger.loadOptionalToken]

@[simp] theorem slotSafe_loadPerms [Host D] (address : Pubkey) :
    SlotSafe (l.loadPerms address) := by
  simp [Ledger.loadPerms]

@[simp] theorem slotSafe_ensureFresh (slot : UInt64) : SlotSafe (ensureFresh clock slot) := by
  simp [ensureFresh]

/-! The parts of the instructions with loops. -/

@[simp] theorem slotSafe_walkExtensions (data : List UInt8) (fuel cursor : ℕ) :
    SlotSafe (walkExtensions data fuel cursor) := by
  induction fuel generalizing cursor with
  | zero => simp [walkExtensions]
  | succ fuel ih => simp [walkExtensions, ih]

@[simp] theorem slotSafe_enforceToken2022ExtensionAllowlist (mint : AccountInfo) :
    SlotSafe (enforceToken2022ExtensionAllowlist mint) := by
  simp [enforceToken2022ExtensionAllowlist]

@[simp] theorem slotSafe_addWhen (p : Bool) (total amount : UInt64) :
    SlotSafe (addWhen p total amount) := by
  simp [addWhen]

@[simp] theorem slotSafe_graftAgent (newAgent : Option Pubkey) (capability : Option UInt8) :
    SlotSafe (graftAgent a remaining newAgent capability) := by
  unfold graftAgent
  cases newAgent <;> cases capability <;> simp [VaultAccounts.instantOperatorGate]

@[simp] theorem slotSafe_graylistNewDestinations (destinations : Option (List Pubkey)) :
    SlotSafe (graylistNewDestinations clock policy destinations) := by
  have hstep (unlockUnix : ℤ) (graylist : List DestinationGraylistEntry) (d : Pubkey) :
      SlotSafe (graylistDestination graylist unlockUnix d) := by
    simp [graylistDestination]
  cases destinations with
  | none => simp [graylistNewDestinations]
  | some destinations =>
    rw [graylistNewDestinations, SlotSafe, spares_seq_iff]
    exact ⟨by simp [graylistUnlock], fun unlockUnix _ =>
      spares_foldlM (fun graylist d _ => hstep unlockUnix graylist d) _⟩

@[simp] theorem slotSafe_validateEntries (entries : List PostAssertionEntry) :
    SlotSafe (validateEntries entries) := by
  have hentry (e : PostAssertionEntry) : SlotSafe e.validate := by
    rw [PostAssertionEntry.validate, SlotSafe, spares_seq_iff]
    refine ⟨by simp, fun mode _ => ?_⟩
    cases mode <;> simp [PostAssertionEntry.validateBytes]
  rw [validateEntries, SlotSafe, spares_seq_iff]
  exact ⟨by simp, fun _ _ => spares_forM fun e _ => hentry e⟩

variable [Host D]

@[simp] theorem slotSafe_sumStableBalances {counts : Pubkey → AccountInfo → TokenView → Bool}
    (limit : ℕ) (seen : List Pubkey) (total : UInt64) (metas : List AccountMeta) :
    SlotSafe (sumStableBalances env l counts limit seen total metas) := by
  fun_induction sumStableBalances env l counts limit seen total metas <;> simp_all

@[simp] theorem slotSafe_revokePairs (l : Ledger D) (metas : List AccountMeta) :
    SlotSafe (revokePairs env l metas) := by
  fun_induction revokePairs env l metas with
  | case1 l session token rest ih =>
    have hpair : SlotSafe (revokePair env l session.pubkey token.pubkey) := by
      unfold revokePair
      split <;> simp
    exact spares_seq_iff.mpr ⟨hpair, fun l' _ => ih l'⟩
  | case2 => simp

@[simp] theorem slotSafe_bindPermsCosigner {owner : Pubkey} {live : AgentEntry}
    {newCapability : UInt8} {spendingLimitUsd cooldownSeconds : UInt64} {cosignSession : Pubkey} :
    SlotSafe (bindPermsCosigner a owner remaining live newCapability spendingLimitUsd
      cooldownSeconds cosignSession) := by
  simp [bindPermsCosigner]

@[simp] theorem slotSafe_sumVaultMintBalance (mint target : Pubkey) (scope : UInt8) :
    SlotSafe (sumVaultMintBalance env l mint scope target remaining) := by
  have hadd (info : AccountInfo) (total : UInt64) :
      SlotSafe (addVaultBalance l.vaultKey mint info total) := by
    unfold addVaultBalance
    split <;> simp
  simp [sumVaultMintBalance, hadd]

@[simp] theorem slotSafe_captureSnapshots : SlotSafe (captureSnapshots env l policy remaining) := by
  have hentry (e : PostAssertionEntry) : SlotSafe (captureSnapshot env l remaining e) := by
    unfold captureSnapshot
    dsimp only
    split <;> simp [PostAssertionEntry.slice]
  simp [captureSnapshots, loadAssertions, spares_mapM, hentry]

@[simp] theorem slotSafe_enforcePostExecutionAssertions (s : SessionAuthority) :
    SlotSafe (enforcePostExecutionAssertions env l remaining s) := by
  have hentry (e : PostAssertionEntry) (snapshot : List UInt8) (snapshotLen : UInt8) :
      SlotSafe (verifyEntry env l remaining e snapshot snapshotLen) := by
    rw [verifyEntry, SlotSafe, spares_seq_iff]
    refine ⟨by simp, fun mode _ => ?_⟩
    cases mode <;> simp [verifyMintDeltaCap, verifyAtaAuthorityPin, verifyOutputBalanceFloor,
      verifyDeclarationConsistency, verifyBytes, PostAssertionEntry.slice]
  rw [enforcePostExecutionAssertions, SlotSafe, spares_seq_iff]
  refine ⟨by simp [loadAssertions], fun found _ => ?_⟩
  rw [spares_seq_iff]
  exact ⟨by simp, fun assertions _ => spares_forM fun entry _ => hentry entry.1 _ _⟩

end Parts

section Session

variable {D : Type} {env : Env} {l : Ledger D} {remaining : List AccountMeta}
  {policy : PolicyConfig D} {a : VaultAccounts D} {clock : Clock} {t : SpendTracker}

@[simp] theorem slotSafe_preScan : SlotSafe (preScan env) :=
  spares_forM fun i _ => by simp

theorem not_isSlot_of_blockedOpcode {ix : Instruction} {e : SigilError}
    (h : blockedOpcode ix = some e) : ¬ (ProgramError.sigil e).IsSlot := by
  unfold blockedOpcode at h
  split_ifs at h
  · obtain ⟨opcode, -, h⟩ := Option.bind_eq_some_iff.mp h
    unfold blockedTokenOpcode at h
    split_ifs at h <;> cases h <;> simp
  · obtain ⟨opcode, -, h⟩ := Option.bind_eq_some_iff.mp h
    unfold blockedToken2022Opcode at h
    split_ifs at h <;> cases h <;> simp

theorem slotSafe_scanInstructionShared (session : Pubkey) (ix : Instruction) :
    SlotSafe (scanInstructionShared policy session ix) := by
  unfold scanInstructionShared
  split
  · simp
  · split
    · rename_i e hblocked
      exact slotSafe_fail_iff.mpr (not_isSlot_of_blockedOpcode hblocked)
    · simp

theorem slotSafe_nonSpendingScan (session : Pubkey) (iter : ℕ) (ixs : List Instruction) :
    SlotSafe (nonSpendingScan policy session iter ixs) := by
  induction ixs generalizing iter with
  | nil => simp [nonSpendingScan]
  | cons ix rest ih =>
    rw [nonSpendingScan, SlotSafe, spares_seq_iff]
    refine ⟨by simp, fun _ _ => ?_⟩
    rw [spares_seq_iff]
    refine ⟨slotSafe_scanInstructionShared session ix, fun action _ => ?_⟩
    cases action <;> simp [ih]

@[simp] theorem slotSafe_transferMeasuredFees (cluster : Cluster) (tokens : Accounts Pubkey)
    (vaultKey source mint feeDestination : Pubkey) (protocolFee developerFee : UInt64)
    (treasury feeDest : Option (Pubkey × TokenAccount Pubkey)) :
    SlotSafe (transferMeasuredFees cluster tokens vaultKey source mint feeDestination protocolFee
      developerFee treasury feeDest) := by
  simp [transferMeasuredFees, payFee]

@[simp] theorem slotSafe_ceilFee (amount rate : UInt64) : SlotSafe (ceilFee amount rate) := by
  simp [ceilFee]

@[simp] theorem slotSafe_checkCap {e : SigilError} (he : ¬ (ProgramError.sigil e).IsSlot)
    (prior amount cap : UInt64) : SlotSafe (checkCap e prior amount cap) := by
  simp [checkCap, he]

@[simp] theorem slotSafe_recordSpend (amount : UInt64) : SlotSafe (t.recordSpend clock amount) := by
  simp [SpendTracker.recordSpend]

@[simp] theorem slotSafe_recordProtocolSpend (protocol : Pubkey) (amount : UInt64) :
    SlotSafe (t.recordProtocolSpend clock protocol amount) := by
  rw [SpendTracker.recordProtocolSpend, SlotSafe, spares_seq_iff]
  refine ⟨by simp, fun _ _ => ?_⟩
  dsimp only
  split
  · simp
  · split <;> simp

@[simp] theorem slotSafe_chargeRecipient (recipient : Pubkey) (amount : UInt64) :
    SlotSafe (chargeRecipient policy t clock recipient amount) := by
  have hrecord : SlotSafe (t.recordRecipientSpend clock recipient amount) := by
    rw [SpendTracker.recordRecipientSpend, SlotSafe, spares_seq_iff]
    refine ⟨by simp, fun _ _ => ?_⟩
    dsimp only
    split
    · simp [PerRecipientCounter.accumulate]
    · split <;> simp
  simp [chargeRecipient, hrecord]

@[simp] theorem slotSafe_checkStableFloor {sum : Result UInt64} (h : SlotSafe sum) :
    SlotSafe (checkStableFloor policy sum) := by
  simp [checkStableFloor, h]

theorem slotSafe_walkRecipients (recipientOf : AccountMeta → Option Pubkey) (fuel : ℕ)
    (seen : Option Pubkey) (metas : List AccountMeta) :
    SlotSafe (walkRecipients recipientOf fuel seen metas) := by
  fun_induction walkRecipients recipientOf fuel seen metas <;> simp_all

/-! The places that raise the errors. -/

theorem VaultAccounts.SlotsInOrder.findAgentSlot {agent : Pubkey} {entry : AgentEntry}
    (h : a.SlotsInOrder) (hentry : a.vault.getAgent agent = some entry)
    (hlimit : 0 < entry.spendingLimitUsd) : ∃ i, a.overlay.findAgentSlot agent = some i := by
  have hmem : (agent, entry.spendingLimitUsd) ∈ a.vault.limits := by
    refine List.mem_map.mpr ⟨entry, List.mem_of_find?_eq_some hentry, ?_⟩
    rw [AgentVault.pubkey_of_getAgent hentry]
  obtain ⟨i, hi⟩ := h.limited agent _ hmem hlimit
  exact exists_findAgentSlot hi

theorem slotSafe_chargeSlot {o : AgentSpendOverlay} (i : Fin maxOverlayEntries)
    (amount limit : UInt64) : SlotSafe (o.chargeSlot clock i amount limit) := by
  simp [chargeSlot, checkAgentLimit, recordAgentContribution, AgentContributionEntry.record]

theorem VaultAccounts.SlotsInOrder.chargeTransfer {agent recipient : Pubkey} {entry : AgentEntry}
    (h : a.SlotsInOrder) (hentry : a.vault.getAgent agent = some entry) (amount : UInt64) :
    SlotSafe (a.chargeTransfer clock agent recipient amount entry) := by
  have hcharge : SlotSafe (a.overlay.chargeAgent clock agent amount entry.spendingLimitUsd) := by
    unfold chargeAgent
    split
    · exact slotSafe_chargeSlot _ _ _
    · rename_i hnone
      refine spares_ite_iff.mpr ⟨fun hlimit => ?_, fun _ => spares_ok _⟩
      obtain ⟨i, hi⟩ := h.findAgentSlot hentry hlimit
      cases hnone.symm.trans hi
  simp [VaultAccounts.chargeTransfer, SpendTracker.checkDailyCap, hcharge]

theorem VaultAccounts.SlotsInOrder.chargeSession {s : SessionAuthority} (h : a.SlotsInOrder)
    (amount : UInt64) : SlotSafe (a.chargeSession clock s amount) := by
  have hcharge (entry : AgentEntry) (hentry : a.vault.getAgent s.agent = some entry) :
      SlotSafe (a.overlay.chargeAgentLifetime clock s.agent amount entry.spendingLimitUsd) := by
    unfold chargeAgentLifetime
    split
    · simp [slotSafe_chargeSlot, countLifetime]
    · rename_i hnone
      refine spares_ite_iff.mpr ⟨fun hlimit => ?_, fun _ => spares_ok _⟩
      obtain ⟨i, hi⟩ := h.findAgentSlot hentry hlimit
      cases hnone.symm.trans hi
  have hprotocol :
      SlotSafe (checkProtocolCap a.policy a.tracker clock s.authorizedProtocol amount) := by
    unfold checkProtocolCap
    split <;> simp
  simp +contextual [VaultAccounts.chargeSession, SpendTracker.checkDailyCap, hcharge, hprotocol,
    recordForProtocol]

variable [Host D]

theorem slotSafe_enforceDestinationAllowlist (metas : List AccountMeta) :
    SlotSafe (enforceDestinationAllowlist env l policy remaining metas) := by
  have hone (m : AccountMeta) : SlotSafe (checkDestination env l policy remaining m) := by
    simp [checkDestination, checkToken2022Output]
  rw [enforceDestinationAllowlist, SlotSafe, spares_seq_iff]
  exact ⟨by simp [checkMetaCounts], fun _ _ => spares_forM fun m _ => hone m⟩

theorem slotSafe_spendingScan (session target : Pubkey) (iter count : ℕ) (defi : Option ℕ)
    (ixs : List Instruction) :
    SlotSafe (spendingScan env l policy session target remaining iter count defi ixs) := by
  induction ixs generalizing iter count defi with
  | nil => simp [spendingScan]
  | cons ix rest ih =>
    rw [spendingScan, SlotSafe, spares_seq_iff]
    refine ⟨by simp, fun _ _ => ?_⟩
    rw [spares_seq_iff]
    refine ⟨slotSafe_scanInstructionShared session ix, fun action _ => ?_⟩
    cases action <;> simp [ih, slotSafe_enforceDestinationAllowlist]

@[simp] theorem slotSafe_sandwichScan (session target : Pubkey) (isSpending : Bool) :
    SlotSafe (sandwichScan env l policy session target remaining isSpending) := by
  simp [sandwichScan, slotSafe_spendingScan, slotSafe_nonSpendingScan]

@[simp] theorem slotSafe_enforceVerifiedBuildIfArmed [DecidableEq D] (target : Pubkey) :
    SlotSafe (enforceVerifiedBuildIfArmed env l policy target remaining) := by
  simp [enforceVerifiedBuildIfArmed, enforceProgramBuildHash]

@[simp] theorem slotSafe_pinOutputs {args : ValidateAndAuthorizeArgs D} (vaultKey : Pubkey)
    (vaultToken : TokenAccount Pubkey)
    (outputStablecoin outputSwap : Option (Pubkey × TokenAccount Pubkey)) :
    SlotSafe (pinOutputs vaultKey policy args vaultToken outputStablecoin outputSwap) := by
  have hswap (mint : Pubkey) (amount : UInt64) :
      SlotSafe (pinSwapAccount vaultKey mint amount outputSwap) := by
    cases outputSwap <;> simp [pinSwapAccount]
  simp [pinOutputs, hswap, pinStablecoinAccount]

@[simp] theorem slotSafe_chargeSessionRecipient (spend : UInt64) :
    SlotSafe (chargeSessionRecipient env l policy t remaining spend) := by
  rw [chargeSessionRecipient, SlotSafe, spares_ite_iff]
  refine ⟨fun _ => ?_, fun _ => spares_ok _⟩
  simp only [spares_seq_iff]
  refine ⟨by simp, fun _ _ => ⟨by simp, fun ix _ => ⟨?_, fun recipient _ => ?_⟩⟩⟩
  · exact slotSafe_walkRecipients _ _ _ _
  · cases recipient <;> simp

@[simp] theorem slotSafe_transferFloorSum (source : Pubkey) :
    SlotSafe (transferFloorSum env l source remaining) := by
  simp [transferFloorSum]

@[simp] theorem slotSafe_sessionFloorSum (args : FinalizeSessionArgs) :
    SlotSafe (sessionFloorSum env l args) := by
  simp [sessionFloorSum]

theorem VaultAccounts.SlotsInOrder.settle {s : SessionAuthority} {args : FinalizeSessionArgs}
    (h : a.SlotsInOrder) (treasury feeDest : Option (Pubkey × TokenAccount Pubkey)) :
    SlotSafe (settle clock l a s args treasury feeDest) := by
  simp [Sigil.settle, settleStablecoin, settleSpend, settleInflow, measuredAccount,
    enforceOutputOwnership, spendWithFees, h.chargeSession]

theorem slotSafe_agentTransfer (hslots : ∀ a, l.live = some a → a.SlotsInOrder)
    (args : AgentTransferArgs) : SlotSafe (agentTransfer env args l) := by
  cases hlive : l.live with
  | none => simp [agentTransfer, mustExist_ok_iff, hlive]
  | some a =>
    cases hentry : a.vault.getAgent args.agent with
    | none => simp [agentTransfer, mustExist_ok_iff, hlive, hentry, stablecoinToUsd]
    | some entry =>
      have hcharge (recipient : Pubkey) (amount : UInt64) :
          SlotSafe (a.chargeTransfer env.clock args.agent recipient amount entry) :=
        (hslots a hlive).chargeTransfer hentry amount
      simp [agentTransfer, mustExist_ok_iff, hlive, hentry, stablecoinToUsd, splitTransfer,
        VaultAccounts.countTransfer, hcharge]

theorem slotSafe_finalizeSession (hslots : ∀ a, l.live = some a → a.SlotsInOrder)
    (args : FinalizeSessionArgs) : SlotSafe (finalizeSession env args l) := by
  cases hlive : l.live with
  | none => simp [finalizeSession, mustExist_ok_iff, hlive]
  | some a =>
    simp [finalizeSession, mustExist_ok_iff, hlive, (hslots a hlive).settle, revokeDelegation,
      enforceMeasurableOutcome, enforceOutputOwnership, enforceFinalizeCompleteness,
      checkMetaCounts, AgentVault.countFinalize, AgentVault.countClosed, AgentVault.countFailure,
      AgentVault.countSuccess, ensureAssertions, postScan]

variable [DecidableEq D] {c : Call D}

theorem exec_slotSafe (hl : l.Registered) (hslots : ∀ a, l.live = some a → a.SlotsInOrder) :
    SlotSafe (exec env l c) := by
  have hseat (a : VaultAccounts D) (ha : l.live = some a) (agent : Pubkey) (limit : UInt64)
      (hfresh : a.vault.isAgent agent = false) (hroom : a.vault.agents.length < maxAgentsPerVault)
      (hnamed : agent ≠ Pubkey.default) : SlotSafe (a.overlay.seat agent limit) := by
    obtain ⟨o, hseat, -⟩ := (hslots a ha).exists_seat (hl.agents a ha) ⟨hfresh, hroom⟩ hnamed
    rw [hseat]
    exact spares_ok o
  have hreseat (a : VaultAccounts D) (ha : l.live = some a) (agent : Pubkey) (entry : AgentEntry)
      (hentry : a.vault.getAgent agent = some entry) (limit newLimit : UInt64) :
      SlotSafe (a.overlay.reseat agent limit newLimit) := by
    have hagent := AgentVault.mem_keys_of_getAgent hentry
    obtain ⟨o, hreseat, -⟩ := (hslots a ha).tidy.exists_reseat (hl.agents a ha).bounded
      ((hl.agents a ha).ne_default hagent) hagent
    rw [hreseat]
    exact spares_ok o
  cases c
  case registerAgent =>
    simp +contextual [exec, registerAgent, Ledger.loadAsOwner_ok_iff,
      VaultAccounts.registrationGate, VaultAccounts.instantOperatorGate, hseat]
  case applyAgentGrant =>
    have hnamed (pending : PendingAgentGrant D) (h : l.pendingGrant = some pending) :
        pending.agent ≠ Pubkey.default := hl.grant pending h
    simp +contextual [exec, applyAgentGrant, Ledger.loadAsOwner_ok_iff, mustExist_ok_iff, hseat,
      hnamed]
  case applyAgentPermissionsUpdate =>
    simp +contextual [exec, applyAgentPermissionsUpdate, Ledger.loadAsOwner_ok_iff, hreseat]
  case agentTransfer args => exact slotSafe_agentTransfer hslots args
  case finalizeSession args => exact slotSafe_finalizeSession hslots args
  -- the others are sequences of parts, and no part of them raises the errors
  all_goals refine Spares.seq ?_ fun _ => ?_
  all_goals repeat' with_reducible refine Spares.seq ?_ fun _ => ?_
  all_goals first
    | with_reducible exact slotSafe_ensure_iff.mpr fun _ => by simp
    | with_reducible exact spares_ok _
    | simp [validateUpdate, bindPolicyCosigner, ensureFits, applyUpdate, rejectSameValidate,
        rejectProtectedWritable, delegateAmount]

/-- In every reachable state the slots are in order: the slots in use have different agents, all of
them registered, the others are blank, and every agent with a limit has one. So no instruction fails
over a slot, and an agent that is given a slot finds nothing in it but a cooldown that was set for
the agent itself. -/
theorem overlay_slots_in_order {m : Ledger D} {as : List (Action D)} (hl : l.Genesis)
    (hrun : Run Step l as m) :
    (∀ a, m.live = some a → a.SlotsInOrder) ∧
    (∀ env c, exec env m c ≠ .error (.sigil .agentSlotNotFound) ∧
      exec env m c ≠ .error (.sigil .overlaySlotExhausted)) ∧
    ∀ env c m' a a' agent i, exec env m c = .ok m' → m.live = some a → m'.live = some a' →
      agent ≠ Pubkey.default → a.overlay.findAgentSlot agent = none →
      a'.overlay.findAgentSlot agent = some i →
      a'.overlay.slot i = Slot.fresh agent 0 ∨
        ∃ owner remaining address pending,
          c = .applyAgentPermissionsUpdate owner remaining address ∧
          m.pendingPerms address = some pending ∧ pending.agent = agent ∧
          a'.overlay.slot i = Slot.fresh agent pending.cooldownSeconds := by
  have hreg := run_registered hrun hl
  have hslots (a : VaultAccounts D) (ha : m.live = some a) : a.SlotsInOrder :=
    run_slotsInOrder hrun hl ha
  refine ⟨hslots, fun env c => ?_, fun env c m' a a' agent i h ha ha' hnamed hnone hsome => ?_⟩
  · have hsafe : SlotSafe (exec env m c) := exec_slotSafe hreg hslots
    exact ⟨fun herror => hsafe _ herror (.inl rfl), fun herror => hsafe _ herror (.inr rfl)⟩
  · exact (exec_slotChange h ha ha').fresh (hslots a ha) (hreg.agents a ha)
      ((exec_registered h hreg).agents a' ha') hnamed hnone hsome

end Session

section Sample

/-- The sample operator is given a blank slot for its limit, and is not refused over it. -/
theorem overlay_slots_in_order_operator :
    (∃ a i, operatedLedger.live = some a ∧
      a.overlay.slot i = Slot.fresh (sampleKey 9) 0) ∧
    ∀ env c, exec env operatedLedger c ≠ .error (.sigil .agentSlotNotFound) := by
  obtain ⟨as, hrun⟩ := run_withGrant
  obtain ⟨as', hrun'⟩ := run_operatedLedger
  have hbefore := overlay_slots_in_order genesis_emptyLedger hrun
  have hafter := overlay_slots_in_order genesis_emptyLedger hrun'
  have hstranger : (withGrant sampleLedger).live.any (fun a =>
      a.overlay.findAgentSlot (sampleKey 9) = none) = true := by decide +kernel
  have hlimit : operatedLedger.live.any (fun a =>
      (sampleKey 9, 500) ∈ a.vault.limits) = true := by decide +kernel
  obtain ⟨a, ha, hnone⟩ := (Option.any_eq_true _ _).mp hstranger
  obtain ⟨a', ha', hmem⟩ := (Option.any_eq_true _ _).mp hlimit
  obtain ⟨j, hj⟩ := (hafter.1 a' ha').limited _ _ (of_decide_eq_true hmem) (by decide)
  obtain ⟨i, hi⟩ := exists_findAgentSlot hj
  refine ⟨⟨a', i, ha', ?_⟩, fun env c => (hafter.2.1 env c).1⟩
  rcases hbefore.2.2 _ _ _ a a' _ i exec_operatedLedger ha ha' (by decide)
    (of_decide_eq_true hnone) hi with hfresh | ⟨_, _, _, _, hc, -⟩
  · exact hfresh
  · exact nomatch hc

end Sample

end Sigil
