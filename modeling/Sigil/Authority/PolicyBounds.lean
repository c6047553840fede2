import Sigil.Authority.PolicyVersion
import Sigil.Cosign.PendingUpdate
import Sigil.System.PolicyOrigin

/-! # The policy stays within its bounds

An update is checked when it is queued, against the policy of that time, and merged field by field
into the policy it meets when it is applied. Some of its fields are not checked again. The bounds of
the stored policy therefore rest on bounds of the update that is still pending.
-/

namespace Sigil

open Guard Trace

section Bounds

variable {D : Type}

structure PolicyConfig.InBounds (p : PolicyConfig D) : Prop where
  timelock : minTimelockDuration ≤ p.timelockDuration ∧ p.timelockDuration ≤ maxTimelockDuration
  sessionExpiry : 0 < p.sessionExpirySeconds → minSessionDurationSeconds ≤ p.sessionExpirySeconds ∧
    p.sessionExpirySeconds ≤ maxOwnerSessionDurationSeconds
  developerFee : p.developerFeeRate ≤ maxDeveloperFeeRate
  slippage : p.maxSlippageBps ≤ Sigil.maxSlippageBps
  operatingHours : p.operatingHours &&& ~~~operatingHoursValidMask = 0
  autoRevoke : autoRevokeThresholdMin ≤ p.autoRevokeThreshold ∧
    p.autoRevokeThreshold ≤ autoRevokeThresholdMax
  operatorDelay : p.operatorGrantDelaySeconds ≤ maxOperatorGrantDelay
  protocols : p.protocols.length ≤ maxAllowedProtocols
  destinations : p.allowedDestinations.length ≤ maxAllowedDestinations
  caps : p.hasProtocolCaps = true → p.protocolCaps.length = p.protocols.length

/-- The fields of an update that are checked only when it is queued. -/
structure PolicyUpdate.InBounds (u : PolicyUpdate D) : Prop where
  sessionExpiry : ∀ expiry ∈ u.sessionExpirySeconds, 0 < expiry →
    minSessionDurationSeconds ≤ expiry ∧ expiry ≤ maxOwnerSessionDurationSeconds
  developerFee : ∀ rate ∈ u.developerFeeRate, rate ≤ maxDeveloperFeeRate
  slippage : ∀ bps ∈ u.maxSlippageBps, bps ≤ Sigil.maxSlippageBps
  protocols : ∀ new ∈ u.protocols, new.length ≤ maxAllowedProtocols
  destinations : ∀ new ∈ u.allowedDestinations, new.length ≤ maxAllowedDestinations

/-- There is a protocol to trade with or a destination to pay, or the vault only observes. -/
def VaultAccounts.Armed (a : VaultAccounts D) : Prop :=
  a.vault.observeOnly = true ∨ a.policy.protocols ≠ [] ∨ a.policy.allowedDestinations ≠ []

variable {p p' merged : PolicyConfig D} {clock : Clock} {owner : Pubkey}
  {pending : PendingPolicyUpdate D}

theorem lt_of_operatingHours {hours : UInt32}
    (h : hours &&& ~~~operatingHoursValidMask = 0) : hours.toNat < 2 ^ 24 := by
  have hmask : ∀ i < 32, 24 ≤ i → (~~~operatingHoursValidMask).toNat.testBit i = true := by
    decide
  refine Nat.lt_pow_two_of_testBit _ fun i hi => ?_
  by_cases hwidth : i < 32
  · have hbit := congrArg (fun x : UInt32 => x.toNat.testBit i) h
    simp only [UInt32.toNat_and, Nat.testBit_and, hmask i hwidth hi, Bool.and_true,
      UInt32.toNat_zero, Nat.zero_testBit] at hbit
    exact hbit
  · refine Nat.testBit_lt_two_pow (lt_of_lt_of_le hours.toNat_lt ?_)
    exact Nat.pow_le_pow_right (by decide) (by omega)

theorem PolicyConfig.InBounds.applyUpdate (hp : p.InBounds) (hu : pending.update.InBounds)
    (h : applyUpdate clock owner p pending = .ok merged) : merged.InBounds := by
  simp only [Sigil.applyUpdate, seq_ok_iff, ensure_ok_iff, exists_and_left, exists_const,
    pure_ok_iff] at h
  obtain ⟨hmin, hmax, graylist, -, hcaps, -, hhours, hdelay, -, -, -, -, -, -, rfl⟩ := h
  exact {
    timelock := ⟨merged_of_forall (P := (minTimelockDuration ≤ ·)) hp.timelock.1 hmin,
      merged_of_forall (P := (· ≤ maxTimelockDuration)) hp.timelock.2 hmax⟩
    sessionExpiry := merged_of_forall hp.sessionExpiry hu.sessionExpiry
    developerFee := merged_of_forall (P := (· ≤ maxDeveloperFeeRate)) hp.developerFee
      hu.developerFee
    slippage := merged_of_forall (P := (· ≤ Sigil.maxSlippageBps)) hp.slippage hu.slippage
    operatingHours := merged_of_forall (P := fun hours => hours &&& ~~~operatingHoursValidMask = 0)
      hp.operatingHours hhours
    autoRevoke := hp.autoRevoke
    operatorDelay := merged_of_forall (P := (· ≤ maxOperatorGrantDelay)) hp.operatorDelay hdelay
    protocols := merged_of_forall (P := fun new : List Pubkey => new.length ≤ maxAllowedProtocols)
      hp.protocols hu.protocols
    destinations := merged_of_forall
      (P := fun new : List Pubkey => new.length ≤ maxAllowedDestinations)
      hp.destinations hu.destinations
    caps := hcaps }

theorem length_graylistDestination {unlockUnix : ℤ} {destination : Pubkey}
    {graylist graylist' : List DestinationGraylistEntry}
    (hroom : graylist.length ≤ maxAllowedDestinations)
    (h : graylistDestination graylist unlockUnix destination = .ok graylist') :
    graylist'.length ≤ maxAllowedDestinations := by
  unfold graylistDestination at h
  split at h
  · cases h
    rwa [List.length_modify]
  · simp only [seq_ok_iff, ensure_ok_iff, exists_const, pure_ok_iff] at h
    obtain ⟨hlt, rfl⟩ := h
    rw [List.length_append, List.length_singleton]
    exact hlt

theorem length_applyUpdate (h : applyUpdate clock owner p pending = .ok merged)
    (hroom : p.destinationGraylist.length ≤ maxAllowedDestinations) :
    merged.destinationGraylist.length ≤ maxAllowedDestinations := by
  obtain ⟨graylist, hgraylist, rfl, -⟩ := applyUpdate_ok h
  change graylist.length ≤ maxAllowedDestinations
  cases hdestinations : pending.update.allowedDestinations with
  | none =>
    rw [hdestinations] at hgraylist
    cases hgraylist
    exact hroom
  | some new =>
    rw [hdestinations, graylistNewDestinations, seq_ok_iff] at hgraylist
    obtain ⟨unlockUnix, -, hloop⟩ := hgraylist
    exact foldlM_invariant (P := fun graylist => graylist.length ≤ maxAllowedDestinations) hloop
      (fun _ _ _ => length_graylistDestination) hroom

theorem promoteGraylistDestination_destinations {env : Env} {remaining : List AccountMeta}
    {destination : Pubkey} {l l' : Ledger D}
    (h : promoteGraylistDestination env owner remaining destination l = .ok l') :
    ∃ a a' : VaultAccounts D, l.live = some a ∧ l'.live = some a' ∧
      a'.policy.destinationGraylist.map DestinationGraylistEntry.destination =
        a.policy.destinationGraylist.map DestinationGraylistEntry.destination := by
  simp only [promoteGraylistDestination, seq_ok_iff, Ledger.loadAsOwner_ok_iff, rejectCpi_ok_iff,
    ensure_ok_iff, VaultAccounts.cosignGate_ok_iff, exists_and_left, exists_const,
    pure_ok_iff] at h
  obtain ⟨a, ⟨ha, -⟩, -, -, -, -, -, rfl⟩ := h
  exact ⟨a, _, ha, rfl, FirstMatch.map_modifyFirst DestinationGraylistEntry.destination
    fun e _ => destination_moved _ e⟩

theorem PolicyConfig.InBounds.handOver {a : VaultAccounts D} (h : a.policy.InBounds)
    (newOwner : Pubkey) : (a.handOver newOwner).policy.InBounds := by
  unfold VaultAccounts.handOver PolicyConfig.collapseCosigner
  split
  · exact ⟨h.timelock, h.sessionExpiry, h.developerFee, h.slippage, h.operatingHours,
      h.autoRevoke, h.operatorDelay, h.protocols, h.destinations, h.caps⟩
  · exact h

variable [Host D]

theorem PolicyConfig.inBounds_core : p.core.InBounds ↔ p.InBounds :=
  ⟨fun h => ⟨h.timelock, h.sessionExpiry, h.developerFee, h.slippage, h.operatingHours,
      h.autoRevoke, h.operatorDelay, h.protocols, h.destinations, h.caps⟩,
    fun h => ⟨h.timelock, h.sessionExpiry, h.developerFee, h.slippage, h.operatingHours,
      h.autoRevoke, h.operatorDelay, h.protocols, h.destinations, h.caps⟩⟩

theorem PolicyConfig.InBounds.of_core (h : p.InBounds) (hcore : p'.core = p.core) :
    p'.InBounds := by
  rw [← inBounds_core] at h ⊢
  rwa [hcore]

theorem VaultAccounts.Armed.of_core {a a' : VaultAccounts D} (h : a.Armed)
    (hcore : a'.policy.core = a.policy.core)
    (hobserve : a'.vault.observeOnly = a.vault.observeOnly) : a'.Armed := by
  change a'.vault.observeOnly = true ∨ a'.policy.core.protocols ≠ [] ∨
    a'.policy.core.allowedDestinations ≠ []
  rw [hcore, hobserve]
  exact h

end Bounds

section Checks

variable {D : Type} [Host D] [DecidableEq D] {env : Env} {owner : Pubkey} {l l' : Ledger D}

theorem initializeVault_inBounds {feeDestination : Pubkey} {args : InitializeVaultArgs D}
    (h : initializeVault env owner feeDestination args l = .ok l') :
    let a := args.newAccounts l.vaultKey owner feeDestination env.clock.slot
    a.policy.InBounds ∧ a.Armed := by
  simp only [initializeVault, seq_ok_iff, require_ok_iff, mustBeNew_ok_iff, rejectCpi_ok_iff,
    ensure_ok_iff, exists_and_left, exists_const, pure_ok_iff] at h
  obtain ⟨-, -, -, -, hhours, hrevoke, hprotocols, hfee, hslippage, -, hdests, hmin, hmax, -,
    hcaps, harmed, -⟩ := h
  have hdelay : (0 : UInt64) ≤ maxOperatorGrantDelay := by decide
  refine ⟨⟨⟨hmin, hmax⟩, fun hpos => absurd hpos (UInt64.lt_irrefl 0), hfee, hslippage, hhours,
    hrevoke, hdelay, hprotocols, hdests, fun hswitch => hcaps (of_decide_eq_true hswitch)⟩, ?_⟩
  cases hobserve : args.observeOnly with
  | true => exact .inl hobserve
  | false => exact .inr (harmed hobserve)

theorem queuePolicyUpdate_inBounds {u : PolicyUpdate D} {cosignSession : Pubkey} {digest : D}
    (h : queuePolicyUpdate env owner u cosignSession digest l = .ok l') : u.InBounds := by
  obtain ⟨a, -, hvalid⟩ := queuePolicyUpdate_valid h
  simp only [validateUpdate, seq_ok_iff, ensure_ok_iff, exists_and_left, exists_const] at hvalid
  obtain ⟨-, -, -, hprotocols, hfee, hslippage, hdests, -, -, -, -, -, hexpiry, -⟩ := hvalid
  exact ⟨hexpiry, hfee, hslippage, hprotocols, hdests⟩

omit [DecidableEq D] in
theorem setObserveOnly_armed {remaining : List AccountMeta} {newValue : Bool}
    (h : setObserveOnly env owner remaining newValue l = .ok l') : ∀ a ∈ l'.live, a.Armed := by
  simp only [setObserveOnly, seq_ok_iff, Ledger.loadAsOwner_ok_iff, rejectCpi_ok_iff,
    ensure_ok_iff, VaultAccounts.reseal_ok_iff, exists_and_left, exists_const, pure_ok_iff] at h
  obtain ⟨a, -, -, -, -, hlists, sealed, ⟨version, -, rfl⟩, rfl⟩ := h
  rintro _ ⟨⟩
  cases newValue with
  | true => exact .inl rfl
  | false => exact .inr (hlists rfl)

theorem applyPendingPolicy_armed (h : applyPendingPolicy env owner l = .ok l') :
    ∀ a ∈ l'.live, a.Armed := by
  simp only [applyPendingPolicy, VaultAccounts.nextVersion, ensureFits, seq_ok_iff,
    Ledger.loadAsOwner_ok_iff, mustExist_ok_iff, require_ok_iff, rejectCpi_ok_iff, ensure_ok_iff,
    someOr_ok_iff, exists_and_left, exists_const, pure_ok_iff] at h
  obtain ⟨a, -, pending, -, -, -, -, -, -, -, -, -, -, merged, -, harmed, -, version, -, -, rfl⟩ :=
    h
  rintro _ ⟨⟩
  exact harmed

end Checks

section Invariant

variable {D : Type} [Host D]

structure Ledger.PolicyInOrder (l : Ledger D) : Prop where
  bounds : ∀ a ∈ l.live, a.policy.InBounds
  graylist : ∀ a ∈ l.live, a.policy.destinationGraylist.length ≤ maxAllowedDestinations
  armed : ∀ a ∈ l.live, a.Armed
  pending : ∀ p ∈ l.pendingPolicy, p.update.InBounds
  marked : l.pendingPolicy.isSome = l.live.any fun a => a.policy.hasPendingPolicy

variable [DecidableEq D] {env : Env} {c : Call D} {l l' : Ledger D}

theorem exec_inBounds (h : exec env l c = .ok l') (hl : l.PolicyInOrder) :
    ∀ a ∈ l'.live, a.policy.InBounds := by
  intro a' ha'
  cases exec_policyOrigin h ha' with
  | kept ha hcore => exact (hl.bounds _ ha).of_core hcore
  | created _ _ _ ha' =>
    rw [ha']
    exact (initializeVault_inBounds h).1
  | applied ha _ hpending hmerged hcore =>
    exact ((hl.bounds _ ha).applyUpdate (hl.pending _ hpending) hmerged).of_core hcore
  | @handedOver newOwner _ _ ha ha' =>
    rw [ha']
    exact ((hl.bounds _ ha).handOver newOwner).of_core rfl

theorem exec_graylistRoom (h : exec env l c = .ok l') (hl : l.PolicyInOrder) :
    ∀ a ∈ l'.live, a.policy.destinationGraylist.length ≤ maxAllowedDestinations := by
  intro a' ha'
  by_cases hwrites : Part.graylist ∉ c.writes
  · obtain ⟨a, ha, hsame⟩ := (exec_frame h hwrites).exists_before ha'
    rw [hsame]
    exact hl.graylist a ha
  cases c <;> simp [Call.writes, Part.ofVault] at hwrites
  case initializeVault =>
    obtain ⟨-, -, -, -, -, -, rfl⟩ := initializeVault_ok h
    cases ha'
    exact Nat.zero_le _
  case closeVault =>
    obtain ⟨a, -, -, -, -, -, rfl⟩ := closeVault_ok h
    cases ha'
  case applyPendingPolicy =>
    obtain ⟨a, pending, merged, _, version, ha, -, -, -, -, hmerged, -, -, rfl, -, rfl⟩ :=
      applyPendingPolicy_ok h
    cases ha'
    change merged.destinationGraylist.length ≤ maxAllowedDestinations
    exact length_applyUpdate hmerged (hl.graylist a ha)
  case promoteGraylistDestination =>
    obtain ⟨a, b, ha, hb, hsame⟩ := promoteGraylistDestination_destinations h
    cases ha'.symm.trans hb
    have hlength := congrArg List.length hsame
    rw [List.length_map, List.length_map] at hlength
    rw [hlength]
    exact hl.graylist a ha

/-- Whatever empties both lists or ends the observing checks that the other has not happened. -/
theorem exec_armed (h : exec env l c = .ok l') (hl : ∀ a ∈ l.live, a.Armed) :
    ∀ a ∈ l'.live, a.Armed := by
  intro a' ha'
  by_cases hobserve : Part.observeOnly ∈ c.writes
  · cases c <;> simp [Call.writes, Part.ofVault] at hobserve
    case initializeVault =>
      have harmed := (initializeVault_inBounds h).2
      obtain ⟨-, -, -, -, -, -, rfl⟩ := initializeVault_ok h
      cases ha'
      exact harmed
    case closeVault =>
      obtain ⟨a, -, -, -, -, -, rfl⟩ := closeVault_ok h
      cases ha'
    case setObserveOnly => exact setObserveOnly_armed h a' ha'
  · obtain ⟨a, ha, hkept⟩ := (exec_frame h hobserve).exists_before ha'
    cases exec_policyOrigin h ha' with
    | kept hb hcore =>
      cases ha.symm.trans hb
      exact (hl a ha).of_core hcore hkept
    | created => simp [Call.writes, Part.ofVault] at hobserve
    | applied => exact applyPendingPolicy_armed h a' ha'
    | @handedOver newOwner b _ hb heq =>
      rw [heq]
      have hlists : (b.handOver newOwner).Armed := by
        unfold VaultAccounts.handOver PolicyConfig.collapseCosigner
        split <;> exact hl b hb
      exact hlists.of_core rfl rfl

theorem exec_pendingUpdate (h : exec env l c = .ok l') {p : PendingPolicyUpdate D}
    (hp : l'.pendingPolicy = some p) :
    (∃ q, l.pendingPolicy = some q ∧ p.update = q.update) ∨
      ∃ owner cosignSession digest,
        c = .queuePolicyUpdate owner p.update cosignSession digest := by
  by_cases hc : c.isRoutine = true
  · obtain ⟨-, -, -, -, -, hsame⟩ := exec_routine h hc
    exact .inl ⟨p, hsame ▸ hp, rfl⟩
  cases c <;> simp [Call.isRoutine] at hc
  case initializeVault =>
    obtain ⟨-, -, -, -, -, -, rfl⟩ := initializeVault_ok h
    exact .inl ⟨p, hp, rfl⟩
  case closeVault =>
    obtain ⟨a, -, -, -, -, -, rfl⟩ := closeVault_ok h
    unfold closedLedger at hp
    dsimp only at hp
    split at hp
    · cases hp
    · exact .inl ⟨p, hp, rfl⟩
  case queuePolicyUpdate owner u cosignSession digest =>
    obtain ⟨a, bound, -, -, -, -, -, -, rfl⟩ := queuePolicyUpdate_ok h
    cases hp
    exact .inr ⟨owner, cosignSession, digest, rfl⟩
  case approvePendingPolicy =>
    obtain ⟨a, pending, -, hpending, -, -, -, -, -, rfl⟩ := approvePendingPolicy_ok h
    cases hp
    exact .inl ⟨pending, hpending, rfl⟩
  case cancelPendingPolicy =>
    obtain ⟨a, -, -, rfl⟩ := cancelPendingPolicy_ok h
    cases hp
  case applyPendingPolicy =>
    obtain ⟨a, pending, merged, applied, version, -, -, -, -, -, -, -, -, -, -, rfl⟩ :=
      applyPendingPolicy_ok h
    cases hp
  case acceptOwnershipTransfer =>
    obtain ⟨a, pending, version, -, -, -, -, rfl⟩ := acceptOwnershipTransfer_ok h
    exact .inl ⟨p, hp, rfl⟩

theorem exec_pendingInBounds (h : exec env l c = .ok l') (hl : l.PolicyInOrder) :
    ∀ p ∈ l'.pendingPolicy, p.update.InBounds := by
  intro p hp
  rcases exec_pendingUpdate h hp with ⟨q, hq, hsame⟩ | ⟨owner, cosignSession, digest, rfl⟩
  · rw [hsame]
    exact hl.pending q hq
  · exact queuePolicyUpdate_inBounds h

theorem exec_marked (h : exec env l c = .ok l') (hl : l.PolicyInOrder) :
    l'.pendingPolicy.isSome = l'.live.any fun a => a.policy.hasPendingPolicy := by
  have hmarked := hl.marked
  by_cases hc : c.isRoutine = true
  · obtain ⟨a, a', ha, ha', hkeeps, hsame⟩ := exec_routine h hc
    rw [ha] at hmarked
    rw [hsame, hmarked, ha', Option.any_some, Option.any_some, hkeeps.pending]
  cases c <;> simp [Call.isRoutine] at hc
  case initializeVault =>
    obtain ⟨hnew, -, -, -, -, -, rfl⟩ := initializeVault_ok h
    rw [hnew] at hmarked
    exact hmarked
  case closeVault =>
    obtain ⟨a, ha, -, -, -, -, rfl⟩ := closeVault_ok h
    rw [ha, Option.any_some] at hmarked
    unfold closedLedger
    dsimp only
    split
    · rfl
    · rename_i hclear
      rw [hmarked, Bool.eq_false_iff.mpr hclear]
      rfl
  case queuePolicyUpdate =>
    obtain ⟨a, bound, -, -, -, -, -, -, rfl⟩ := queuePolicyUpdate_ok h
    rfl
  case approvePendingPolicy =>
    obtain ⟨a, pending, ha, hpending, -, -, -, -, -, rfl⟩ := approvePendingPolicy_ok h
    rw [hpending] at hmarked
    exact hmarked
  case cancelPendingPolicy =>
    obtain ⟨a, -, -, rfl⟩ := cancelPendingPolicy_ok h
    rfl
  case applyPendingPolicy =>
    obtain ⟨a, pending, merged, applied, version, -, -, -, -, -, -, -, -, rfl, -, rfl⟩ :=
      applyPendingPolicy_ok h
    rfl
  case acceptOwnershipTransfer =>
    obtain ⟨a, pending, version, ha, -, -, -, rfl⟩ := acceptOwnershipTransfer_ok h
    rw [ha] at hmarked
    unfold VaultAccounts.handOver PolicyConfig.collapseCosigner
    split <;> exact hmarked

theorem exec_policyInOrder (h : exec env l c = .ok l') (hl : l.PolicyInOrder) :
    l'.PolicyInOrder :=
  ⟨exec_inBounds h hl, exec_graylistRoom h hl, exec_armed h hl.armed, exec_pendingInBounds h hl,
    exec_marked h hl⟩

theorem run_policyInOrder {l₀ : Ledger D} {as : List (Action D)} (h₀ : l₀.Genesis)
    (hreach : Run Step l₀ as l) : l.PolicyInOrder := by
  refine hreach.invariant (P := Ledger.PolicyInOrder) ?_ ?_
  · intro m x m' hm hstep
    cases hstep with
    | call hexec => exact exec_policyInOrder hexec hm
    | foreign => exact ⟨hm.bounds, hm.graylist, hm.armed, hm.pending, hm.marked⟩
  · constructor <;> simp [h₀.live, h₀.pendingPolicy]

theorem LivesThrough.identity {as : List (Action D)} (h : LivesThrough l as l')
    {a a' : VaultAccounts D} (ha : l.live = some a) (ha' : l'.live = some a') :
    a'.identity = a.identity := by
  have hkept : l'.live.map VaultAccounts.identity = l.live.map VaultAccounts.identity := by
    refine Run.invariant (P := fun m => m.live.map VaultAccounts.identity =
      l.live.map VaultAccounts.identity) h ?_ rfl
    rintro m x m' hm ⟨hstep, hlive, hlive'⟩
    obtain ⟨b, hb⟩ := Option.isSome_iff_exists.mp hlive
    obtain ⟨b', hb'⟩ := Option.isSome_iff_exists.mp hlive'
    cases hstep with
    | call hexec => rw [← hm, hb, hb', Option.map_some, Option.map_some, exec_identity hexec hb hb']
    | foreign => exact hm
  simpa [ha, ha'] using hkept

/-- In every reachable state the policy is well formed, and as long as the vault lives it keeps the
authority, the number, the fee destination and the slot it was created with. -/
theorem policy_well_formed {l₀ : Ledger D} {as : List (Action D)} (h₀ : l₀.Genesis)
    (hreach : Run Step l₀ as l) {a : VaultAccounts D} (ha : l.live = some a) :
    (1800 ≤ a.policy.timelockDuration.toNat ∧ a.policy.timelockDuration.toNat ≤ 172800) ∧
    (a.policy.sessionExpirySeconds.toNat = 0 ∨
      5 ≤ a.policy.sessionExpirySeconds.toNat ∧ a.policy.sessionExpirySeconds.toNat ≤ 90) ∧
    a.policy.developerFeeRate.toNat ≤ 500 ∧
    a.policy.maxSlippageBps ≤ maxSlippageBps ∧
    a.policy.operatingHours.toNat < 2 ^ 24 ∧
    (3 ≤ a.policy.autoRevokeThreshold.toNat ∧ a.policy.autoRevokeThreshold.toNat ≤ 20) ∧
    a.policy.operatorGrantDelaySeconds.toNat ≤ 172800 ∧
    (a.policy.protocols.length ≤ 10 ∧ a.policy.allowedDestinations.length ≤ 10 ∧
      a.policy.destinationGraylist.length ≤ 10) ∧
    (a.policy.hasProtocolCaps = true →
      a.policy.protocolCaps.length = a.policy.protocols.length) ∧
    (a.vault.status = .active → a.vault.observeOnly = false →
      a.policy.protocols ≠ [] ∨ a.policy.allowedDestinations ≠ []) ∧
    (a.policy.hasPendingPolicy = true ↔ ∃ pending, l.pendingPolicy = some pending) ∧
    ∀ bs l' a', LivesThrough l bs l' → l'.live = some a' →
      a'.vault.vaultAuthority = a.vault.vaultAuthority ∧ a'.vault.vaultId = a.vault.vaultId ∧
      a'.vault.feeDestination = a.vault.feeDestination ∧
      a'.policy.createdAtSlot = a.policy.createdAtSlot := by
  have horder := run_policyInOrder h₀ hreach
  have hbounds := horder.bounds a ha
  have hexpiry : a.policy.sessionExpirySeconds.toNat = 0 ∨
      5 ≤ a.policy.sessionExpirySeconds.toNat ∧ a.policy.sessionExpirySeconds.toNat ≤ 90 := by
    rcases Nat.eq_zero_or_pos a.policy.sessionExpirySeconds.toNat with hzero | hpos
    · exact .inl hzero
    · exact .inr (hbounds.sessionExpiry (UInt64.lt_iff_toNat_lt.mpr hpos))
  refine ⟨hbounds.timelock, hexpiry, hbounds.developerFee, hbounds.slippage,
    lt_of_operatingHours hbounds.operatingHours, hbounds.autoRevoke, hbounds.operatorDelay,
    ⟨hbounds.protocols, hbounds.destinations, horder.graylist a ha⟩, hbounds.caps, ?_, ?_, ?_⟩
  · intro _ hexecutes
    exact (horder.armed a ha).resolve_left (Bool.eq_false_iff.mp hexecutes)
  · have hmarked := horder.marked
    rw [ha, Option.any_some] at hmarked
    rw [← hmarked, Option.isSome_iff_exists]
  · intro bs l' a' hlives ha'
    have hidentity := hlives.identity ha ha'
    simp only [VaultAccounts.identity, Prod.mk.injEq] at hidentity
    exact hidentity

end Invariant

section Sample

theorem policy_well_formed_applied : ∃ a a', enablingLedger.live = some a ∧
    (∃ pending, enablingLedger.pendingPolicy = some pending) ∧ a.policy.hasPendingPolicy = true ∧
    cosignedLedger.live = some a' ∧ a'.vault.vaultId = a.vault.vaultId ∧
    a'.policy.timelockDuration.toNat ≤ 172800 ∧ a'.policy.operatingHours.toNat < 2 ^ 24 := by
  have hpending : enablingLedger.pendingPolicy.isSome = true := by decide +kernel
  have hqueued : enablingLedger.live.isSome = true := by decide +kernel
  have happlied : cosignedLedger.live.isSome = true := by decide +kernel
  obtain ⟨a, ha⟩ := Option.isSome_iff_exists.mp hqueued
  obtain ⟨a', ha'⟩ := Option.isSome_iff_exists.mp happlied
  have hreach := (Run.single step_sampleInitialize).snoc step_enablingLedger
  obtain ⟨-, -, -, -, -, -, -, -, -, -, hmark, hkept⟩ :=
    policy_well_formed genesis_emptyLedger hreach ha
  obtain ⟨htimelock, -, -, -, hhours, -⟩ :=
    policy_well_formed genesis_emptyLedger (hreach.snoc step_cosignedLedger) ha'
  obtain ⟨-, hid, -⟩ := hkept _ _ _ (Run.single ⟨step_cosignedLedger, hqueued, happlied⟩) ha'
  have hexists := Option.isSome_iff_exists.mp hpending
  exact ⟨a, a', ha, hexists, hmark.mpr hexists, ha', hid, htimelock.2, hhours⟩

end Sample

end Sigil
