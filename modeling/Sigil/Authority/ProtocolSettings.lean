import Sigil.Cosign.SilentCosigner

/-! # The settings of a protocol

The build hashes and the caps of the protocols are arrays beside the list of protocols, and a
protocol is looked up by its first position. An update that gives a new list and no new array leaves
the array where it is, so a setting belongs to a position and not to a protocol. A cosigned policy
is protected from what this could take away: without the cosigner no gate is disarmed and no cap
weakened.
-/

namespace Sigil

open Guard Trace

section Lookup

variable {D : Type} [Host D] {p q : PolicyConfig D} {protocol : Pubkey} {i : ℕ}

theorem buildHash_of_index (h : p.protocolIndex protocol = some i) :
    p.buildHash protocol = p.hashAt i := by
  simp only [PolicyConfig.buildHash, h]

omit [Host D] in
theorem getProtocolCap_of_index (hon : p.hasProtocolCaps = true)
    (h : p.protocolIndex protocol = some i) : p.getProtocolCap protocol = some (p.capAt i) := by
  simp only [PolicyConfig.getProtocolCap, hon, if_true, h, Option.map_some]

theorem enforceVerifiedBuildIfArmed_congr [DecidableEq D] (hp : protocol ∈ p.protocols)
    (hq : protocol ∈ q.protocols) (h : p.buildHash protocol = q.buildHash protocol) (env : Env)
    (l : Ledger D) (remaining : List AccountMeta) :
    enforceVerifiedBuildIfArmed env l p protocol remaining =
      enforceVerifiedBuildIfArmed env l q protocol remaining := by
  obtain ⟨i, hi⟩ := PolicyConfig.exists_protocolIndex hp
  obtain ⟨j, hj⟩ := PolicyConfig.exists_protocolIndex hq
  rw [buildHash_of_index hi, buildHash_of_index hj] at h
  unfold enforceVerifiedBuildIfArmed
  rw [hi, hj]
  simp only [someOr, okOr, ok_seq, h]

end Lookup

section Apply

variable {D : Type} [Host D] [DecidableEq D]

/-- The gate of a protocol that moved from position `i` to position `j`. -/
structure HashFollows (live applied : PolicyConfig D) (uncosigned : Prop) (protocol : Pubkey)
    (i j : ℕ) : Prop where
  before : live.buildHash protocol = live.hashAt i
  after : applied.buildHash protocol = live.hashAt j
  gate : live.hashAt j = live.hashAt i → ∀ env l remaining,
    enforceVerifiedBuildIfArmed env l applied protocol remaining =
      enforceVerifiedBuildIfArmed env l live protocol remaining
  armed : uncosigned → live.buildHash protocol ≠ Host.zeroDigest →
    applied.buildHash protocol ≠ Host.zeroDigest

/-- The cap of a protocol that moved from position `i` to position `j`. -/
structure CapFollows (live applied : PolicyConfig D) (uncosigned : Prop) (protocol : Pubkey)
    (i j : ℕ) : Prop where
  before : live.getProtocolCap protocol = some (live.capAt i)
  after : applied.getProtocolCap protocol = some (live.capAt j)
  bound : uncosigned → capBound (live.capAt j) ≤ capBound (live.capAt i)

variable {l₀ l l' : Ledger D} {as : List (Action D)} {env : Env} {owner : Pubkey}

theorem noWeaker_of_uncosigned {live : VaultAccounts D} {pending : PendingPolicyUpdate D}
    (h₀ : l₀.Genesis) (hrun : Run Step l₀ as l) (hlive : l.live = some live)
    (hpending : l.pendingPolicy = some pending) (hreq : live.policy.cosignRequired = true)
    (hfree : ¬ pending.isElevated) :
    PolicyConfig.NoWeaker (live.policy.merge pending.update) live.policy := by
  refine PolicyConfig.noWeaker_merge hreq (Bool.eq_false_iff.mpr fun helevated => hfree ?_)
  exact (Ledger.Staged.of_run h₀ hrun).classified live hlive pending hpending hreq helevated

/-- Whenever an update with a new list of protocols takes effect, a protocol of both lists has the
setting that the array holds at its new position, unless the update brings an array of its own. -/
theorem settings_follow_position (h₀ : l₀.Genesis) (hrun : Run Step l₀ as l)
    (happly : exec env l (.applyPendingPolicy owner) = .ok l') :
    ∃ live pending applied, l.live = some live ∧ l.pendingPolicy = some pending ∧
      l'.live = some applied ∧ ∀ new, pending.update.protocols = some new →
      ∀ protocol ∈ new, protocol ∈ live.policy.protocols →
      ∃ i j, live.policy.protocolIndex protocol = some i ∧
        applied.policy.protocolIndex protocol = some j ∧
        let uncosigned := live.policy.cosignRequired = true ∧ ¬ pending.isElevated
        (pending.update.protocolHashes = none →
          HashFollows live.policy applied.policy uncosigned protocol i j) ∧
        (pending.update.protocolCaps = none → live.policy.hasProtocolCaps = true →
          applied.policy.hasProtocolCaps = true →
          CapFollows live.policy applied.policy uncosigned protocol i j) := by
  obtain ⟨live, pending, merged, applied, version, hlive, -, hpending, -, -, hmerge, -, -, rfl, -,
    rfl⟩ := applyPendingPolicy_ok happly
  obtain ⟨graylist, -, rfl, -⟩ := applyUpdate_ok hmerge
  refine ⟨live, pending, _, hlive, hpending, rfl, fun new hnew protocol hprotocol hold => ?_⟩
  have hmember : protocol ∈ (live.policy.merge pending.update).protocols := by
    simpa only [PolicyConfig.merge, hnew, Option.getD_some] using hprotocol
  obtain ⟨i, hi⟩ := PolicyConfig.exists_protocolIndex hold
  obtain ⟨j, hj⟩ := PolicyConfig.exists_protocolIndex hmember
  have hguards := noWeaker_of_uncosigned h₀ hrun hlive hpending
  refine ⟨i, j, hi, hj, fun hnone => ?_, fun hnone hon hstays => ?_⟩
  · -- the merged policy differs from the applied one in fields that no lookup reads
    have harray : (live.policy.merge pending.update).hashAt j = live.policy.hashAt j := by
      simp only [PolicyConfig.hashAt, PolicyConfig.merge, hnone, Option.getD_none]
    have hbefore := buildHash_of_index hi
    have hafter := (buildHash_of_index hj).trans harray
    exact ⟨hbefore, hafter, fun hsame => enforceVerifiedBuildIfArmed_congr hmember hold
      (hafter.trans (hsame.trans hbefore.symm)),
      fun hun => (hguards hun.1 hun.2).buildHashes protocol hmember⟩
  · have harray : (live.policy.merge pending.update).capAt j = live.policy.capAt j := by
      simp only [PolicyConfig.capAt, PolicyConfig.merge, hnone, Option.getD_none]
    have hbefore := getProtocolCap_of_index hon hi
    have hafter := getProtocolCap_of_index hstays hj
    refine ⟨hbefore, hafter.trans (congrArg some harray), fun hun => ?_⟩
    have hle := (hguards hun.1 hun.2).protocolCaps protocol hmember
    simp only [PolicyConfig.protocolBound, hbefore] at hle
    rw [← harray]
    have hcap : (live.policy.merge pending.update).getProtocolCap protocol =
        some ((live.policy.merge pending.update).capAt j) := hafter
    rwa [hcap] at hle

end Apply

section Sample

def pinBuild : PolicyUpdate Preimage :=
  { (PolicyUpdate.none : PolicyUpdate Preimage) with
    protocols := some [sampleKey 2, sampleKey 6]
    protocolHashes := some fun i => if i.val = 0 then Preimage.mk [1] else Host.zeroDigest }

def swapProtocols : PolicyUpdate Preimage :=
  { PolicyUpdate.none with protocols := some [sampleKey 6, sampleKey 2] }

def pinningLedger : Ledger Preimage :=
  after (sampleEnv 2000 8) sampleLedger (sampleQueue sampleLedger pinBuild Pubkey.default)

def pinnedLedger : Ledger Preimage :=
  after (sampleEnv 3800 9) pinningLedger (.applyPendingPolicy (sampleKey 1))

def swappingLedger : Ledger Preimage :=
  after (sampleEnv 4000 10) pinnedLedger (sampleQueue pinnedLedger swapProtocols Pubkey.default)

def swappedProtocolsLedger : Ledger Preimage :=
  after (sampleEnv 5800 11) swappingLedger (.applyPendingPolicy (sampleKey 1))

theorem run_swappingLedger : ∃ as, Run Step emptyLedger as swappingLedger := by
  have hpinning : Step sampleLedger (.call (sampleEnv 2000 8)
      (sampleQueue sampleLedger pinBuild Pubkey.default)) pinningLedger :=
    .after (by decide +kernel)
  have hpinned : Step pinningLedger (.call (sampleEnv 3800 9) (.applyPendingPolicy (sampleKey 1)))
      pinnedLedger := .after (by decide +kernel)
  have hswapping : Step pinnedLedger (.call (sampleEnv 4000 10)
      (sampleQueue pinnedLedger swapProtocols Pubkey.default)) swappingLedger :=
    .after (by decide +kernel)
  exact ⟨_, (((Run.single step_sampleInitialize).snoc hpinning).snoc hpinned).snoc hswapping⟩

theorem exec_swappedProtocolsLedger : exec (sampleEnv 5800 11) swappingLedger
    (.applyPendingPolicy (sampleKey 1)) = .ok swappedProtocolsLedger :=
  exec_after (by decide +kernel)

theorem swappingLedger_pending :
    (∀ pending ∈ swappingLedger.pendingPolicy, pending.update.protocols =
      some [sampleKey 6, sampleKey 2] ∧ pending.update.protocolHashes.isNone = true) ∧
    ∀ live ∈ swappingLedger.live, sampleKey 2 ∈ live.policy.protocols := by
  decide +kernel

theorem settings_follow_position_swap :
    ∃ live pending applied i j, swappingLedger.live = some live ∧
      swappingLedger.pendingPolicy = some pending ∧
      swappedProtocolsLedger.live = some applied ∧
      applied.policy.protocolIndex (sampleKey 2) = some j ∧
      HashFollows live.policy applied.policy
        (live.policy.cosignRequired = true ∧ ¬ pending.isElevated) (sampleKey 2) i j := by
  obtain ⟨as, hrun⟩ := run_swappingLedger
  obtain ⟨live, pending, applied, hlive, hpending, happlied, hall⟩ :=
    settings_follow_position genesis_emptyLedger hrun exec_swappedProtocolsLedger
  obtain ⟨hnew, hnone⟩ := swappingLedger_pending.1 pending hpending
  obtain ⟨i, j, -, hj, hhash, -⟩ := hall _ hnew (sampleKey 2) (by decide)
    (swappingLedger_pending.2 live hlive)
  exact ⟨live, pending, applied, i, j, hlive, hpending, happlied, hj,
    hhash (Option.isNone_iff_eq_none.mp hnone)⟩

/-- A protocol on the old list and on the new one loses its pinned build. -/
theorem swap_disarms_build :
    (∃ as, Run Step emptyLedger as swappingLedger) ∧
      exec (sampleEnv 5800 11) swappingLedger (.applyPendingPolicy (sampleKey 1)) =
        .ok swappedProtocolsLedger ∧
      (swappingLedger.pendingPolicy.any fun pending =>
        pending.update.protocols = some [sampleKey 6, sampleKey 2] ∧
          pending.update.protocolHashes.isNone) = true ∧
      (swappingLedger.live.any fun live => sampleKey 2 ∈ live.policy.protocols ∧
        live.policy.buildHash (sampleKey 2) = ⟨[1]⟩) = true ∧
      (swappedProtocolsLedger.live.any fun applied => sampleKey 2 ∈ applied.policy.protocols ∧
        applied.policy.buildHash (sampleKey 2) = Host.zeroDigest) = true :=
  ⟨run_swappingLedger, exec_swappedProtocolsLedger, by decide +kernel, by decide +kernel,
    by decide +kernel⟩

end Sample

end Sigil
