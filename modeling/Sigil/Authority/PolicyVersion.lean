import Sigil.Session.Outflow
import Sigil.System.Frame

/-! # The policy version

Every instruction that changes what an agent may do counts the policy version up. An agent names
the version it has seen, so that it spends under the policy it has seen: as long as the vault is
not closed, two moments with the same version have the same authority.
-/

namespace Sigil

open Guard Trace

section Authority

/-- What an agent may do by itself: its key, its capability, its pause flag and its limit. -/
def AgentEntry.standing (e : AgentEntry) : Pubkey × UInt8 × Bool × UInt64 :=
  (e.pubkey, e.capability, e.paused, e.spendingLimitUsd)

variable {D : Type} [Host D]

/-- Whatever decides who may do what. The digest-bound fields have the observe-only flag, the flag
of the post assertions and the bound cosigner among them. -/
structure Authority (D : Type) where
  fields : PolicyPreviewFields D
  agents : List (Pubkey × UInt8 × Bool × UInt64)
  owner : Pubkey

def VaultAccounts.authority (a : VaultAccounts D) : Authority D where
  fields := previewFields a.vault a.policy
  agents := a.vault.agents.map AgentEntry.standing
  owner := a.vault.owner

theorem previewFields_core (v : AgentVault) (p : PolicyConfig D) :
    previewFields v p = previewFields v { p.core with hasPostAssertions := p.hasPostAssertions } :=
  rfl

theorem computeAgentSetHash_standing {agents agents' : List AgentEntry}
    (h : agents'.map AgentEntry.standing = agents.map AgentEntry.standing) :
    computeAgentSetHash (D := D) agents' = computeAgentSetHash agents := by
  have hbound : ∀ xs : List AgentEntry, (xs.map fun e => (e.pubkey, e.capability)) =
      (xs.map AgentEntry.standing).map fun s => (s.1, s.2.1) :=
    fun xs => by rw [List.map_map]; rfl
  unfold computeAgentSetHash agentSetBytes
  rw [hbound agents', h, ← hbound agents]

variable {a a' : VaultAccounts D}

theorem VaultAccounts.authority_eq (hcore : a'.policy.core = a.policy.core)
    (hassertions : a'.policy.hasPostAssertions = a.policy.hasPostAssertions)
    (hobserve : a'.vault.observeOnly = a.vault.observeOnly)
    (hagents : a'.vault.agents.map AgentEntry.standing = a.vault.agents.map AgentEntry.standing)
    (howner : a'.vault.owner = a.vault.owner) : a'.authority = a.authority := by
  have hfields : previewFields a'.vault a'.policy = previewFields a.vault a.policy := by
    rw [previewFields_core, hcore, hassertions, ← previewFields_core]
    unfold previewFields
    rw [hobserve, computeAgentSetHash_standing hagents]
  unfold VaultAccounts.authority
  rw [hfields, hagents, howner]

theorem VaultAccounts.authority_updateAgent {agent : Pubkey} {f : AgentEntry → AgentEntry}
    (hf : ∀ e ∈ a.vault.getAgent agent, (f e).standing = e.standing) :
    ({ a with vault := a.vault.updateAgent agent f } : VaultAccounts D).authority = a.authority :=
  authority_eq rfl rfl rfl (FirstMatch.map_modifyFirst AgentEntry.pubkey hf) rfl

end Authority

namespace Call

variable {D : Type}

/-- The instructions that always count the version up. -/
def bumps : Call D → Bool
  | reactivateVault .. | setObserveOnly .. | pauseAgent .. | unpauseAgent .. | registerAgent ..
  | revokeAgent .. | applyAgentGrant .. | applyAgentPermissionsUpdate .. | applyPendingPolicy ..
  | acceptOwnershipTransfer .. | createPostAssertions .. | closePostAssertions .. => true
  | _ => false

/-- The policy version that an instruction of an agent is meant for. -/
def expectedPolicyVersion : Call D → Option UInt64
  | validateAndAuthorize args => some args.expectedPolicyVersion
  | agentTransfer args => some args.expectedPolicyVersion
  | _ => none

end Call

section Versions

variable {D : Type} [Host D] [DecidableEq D] {env : Env} {c : Call D} {l l' m n : Ledger D}
  {a a' : VaultAccounts D}

theorem exec_bumps (h : exec env l c = .ok l') (hc : c.bumps = true) (ha : l.live = some a)
    (ha' : l'.live = some a') :
    a'.policy.policyVersion.toNat = a.policy.policyVersion.toNat + 1 := by
  have hbumped : ∃ b b', l.live = some b ∧ l'.live = some b' ∧
      b'.policy.policyVersion.toNat = b.policy.policyVersion.toNat + 1 := by
    cases c <;> try exact absurd hc Bool.false_ne_true
    case reactivateVault =>
      obtain ⟨b, g, version, hb, -, -, hgraft, hversion, rfl⟩ := reactivateVault_ok h
      rcases graftAgent_ok hgraft with rfl | ⟨agent, capability, -, -, -, -, -, rfl⟩
      · exact ⟨g, _, hb, rfl, hversion⟩
      · exact ⟨b, _, hb, rfl, hversion⟩
    case setObserveOnly =>
      obtain ⟨b, version, hb, -, -, hversion, rfl⟩ := setObserveOnly_ok h
      exact ⟨b, _, hb, rfl, hversion⟩
    case pauseAgent =>
      obtain ⟨b, version, hb, -, hversion, rfl⟩ := pauseAgent_ok h
      exact ⟨b, _, hb, rfl, hversion⟩
    case unpauseAgent =>
      obtain ⟨b, version, hb, -, -, hversion, rfl⟩ := unpauseAgent_ok h
      exact ⟨b, _, hb, rfl, hversion⟩
    case registerAgent =>
      obtain ⟨b, overlay, version, hb, -, -, -, -, -, hversion, rfl⟩ := registerAgent_ok h
      exact ⟨b, _, hb, rfl, hversion⟩
    case revokeAgent =>
      obtain ⟨b, version, hb, -, -, hversion, rfl⟩ := revokeAgent_ok h
      exact ⟨b, _, hb, rfl, hversion⟩
    case applyAgentGrant =>
      obtain ⟨b, pending, overlay, version, hb, -, -, -, -, -, hversion, rfl⟩ :=
        applyAgentGrant_ok h
      exact ⟨b, _, hb, rfl, hversion⟩
    case applyAgentPermissionsUpdate =>
      obtain ⟨b, pending, entry, overlay, version, hb, -, -, -, -, -, hversion, rfl⟩ :=
        applyAgentPermissionsUpdate_ok h
      exact ⟨b, _, hb, rfl, hversion⟩
    case applyPendingPolicy =>
      obtain ⟨b, pending, merged, _, version, hb, -, -, -, -, -, -, hversion, rfl, -, rfl⟩ :=
        applyPendingPolicy_ok h
      exact ⟨b, _, hb, rfl, hversion⟩
    case acceptOwnershipTransfer =>
      obtain ⟨b, pending, version, hb, -, -, hversion, rfl⟩ := acceptOwnershipTransfer_ok h
      exact ⟨b, _, hb, rfl, hversion⟩
    case createPostAssertions =>
      obtain ⟨b, assertions, version, hb, -, -, hversion, rfl⟩ := createPostAssertions_ok h
      exact ⟨b, _, hb, rfl, hversion⟩
    case closePostAssertions =>
      obtain ⟨b, version, hb, -, -, hversion, rfl⟩ := closePostAssertions_ok h
      exact ⟨b, _, hb, rfl, hversion⟩
  obtain ⟨b, b', hb, hb', hversion⟩ := hbumped
  cases ha.symm.trans hb
  cases ha'.symm.trans hb'
  exact hversion

/-- An instruction counts the version up, or it leaves the version and the authority alone. -/
theorem exec_stamped (h : exec env l c = .ok l') (ha : l.live = some a)
    (ha' : l'.live = some a') :
    a.policy.policyVersion.toNat < a'.policy.policyVersion.toNat ∨
      a'.policy.policyVersion.toNat = a.policy.policyVersion.toNat ∧
        a'.authority = a.authority := by
  by_cases hbumps : c.bumps = true
  · exact .inl (exec_bumps h hbumps ha ha' ▸ Nat.lt_succ_self _)
  by_cases hversion : Part.version ∉ c.writes
  · have hframe : ∀ p ∈ [Part.custody, .observeOnly, .guards, .assertions], l.SameAt l' p := by
      intro p hp
      refine exec_frame h fun hwrites => hversion ?_
      cases c <;> simp [Call.writes, Part.ofVault] at hwrites hp ⊢ <;> grind
    have howner := (hframe .custody (by simp)).eq ha ha'
    have hobserve := (hframe .observeOnly (by simp)).eq ha ha'
    have hcore := (hframe .guards (by simp)).eq ha ha'
    have hassertions := (hframe .assertions (by simp)).eq ha ha'
    have hagents : a'.vault.agents.map AgentEntry.standing =
        a.vault.agents.map AgentEntry.standing := by
      by_cases hagents : Part.agents ∉ c.writes
      · rw [(exec_frame h hagents).eq ha ha']
      · rw [not_not] at hagents
        cases c <;> simp [Call.writes, Part.ofVault] at hagents hversion
        case validateAndAuthorize =>
          obtain ⟨b, vaultToken, pins, snapshots, tokens, hopened⟩ := validateAndAuthorize_ok h
          cases ha.symm.trans hopened.live
          rw [hopened.result] at ha'
          cases ha'
          exact FirstMatch.map_modifyFirst AgentEntry.pubkey fun _ _ => rfl
    exact .inr ⟨congrArg UInt64.toNat ((exec_frame h hversion).eq ha ha'),
      VaultAccounts.authority_eq hcore hassertions hobserve hagents (congrArg Prod.fst howner)⟩
  rw [not_not] at hversion
  cases c <;> simp [Call.writes, Part.ofVault] at hversion <;> try exact absurd rfl hbumps
  case initializeVault =>
    obtain ⟨hnone, -⟩ := initializeVault_ok h
    cases hnone.symm.trans ha
  case closeVault =>
    obtain ⟨_, -, -, -, -, -, rfl⟩ := closeVault_ok h
    cases ha'
  case recordAgentViolation =>
    obtain ⟨b, entry, hb, -, hentry, -, ⟨hbelow, rfl⟩ | ⟨version, -, hversion, rfl⟩⟩ :=
      recordAgentViolation_ok h
    all_goals
      cases ha.symm.trans hb
      cases ha'
    · refine .inr ⟨rfl, VaultAccounts.authority_updateAgent fun e he => ?_⟩
      cases hentry.symm.trans he
      unfold AgentEntry.standing
      rw [recordFailure_capability hbelow]
      rfl
    · exact .inl (hversion ▸ Nat.lt_succ_self _)

def LivesThrough : Ledger D → List (Action D) → Ledger D → Prop :=
  Run fun l x l' => Step l x l' ∧ l.live.isSome = true ∧ l'.live.isSome = true

/-- The version that is stored, and zero without a vault. -/
def Ledger.storedVersion (l : Ledger D) : ℕ :=
  (l.live.map fun a => a.policy.policyVersion.toNat).getD 0

theorem LivesThrough.stamped {as : List (Action D)} (h : LivesThrough m as n)
    (ha : m.live = some a) (ha' : n.live = some a') :
    a.policy.policyVersion.toNat < a'.policy.policyVersion.toNat ∨
      a'.policy.policyVersion.toNat = a.policy.policyVersion.toNat ∧
        a'.authority = a.authority := by
  have hstamped : m.storedVersion < n.storedVersion ∨ n.storedVersion = m.storedVersion ∧
      n.live.map VaultAccounts.authority = m.live.map VaultAccounts.authority := by
    refine Run.stamped Ledger.storedVersion (fun l => l.live.map VaultAccounts.authority) h ?_
    rintro l x l' ⟨hstep, hl, hl'⟩
    obtain ⟨b, hb⟩ := Option.isSome_iff_exists.mp hl
    obtain ⟨b', hb'⟩ := Option.isSome_iff_exists.mp hl'
    cases hstep with
    | call hexec => simpa [Ledger.storedVersion, hb, hb'] using exec_stamped hexec hb hb'
    | foreign => exact .inr ⟨rfl, rfl⟩
  simpa [Ledger.storedVersion, ha, ha'] using hstamped

theorem exec_expectedPolicyVersion {v : UInt64} (h : exec env l c = .ok l')
    (hc : c.expectedPolicyVersion = some v) :
    ∃ a, l.live = some a ∧ a.policy.policyVersion = v := by
  cases c <;> try cases hc
  case validateAndAuthorize =>
    obtain ⟨a, vaultToken, pins, snapshots, tokens, hopened⟩ := validateAndAuthorize_ok h
    exact ⟨a, hopened.live, hopened.version⟩
  case agentTransfer =>
    obtain ⟨a, charged, counted, source, destination, usdAmount, split, ht⟩ := agentTransfer_ok h
    exact ⟨a, ht.live, ht.version⟩

/-- No instruction counts the version down, each that changes the authority counts it up, and a
spend that names a version finds the authority of every earlier moment with this version. -/
theorem version_tracks_authority :
    (∀ (env : Env) (c : Call D) (l l' : Ledger D) (a a' : VaultAccounts D),
      exec env l c = .ok l' → l.live = some a → l'.live = some a' →
      a.policy.policyVersion ≤ a'.policy.policyVersion ∧
        (a'.authority ≠ a.authority → a.policy.policyVersion < a'.policy.policyVersion)) ∧
    ∀ (m n : Ledger D) (as : List (Action D)) (a : VaultAccounts D), LivesThrough m as n →
      m.live = some a →
      (∀ a', n.live = some a' → a.policy.policyVersion ≤ a'.policy.policyVersion) ∧
      ∀ (env : Env) (c : Call D) (n' : Ledger D), exec env n c = .ok n' →
        c.expectedPolicyVersion = some a.policy.policyVersion →
        ∃ a', n.live = some a' ∧ a'.authority = a.authority := by
  constructor
  · intro env c l l' a a' h ha ha'
    rw [UInt64.le_iff_toNat_le, UInt64.lt_iff_toNat_lt]
    rcases exec_stamped h ha ha' with hless | ⟨hsame, hauthority⟩
    · exact ⟨hless.le, fun _ => hless⟩
    · exact ⟨hsame.ge, fun hchanged => absurd hauthority hchanged⟩
  · intro m n as a hrun ha
    refine ⟨fun a' ha' => ?_, fun env c n' h hc => ?_⟩
    · rw [UInt64.le_iff_toNat_le]
      rcases hrun.stamped ha ha' with hless | ⟨hsame, -⟩
      · exact hless.le
      · exact hsame.ge
    · obtain ⟨a', ha', hversion⟩ := exec_expectedPolicyVersion h hc
      rcases hrun.stamped ha ha' with hless | ⟨-, hauthority⟩
      · exact absurd hless (hversion ▸ Nat.lt_irrefl _)
      · exact ⟨a', ha', hauthority⟩

end Versions

section Sample

/-- Seating the sample operator counts the version up, and the transfer that names the new version
finds the authority that the operator had from the start. -/
theorem version_tracks_authority_transfer :
    (∃ a a', (withGrant sampleLedger).live = some a ∧ operatedLedger.live = some a' ∧
      a.policy.policyVersion < a'.policy.policyVersion) ∧
    ∃ a a', tradingLedger.live = some a ∧ payingLedger.live = some a' ∧
      a'.authority = a.authority := by
  have htracks := version_tracks_authority (D := Preimage)
  constructor
  · have hbefore : (withGrant sampleLedger).live.map (fun a => a.vault.agents.length) = some 0 := by
      decide +kernel
    have hafter : operatedLedger.live.map (fun a => a.vault.agents.length) = some 1 := by
      decide +kernel
    obtain ⟨a, ha, hnone⟩ := Option.map_eq_some_iff.mp hbefore
    obtain ⟨a', ha', hone⟩ := Option.map_eq_some_iff.mp hafter
    refine ⟨a, a', ha, ha', (htracks.1 _ _ _ _ a a' exec_operatedLedger ha ha').2 fun hsame => ?_⟩
    have hlength := congrArg (fun x : Authority Preimage => x.agents.length) hsame
    simp [VaultAccounts.authority, hnone, hone] at hlength
  · have hlive : tradingLedger.live.any (fun a => a.policy.policyVersion = 1) = true := by
      decide +kernel
    obtain ⟨a, ha, hversion⟩ := (Option.any_eq_true _ _).mp hlive
    have hsome := Option.isSome_iff_exists.mpr ⟨a, ha⟩
    have hrun : LivesThrough tradingLedger [.foreign] payingLedger :=
      .single ⟨.foreign _ _ _, hsome, hsome⟩
    have hnamed : (Call.agentTransfer sampleTransfer : Call Preimage).expectedPolicyVersion =
        some a.policy.policyVersion := congrArg some (of_decide_eq_true hversion).symm
    obtain ⟨a', ha', hauthority⟩ :=
      (htracks.2 _ _ _ a hrun ha).2 _ _ _ (exec_after exec_sampleTransfer) hnamed
    exact ⟨a, a', ha, ha', hauthority⟩

end Sample

end Sigil
