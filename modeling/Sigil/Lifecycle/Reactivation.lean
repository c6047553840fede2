import Sigil.Authority.PolicyBounds
import Sigil.Cosign.CosignerInvariant
import Sigil.Lifecycle.FreezeGate

/-! # Bringing a frozen vault back

A frozen vault with an agent can be reactivated as soon as the cooldown is over, unless both of its
allowlists are empty. Only a vault that observes can have come to that, and such a vault then stays
frozen until it is closed: the lists change only while it is active.
-/

namespace Sigil

open Guard Trace Machine

section Thaw

variable {D : Type}

/-- What a reactivation without a new agent asks for, but for the allowlists. -/
structure VaultAccounts.Thawable (a : VaultAccounts D) (env : Env) (remaining : List AccountMeta) :
    Prop where
  top : env.stackHeight = transactionLevelStackHeight
  frozen : a.vault.status = .frozen
  cosigned : a.policy.cosignRequired = true →
    hasBoundCosigner remaining a.policy.cosignSessionPubkey = true
  dated : 0 < a.vault.frozenAtTimestamp
  cooled : a.vault.frozenAtTimestamp + 300 ≤ env.clock.unixTimestamp
  agents : a.vault.agents ≠ []

variable {env : Env} {l l' : Ledger D} {a : VaultAccounts D} {remaining : List AccountMeta}

theorem VaultAccounts.Thawable.waited (h : a.Thawable env remaining) : reactivateCooldownSeconds ≤
    saturatingSubI64 env.clock.unixTimestamp a.vault.frozenAtTimestamp := by
  have hnow := env.clock.inI64
  have hdated := h.dated
  have hcooled := h.cooled
  unfold InI64 at hnow
  simp only [reactivateCooldownSeconds, saturatingSubI64, clampI64]
  omega

variable [Host D]

theorem VaultAccounts.Thawable.reactivateVault_eq (h : a.Thawable env remaining)
    (ha : l.live = some a) : reactivateVault env a.vault.owner remaining none none l = (do
      ensure (a.policy.protocols ≠ [] ∨ a.policy.allowedDestinations ≠ [])
        .activeVaultRequiresAllowlist
      let sealed ← { a with vault := { a.vault with status := .active } }.reseal
      return l.setLive sealed) := by
  have hload : l.loadAsOwner a.vault.owner = .ok a := Ledger.loadAsOwner_ok_iff.mpr ⟨ha, rfl⟩
  have hgraft : graftAgent a remaining none none = .ok a := rfl
  simp only [reactivateVault, hload, rejectCpi, VaultAccounts.cosignGate, ok_seq, ensure_of h.top,
    ensure_of h.frozen, ensure_of h.cosigned, ensure_of h.dated, ensure_of h.waited, hgraft,
    ensure_of h.agents]

theorem VaultAccounts.Thawable.reactivateVault_ok (h : a.Thawable env remaining)
    (ha : l.live = some a) (hlists : a.policy.protocols ≠ [] ∨ a.policy.allowedDestinations ≠ [])
    (hversion : a.policy.policyVersion.toNat + 1 < 2 ^ 64) :
    ∃ l', reactivateVault env a.vault.owner remaining none none l = .ok l' := by
  have hnext : (UInt64.ofNat (a.policy.policyVersion.toNat + 1)).toNat =
      a.policy.policyVersion.toNat + 1 :=
    UInt64.toNat_ofNat_of_lt' hversion
  have hsealed := VaultAccounts.reseal_ok_iff
    (a := { a with vault := { a.vault with status := .active } }).mpr ⟨_, hnext, rfl⟩
  have heq := h.reactivateVault_eq ha
  rw [ensure_of hlists, ok_seq, hsealed, ok_seq] at heq
  exact ⟨_, heq⟩

theorem reactivateVault_asked {owner : Pubkey} {newAgent : Option Pubkey}
    {newAgentCapability : Option UInt8}
    (h : reactivateVault env owner remaining newAgent newAgentCapability l = .ok l')
    (ha : l.live = some a) : env.stackHeight = transactionLevelStackHeight ∧
      0 < a.vault.frozenAtTimestamp ∧
      (a.policy.protocols ≠ [] ∨ a.policy.allowedDestinations ≠ []) := by
  simp only [reactivateVault, seq_ok_iff, Ledger.loadAsOwner_ok_iff, rejectCpi_ok_iff,
    ensure_ok_iff, VaultAccounts.cosignGate_ok_iff, exists_and_left, exists_const] at h
  obtain ⟨b, ⟨hb, -⟩, htop, -, -, hdated, -, g, -, -, hlists, -⟩ := h
  cases ha.symm.trans hb
  exact ⟨htop, hdated, hlists⟩

end Thaw

section Stranded

variable {D : Type}

/-- The vault is frozen and has nothing on its allowlists. -/
structure VaultAccounts.Stranded (a : VaultAccounts D) : Prop where
  frozen : a.vault.status = .frozen
  protocols : a.policy.protocols = []
  destinations : a.policy.allowedDestinations = []

def Call.closes : Call D → Bool
  | closeVault .. => true
  | _ => false

variable [Host D] [DecidableEq D] {env : Env} {c : Call D} {l l' : Ledger D}
  {a : VaultAccounts D}

theorem exec_stranded (h : exec env l c = .ok l') (hc : c.closes = false) (ha : l.live = some a)
    (hstranded : a.Stranded) : ∃ a', l'.live = some a' ∧ a'.Stranded := by
  have hends : c.endsFreeze = false := by
    cases c <;> first | rfl | cases hc; done | skip
    case reactivateVault =>
      obtain ⟨-, -, hlists⟩ := reactivateVault_asked h ha
      exact (hlists.elim (· hstranded.protocols) (· hstranded.destinations)).elim
  obtain ⟨a', ha', hshut⟩ := exec_shut h ha hstranded.frozen hends
  refine ⟨a', ha', hshut.frozen, ?_, ?_⟩
  · change a'.policy.core.protocols = []
    rw [hshut.guards]
    exact hstranded.protocols
  · change a'.policy.core.allowedDestinations = []
    rw [hshut.guards]
    exact hstranded.destinations

/-- A frozen vault without a protocol and without a destination stays so until it is closed. -/
theorem run_stranded {as : List (Action D)} (hrun : Run Step l as l') (ha : l.live = some a)
    (hstranded : a.Stranded) (hopen : ∀ x ∈ as, ¬ x.Calls Call.closes) :
    ∃ a', l'.live = some a' ∧ a'.Stranded := by
  refine hrun.invariant_of (P := fun m => ∃ b, m.live = some b ∧ b.Stranded) ?_ hopen
    ⟨a, ha, hstranded⟩
  rintro m x m' hx ⟨b, hb, hb'⟩ hstep
  cases hstep with
  | call hexec => exact exec_stranded hexec (Bool.eq_false_iff.mpr hx) hb hb'
  | foreign => exact ⟨b, hb, hb'⟩

end Stranded

section Return

variable {D : Type} [Host D] [DecidableEq D] {l₀ l : Ledger D} {a : VaultAccounts D}
  {as : List (Action D)}

/-- What a frozen vault still needs, once it has an agent, its cosigner and the cooldown behind it.
A vault that executes has something on its allowlists in every reachable state. -/
structure VaultAccounts.Recoverable (a : VaultAccounts D) (env : Env) : Prop where
  top : env.stackHeight = transactionLevelStackHeight
  dated : 0 < a.vault.frozenAtTimestamp
  lists : a.vault.observeOnly = false ∨ a.policy.protocols ≠ [] ∨ a.policy.allowedDestinations ≠ []
  version : a.policy.policyVersion.toNat + 1 < 2 ^ 64

/-- With an agent, the cooldown over and the bound cosigner where one is required, the owner of a
frozen vault brings it back exactly if the call is at the top level, the time of the freeze was
positive, the version can move on, and the vault executes or has something on an allowlist. With
nothing on the allowlists it stays frozen until it is closed. -/
theorem frozen_vault_comes_back_iff (env : Env) (remaining : List AccountMeta)
    (h₀ : l₀.Genesis) (hreach : Run Step l₀ as l) (ha : l.live = some a)
    (hfrozen : a.vault.status = .frozen) (hagents : a.vault.agents ≠ [])
    (hcooled : a.vault.frozenAtTimestamp + 300 ≤ env.clock.unixTimestamp)
    (hcosign : a.policy.cosignRequired = true →
      ∃ m ∈ remaining, m.isSigner = true ∧ m.pubkey = a.policy.cosignSessionPubkey) :
    ((∃ l', exec env l (.reactivateVault a.vault.owner remaining none none) = .ok l') ↔
      a.Recoverable env) ∧
    (∀ l', exec env l (.reactivateVault a.vault.owner remaining none none) = .ok l' →
      ∃ a', l'.live = some a' ∧ a'.vault.status = .active) ∧
    (a.policy.protocols = [] → a.policy.allowedDestinations = [] → ∀ bs l',
      Run Step l bs l' → (∀ x ∈ bs, ¬ x.Calls Call.closes) →
      ∃ a', l'.live = some a' ∧ a'.vault.status = .frozen) := by
  have hsecond : a.SecondKey := forall_live_of_run hreach h₀ exec_secondKey a ha
  have hbound : a.policy.cosignRequired = true →
      hasBoundCosigner remaining a.policy.cosignSessionPubkey = true := by
    intro hreq
    obtain ⟨m, hm, hsigner⟩ := hcosign hreq
    simp only [hasBoundCosigner, decide_eq_true_eq, List.any_eq_true]
    exact ⟨hsecond.bound hreq, m, hm, hsigner⟩
  refine ⟨⟨?_, ?_⟩, ?_, ?_⟩
  · rintro ⟨l', h⟩
    obtain ⟨htop, hdated, hlists⟩ := reactivateVault_asked h ha
    obtain ⟨b, g, version, hb, -, -, hgraft, hversion, -⟩ := reactivateVault_ok h
    cases ha.symm.trans hb
    obtain rfl : a = g := Except.ok.inj hgraft
    have hbelow := version.toNat_lt
    exact ⟨htop, hdated, .inr hlists, by omega⟩
  · rintro ⟨htop, hdated, hlists, hversion⟩
    have harmed : a.policy.protocols ≠ [] ∨ a.policy.allowedDestinations ≠ [] := by
      rcases hlists with hexecutes | hlists
      · exact ((run_policyInOrder h₀ hreach).armed a ha).resolve_left
          (Bool.eq_false_iff.mp hexecutes)
      · exact hlists
    have hthawable : a.Thawable env remaining :=
      ⟨htop, hfrozen, hbound, hdated, hcooled, hagents⟩
    exact hthawable.reactivateVault_ok ha harmed hversion
  · intro l' h
    obtain ⟨b, g, version, -, -, -, -, -, rfl⟩ := reactivateVault_ok h
    exact ⟨_, rfl, rfl⟩
  · intro hprotocols hdestinations bs l' hrun hopen
    obtain ⟨a', ha', hstranded⟩ :=
      run_stranded hrun ha ⟨hfrozen, hprotocols, hdestinations⟩ hopen
    exact ⟨a', ha', hstranded.frozen⟩

end Return

section Sample

/-- A vault that only observes, with nothing on its allowlists. -/
def observingInitialize : Call Preimage :=
  let draft : InitializeVaultArgs Preimage :=
    { sampleArgs with observeOnly := true, protocols := [], allowedDestinations := [] }
  .initializeVault (sampleKey 1) (sampleKey 4) { draft with
    previewDigest := liveDigest (draft.newVault (sampleKey 1) (sampleKey 4))
      (draft.newPolicy emptyLedger.vaultKey 7) }

def observingRegister : Call Preimage :=
  .registerAgent (sampleKey 1) [] (sampleKey 5) capabilityObserver 0

def observingLedger : Ledger Preimage :=
  after (sampleEnv 1500 8) (after (sampleEnv 1000 7) emptyLedger observingInitialize)
    observingRegister

def strandedLedger : Ledger Preimage :=
  after (sampleEnv 2000 9) observingLedger (.freezeVault (sampleKey 1) [])

theorem run_strandedLedger : Run Step emptyLedger
    [.call (sampleEnv 1000 7) observingInitialize, .call (sampleEnv 1500 8) observingRegister,
      .call (sampleEnv 2000 9) (.freezeVault (sampleKey 1) [])] strandedLedger := by
  have hinitialize :
      Step emptyLedger _ (after (sampleEnv 1000 7) emptyLedger observingInitialize) :=
    .after (by decide +kernel)
  have hregister : Step _ _ observingLedger := .after (by decide +kernel)
  have hfreeze : Step _ _ strandedLedger := .after (by decide +kernel)
  exact ((Run.single hinitialize).snoc hregister).snoc hfreeze

/-- The owner of the observing vault cannot bring it back, long after the cooldown. -/
theorem observing_vault_stranded : ∃ as a, Run Step emptyLedger as strandedLedger ∧
    strandedLedger.live = some a ∧ a.vault.status = .frozen ∧ a.vault.agents ≠ [] ∧
    a.vault.observeOnly = true ∧ 0 < a.vault.frozenAtTimestamp ∧
    a.vault.frozenAtTimestamp + 300 ≤ 5000 ∧ a.policy.cosignRequired = false ∧
    a.policy.policyVersion.toNat + 1 < 2 ^ 64 ∧
    exec (sampleEnv 5000 20) strandedLedger (.reactivateVault a.vault.owner [] none none) =
      .error (.sigil .activeVaultRequiresAllowlist) := by
  have hstate : strandedLedger.live.any (fun a => a.vault.status = .frozen ∧ a.vault.agents ≠ [] ∧
      a.vault.observeOnly = true ∧ 0 < a.vault.frozenAtTimestamp ∧
      a.vault.frozenAtTimestamp + 300 ≤ 5000 ∧ a.policy.cosignRequired = false ∧
      a.policy.policyVersion.toNat + 1 < 2 ^ 64 ∧ a.policy.protocols = [] ∧
      a.policy.allowedDestinations = []) = true := by
    decide +kernel
  obtain ⟨a, ha, hall⟩ := (Option.any_eq_true _ _).mp hstate
  obtain ⟨hfrozen, hagents, hobserve, hdated, hcooled, hcosign, hversion, hprotocols,
    hdestinations⟩ := of_decide_eq_true hall
  have hthawable : a.Thawable (sampleEnv 5000 20) [] :=
    ⟨rfl, hfrozen, fun hreq => absurd (hreq.symm.trans hcosign) nofun, hdated, hcooled, hagents⟩
  refine ⟨_, a, run_strandedLedger, ha, hfrozen, hagents, hobserve, hdated, hcooled, hcosign,
    hversion, (hthawable.reactivateVault_eq ha).trans ?_⟩
  rw [seq_error_iff, ensure_error_iff]
  exact .inl ⟨by simp [hprotocols, hdestinations], rfl⟩

def observedLedger : Ledger Preimage := after (sampleEnv 1500 8) sampleLedger observingRegister

def thawableLedger : Ledger Preimage :=
  after (sampleEnv 2000 9) observedLedger (.freezeVault (sampleKey 1) [])

theorem frozen_vault_comes_back_iff_observer : ∃ l' a',
    exec (sampleEnv 2300 20) thawableLedger (.reactivateVault (sampleKey 1) [] none none) = .ok l' ∧
      l'.live = some a' ∧ a'.vault.status = .active := by
  have hregister : Step sampleLedger (.call (sampleEnv 1500 8) observingRegister) observedLedger :=
    .after (by decide +kernel)
  have hfreeze : Step observedLedger (.call (sampleEnv 2000 9) (.freezeVault (sampleKey 1) []))
      thawableLedger := .after (by decide +kernel)
  have hreach := ((Run.single step_sampleInitialize).snoc hregister).snoc hfreeze
  have hstate : thawableLedger.live.any (fun a => a.vault.status = .frozen ∧ a.vault.agents ≠ [] ∧
      a.vault.observeOnly = false ∧ 0 < a.vault.frozenAtTimestamp ∧
      a.vault.frozenAtTimestamp + 300 ≤ 2300 ∧ a.policy.cosignRequired = false ∧
      a.policy.policyVersion.toNat + 1 < 2 ^ 64 ∧ a.vault.owner = sampleKey 1) = true := by
    decide +kernel
  obtain ⟨a, ha, hall⟩ := (Option.any_eq_true _ _).mp hstate
  obtain ⟨hfrozen, hagents, hexecutes, hdated, hcooled, hcosign, hversion, howner⟩ :=
    of_decide_eq_true hall
  obtain ⟨hiff, hactive, -⟩ := frozen_vault_comes_back_iff (sampleEnv 2300 20) []
    genesis_emptyLedger hreach ha hfrozen hagents hcooled
    fun hreq => absurd (hreq.symm.trans hcosign) nofun
  obtain ⟨l', h⟩ := hiff.mpr ⟨rfl, hdated, .inl hexecutes, hversion⟩
  obtain ⟨a', ha', hback⟩ := hactive l' h
  exact ⟨l', a', howner ▸ h, ha', hback⟩

end Sample

end Sigil
