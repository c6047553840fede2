import Sigil.Cosign.CosignerInvariant
import Sigil.Spending.Charges

/-! # The power of an agent

What an agent may do, under an order: its capability, the bound on what it may spend in a day and
the time it has to wait between two actions. A change of permissions that is queued without the
cosigner can still raise it, since a limit of zero is no limit and a cooldown of zero is no
cooldown.
-/

namespace Sigil

open Guard Trace

structure AgentPower where
  capability : UInt8
  allowance : WithTop ℕ
  cooldown : UInt64

/-- Less power is a smaller capability, a smaller allowance and a longer cooldown. -/
instance : LE AgentPower where
  le x y := x.capability ≤ y.capability ∧ x.allowance ≤ y.allowance ∧ y.cooldown ≤ x.cooldown

section Power

variable {D : Type} {a a' : VaultAccounts D} {agent : Pubkey} {e : AgentEntry}

/-- The cooldown that `validate_and_authorize` holds an agent to; without a slot there is none. -/
def AgentSpendOverlay.cooldownOf (o : AgentSpendOverlay) (agent : Pubkey) : UInt64 :=
  match o.findAgentSlot agent with
  | some i => o.cooldownSeconds i
  | none => 0

/-- The power of an agent, if it is registered. -/
def VaultAccounts.power (a : VaultAccounts D) (agent : Pubkey) : Option AgentPower :=
  (a.vault.getAgent agent).map fun e =>
    ⟨e.capability, capBound e.spendingLimitUsd, a.overlay.cooldownOf agent⟩

/-- The agent has no more power in the state `a'` than in the state `a`. -/
def NoMorePower (agent : Pubkey) (a' a : VaultAccounts D) : Prop :=
  ∀ x ∈ a'.power agent, ∃ y ∈ a.power agent, x ≤ y

theorem cooldownOf_setAgentCooldown (o : AgentSpendOverlay) (agent : Pubkey) (cooldown : UInt64) :
    (o.setAgentCooldown agent cooldown).cooldownOf agent =
      if (o.findAgentSlot agent).isSome then cooldown else 0 := by
  cases hslot : o.findAgentSlot agent with
  | none =>
    rw [AgentSpendOverlay.setAgentCooldown_of_none hslot]
    unfold AgentSpendOverlay.cooldownOf
    rw [hslot]
    rfl
  | some i =>
    have hsame : (o.setCooldownSeconds i cooldown).findAgentSlot agent = some i := hslot
    rw [AgentSpendOverlay.setAgentCooldown_of_some hslot]
    unfold AgentSpendOverlay.cooldownOf
    rw [hsame]
    exact Function.update_self ..

/-- A limit that is no larger is a bound that is no larger, unless it takes the bound away. -/
theorem capBound_le_iff {new live : UInt64} (h : new ≤ live) :
    capBound new ≤ capBound live ↔ (live ≠ 0 → new ≠ 0) := by
  unfold capBound
  by_cases hlive : live = 0
  · simp [hlive]
  · by_cases hnew : new = 0
    · simp [hlive, hnew]
    · simpa [hlive, hnew] using UInt64.le_iff_toNat_le.mp h

theorem power_of_getAgent (h : a.vault.getAgent agent = some e) : a.power agent =
    some ⟨e.capability, capBound e.spendingLimitUsd, a.overlay.cooldownOf agent⟩ :=
  congrArg (Option.map _) h

theorem noMorePower_iff {x y : AgentPower} (hafter : a'.power agent = some x)
    (hbefore : a.power agent = some y) : NoMorePower agent a' a ↔ x ≤ y := by
  simp [NoMorePower, hafter, hbefore]

end Power

section Queue

variable {D : Type} [Host D] [DecidableEq D] {env envQueue : Env} {owner agent session : Pubkey}
  {remaining : List AccountMeta} {newCapability : UInt8} {limit cooldown : UInt64}
  {l l' l₁ l₂ : Ledger D}

omit [DecidableEq D] in
theorem queueAgentPermissionsUpdate_stored
    (h : queueAgentPermissionsUpdate env owner remaining agent newCapability limit
      cooldown session l = .ok l') : ∃ (a : VaultAccounts D) (entry : AgentEntry)
      (pending : PendingAgentPermissionsUpdate D), l.live = some a ∧
      a.vault.getAgent agent = some entry ∧
      l'.pendingPerms (pendingAgentPermsAddress D l.vaultKey agent) = some pending ∧
      pending.agent = agent ∧ pending.newCapability = newCapability ∧
      pending.spendingLimitUsd = limit ∧ pending.cooldownSeconds = cooldown := by
  simp only [queueAgentPermissionsUpdate, seq_ok_iff, Ledger.loadAsOwner_ok_iff, someOr_ok_iff,
    pure_ok_iff] at h
  obtain ⟨a, ⟨ha, -⟩, -, -, -, -, -, -, -, -, -, -, entry, hentry, -, -, bound, -, timelock, -,
    executesAt, -, rfl⟩ := h
  exact ⟨a, entry, _, ha, hentry, Function.update_self .., rfl, rfl, rfl, rfl⟩

theorem applyAgentPermissionsUpdate_power {address : Pubkey}
    {pending : PendingAgentPermissionsUpdate D}
    (hpending : l.pendingPerms address = some pending)
    (h : exec env l (.applyAgentPermissionsUpdate owner remaining address) = .ok l') :
    ∃ before after cooldown, l.live = some before ∧ l'.live = some after ∧
      after.power pending.agent = some
        ⟨pending.newCapability, capBound pending.spendingLimitUsd, cooldown⟩ ∧
      (cooldown = pending.cooldownSeconds ∨ cooldown = 0) := by
  obtain ⟨a, found, entry, overlay, version, ha, -, -, hready, hentry, -, -, rfl⟩ :=
    applyAgentPermissionsUpdate_ok h
  cases hpending.symm.trans hready.found
  refine ⟨a, _, (overlay.setAgentCooldown pending.agent pending.cooldownSeconds).cooldownOf
    pending.agent, ha, rfl, ?_, ?_⟩
  · have hupdated : (a.vault.updateAgent pending.agent fun e => { e with
        capability := pending.newCapability
        spendingLimitUsd := pending.spendingLimitUsd }).getAgent pending.agent =
        (a.vault.getAgent pending.agent).map _ :=
          getAgent_updateAgent (by exact fun _ => rfl) a.vault
    rw [hentry] at hupdated
    exact congrArg (Option.map _) hupdated
  · rw [cooldownOf_setAgentCooldown]
    split
    · exact .inl rfl
    · exact .inr rfl

/-- On a vault that requires the cosigner, a change of permissions that is queued without its
signature gives the agent no more power exactly when it does not take a limit away and the agent has
no cooldown. The comparison is with the power the agent had when the change was queued, and with
the power it had just before when that is the same. -/
theorem uncosigned_perms_power {queued : VaultAccounts D}
    (hqueue : exec envQueue l₁ (.queueAgentPermissionsUpdate owner remaining agent newCapability
      limit cooldown session) = .ok l₂)
    (hlive : l₁.live = some queued) (hreq : queued.policy.cosignRequired = true)
    (hsilent : ¬ Call.SignedBy (D := D) (.queueAgentPermissionsUpdate owner remaining agent
      newCapability limit cooldown session) queued.policy.cosignSessionPubkey) :
    ∃ entry pending, queued.vault.getAgent agent = some entry ∧
      l₂.pendingPerms (pendingAgentPermsAddress D l₁.vaultKey agent) = some pending ∧
      ∀ env owner' remaining' (l l' : Ledger D),
        l.pendingPerms (pendingAgentPermsAddress D l₁.vaultKey agent) = some pending →
        exec env l (.applyAgentPermissionsUpdate owner' remaining'
          (pendingAgentPermsAddress D l₁.vaultKey agent)) = .ok l' →
        ∃ before after, l.live = some before ∧ l'.live = some after ∧
          let keeps := (entry.spendingLimitUsd ≠ 0 → limit ≠ 0) ∧
            queued.overlay.cooldownOf agent = 0
          (NoMorePower agent after queued ↔ keeps) ∧
          (before.power agent = queued.power agent → (NoMorePower agent after before ↔ keeps)) := by
  obtain ⟨a, entry, pending, ha, hentry, hpending, rfl, rfl, rfl, rfl⟩ :=
    queueAgentPermissionsUpdate_stored hqueue
  cases hlive.symm.trans ha
  -- without the signature none of the three triggers can have fired
  have hquiet : ¬ (entry.capability < pending.newCapability ∨
      entry.spendingLimitUsd < pending.spendingLimitUsd ∨ pending.cooldownSeconds ≠ 0) := by
    intro hmore
    obtain ⟨b, -, hb, -, hgate, -⟩ := queueAgentPermissionsUpdate_ok hqueue
    cases hlive.symm.trans hb
    exact hsilent (Call.signedBy_of_hasBoundCosigner (hgate entry hentry hreq hmore))
  simp only [not_or, UInt8.not_lt, UInt64.not_lt, not_not] at hquiet
  obtain ⟨hcapability, hlimit, hcooldown⟩ := hquiet
  have hbefore := power_of_getAgent hentry
  refine ⟨entry, pending, hentry, hpending, fun env owner' remaining' l l' hheld happly => ?_⟩
  obtain ⟨before, after, left, hl, hl', hafter, hleft⟩ :=
    applyAgentPermissionsUpdate_power hheld happly
  obtain rfl : left = 0 := by
    rcases hleft with rfl | rfl
    · exact hcooldown
    · rfl
  have hkeeps : ∀ base : VaultAccounts D, base.power pending.agent = queued.power pending.agent →
      (NoMorePower pending.agent after base ↔
        (entry.spendingLimitUsd ≠ 0 → pending.spendingLimitUsd ≠ 0) ∧
          queued.overlay.cooldownOf pending.agent = 0) := by
    intro base hbase
    rw [noMorePower_iff hafter (hbase.trans hbefore), ← capBound_le_iff hlimit]
    constructor
    · rintro ⟨-, hle, hzero⟩
      exact ⟨hle, UInt64.le_zero_iff.mp hzero⟩
    · rintro ⟨hle, hzero⟩
      exact ⟨hcapability, hle, UInt64.le_zero_iff.mpr hzero⟩
  exact ⟨before, after, hl, hl', hkeeps queued rfl, hkeeps before⟩

end Queue

section Sample

def withCosigner : List AccountMeta := [⟨sampleKey 5, true, false⟩]

def limitedLedger : Ledger Preimage :=
  after (sampleEnv 3000 110) cosignedLedger
    (.registerAgent (sampleKey 1) withCosigner (sampleKey 6) capabilityObserver 500)

def relimit (limit : UInt64) : Call Preimage :=
  .queueAgentPermissionsUpdate (sampleKey 1) [] (sampleKey 6) capabilityObserver limit 0
    Pubkey.default

def relimitingLedger (limit : UInt64) : Ledger Preimage :=
  after (sampleEnv 3100 111) limitedLedger (relimit limit)

def relimitAddress : Pubkey :=
  pendingAgentPermsAddress Preimage limitedLedger.vaultKey (sampleKey 6)

def relimitedLedger (limit : UInt64) : Ledger Preimage :=
  after (sampleEnv 4900 112) (relimitingLedger limit)
    (.applyAgentPermissionsUpdate (sampleKey 1) withCosigner relimitAddress)

theorem relimit_unsigned (limit : UInt64) : ¬ (relimit limit).SignedBy (sampleKey 5) := by
  rintro (hsigner | ⟨m, hm, -⟩)
  · exact absurd hsigner (show sampleKey 1 ≠ sampleKey 5 by decide)
  · exact absurd hm List.not_mem_nil

theorem uncosigned_perms_power_lower :
    ∃ queued after, limitedLedger.live = some queued ∧ (relimitedLedger 400).live = some after ∧
      NoMorePower (sampleKey 6) after queued := by
  obtain ⟨queued, hqueued⟩ := Option.isSome_iff_exists.mp
    (show limitedLedger.live.isSome = true by decide +kernel)
  have hstate : ∀ a ∈ limitedLedger.live, a.policy.cosignRequired = true ∧
      a.policy.cosignSessionPubkey = sampleKey 5 ∧
      ((a.vault.getAgent (sampleKey 6)).any fun e => e.spendingLimitUsd = 500) = true ∧
      a.overlay.cooldownOf (sampleKey 6) = 0 := by decide +kernel
  obtain ⟨hreq, hkey, hlimit, hcooldown⟩ := hstate queued hqueued
  have hsilent := hkey ▸ relimit_unsigned 400
  obtain ⟨entry, pending, hentry, hpending, hall⟩ := uncosigned_perms_power
    (exec_after (by decide +kernel) : exec (sampleEnv 3100 111) limitedLedger (relimit 400) =
      .ok (relimitingLedger 400)) hqueued hreq hsilent
  obtain ⟨before, after, -, hafter, hiff, -⟩ := hall (sampleEnv 4900 112) (sampleKey 1) withCosigner
    (relimitingLedger 400) (relimitedLedger 400) hpending (exec_after (by decide +kernel))
  exact ⟨queued, after, hqueued, hafter, hiff.mpr ⟨fun _ => by decide, hcooldown⟩⟩

/-- The owner alone queues that the agent loses its limit. -/
theorem limit_lifted_without_cosigner :
    (∃ as, Run Step emptyLedger as limitedLedger) ∧
      (∀ a ∈ limitedLedger.live, a.policy.cosignRequired = true ∧
        ¬ Call.SignedBy (relimit 0) a.policy.cosignSessionPubkey) ∧
      exec (sampleEnv 3100 111) limitedLedger (relimit 0) = .ok (relimitingLedger 0) ∧
      exec (sampleEnv 4900 112) (relimitingLedger 0)
        (.applyAgentPermissionsUpdate (sampleKey 1) withCosigner relimitAddress) =
        .ok (relimitedLedger 0) ∧
      ∃ queued after, limitedLedger.live = some queued ∧ (relimitedLedger 0).live = some after ∧
        ¬ NoMorePower (sampleKey 6) after queued := by
  refine ⟨⟨_, (((Run.single step_sampleInitialize).snoc step_enablingLedger).snoc
    step_cosignedLedger).snoc (.after (by decide +kernel))⟩, fun a ha => ?_,
    exec_after (by decide +kernel), exec_after (by decide +kernel), ?_⟩
  · have hstate : ∀ a ∈ limitedLedger.live, a.policy.cosignRequired = true ∧
        a.policy.cosignSessionPubkey = sampleKey 5 := by decide +kernel
    obtain ⟨hreq, hkey⟩ := hstate a ha
    exact ⟨hreq, hkey ▸ relimit_unsigned 0⟩
  · obtain ⟨queued, hqueued, hq⟩ := (Option.any_eq_true _ _).mp
      (show (limitedLedger.live.any fun a => (a.vault.getAgent (sampleKey 6)).any fun e =>
        e.spendingLimitUsd = 500) = true by decide +kernel)
    obtain ⟨after, hafter, ha⟩ := (Option.any_eq_true _ _).mp
      (show ((relimitedLedger 0).live.any fun a => (a.vault.getAgent (sampleKey 6)).any fun e =>
        e.spendingLimitUsd = 0) = true by decide +kernel)
    obtain ⟨e, he, hlimit⟩ := (Option.any_eq_true _ _).mp hq
    obtain ⟨e', he', hlimit'⟩ := (Option.any_eq_true _ _).mp ha
    refine ⟨queued, after, hqueued, hafter, fun hle => ?_⟩
    have hallowance := ((noMorePower_iff (power_of_getAgent he') (power_of_getAgent he)).mp hle).2.1
    simp only [of_decide_eq_true hlimit, of_decide_eq_true hlimit', capBound] at hallowance
    exact absurd hallowance (by simp)

end Sample

end Sigil
