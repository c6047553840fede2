import Mathlib.Data.Nat.Bitwise
import Sigil.Session.AgentSlots
import Sigil.Session.Outflow

/-! # The owner's guards on an agent

An owner can put a vault into observe-only mode, restrict its hours and pace each agent by a
cooldown. A session is opened under all three guards and its time is noted for the next one. A
direct transfer asks for none of them and is not noted, so the guards hold in the runs in which the
agent spends through sessions and keeps its slot.
-/

namespace Sigil

open Machine Guard Trace

section Definitions

variable {D : Type}

/-- The agent whose instruction takes funds out of the vault. -/
def Call.spender : Call D → Option Pubkey
  | validateAndAuthorize args => if args.isSpending then some args.agent else none
  | agentTransfer args => some args.agent
  | _ => none

def Action.time : Action D → Option ℤ
  | .call env _ => some env.clock.unixTimestamp
  | .foreign => none

def Action.SpendAt (agent : Pubkey) (t : ℤ) : Action D → Prop
  | .call env c => c.spender = some agent ∧ env.clock.unixTimestamp = t
  | .foreign => False

/-- The clock does not go back along the actions. -/
def Chronological (as : List (Action D)) : Prop := (as.filterMap Action.time).Pairwise (· ≤ ·)

/-- The hour of the day is one of those that the policy allows. -/
def PolicyConfig.HourEnabled (p : PolicyConfig D) (now : ℤ) : Prop :=
  p.operatingHours.toNat.testBit (now / 3600 % 24).toNat = true

/-- The agent spends through sessions only, holds a slot when it does, and keeps the slot once an
action is noted in it. -/
def Action.Paced (agent : Pubkey) (l : Ledger D) : Action D → Prop
  | .call _ c => (∀ args, c = .agentTransfer args → args.agent ≠ agent) ∧
      (c.spender = some agent → ∃ a i, l.live = some a ∧ a.overlay.findAgentSlot agent = some i) ∧
      (c.FreesSlot l agent → ∀ a i, l.live = some a → a.overlay.findAgentSlot agent = some i →
        a.overlay.lastActionUnix i = 0)
  | .foreign => True

def PacedStep [Host D] [DecidableEq D] (agent : Pubkey) (l : Ledger D) (x : Action D)
    (l' : Ledger D) : Prop :=
  Step l x l' ∧ x.Paced agent l

theorem Call.spender_eq_some {c : Call D} {agent : Pubkey} (h : c.spender = some agent) :
    (∃ args, c = .validateAndAuthorize args ∧ args.agent = agent) ∨
      ∃ args, c = .agentTransfer args ∧ args.agent = agent := by
  cases c <;> try (cases h; done)
  case agentTransfer args => exact .inr ⟨args, rfl, Option.some.inj h⟩
  case validateAndAuthorize args =>
    simp only [spender] at h
    split at h
    · exact .inl ⟨args, rfl, Option.some.inj h⟩
    · cases h

theorem Chronological.le {as : List (Action D)} {env : Env} {c : Call D} {x : Action D}
    {agent : Pubkey} {t : ℤ} (h : Chronological (as ++ [.call env c])) (hx : x ∈ as)
    (hspend : x.SpendAt agent t) : t ≤ env.clock.unixTimestamp := by
  unfold Chronological at h
  rw [List.filterMap_append, List.pairwise_append] at h
  refine h.2.2 t (List.mem_filterMap.mpr ⟨x, hx, ?_⟩) _ (by simp [Action.time])
  cases x with
  | call env' c' => exact congrArg some hspend.2
  | foreign => exact absurd hspend id

theorem Chronological.of_append {as bs : List (Action D)} (h : Chronological (as ++ bs)) :
    Chronological as := by
  unfold Chronological at h
  rw [List.filterMap_append, List.pairwise_append] at h
  exact h.1

end Definitions

section Guards

variable {D : Type}

theorem hourEnabled_of_isWithinOperatingHours {p : PolicyConfig D} {now : ℤ}
    (h : p.isWithinOperatingHours now = true) : 0 < now ∧ p.HourEnabled now := by
  unfold PolicyConfig.isWithinOperatingHours at h
  split at h
  · cases h
  · rename_i hpos
    have hhour : (now / 3600 % 24).toNat < 24 := by omega
    refine ⟨by omega, ?_⟩
    unfold PolicyConfig.HourEnabled
    generalize (now / 3600 % 24).toNat = hour at h hhour ⊢
    have hbit : ((1 : UInt32) <<< UInt32.ofNat hour).toNat = 2 ^ hour := by
      have hlt : hour < 32 := by omega
      have hsize : hour < UInt32.size := hlt.trans (by decide)
      rw [UInt32.toNat_shiftLeft, UInt32.toNat_ofNat_of_lt' hsize, UInt32.toNat_one,
        Nat.mod_eq_of_lt hlt, Nat.one_shiftLeft]
      exact Nat.mod_eq_of_lt (Nat.pow_lt_pow_right (by decide) hlt)
    have hne := of_decide_eq_true h
    rw [Ne, ← UInt32.toNat_inj, UInt32.toNat_and, UInt32.toNat_and, hbit, Nat.and_two_pow,
      Nat.testBit_and] at hne
    by_contra hclear
    simp [hclear] at hne

theorem cooldown_le {o : AgentSpendOverlay} {i : Fin maxOverlayEntries} {now t : ℤ}
    (h : o.isCooldownElapsed i now = true) (hpos : 0 < t) (ht : t ≤ o.lastActionUnix i)
    (hnow : t ≤ now) : t + (o.cooldownSeconds i).toNat ≤ now := by
  unfold AgentSpendOverlay.isCooldownElapsed at h
  dsimp only at h
  split at h
  · rename_i hzero
    rw [hzero]
    simpa using hnow
  · split at h
    · omega
    · split at h
      · rename_i delta hdelta
        obtain ⟨rfl, -⟩ := checkedSubI64_eq_some.mp hdelta
        have hle := (of_decide_eq_true h).2
        omega
      · cases h

variable [Host D] [DecidableEq D] {env : Env} {l l' m m' : Ledger D} {agent : Pubkey}
  {as : List (Action D)} {c : Call D} {args : ValidateAndAuthorizeArgs D}

theorem validate_guarded (h : exec env l (.validateAndAuthorize args) = .ok l') :
    ∃ a a', l.live = some a ∧ l'.live = some a' ∧ args.agent ∈ a.vault.keys ∧
      a.vault.observeOnly = false ∧ 0 < env.clock.unixTimestamp ∧
      a.policy.HourEnabled env.clock.unixTimestamp ∧
      ∀ i, a.overlay.findAgentSlot args.agent = some i →
        a.overlay.isCooldownElapsed i env.clock.unixTimestamp = true ∧
        a'.overlay.findAgentSlot args.agent = some i ∧
        a'.overlay.lastActionUnix i = env.clock.unixTimestamp := by
  obtain ⟨a, vaultToken, pins, snapshots, tokens, hopened⟩ := validateAndAuthorize_ok h
  obtain ⟨hpos, hhour⟩ := hourEnabled_of_isWithinOperatingHours hopened.operatingHours
  obtain rfl := hopened.result
  exact ⟨a, _, hopened.live, rfl, AgentVault.isAgent_iff.mp hopened.isAgent, hopened.observeOnly,
    hpos, hhour, fun i hi => ⟨hopened.cooldown i hi, lastActionUnix_noteAction hi _⟩⟩

theorem PacedStep.of_quiet (h : exec env m c = .ok m') (hspender : c.spender = none)
    (hfrees : ¬ c.FreesSlot m agent) : PacedStep agent m (.call env c) m' := by
  refine ⟨.call h, ?_, fun hspend => absurd (hspender.symm.trans hspend) nofun,
    fun hfree => absurd hfree hfrees⟩
  rintro args rfl
  exact absurd hspender nofun

theorem PacedStep.of_validate (h : exec env m (.validateAndAuthorize args) = .ok m')
    (hslot : (m.live.bind fun a => a.overlay.findAgentSlot agent).isSome = true) :
    PacedStep agent m (.call env (.validateAndAuthorize args)) m' := by
  obtain ⟨i, hi⟩ := Option.isSome_iff_exists.mp hslot
  obtain ⟨a, ha, hi⟩ := Option.bind_eq_some_iff.mp hi
  exact ⟨.call h, nofun, fun _ => ⟨a, i, ha, hi⟩, nofun⟩

theorem PacedStep.validates (h : PacedStep agent m (.call env c) m')
    (hspend : c.spender = some agent) :
    ∃ (args : ValidateAndAuthorizeArgs D) (a : VaultAccounts D) (i : Fin maxOverlayEntries),
      args.agent = agent ∧ exec env m (.validateAndAuthorize args) = .ok m' ∧
      m.live = some a ∧ a.overlay.findAgentSlot agent = some i := by
  obtain ⟨hstep, htransfer, hslot, -⟩ := h
  obtain ⟨a, i, ha, hi⟩ := hslot hspend
  rcases Call.spender_eq_some hspend with ⟨args, rfl, rfl⟩ | ⟨args, rfl, hagent⟩
  · cases hstep with
    | call hexec => exact ⟨args, a, i, rfl, hexec, ha, hi⟩
  · exact absurd hagent (htransfer args rfl)

/-- A spend of the agent is noted in its slot. -/
def Noted (agent : Pubkey) (t : ℤ) (m : Ledger D) : Prop :=
  0 < t ∧ ∃ a i, m.live = some a ∧ a.overlay.findAgentSlot agent = some i ∧
    t ≤ a.overlay.lastActionUnix i

theorem Noted.step {x : Action D} {t : ℤ} (hagent : agent ≠ Pubkey.default)
    (hnoted : Noted agent t m) (hstep : PacedStep agent m x m')
    (hclock : ∀ now ∈ x.time, t ≤ now) : Noted agent t m' := by
  obtain ⟨hpos, a, i, ha, hi, ht⟩ := hnoted
  obtain ⟨hstep, hpaced⟩ := hstep
  cases hstep with
  | foreign => exact ⟨hpos, a, i, ha, hi, ht⟩
  | call hexec =>
    have hacted : a.overlay.lastActionUnix i ≠ 0 := by omega
    obtain ⟨a', ha', hkept | ⟨args, rfl, -, hi', hlast⟩⟩ := exec_slot hexec ha hagent hi
      fun hfrees => hacted (hpaced.2.2 hfrees a i ha hi)
    · exact ⟨hpos, a', i, ha', hkept.seat, hkept.action ▸ ht⟩
    · exact ⟨hpos, a', i, ha', hi', hlast ▸ hclock _ rfl⟩

theorem noted_run (hagent : agent ≠ Pubkey.default) (hrun : Run (PacedStep agent) l as m)
    (hclock : Chronological as) : ∀ x ∈ as, ∀ t, x.SpendAt agent t → Noted agent t m := by
  refine hrun.induct (P := fun as m => Chronological as → ∀ x ∈ as, ∀ t, x.SpendAt agent t →
    Noted agent t m) (by simp) ?_ hclock
  intro as m x m' _ ih hstep hclock y hy t hspend
  rcases List.mem_append.mp hy with hearlier | hlast
  · refine (ih hclock.of_append y hearlier t hspend).step hagent hstep fun now hnow => ?_
    cases x with
    | call env c => exact Option.some.inj hnow ▸ hclock.le hearlier hspend
    | foreign => exact absurd hnow nofun
  · obtain rfl := List.mem_singleton.mp hlast
    cases y with
    | foreign => exact absurd hspend id
    | call env c =>
      obtain ⟨hspender, rfl⟩ := hspend
      obtain ⟨args, a, i, rfl, hexec, ha, hi⟩ := hstep.validates hspender
      obtain ⟨b, b', hb, hb', -, -, hpos, -, hslot⟩ := validate_guarded hexec
      cases ha.symm.trans hb
      obtain ⟨-, hi', hlast⟩ := hslot i hi
      exact ⟨hpos, b', i, hb', hi', hlast.ge⟩

/-- In every paced run an agent spends only while the vault is not in observe-only mode, in an hour
that the policy allows, and after its cooldown has elapsed since each of its earlier spends. -/
theorem agent_spends_guarded (hl : l.Genesis) (hrun : Run (PacedStep agent) l as m)
    (hstep : PacedStep agent m (.call env c) m') (hspend : c.spender = some agent)
    (hclock : Chronological (as ++ [.call env c])) :
    ∃ a, m.live = some a ∧ a.vault.observeOnly = false ∧
      a.policy.HourEnabled env.clock.unixTimestamp ∧
      ∀ i ∈ a.overlay.findAgentSlot agent, ∀ x ∈ as, ∀ t, x.SpendAt agent t →
        t + (a.overlay.cooldownSeconds i).toNat ≤ env.clock.unixTimestamp := by
  obtain ⟨args, a, i, rfl, hexec, ha, hi⟩ := hstep.validates hspend
  obtain ⟨b, b', hb, -, hmem, hobserve, -, hhour, hslot⟩ := validate_guarded hexec
  cases ha.symm.trans hb
  have hregistered := run_registered (hrun.mono fun _ _ _ h => h.1) hl
  have hagent : args.agent ≠ Pubkey.default := fun heq =>
    (hregistered.agents a ha).named (heq ▸ hmem)
  refine ⟨a, ha, hobserve, hhour, fun j hj x hx t ht => ?_⟩
  obtain ⟨hpos, b, k, hb, hk, hle⟩ := noted_run hagent hrun hclock.of_append x hx t ht
  cases ha.symm.trans hb
  cases hj.symm.trans hk
  exact cooldown_le (hslot j hj).1 hpos hle (hclock.le hx ht)

end Guards

section Sample

def withCooldownQueued (l : Ledger Preimage) : Ledger Preimage :=
  after (sampleEnv 1600 20) l (.queueAgentPermissionsUpdate (sampleKey 1) [] (sampleKey 9)
    capabilityOperator 500 600 Pubkey.default)

def cooldownAddress : Pubkey :=
  pendingAgentPermsAddress Preimage emptyLedger.vaultKey (sampleKey 9)

def withCooldown (l : Ledger Preimage) : Ledger Preimage :=
  after (sampleEnv 3400 40) (withCooldownQueued l)
    (.applyAgentPermissionsUpdate (sampleKey 1) [] cooldownAddress)

def pacedLedger : Ledger Preimage :=
  { withCooldown operatedLedger with
    tokens := sampleTokens emptyLedger.vaultKey 0
    others := sampleOthers }

def tradeAt (slot : UInt64) (time : ℤ) (h : InI64 time) : Transaction :=
  { sampleTransaction emptyLedger.vaultKey with clock := ⟨slot, time, h⟩ }

def pacedValidate : Call Preimage :=
  .validateAndAuthorize { sampleValidate emptyLedger.vaultKey with expectedPolicyVersion := 2 }

def pacedOpened : Ledger Preimage :=
  after ((tradeAt 50 4000 (by decide)).env 0) pacedLedger pacedValidate

def pacedSwapped : Ledger Preimage :=
  { pacedOpened with tokens := sampleTokens emptyLedger.vaultKey 40 }

def pacedClosed : Ledger Preimage :=
  after ((tradeAt 50 4000 (by decide)).env 2) pacedSwapped
    (.finalizeSession (sampleFinalize emptyLedger.vaultKey))

def pacedSetup : List (Action Preimage) :=
  [.call (sampleEnv 1000 7) sampleInitialize,
    .call (sampleEnv 1000 7)
      (.queueAgentGrant (sampleKey 1) [] (sampleKey 9) capabilityOperator 500),
    .call (sampleEnv 1600 20) (.applyAgentGrant (sampleKey 1) []),
    .call (sampleEnv 1600 20) (.queueAgentPermissionsUpdate (sampleKey 1) [] (sampleKey 9)
      capabilityOperator 500 600 Pubkey.default),
    .call (sampleEnv 3400 40)
      (.applyAgentPermissionsUpdate (sampleKey 1) [] cooldownAddress),
    .foreign]

def pacedTrade : List (Action Preimage) :=
  [.call ((tradeAt 50 4000 (by decide)).env 0) pacedValidate, .foreign,
    .call ((tradeAt 50 4000 (by decide)).env 2)
      (.finalizeSession (sampleFinalize emptyLedger.vaultKey))]

theorem paced_ok :
    (exec (sampleEnv 1600 20) operatedLedger (.queueAgentPermissionsUpdate (sampleKey 1) []
      (sampleKey 9) capabilityOperator 500 600 Pubkey.default)).isOk = true ∧
      ((withCooldownQueued operatedLedger).pendingPerms cooldownAddress).map
        PendingAgentPermissionsUpdate.spendingLimitUsd = some 500 ∧
      (exec (sampleEnv 3400 40) (withCooldownQueued operatedLedger)
        (.applyAgentPermissionsUpdate (sampleKey 1) [] cooldownAddress)).isOk = true ∧
      (exec ((tradeAt 50 4000 (by decide)).env 0) pacedLedger pacedValidate).isOk = true ∧
      (exec ((tradeAt 50 4000 (by decide)).env 2) pacedSwapped
        (.finalizeSession (sampleFinalize emptyLedger.vaultKey))).isOk = true ∧
      (exec ((tradeAt 60 4600 (by decide)).env 0) pacedClosed pacedValidate).isOk = true ∧
      (pacedLedger.live.bind fun a => a.overlay.findAgentSlot (sampleKey 9)).isSome = true ∧
      (pacedClosed.live.bind fun a => a.overlay.findAgentSlot (sampleKey 9)).isSome = true := by
  decide +kernel

theorem exec_withCooldownQueued :
    exec (sampleEnv 1600 20) operatedLedger (.queueAgentPermissionsUpdate (sampleKey 1) []
      (sampleKey 9) capabilityOperator 500 600 Pubkey.default) =
        .ok (withCooldownQueued operatedLedger) :=
  exec_after paced_ok.1

theorem exec_withCooldown :
    exec (sampleEnv 3400 40) (withCooldownQueued operatedLedger)
      (.applyAgentPermissionsUpdate (sampleKey 1) [] cooldownAddress) =
        .ok (withCooldown operatedLedger) :=
  exec_after paced_ok.2.2.1

theorem exec_pacedOpened :
    exec ((tradeAt 50 4000 (by decide)).env 0) pacedLedger pacedValidate = .ok pacedOpened :=
  exec_after paced_ok.2.2.2.1

theorem exec_pacedClosed :
    exec ((tradeAt 50 4000 (by decide)).env 2) pacedSwapped
      (.finalizeSession (sampleFinalize emptyLedger.vaultKey)) = .ok pacedClosed :=
  exec_after paced_ok.2.2.2.2.1

theorem exec_pacedNext :
    exec ((tradeAt 60 4600 (by decide)).env 0) pacedClosed pacedValidate =
      .ok (after ((tradeAt 60 4600 (by decide)).env 0) pacedClosed pacedValidate) :=
  exec_after paced_ok.2.2.2.2.2.1

theorem not_freesSlot_cooldown : ¬ (Call.applyAgentPermissionsUpdate (sampleKey 1) []
    cooldownAddress : Call Preimage).FreesSlot (withCooldownQueued operatedLedger)
      (sampleKey 9) := by
  rintro ⟨a, pending, entry, -, hpending, -, -, hzero, -⟩
  have hlimit := paced_ok.2.1
  rw [hpending, Option.map_some, hzero] at hlimit
  exact absurd hlimit (by decide)

theorem run_pacedSetup :
    Run (PacedStep (sampleKey 9)) emptyLedger pacedSetup pacedLedger := by
  have hinitialize : PacedStep (sampleKey 9) emptyLedger _ sampleLedger :=
    ⟨step_sampleInitialize, nofun, nofun, nofun⟩
  have hqueue : PacedStep (sampleKey 9) sampleLedger _ (withGrant sampleLedger) :=
    .of_quiet (exec_after (by decide +kernel)) rfl id
  have happly : PacedStep (sampleKey 9) (withGrant sampleLedger) _ operatedLedger :=
    .of_quiet exec_operatedLedger rfl id
  have hcooldown : PacedStep (sampleKey 9) operatedLedger _ (withCooldownQueued operatedLedger) :=
    .of_quiet exec_withCooldownQueued rfl id
  have hforce : PacedStep (sampleKey 9) (withCooldownQueued operatedLedger) _
      (withCooldown operatedLedger) :=
    .of_quiet exec_withCooldown rfl not_freesSlot_cooldown
  have htokens : PacedStep (sampleKey 9) (withCooldown operatedLedger) .foreign pacedLedger :=
    ⟨.foreign _ _ _, trivial⟩
  exact .snoc (.snoc (.snoc (.snoc (.snoc (.single hinitialize) hqueue) happly) hcooldown) hforce)
    htokens

theorem run_pacedTrade : Run (PacedStep (sampleKey 9)) pacedLedger pacedTrade pacedClosed := by
  have hopen : PacedStep (sampleKey 9) pacedLedger _ pacedOpened :=
    .of_validate exec_pacedOpened paced_ok.2.2.2.2.2.2.1
  have hswap : PacedStep (sampleKey 9) pacedOpened .foreign pacedSwapped :=
    ⟨.foreign _ _ _, trivial⟩
  have hclose : PacedStep (sampleKey 9) pacedSwapped _ pacedClosed :=
    .of_quiet exec_pacedClosed rfl id
  exact .snoc (.snoc (.single hopen) hswap) hclose

/-- The next trade of the paced vault is possible ten minutes after the first. -/
theorem agent_spends_guarded_next_trade :
    ∃ a, pacedClosed.live = some a ∧ a.vault.observeOnly = false ∧ a.policy.HourEnabled 4600 ∧
      ∀ i ∈ a.overlay.findAgentSlot (sampleKey 9),
        (4000 : ℤ) + (a.overlay.cooldownSeconds i).toNat ≤ 4600 := by
  have hstep : PacedStep (sampleKey 9) pacedClosed
      (.call ((tradeAt 60 4600 (by decide)).env 0) pacedValidate) _ :=
    .of_validate exec_pacedNext paced_ok.2.2.2.2.2.2.2
  have hclock : Chronological (pacedSetup ++ pacedTrade ++
      [.call ((tradeAt 60 4600 (by decide)).env 0) pacedValidate]) := by
    unfold Chronological
    decide
  obtain ⟨a, ha, hobserve, hhour, hcooldown⟩ := agent_spends_guarded genesis_emptyLedger
    (run_pacedSetup.append run_pacedTrade) hstep rfl hclock
  exact ⟨a, ha, hobserve, hhour, fun i hi => hcooldown i hi _
    (List.mem_append_right _ List.mem_cons_self) 4000 ⟨rfl, rfl⟩⟩

def closedHoursInitialize : Call Preimage :=
  let draft : InitializeVaultArgs Preimage :=
    { sampleArgs with observeOnly := true, operatingHours := 0 }
  .initializeVault (sampleKey 1) (sampleKey 4) { draft with
    previewDigest := liveDigest (draft.newVault (sampleKey 1) (sampleKey 4))
      (draft.newPolicy emptyLedger.vaultKey 7) }

def closedHoursLedger : Ledger Preimage :=
  after (sampleEnv 1000 7) emptyLedger closedHoursInitialize

def unguardedLedger : Ledger Preimage :=
  { withCooldown (withOperator closedHoursLedger) with
    tokens := Function.update (sampleTokens emptyLedger.vaultKey 0) (sampleKey 25)
      (some (sampleAccount sampleMint (sampleKey 3) 0))
    others := sampleOthers }

def unguardedTransfer : Call Preimage :=
  .agentTransfer { sampleTransfer with amount := 20, expectedPolicyVersion := 2 }

def unguardedNext : Ledger Preimage :=
  after (sampleEnv 4000 50) unguardedLedger unguardedTransfer

theorem run_unguardedNext : ∃ as : List (Action Preimage), Run Step emptyLedger as unguardedNext ∧
    .call (envAt 4000 50 (by decide)) unguardedTransfer ∈ as := by
  obtain ⟨hinitialized, hqueued, happlied⟩ :
      (exec (sampleEnv 1000 7) emptyLedger closedHoursInitialize).isOk = true ∧
        (exec (sampleEnv 1000 7) closedHoursLedger
          (.queueAgentGrant (sampleKey 1) [] (sampleKey 9) capabilityOperator 500)).isOk = true ∧
        (exec (sampleEnv 1600 20) (withGrant closedHoursLedger)
          (.applyAgentGrant (sampleKey 1) [])).isOk = true := by decide +kernel
  obtain ⟨hpending, hforced, hpaid⟩ :
      (exec (sampleEnv 1600 20) (withOperator closedHoursLedger)
        (.queueAgentPermissionsUpdate (sampleKey 1) [] (sampleKey 9) capabilityOperator 500 600
          Pubkey.default)).isOk = true ∧
        (exec (sampleEnv 3400 40) (withCooldownQueued (withOperator closedHoursLedger))
          (.applyAgentPermissionsUpdate (sampleKey 1) [] cooldownAddress)).isOk = true ∧
        (exec (sampleEnv 4000 50) unguardedLedger unguardedTransfer).isOk = true := by
    decide +kernel
  have hinitialize : Step emptyLedger _ closedHoursLedger := .after hinitialized
  have hqueue : Step closedHoursLedger _ (withGrant closedHoursLedger) := .after hqueued
  have happly : Step (withGrant closedHoursLedger) _ (withOperator closedHoursLedger) :=
    .after happlied
  have hcooldown : Step (withOperator closedHoursLedger) _
      (withCooldownQueued (withOperator closedHoursLedger)) := .after hpending
  have hforce : Step (withCooldownQueued (withOperator closedHoursLedger)) _
      (withCooldown (withOperator closedHoursLedger)) := .after hforced
  have htokens : Step (withCooldown (withOperator closedHoursLedger)) .foreign unguardedLedger :=
    .foreign _ _ _
  have htransfer : Step unguardedLedger (.call (envAt 4000 50 (by decide)) unguardedTransfer)
      unguardedNext := .after hpaid
  exact ⟨_, .snoc (.snoc (.snoc (.snoc (.snoc (.snoc (.single hinitialize) hqueue) happly)
    hcooldown) hforce) htokens) htransfer, by simp⟩

/-- Direct transfers go through in observe-only mode, outside the allowed hours and one second
after the last one under a cooldown of ten minutes. -/
theorem transfer_ignores_guards :
    ∃ (as : List (Action Preimage)) (l l' : Ledger Preimage) (a : VaultAccounts Preimage)
      (i : Fin maxOverlayEntries), Run Step emptyLedger as l ∧
      exec (envAt 4001 51 (by decide)) l unguardedTransfer = .ok l' ∧
      unguardedTransfer.spender = some (sampleKey 9) ∧ l.live = some a ∧
      a.vault.observeOnly = true ∧ ¬ a.policy.HourEnabled 4001 ∧
      a.overlay.findAgentSlot (sampleKey 9) = some i ∧
      ∃ x ∈ as, x.SpendAt (sampleKey 9) 4000 ∧
        (4001 : ℤ) < 4000 + (a.overlay.cooldownSeconds i).toNat := by
  obtain ⟨as, hrun, hmem⟩ := run_unguardedNext
  obtain ⟨hlive, hagain⟩ : (unguardedNext.live.any fun a => a.vault.observeOnly = true ∧
      a.policy.operatingHours = 0 ∧ a.overlay.findAgentSlot (sampleKey 9) = some 0 ∧
      a.overlay.cooldownSeconds 0 = 600) = true ∧
      (exec (sampleEnv 4001 51) unguardedNext unguardedTransfer).isOk = true := by decide +kernel
  obtain ⟨a, ha, hfacts⟩ := (Option.any_eq_true _ _).mp hlive
  obtain ⟨hobserve, hhours, hslot, hcooldown⟩ := of_decide_eq_true hfacts
  refine ⟨as, unguardedNext, _, a, 0, hrun, exec_after hagain, rfl, ha, hobserve, ?_,
    hslot, _, hmem, ⟨rfl, rfl⟩, ?_⟩
  · simp [PolicyConfig.HourEnabled, hhours]
  · rw [hcooldown]
    decide

end Sample

end Sigil
