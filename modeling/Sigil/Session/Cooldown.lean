import Sigil.Session.AgentGuards

/-! # The cooldown of an agent

A cooldown is stored in the slot of its agent and checked there. So a cooldown that an owner sets
paces the sessions of the agent from then on, if the change of permissions leaves the agent with a
slot: an agent without a limit may have none, and loses the one it has when its limit is taken away.
-/

namespace Sigil

open Machine Guard Trace

section Slots

variable {o o' : AgentSpendOverlay} {agent other : Pubkey} {i : Fin maxOverlayEntries}
  {limit newLimit : UInt64}

theorem cooldownSeconds_claimSlot (h : o.claimSlot other = some o') :
    o'.cooldownSeconds = o.cooldownSeconds := by
  obtain ⟨j, -, rfl⟩ := Option.map_eq_some_iff.mp h
  rfl

theorem cooldownSeconds_seat (h : o.seat other limit = .ok o') :
    o'.cooldownSeconds = o.cooldownSeconds := by
  unfold AgentSpendOverlay.seat at h
  split at h
  · exact congrArg _ (Except.ok.inj h).symm
  · split at h
    · rename_i claimed hclaimed
      cases h
      exact cooldownSeconds_claimSlot hclaimed
    · split at h
      · exact absurd h fail_ne_ok
      · exact congrArg _ (Except.ok.inj h).symm

theorem cooldownSeconds_noteAction (o : AgentSpendOverlay) (agent : Pubkey) (now : ℤ) :
    (o.noteAction agent now).cooldownSeconds = o.cooldownSeconds := by
  unfold AgentSpendOverlay.noteAction
  split <;> rfl

theorem cooldownSeconds_releaseSlot {j : Fin maxOverlayEntries}
    (hi : o.findAgentSlot agent = some i) (hj : o.findAgentSlot other = some j)
    (hother : other ≠ agent) : (o.releaseSlot j).cooldownSeconds i = o.cooldownSeconds i := by
  refine Function.update_of_ne ?_ _ _
  rintro rfl
  exact hother ((agent_of_findAgentSlot hj).symm.trans (agent_of_findAgentSlot hi))

theorem cooldownSeconds_unseat (hi : o.findAgentSlot agent = some i) (hother : other ≠ agent) :
    (o.unseat other).cooldownSeconds i = o.cooldownSeconds i := by
  unfold AgentSpendOverlay.unseat
  split
  · rename_i j hj
    exact cooldownSeconds_releaseSlot hi hj hother
  · rfl

theorem cooldownSeconds_reseat (hi : o.findAgentSlot agent = some i) (hother : other ≠ agent)
    (h : o.reseat other limit newLimit = .ok o') : o'.cooldownSeconds i = o.cooldownSeconds i := by
  unfold AgentSpendOverlay.reseat at h
  split at h
  · split at h
    · exact congrFun (cooldownSeconds_claimSlot (someOr_ok_iff.mp h)) i
    · exact congrFun (congrArg _ (Except.ok.inj h).symm) i
  · rename_i j hj
    split at h
    · cases h
      exact cooldownSeconds_releaseSlot hi hj hother
    · exact congrFun (congrArg _ (Except.ok.inj h).symm) i

/-- An agent has a slot after its limit was set, and so it has after a change that leaves it without
a limit as it was. -/
theorem exists_slot_reseat (h : o.reseat agent limit newLimit = .ok o')
    (hslot : newLimit ≠ 0 ∨ limit = 0 ∧ (o.findAgentSlot agent).isSome = true) :
    ∃ i, o'.findAgentSlot agent = some i := by
  unfold AgentSpendOverlay.reseat at h
  split at h
  · rename_i hnone
    have hlimit : newLimit ≠ 0 := hslot.resolve_right fun hkept => by simp [hnone] at hkept
    rw [if_pos (UInt64.pos_iff_ne_zero.mpr hlimit), someOr_ok_iff] at h
    obtain ⟨j, -, rfl⟩ := Option.map_eq_some_iff.mp h
    refine Option.isSome_iff_exists.mp (Fin.isSome_find?_iff.mpr ⟨j, ?_⟩)
    simp
  · rename_i i hi
    have hkept : ¬ (newLimit = 0 ∧ 0 < limit) := by
      rintro ⟨hzero, hpos⟩
      rcases hslot with hne | ⟨rfl, -⟩
      · exact hne hzero
      · exact UInt64.lt_irrefl 0 hpos
    rw [if_neg hkept] at h
    exact ⟨i, Except.ok.inj h ▸ hi⟩

theorem cooldownSeconds_setAgentCooldown {cooldown : UInt64} (hi : o.findAgentSlot agent = some i) :
    (o.setAgentCooldown agent cooldown).findAgentSlot agent = some i ∧
      (o.setAgentCooldown agent cooldown).cooldownSeconds i = cooldown := by
  rw [AgentSpendOverlay.setAgentCooldown_of_some hi]
  exact ⟨hi, Function.update_self ..⟩

end Slots

section Exec

variable {D : Type} [Host D] [DecidableEq D] {env : Env} {c : Call D} {l l' m m' : Ledger D}
  {a a' : VaultAccounts D} {agent : Pubkey} {i : Fin maxOverlayEntries} {x : Action D}

/-- The instruction changes the permissions of the agent or ends its registration. -/
def Call.Reconfigures (l : Ledger D) (agent : Pubkey) : Call D → Prop
  | closeVault .. => True
  | revokeAgent _ agentToRemove => agentToRemove = agent
  | applyAgentPermissionsUpdate _ _ address =>
    ∃ pending, l.pendingPerms address = some pending ∧ pending.agent = agent
  | _ => False

omit [Host D] [DecidableEq D] in
theorem Call.FreesSlot.reconfigures (h : c.FreesSlot l agent) : c.Reconfigures l agent := by
  cases c <;> try exact h.elim
  case closeVault => trivial
  case revokeAgent => exact h
  case applyAgentPermissionsUpdate =>
    obtain ⟨-, pending, -, -, hpending, hagent, -⟩ := h
    exact ⟨pending, hpending, hagent⟩

theorem exec_cooldownSeconds (h : exec env l c = .ok l') (ha : l.live = some a)
    (ha' : l'.live = some a') (hagent : agent ≠ Pubkey.default)
    (hi : a.overlay.findAgentSlot agent = some i) (hkeeps : ¬ c.Reconfigures l agent) :
    a'.overlay.cooldownSeconds i = a.overlay.cooldownSeconds i := by
  cases exec_slotChange h ha ha' with
  | kept _ hoverlay | grafted _ hoverlay => rw [hoverlay]
  | charged _ _ hoverlay => exact congrFun hoverlay.cooldowns i
  | acted _ _ hoverlay => rw [hoverlay, cooldownSeconds_noteAction]
  | joined _ _ hoverlay => exact congrFun (cooldownSeconds_seat hoverlay) i
  | left _ _ hoverlay =>
    rw [hoverlay]
    exact cooldownSeconds_unseat hi hkeeps
  | @changed _ _ _ pending _ overlay hpending _ _ hreseat hoverlay =>
    have hother : pending.agent ≠ agent := fun hself => hkeeps ⟨pending, hpending, hself⟩
    have hseat := slotKept_reseat hi hagent (fun hself => hother hself.1) hreseat
    have honly := (onlyAt_setAgentCooldown overlay pending.agent pending.cooldownSeconds).others i
      ((agent_of_findAgentSlot hseat.seat).trans_ne hother.symm)
    rw [hoverlay]
    exact (congrArg Slot.cooldownSeconds honly).trans (cooldownSeconds_reseat hi hother hreseat)

def UnchangedStep (agent : Pubkey) (l : Ledger D) (x : Action D) (l' : Ledger D) : Prop :=
  Step l x l' ∧ ∀ env c, x = .call env c → ¬ c.Reconfigures l agent

def Call.validatesFor (agent : Pubkey) : Call D → Bool
  | validateAndAuthorize args => args.agent = agent
  | _ => false

/-- The agent holds a slot with the given cooldown and the given time of its last action. -/
def ActedAt (agent : Pubkey) (cooldown : UInt64) (t : ℤ) (m : Ledger D) : Prop :=
  ∃ a i, m.live = some a ∧ a.overlay.findAgentSlot agent = some i ∧
    a.overlay.cooldownSeconds i = cooldown ∧ a.overlay.lastActionUnix i = t

variable {cooldown : UInt64} {t : ℤ} {as : List (Action D)}

theorem ActedAt.step (hagent : agent ≠ Pubkey.default) (h : ActedAt agent cooldown t m)
    (hstep : UnchangedStep agent m x m') : ∃ t', ActedAt agent cooldown t' m' ∧
      (¬ x.Calls (Call.validatesFor agent) → t' = t) := by
  obtain ⟨a, i, ha, hi, hcooldown, rfl⟩ := h
  obtain ⟨hstep, hkeeps⟩ := hstep
  cases hstep with
  | foreign => exact ⟨_, ⟨a, i, ha, hi, hcooldown, rfl⟩, fun _ => rfl⟩
  | @call env c _ _ hexec =>
    have hkept := hkeeps env c rfl
    obtain ⟨a', ha', hslot⟩ := exec_slot hexec ha hagent hi fun hfrees => hkept hfrees.reconfigures
    have hsame := (exec_cooldownSeconds hexec ha ha' hagent hi hkept).trans hcooldown
    rcases hslot with hslot | ⟨args, rfl, hself, hi', -⟩
    · exact ⟨_, ⟨a', i, ha', hslot.seat, hsame, rfl⟩, fun _ => hslot.action⟩
    · exact ⟨_, ⟨a', i, ha', hi', hsame, rfl⟩, fun hother => absurd (decide_eq_true hself) hother⟩

theorem run_actedAt (hagent : agent ≠ Pubkey.default) (hrun : Run (UnchangedStep agent) l as m)
    (h : ActedAt agent cooldown t l) : ∃ t', ActedAt agent cooldown t' m ∧
      ((∀ x ∈ as, ¬ x.Calls (Call.validatesFor agent)) → t' = t) := by
  refine hrun.induct (P := fun as m => ∃ t', ActedAt agent cooldown t' m ∧
    ((∀ x ∈ as, ¬ x.Calls (Call.validatesFor agent)) → t' = t)) ⟨t, h, fun _ => rfl⟩ ?_
  rintro as m x m' - ⟨t₁, hacted, ht₁⟩ hstep
  obtain ⟨t₂, hnext, ht₂⟩ := hacted.step hagent hstep
  refine ⟨t₂, hnext, fun hquiet => ?_⟩
  rw [ht₂ (hquiet x (by simp)), ht₁ fun y hy => hquiet y (List.mem_append_left _ hy)]

theorem ActedAt.validate {args : ValidateAndAuthorizeArgs D} (h : ActedAt args.agent cooldown t m)
    (hexec : exec env m (.validateAndAuthorize args) = .ok m') :
    0 < env.clock.unixTimestamp ∧
      ActedAt args.agent cooldown env.clock.unixTimestamp m' ∧
      (0 < cooldown → 0 < t → t + cooldown.toNat ≤ env.clock.unixTimestamp) := by
  obtain ⟨a, i, ha, hi, rfl, rfl⟩ := h
  obtain ⟨b, b', hb, hb', hmem, -, hpos, -, hslot⟩ := validate_guarded hexec
  cases ha.symm.trans hb
  obtain ⟨helapsed, hi', hlast⟩ := hslot i hi
  obtain ⟨c, vaultToken, pins, snapshots, tokens, ho⟩ := validateAndAuthorize_ok hexec
  refine ⟨hpos, ⟨b', i, hb', hi', ?_, hlast⟩, fun hcooldown ht => ?_⟩
  · cases ha.symm.trans ho.live
    obtain rfl := ho.result
    cases hb'
    exact congrFun (cooldownSeconds_noteAction ..) i
  · unfold AgentSpendOverlay.isCooldownElapsed at helapsed
    simp only [UInt64.pos_iff_ne_zero.mp hcooldown, ht.ne', if_false] at helapsed
    split at helapsed
    · rename_i delta hdelta
      obtain ⟨rfl, -⟩ := checkedSubI64_eq_some.mp hdelta
      have hle := (of_decide_eq_true helapsed).2
      omega
    · cases helapsed

/-- A change of permissions with a cooldown, which leaves the agent with a slot, paces its sessions
until its permissions are changed again or its registration ends. -/
theorem configured_cooldown_holds {l₀ : Ledger D} {owner address : Pubkey}
    {remaining : List AccountMeta} (h₀ : l₀.Genesis) (hreach : Run Step l₀ as l)
    (happly : exec env l (.applyAgentPermissionsUpdate owner remaining address) = .ok l') :
    ∃ before pending entry, l.live = some before ∧ l.pendingPerms address = some pending ∧
      before.vault.getAgent pending.agent = some entry ∧
      ((pending.spendingLimitUsd ≠ 0 ∨ entry.spendingLimitUsd = 0 ∧
        (before.overlay.findAgentSlot pending.agent).isSome = true) →
      0 < pending.cooldownSeconds →
      ∀ bs m env₁ args₁ m₁ cs m₂ env₂ args₂ m₃, Run (UnchangedStep pending.agent) l' bs m →
        exec env₁ m (.validateAndAuthorize args₁) = .ok m₁ → args₁.agent = pending.agent →
        Run (UnchangedStep pending.agent) m₁ cs m₂ →
        (∀ x ∈ cs, ¬ x.Calls (Call.validatesFor pending.agent)) →
        exec env₂ m₂ (.validateAndAuthorize args₂) = .ok m₃ → args₂.agent = pending.agent →
        env₁.clock.unixTimestamp + pending.cooldownSeconds.toNat ≤ env₂.clock.unixTimestamp) := by
  obtain ⟨before, pending, entry, overlay, version, hbefore, -, -, hready, hentry,
    hreseat, -, rfl⟩ := applyAgentPermissionsUpdate_ok happly
  refine ⟨before, pending, entry, hbefore, hready.found, hentry, fun hslot hpositive => ?_⟩
  intro bs m env₁ args₁ m₁ cs m₂ env₂ args₂ m₃ hbs hfirst hself₁ hcs hquiet hsecond hself₂
  have hagent : pending.agent ≠ Pubkey.default := fun heq =>
    ((run_registered hreach h₀).agents before hbefore).named
      (heq ▸ AgentVault.mem_keys_of_getAgent hentry)
  obtain ⟨i, hi⟩ := exists_slot_reseat hreseat hslot
  obtain ⟨hseat, hcooldown⟩ := cooldownSeconds_setAgentCooldown hi
  -- the cooldown is in force from the change on, and the first session notes its time
  obtain ⟨t, hcooling, -⟩ := run_actedAt hagent hbs ⟨_, i, rfl, hseat, hcooldown, rfl⟩
  rw [← hself₁] at hcooling
  obtain ⟨hpos, hnoted, -⟩ := hcooling.validate hfirst
  rw [hself₁] at hnoted
  obtain ⟨t', hstill, hsame⟩ := run_actedAt hagent hcs hnoted
  obtain rfl := hsame hquiet
  rw [← hself₂] at hstill
  exact (hstill.validate hsecond).2.2 hpositive hpos

end Exec

section Sample

def tradeRest (slot : UInt64) (time : UInt32) : List (Action Preimage) :=
  [.foreign, .call ((tradeAt slot time.toNat (inI64_toNat32 time)).env 2)
    (.finalizeSession (sampleFinalize emptyLedger.vaultKey))]

theorem tradeRest_quiet (slot : UInt64) (time : UInt32) :
    ∀ x ∈ tradeRest slot time, ¬ x.Calls (Call.validatesFor (sampleKey 9)) := by
  simp [tradeRest, Action.Calls, Call.validatesFor]

theorem unchangedStep_foreign {m : Ledger Preimage} (tokens : TokenLedger.Accounts Pubkey)
    (others : Pubkey → AccountInfo) : UnchangedStep (sampleKey 9) m .foreign
      { m with tokens := tokens, others := others } :=
  ⟨.foreign _ _ _, by rintro _ _ ⟨⟩⟩

theorem unchangedStep_finalize {env : Env} {m m' : Ledger Preimage} {args : FinalizeSessionArgs}
    (h : exec env m (.finalizeSession args) = .ok m') :
    UnchangedStep (sampleKey 9) m (.call env (.finalizeSession args)) m' :=
  ⟨.call h, by rintro _ _ ⟨⟩; exact id⟩

theorem configured_cooldown_holds_next_trade :
    ∃ pending, (withCooldownQueued operatedLedger).pendingPerms cooldownAddress = some pending ∧
      (4000 : ℤ) + pending.cooldownSeconds.toNat ≤ 4600 := by
  obtain ⟨as, hrun⟩ := run_operatedLedger
  have hreach := hrun.snoc (.call exec_withCooldownQueued)
  have hstate : ∀ p ∈ (withCooldownQueued operatedLedger).pendingPerms cooldownAddress,
      p.agent = sampleKey 9 ∧ p.spendingLimitUsd ≠ 0 ∧ 0 < p.cooldownSeconds := by decide +kernel
  obtain ⟨before, pending, entry, -, hpending, -, hall⟩ := configured_cooldown_holds
    genesis_emptyLedger hreach exec_withCooldown
  obtain ⟨hagent, hlimit, hcooldown⟩ := hstate pending hpending
  rw [hagent] at hall
  have hfunds : Run (UnchangedStep (sampleKey 9)) (withCooldown operatedLedger) [.foreign]
      pacedLedger := .single (unchangedStep_foreign _ _)
  have hrest : Run (UnchangedStep (sampleKey 9)) pacedOpened (tradeRest 50 4000) pacedClosed :=
    (Run.single (unchangedStep_foreign _ _)).snoc (unchangedStep_finalize exec_pacedClosed)
  exact ⟨pending, hpending, hall (.inl hlimit) hcooldown _ _ _ _ _ _ _ _ _ _ hfunds
    exec_pacedOpened rfl hrest (tradeRest_quiet 50 4000) exec_pacedNext rfl⟩

/-- A cooldown of ten minutes is pending together with the loss of the limit. -/
def unlimitingLedger : Ledger Preimage :=
  after (sampleEnv 1600 20) operatedLedger (.queueAgentPermissionsUpdate (sampleKey 1) []
    (sampleKey 9) capabilityOperator 0 600 Pubkey.default)

def unlimitedLedger : Ledger Preimage :=
  after (sampleEnv 3400 40) unlimitingLedger
    (.applyAgentPermissionsUpdate (sampleKey 1) [] cooldownAddress)

def unpacedLedger : Ledger Preimage :=
  { unlimitedLedger with
    tokens := sampleTokens emptyLedger.vaultKey 0
    others := sampleOthers }

def unpacedOpened : Ledger Preimage :=
  after ((tradeAt 50 4000 (inI64_toNat32 4000)).env 0) unpacedLedger pacedValidate

def unpacedSwapped : Ledger Preimage :=
  { unpacedOpened with tokens := sampleTokens emptyLedger.vaultKey 40 }

def unpacedClosed : Ledger Preimage :=
  after ((tradeAt 50 4000 (inI64_toNat32 4000)).env 2) unpacedSwapped
    (.finalizeSession (sampleFinalize emptyLedger.vaultKey))

/-- An operator that loses its limit and gets a cooldown in one change opens two sessions one second
apart. -/
theorem cooldown_lost_with_limit :
    (∃ as, Run Step emptyLedger as unlimitingLedger) ∧
      ((unlimitingLedger.pendingPerms cooldownAddress).any fun p =>
        p.agent = sampleKey 9 ∧ p.cooldownSeconds = 600) = true ∧
      exec (sampleEnv 3400 40) unlimitingLedger (.applyAgentPermissionsUpdate (sampleKey 1) []
        cooldownAddress) = .ok unlimitedLedger ∧
      Run (UnchangedStep (sampleKey 9)) unlimitedLedger [.foreign] unpacedLedger ∧
      exec ((tradeAt 50 4000 (by decide)).env 0) unpacedLedger pacedValidate = .ok unpacedOpened ∧
      Run (UnchangedStep (sampleKey 9)) unpacedOpened (tradeRest 50 4000) unpacedClosed ∧
      (∀ x ∈ tradeRest 50 4000, ¬ x.Calls (Call.validatesFor (sampleKey 9))) ∧
      (exec ((tradeAt 51 4001 (by decide)).env 0) unpacedClosed pacedValidate).isOk = true := by
  obtain ⟨as, hrun⟩ := run_operatedLedger
  obtain ⟨hqueued, hpending, happlied⟩ :
      (exec (sampleEnv 1600 20) operatedLedger (.queueAgentPermissionsUpdate (sampleKey 1) []
        (sampleKey 9) capabilityOperator 0 600 Pubkey.default)).isOk = true ∧
        ((unlimitingLedger.pendingPerms cooldownAddress).any fun p =>
          p.agent = sampleKey 9 ∧ p.cooldownSeconds = 600) = true ∧
        (exec (sampleEnv 3400 40) unlimitingLedger (.applyAgentPermissionsUpdate (sampleKey 1) []
          cooldownAddress)).isOk = true := by decide +kernel
  obtain ⟨hopened, hclosed, hagain⟩ :
      (exec ((tradeAt 50 4000 (inI64_toNat32 4000)).env 0) unpacedLedger pacedValidate).isOk =
          true ∧
        (exec ((tradeAt 50 4000 (inI64_toNat32 4000)).env 2) unpacedSwapped
          (.finalizeSession (sampleFinalize emptyLedger.vaultKey))).isOk = true ∧
        (exec ((tradeAt 51 4001 (by decide)).env 0) unpacedClosed pacedValidate).isOk = true := by
    decide +kernel
  refine ⟨⟨_, hrun.snoc (.after hqueued)⟩, hpending, exec_after happlied,
    .single (unchangedStep_foreign _ _), exec_after hopened, ?_, tradeRest_quiet 50 4000, hagain⟩
  exact (Run.single (unchangedStep_foreign _ _)).snoc (unchangedStep_finalize (exec_after hclosed))

end Sample

end Sigil
