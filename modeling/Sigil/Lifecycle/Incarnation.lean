import Sigil.System.PendingChanges

/-! # Closed and created again

A vault can be closed and created again at the same address, and the pending changes of the first
vault live at addresses that the second one shares. `close_vault` takes away those that its caller
lists. If it lists all of them, nothing that was queued for the first vault ever takes effect on
the second; if it does not, a forgotten transfer can still be accepted.
-/

namespace Sigil

open Guard Trace

section Isolation

variable {D : Type} [Host D]

/-- The accounts among which a close looks for pending changes. -/
def drainedFrom (a : VaultAccounts D) (remaining : List AccountMeta) : List AccountMeta :=
  if a.policy.hasPendingPolicy then remaining.tail else remaining

/-- Each account that a pending change waits in is listed for the close, and the agents of pending
changes of permissions are still registered. -/
structure Ledger.ListsPending (l : Ledger D) (a : VaultAccounts D)
    (remaining : List AccountMeta) : Prop where
  transfer : l.pendingOwner.isSome = true →
    ∃ m ∈ drainedFrom a remaining, m.pubkey = accountAddress D "pending_owner" l.vaultKey
  grant : l.pendingGrant.isSome = true →
    ∃ m ∈ drainedFrom a remaining, m.pubkey = accountAddress D "pending_agent_grant" l.vaultKey
  perms : ∀ address, (l.pendingPerms address).isSome = true →
    (∃ m ∈ drainedFrom a remaining, m.pubkey = address) ∧
      ∃ e ∈ a.vault.agents, address = pendingAgentPermsAddress D l.vaultKey e.pubkey

theorem drainListed_eq_none {α : Type} {listed : List AccountMeta} {address : Pubkey}
    {x : Option α} (h : x.isSome = true → ∃ m ∈ listed, m.pubkey = address) :
    drainListed listed address x = none := by
  unfold drainListed
  split
  · rfl
  · rename_i hlisted
    refine Option.not_isSome_iff_eq_none.mp fun hsome => hlisted ?_
    obtain ⟨m, hm, hkey⟩ := h hsome
    exact List.any_eq_true.mpr ⟨m, hm, decide_eq_true hkey⟩

variable {l : Ledger D} {a : VaultAccounts D} {remaining : List AccountMeta}

theorem Ledger.ListsPending.not_holds (h : l.ListsPending a remaining) (x : Pending D) :
    ¬ (closedLedger a remaining l).Holds x := by
  cases x with
  | transfer p =>
    intro hx
    cases (drainListed_eq_none h.transfer).symm.trans hx
  | grant p =>
    intro hx
    cases (drainListed_eq_none h.grant).symm.trans hx
  | perms address p =>
    intro hx
    have hsome : (l.pendingPerms address).isSome = true :=
      Option.isSome_iff_exists.mpr ⟨p, holds_of_closedLedger hx⟩
    obtain ⟨hlisted, e, he, haddress⟩ := h.perms address hsome
    have hmem : address ∈ a.vault.agents.map fun e =>
        pendingAgentPermsAddress D l.vaultKey e.pubkey :=
      List.mem_map.mpr ⟨e, he, haddress.symm⟩
    have hnone : (closedLedger a remaining l).pendingPerms address = none :=
      (if_pos hmem).trans (drainListed_eq_none fun _ => hlisted)
    cases hnone.symm.trans hx

variable [DecidableEq D]

/-- A step that, when it closes the vault, lists every pending change. -/
def ThoroughStep (l : Ledger D) (action : Action D) (l' : Ledger D) : Prop :=
  Step l action l' ∧ ∀ env owner remaining a, action = .call env (.closeVault owner remaining) →
    l.live = some a → l.ListsPending a remaining

theorem ThoroughStep.of_step {env : Env} {c : Call D} {l' : Ledger D}
    (h : Step l (.call env c) l') (hc : ∀ owner remaining, c ≠ .closeVault owner remaining) :
    ThoroughStep l (.call env c) l' :=
  ⟨h, fun _ owner remaining _ hclose _ => absurd (Action.call.inj hclose).2 (hc owner remaining)⟩

/-- The instruction succeeds and makes the waiting change take effect. -/
def TakesEffect (env : Env) (c : Call D) (l l' : Ledger D) (x : Pending D) : Prop :=
  exec env l c = .ok l' ∧ c.Applies l x

/-- When every close lists what is pending, a change that takes effect was queued after each
close before it, and it has been waiting since. -/
theorem incarnation_isolated {before rest : List (Action D)} {e env : Env} {owner : Pubkey}
    {c : Call D} {n n' : Ledger D} {x : Pending D}
    (hrun : Run ThoroughStep l (before ++ .call e (.closeVault owner remaining) :: rest) n)
    (hx : TakesEffect env c n n' x) :
    ∃ front env' q back m m', rest = front ++ .call env' q :: back ∧ exec env' m q = .ok m' ∧
      q.Queues x ∧ m'.Holds x ∧ Run (fun m a m' => m.Holds x ∧ Step m a m') m' back n := by
  obtain ⟨m, -, hafter⟩ := hrun.append_inv
  obtain ⟨closed, ⟨hstep, hthorough⟩, hrest⟩ := hafter.cons_inv
  have hempty : ¬ closed.Holds x := by
    cases hstep with
    | call hclose =>
      obtain ⟨a, ha, -, -, -, -, rfl⟩ := closeVault_ok hclose
      exact (hthorough _ _ _ a rfl ha).not_holds x
  have hsteps : Run Step closed rest n := hrest.mono fun _ _ _ h => h.1
  obtain ⟨front, env', q, back, m₁, m₂, hsplit, -, -, hexec, hqueues, hholds, hback⟩ :=
    run_queues hsteps hempty hx.2.holds
  exact ⟨front, env', q, back, m₁, m₂, hsplit, hexec, hqueues, hholds, hback⟩

end Isolation

section Sample

/-- The sample vault created once more, in a later slot. -/
def sampleReinitialize : Call Preimage :=
  .initializeVault (sampleKey 1) (sampleKey 4) { sampleArgs with
    previewDigest := liveDigest (sampleArgs.newVault (sampleKey 1) (sampleKey 4))
      (sampleArgs.newPolicy emptyLedger.vaultKey 10) }

/-- The vault is closed with the pending transfer listed, created again, and handed over anew. -/
def carefulClose : Call Preimage :=
  .closeVault (sampleKey 1)
    [⟨accountAddress Preimage "pending_owner" emptyLedger.vaultKey, false, true⟩]

def carefulLedger : Ledger Preimage :=
  after (sampleEnv 5000 11)
    (after (sampleEnv 4000 10)
      (after (sampleEnv 3000 9) leavingLedger carefulClose) sampleReinitialize)
    sampleInitiate

theorem listsPending_carefulClose {a : VaultAccounts Preimage} (ha : leavingLedger.live = some a) :
    leavingLedger.ListsPending a
      [⟨accountAddress Preimage "pending_owner" emptyLedger.vaultKey, false, true⟩] := by
  have hperms : leavingLedger.pendingPerms = fun _ => none :=
    (step_leavingLedger.frame (p := .pendingPerms) (by decide)).trans
      (step_sampleInitialize.frame (p := .pendingPerms) (by decide))
  have hmark : leavingLedger.live.any (fun a => a.policy.hasPendingPolicy) = false := by
    decide +kernel
  have hkey : leavingLedger.vaultKey = emptyLedger.vaultKey := by decide +kernel
  have hgrant : leavingLedger.pendingGrant.isSome = false := by decide +kernel
  rw [ha, Option.any_some] at hmark
  refine ⟨fun _ => ?_, fun h => ?_, fun address h => ?_⟩
  · rw [drainedFrom, hmark, hkey]
    exact ⟨_, List.mem_singleton_self _, rfl⟩
  · rw [hgrant] at h
    cases h
  · rw [hperms] at h
    cases h

theorem run_carefulLedger : Run ThoroughStep emptyLedger
    ([.call (envAt 1000 7 (by decide)) sampleInitialize,
      .call (envAt 2000 8 (by decide)) sampleInitiate] ++
      .call (envAt 3000 9 (by decide)) carefulClose ::
      [.call (envAt 4000 10 (by decide)) sampleReinitialize,
        .call (envAt 5000 11 (by decide)) sampleInitiate]) carefulLedger := by
  have hinit : ThoroughStep emptyLedger _ sampleLedger :=
    .of_step step_sampleInitialize nofun
  have hinitiate : ThoroughStep sampleLedger _ leavingLedger :=
    .of_step step_leavingLedger nofun
  have hclose : Step leavingLedger (.call (envAt 3000 9 (by decide)) carefulClose)
      (after (envAt 3000 9 (by decide)) leavingLedger carefulClose) :=
    .after (by decide +kernel)
  have hcreate : Step _ (.call (envAt 4000 10 (by decide)) sampleReinitialize)
      (after (envAt 4000 10 (by decide))
        (after (envAt 3000 9 (by decide)) leavingLedger carefulClose) sampleReinitialize) :=
    .after (by decide +kernel)
  have hagain : Step _ (.call (envAt 5000 11 (by decide)) sampleInitiate) carefulLedger :=
    .after (by decide +kernel)
  have hthorough : ThoroughStep leavingLedger _ _ := ⟨hclose, by
    rintro _ _ _ a ⟨⟩ ha
    exact listsPending_carefulClose ha⟩
  exact (((Run.single hinit).snoc hinitiate).snoc hthorough).snoc (.of_step hcreate nofun)
    |>.snoc (.of_step hagain nofun)

attribute [irreducible] carefulLedger

theorem incarnation_isolated_careful : ∃ x : Pending Preimage,
    ∃ front env' q back m m', [Action.call (envAt 4000 10 (by decide)) sampleReinitialize,
        .call (envAt 5000 11 (by decide)) sampleInitiate] = front ++ .call env' q :: back ∧
      exec env' m q = .ok m' ∧ q.Queues x ∧ m'.Holds x ∧
      Run (fun m a m' => m.Holds x ∧ Step m a m') m' back carefulLedger := by
  have hpending : carefulLedger.pendingOwner.isSome = true := by decide +kernel
  obtain ⟨p, hp⟩ := Option.isSome_iff_exists.mp hpending
  have haccept : TakesEffect (envAt 177800 400000 (by decide)) sampleAccept carefulLedger _
      (.transfer p) := ⟨exec_after (by decide +kernel), hp⟩
  exact ⟨.transfer p, incarnation_isolated run_carefulLedger haccept⟩

/-- The vault is closed without a word of the transfer, and created again. -/
def forgetfulClose : Call Preimage := .closeVault (sampleKey 1) []

def forgetfulLedger : Ledger Preimage :=
  after (sampleEnv 4000 10)
    (after (sampleEnv 3000 9) leavingLedger forgetfulClose) sampleReinitialize

theorem run_forgetfulLedger : Run Step leavingLedger
    [.call (envAt 3000 9 (by decide)) forgetfulClose,
      .call (envAt 4000 10 (by decide)) sampleReinitialize] forgetfulLedger := by
  have hclose : Step leavingLedger (.call (envAt 3000 9 (by decide)) forgetfulClose)
      (after (envAt 3000 9 (by decide)) leavingLedger forgetfulClose) :=
    .after (by decide +kernel)
  exact .snoc (.single hclose) (.after (by decide +kernel))

attribute [irreducible] forgetfulLedger

/-- A transfer that was queued before the close is accepted on the vault created after it. -/
theorem stale_transfer_accepted : ∃ (before rest : List (Action Preimage)) (e env : Env)
    (n n' : Ledger Preimage) (x : Pending Preimage),
    Run Step emptyLedger (before ++ .call e forgetfulClose :: rest) n ∧
      TakesEffect env sampleAccept n n' x ∧
      n'.live.map (fun a => a.vault.owner) = some (sampleKey 9) ∧
      ∀ env' q, .call env' q ∈ rest → ¬ q.Queues x := by
  have hpending : forgetfulLedger.pendingOwner.isSome = true := by decide +kernel
  obtain ⟨p, hp⟩ := Option.isSome_iff_exists.mp hpending
  have hrun := (Run.snoc (.single step_sampleInitialize) step_leavingLedger).append
    run_forgetfulLedger
  refine ⟨[_, _], [.call (envAt 4000 10 (by decide)) sampleReinitialize], _,
    envAt 174800 400000 (by decide), forgetfulLedger, _, .transfer p, hrun,
    ⟨exec_after (by decide +kernel), hp⟩, by decide +kernel, fun env' q hq => ?_⟩
  simp only [List.mem_singleton, Action.call.injEq] at hq
  obtain ⟨-, rfl⟩ := hq
  exact id

end Sample

end Sigil
