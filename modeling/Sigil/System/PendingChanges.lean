import Sigil.System.Frame

/-! # Pending changes

Ownership transfers, grants and changes of permissions wait in accounts of their own. A pending
change appears only when it is queued, and every account it waits in goes back to one such call.
-/

namespace Sigil

open Guard Trace

/-- A pending change that its owner queued. -/
inductive Pending (D : Type)
  | transfer (p : PendingOwnershipTransfer)
  | grant (p : PendingAgentGrant D)
  | perms (address : Pubkey) (p : PendingAgentPermissionsUpdate D)

section Defs

variable {D : Type}

def Ledger.Holds (l : Ledger D) : Pending D → Prop
  | .transfer p => l.pendingOwner = some p
  | .grant p => l.pendingGrant = some p
  | .perms address p => l.pendingPerms address = some p

def Call.Queues : Call D → Pending D → Prop
  | initiateOwnershipTransfer owner _ newOwner _, .transfer p =>
    p.currentOwner = owner ∧ p.newOwner = newOwner
  | queueAgentGrant _ _ agent capability _, .grant p =>
    p.agent = agent ∧ p.capability = capability
  | queueAgentPermissionsUpdate _ _ agent newCapability _ _ _, .perms _ p =>
    p.agent = agent ∧ p.newCapability = newCapability
  | _, _ => False

/-- The instruction that makes a waiting change take effect. -/
def Call.Applies (l : Ledger D) : Call D → Pending D → Prop
  | acceptOwnershipTransfer _, .transfer p => l.Holds (.transfer p)
  | applyAgentGrant .., .grant p => l.Holds (.grant p)
  | applyAgentPermissionsUpdate _ _ address, .perms address' p =>
    address' = address ∧ l.Holds (.perms address p)
  | _, _ => False

theorem Call.Applies.holds {l : Ledger D} {c : Call D} {x : Pending D} (h : c.Applies l x) :
    l.Holds x := by
  cases c <;> cases x <;> try exact h.elim
  case acceptOwnershipTransfer.transfer => exact h
  case applyAgentGrant.grant => exact h
  case applyAgentPermissionsUpdate.perms => exact h.1 ▸ h.2

end Defs

section Exec

variable {D : Type} [Host D] [DecidableEq D] {env : Env} {c : Call D} {l l' : Ledger D}
  {x : Pending D}

omit [DecidableEq D] in
theorem holds_of_closedLedger {a : VaultAccounts D} {remaining : List AccountMeta}
    (h : (closedLedger a remaining l).Holds x) : l.Holds x := by
  cases x with
  | transfer p => exact mem_of_mem_drainListed h
  | grant p => exact mem_of_mem_drainListed h
  | perms address p =>
    simp only [Ledger.Holds, closedLedger] at h
    split at h
    · exact mem_of_mem_drainListed h
    · exact h

theorem eq_some_of_update_none {β : Type} {f : Pubkey → Option β} {k i : Pubkey} {b : β}
    (h : Function.update f k none i = some b) : f i = some b := by
  by_cases hi : i = k
  · subst hi
    simp at h
  · rwa [Function.update_of_ne hi] at h

theorem exec_queues (h : exec env l c = .ok l') (hnot : ¬ l.Holds x) (hx : l'.Holds x) :
    c.Queues x := by
  cases x with
  | transfer p =>
    have hwrites : Part.pendingOwner ∈ c.writes := by
      by_contra hp
      exact hnot ((exec_frame h hp).symm.trans hx)
    cases c <;> simp [Call.writes, Part.ofVault] at hwrites
    case closeVault =>
      obtain ⟨a, -, -, -, -, -, rfl⟩ := closeVault_ok h
      exact absurd (holds_of_closedLedger hx) hnot
    case freezeVault =>
      obtain ⟨a, pendingOwner, tokens, -, -, rfl, rfl⟩ := freezeVault_ok h
      simp only [Ledger.Holds] at hx
      split at hx
      · cases hx
      · exact absurd hx hnot
    case initiateOwnershipTransfer =>
      obtain ⟨a, pending, -, -, -, hqueued, rfl⟩ := initiateOwnershipTransfer_ok h
      cases hx
      exact ⟨hqueued.currentOwner, hqueued.newOwner⟩
    case acceptOwnershipTransfer =>
      obtain ⟨a, pending, version, -, -, -, -, rfl⟩ := acceptOwnershipTransfer_ok h
      cases hx
    case cancelOwnershipTransfer =>
      obtain ⟨a, -, -, rfl⟩ := cancelOwnershipTransfer_ok h
      cases hx
  | grant p =>
    have hwrites : Part.pendingGrant ∈ c.writes := by
      by_contra hp
      exact hnot ((exec_frame h hp).symm.trans hx)
    cases c <;> simp [Call.writes, Part.ofVault] at hwrites
    case closeVault =>
      obtain ⟨a, -, -, -, -, -, rfl⟩ := closeVault_ok h
      exact absurd (holds_of_closedLedger hx) hnot
    case queueAgentGrant =>
      obtain ⟨a, pending, -, -, -, hqueued, rfl⟩ := queueAgentGrant_ok h
      cases hx
      exact ⟨hqueued.agent, hqueued.capability⟩
    case applyAgentGrant =>
      obtain ⟨a, pending, overlay, version, -, -, -, -, -, -, -, rfl⟩ := applyAgentGrant_ok h
      cases hx
    case cancelAgentGrant =>
      obtain ⟨a, -, -, -, rfl⟩ := cancelAgentGrant_ok h
      cases hx
  | perms address p =>
    have hwrites : Part.pendingPerms ∈ c.writes := by
      by_contra hp
      exact hnot ((congrFun (exec_frame h hp) address).symm.trans hx)
    cases c <;> simp [Call.writes, Part.ofVault] at hwrites
    case closeVault =>
      obtain ⟨a, -, -, -, -, -, rfl⟩ := closeVault_ok h
      exact absurd (holds_of_closedLedger hx) hnot
    case queueAgentPermissionsUpdate =>
      obtain ⟨a, pending, -, -, -, hqueued, rfl⟩ := queueAgentPermissionsUpdate_ok h
      simp only [Ledger.Holds, Function.update_apply] at hx
      split at hx
      · cases hx
        exact ⟨hqueued.agent, hqueued.capability⟩
      · exact absurd hx hnot
    case applyAgentPermissionsUpdate =>
      obtain ⟨a, pending, entry, overlay, version, -, -, -, -, -, -, -, rfl⟩ :=
        applyAgentPermissionsUpdate_ok h
      exact absurd (eq_some_of_update_none hx) hnot
    case cancelAgentPermissionsUpdate =>
      obtain ⟨a, -, -, -, rfl⟩ := cancelAgentPermissionsUpdate_ok h
      exact absurd (eq_some_of_update_none hx) hnot

/-- A change that waits at the end of a run, but did not at its start, was queued in the run and has
been waiting since. -/
theorem run_queues {as : List (Action D)} (hrun : Run Step l as l') (hnot : ¬ l.Holds x)
    (hx : l'.Holds x) : ∃ front env c back m m', as = front ++ .call env c :: back ∧
      Run Step l front m ∧ ¬ m.Holds x ∧ exec env m c = .ok m' ∧ c.Queues x ∧ m'.Holds x ∧
      Run (fun m a m' => m.Holds x ∧ Step m a m') m' back l' := by
  obtain ⟨front, action, back, m, m', rfl, hfront, hm, hstep, hm', hback⟩ :=
    hrun.exists_gain (P := fun m => m.Holds x) hnot hx
  cases hstep with
  | foreign => cases x <;> exact absurd hm' hm
  | @call env c _ _ hexec =>
    exact ⟨front, env, c, back, m, m', rfl, hfront, hm, hexec, exec_queues hexec hm hm', hm',
      hback⟩

/-- An instruction that succeeded in the course of a run, and has left a pending change behind that
waits to the end. -/
structure QueuedIn (l₀ : Ledger D) (as : List (Action D)) (l : Ledger D) (env : Env) (c : Call D)
    (a : VaultAccounts D) (x : Pending D) : Prop where
  split : ∃ front back m m', as = front ++ .call env c :: back ∧ Run Step l₀ front m ∧
    m.live = some a ∧ exec env m c = .ok m' ∧
    Run (fun m action m' => m.Holds x ∧ Step m action m') m' back l
  owner : c.signer = a.vault.owner
  queues : c.Queues x

theorem Call.Queues.owner (h : c.Queues x) (hexec : exec env l c = .ok l') :
    ∃ a, l.live = some a ∧ c.signer = a.vault.owner := by
  cases c <;> cases x <;> try exact h.elim
  case initiateOwnershipTransfer.transfer =>
    obtain ⟨a, pending, ha, howner, -⟩ := initiateOwnershipTransfer_ok hexec
    exact ⟨a, ha, howner.symm⟩
  case queueAgentGrant.grant =>
    obtain ⟨a, pending, ha, howner, -⟩ := queueAgentGrant_ok hexec
    exact ⟨a, ha, howner.symm⟩
  case queueAgentPermissionsUpdate.perms =>
    obtain ⟨a, pending, ha, howner, -⟩ := queueAgentPermissionsUpdate_ok hexec
    exact ⟨a, ha, howner.symm⟩

theorem run_queuedIn {as : List (Action D)} (hrun : Run Step l as l') (hnot : ¬ l.Holds x)
    (hx : l'.Holds x) : ∃ env c a, QueuedIn l as l' env c a x := by
  obtain ⟨front, env, c, back, m, m', hsplit, hfront, -, hexec, hqueues, -, hback⟩ :=
    run_queues hrun hnot hx
  obtain ⟨a, ha, howner⟩ := hqueues.owner hexec
  exact ⟨env, c, a, ⟨front, back, m, m', hsplit, hfront, ha, hexec, hback⟩, howner, hqueues⟩

end Exec

end Sigil
