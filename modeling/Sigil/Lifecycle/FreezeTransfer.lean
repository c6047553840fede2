import Sigil.Authority.AgentSet
import Sigil.Lifecycle.FreezeGate

/-! # Freezing and pending transfers of ownership

A freeze is meant to end the transfer of ownership that is under way. `freeze_vault` does so when
the account of the transfer is the first of the remaining ones; otherwise, and whenever the loss of
the last agent freezes the vault, the transfer waits on, and its delay with it. After a freeze that
has ended it, whatever is accepted was initiated later.
-/

namespace Sigil

open Guard Trace

section Freeze

variable {D : Type} [Host D]

/-- A freeze that no transfer outlives: none is pending, or its account is listed first. -/
def Call.EndsTransfer (l : Ledger D) (c : Call D) : Prop :=
  l.pendingOwner = none ∨
    ∃ owner remaining, c = .freezeVault owner remaining ∧
      listsOwnerFirst (D := D) l.vaultKey remaining = true

variable [DecidableEq D] {env : Env} {c : Call D} {l l' m n : Ledger D}

theorem Call.Freezes.no_transfer (h : c.Freezes m) (hexec : exec env l c = .ok m)
    (hends : c.EndsTransfer l) : m.pendingOwner = none := by
  rcases hends with hnone | ⟨owner, remaining, rfl, hlisted⟩
  · cases c <;> try exact h.elim
    case freezeVault =>
      obtain ⟨a, pendingOwner, tokens, -, -, rfl, rfl⟩ := freezeVault_ok hexec
      simp [hnone]
    case revokeAgent =>
      have hframe := exec_frame (p := .pendingOwner) hexec (by simp [Call.writes])
      exact hframe.trans hnone
  · obtain ⟨a, pendingOwner, tokens, -, -, rfl, rfl⟩ := freezeVault_ok hexec
    simp [hlisted]

/-- After a freeze that ends the pending transfer, a transfer is accepted only if its owner
initiated it since. -/
theorem freeze_ends_transfer {newOwner : Pubkey} {env' : Env} {as : List (Action D)}
    (hfreeze : exec env l c = .ok m) (hfreezes : c.Freezes m) (hends : c.EndsTransfer l)
    (hrun : Run Step m as n)
    (haccept : exec env' n (.acceptOwnershipTransfer newOwner) = .ok l') :
    ∃ p, n.pendingOwner = some p ∧
      ∃ envQueue cQueue a, QueuedIn m as n envQueue cQueue a (.transfer p) := by
  obtain ⟨a, p, version, -, hp, -, -, -⟩ := acceptOwnershipTransfer_ok haccept
  have hnone := hfreezes.no_transfer hfreeze hends
  exact ⟨p, hp, run_queuedIn hrun (fun hheld => nomatch hnone.symm.trans hheld) hp⟩

end Freeze

section Sample

/-- The sample owner freezes the vault and lists the account of the pending transfer. -/
def thoroughFreeze : Call Preimage :=
  .freezeVault (sampleKey 1)
    [⟨accountAddress Preimage "pending_owner" leavingLedger.vaultKey, false, true⟩]

def calmedLedger : Ledger Preimage :=
  after (sampleEnv 4000 10) leavingLedger thoroughFreeze

def resumedLedger : Ledger Preimage :=
  after (sampleEnv 5000 12) (after (sampleEnv 4300 11) calmedLedger thawCall)
    sampleInitiate

theorem freeze_ends_transfer_resumed :
    leavingLedger.pendingOwner.isSome = true ∧ ∃ as p, resumedLedger.pendingOwner = some p ∧
      ∃ env c a, QueuedIn calmedLedger as resumedLedger env c a (.transfer p) := by
  obtain ⟨hpending, hfrozen, hthawed, hinitiated, haccepted⟩ :
      leavingLedger.pendingOwner.isSome = true ∧
        (exec (sampleEnv 4000 10) leavingLedger thoroughFreeze).isOk = true ∧
        (exec (sampleEnv 4300 11) calmedLedger thawCall).isOk = true ∧
        (exec (sampleEnv 5000 12) (after (sampleEnv 4300 11) calmedLedger thawCall)
          sampleInitiate).isOk = true ∧
        (exec (sampleEnv 177800 400000) resumedLedger sampleAccept).isOk = true := by
    decide +kernel
  have hfreeze : exec (envAt 4000 10 (by decide)) leavingLedger thoroughFreeze = .ok calmedLedger :=
    exec_after hfrozen
  have hthaw : Step calmedLedger (.call (envAt 4300 11 (by decide)) thawCall) _ :=
    .after hthawed
  have hinitiate : Step _ (.call (envAt 5000 12 (by decide)) sampleInitiate) resumedLedger :=
    .after hinitiated
  have haccept : exec (envAt 177800 400000 (by decide)) resumedLedger sampleAccept = .ok _ :=
    exec_after haccepted
  have hlisted : thoroughFreeze.EndsTransfer leavingLedger :=
    .inr ⟨_, _, rfl, by decide +kernel⟩
  exact ⟨hpending, _, freeze_ends_transfer hfreeze trivial hlisted
    ((Run.single hthaw).snoc hinitiate) haccept⟩

/-- The sample vault is frozen while a transfer is pending, and the account of the transfer is not
listed. -/
def panickedLedger : Ledger Preimage :=
  after (sampleEnv 4000 10) leavingLedger (.freezeVault (sampleKey 1) [])

/-- The sample vault loses its only agent while a transfer is pending. -/
def desertedLedger : Ledger Preimage :=
  after (sampleEnv 4000 10) (joinedLedger (sampleKey 5))
    (.revokeAgent (sampleKey 1) (sampleKey 5))

/-- The vault is reactivated, and the pending transfer is accepted when its delay is over. -/
def reopenedLedger (l : Ledger Preimage) : Ledger Preimage :=
  after (sampleEnv 4300 11) l thawCall

def lostLedger (l : Ledger Preimage) : Ledger Preimage :=
  after (sampleEnv 174800 400000) (reopenedLedger l) sampleAccept

theorem transferKept_ok :
    leavingLedger.pendingOwner.map (fun p => p.newOwner) = some (sampleKey 9) ∧
      (exec (sampleEnv 4000 10) leavingLedger (.freezeVault (sampleKey 1) [])).isOk = true ∧
      (exec (sampleEnv 3000 9) leavingLedger (joinCall (sampleKey 5))).isOk = true ∧
      (exec (sampleEnv 4000 10) (joinedLedger (sampleKey 5))
        (.revokeAgent (sampleKey 1) (sampleKey 5))).isOk = true ∧
      ∀ l ∈ [panickedLedger, desertedLedger],
        l.live.any (fun a => a.vault.status = .frozen) = true ∧
        l.pendingOwner = leavingLedger.pendingOwner ∧
        (exec (sampleEnv 4300 11) l thawCall).isOk = true ∧
        (reopenedLedger l).pendingOwner = leavingLedger.pendingOwner ∧
        (exec (sampleEnv 174800 400000) (reopenedLedger l) sampleAccept).isOk = true ∧
        (lostLedger l).live.any (fun a => a.vault.owner = sampleKey 9) = true := by
  decide +kernel

theorem run_panickedLedger : ∃ as, Run Step leavingLedger as panickedLedger :=
  ⟨_, .single (.after transferKept_ok.2.1)⟩

theorem run_desertedLedger : ∃ as, Run Step leavingLedger as desertedLedger := by
  obtain ⟨-, -, hjoined, hrevoked, -⟩ := transferKept_ok
  have hjoin : Step leavingLedger _ (joinedLedger (sampleKey 5)) := .after hjoined
  have hrevoke : Step (joinedLedger (sampleKey 5)) (.call (envAt 4000 10 (by decide))
      (.revokeAgent (sampleKey 1) (sampleKey 5))) desertedLedger := .after hrevoked
  exact ⟨_, (Run.single hjoin).snoc hrevoke⟩

/-- Both ways to freeze the vault leave the transfer that is pending, and it is accepted after the
vault is reactivated. -/
theorem transfer_outlives_freeze :
    ∃ p, leavingLedger.pendingOwner = some p ∧ ∀ l ∈ [panickedLedger, desertedLedger],
      (∃ as, Run Step leavingLedger as l) ∧
      l.live.any (fun a => a.vault.status = .frozen) = true ∧ l.pendingOwner = some p ∧
      Step l (.call (envAt 4300 11 (by decide)) thawCall) (reopenedLedger l) ∧
      (reopenedLedger l).pendingOwner = some p ∧
      Step (reopenedLedger l) (.call (envAt 174800 400000 (by decide)) sampleAccept)
        (lostLedger l) ∧
      (lostLedger l).live.any (fun a => a.vault.owner = p.newOwner) = true := by
  obtain ⟨hpending, -, -, -, hkept⟩ := transferKept_ok
  obtain ⟨p, hp, howner⟩ := Option.map_eq_some_iff.mp hpending
  refine ⟨p, hp, fun l hl => ?_⟩
  have hrun : ∃ as, Run Step leavingLedger as l := by
    rcases List.mem_pair.mp hl with rfl | rfl
    · exact run_panickedLedger
    · exact run_desertedLedger
  obtain ⟨hfrozen, hbefore, hthawed, hafter, haccepted, hlost⟩ := hkept l hl
  rw [hp] at hbefore hafter
  rw [howner]
  exact ⟨hrun, hfrozen, hbefore, .after hthawed, hafter, .after haccepted, hlost⟩

end Sample

end Sigil
