import Sigil.System.PendingChanges

/-! # The chain of owners

A vault has an owner from its creation, and another one only by a transfer that the owner before
initiated, two days or more before the successor accepts it. So every owner is linked to the one
who created the vault by a chain of such transfers, whatever else is done to the vault in between.
-/

namespace Sigil

open Machine Guard Trace

section Succession

variable {D : Type}

/-- The actions show how a key came to own the vault: it created the vault, or an owner before it
initiated a transfer that it accepted after the delay. -/
inductive Succession : List (Action D) → Pubkey → Prop
  | created {front back : List (Action D)} {env : Env} {owner feeDestination : Pubkey}
      {args : InitializeVaultArgs D} :
      Succession (front ++ .call env (.initializeVault owner feeDestination args) :: back) owner
  | handed {front mid back : List (Action D)} {env env' : Env} {old new : Pubkey}
      {remaining : List AccountMeta} {isMultisigTarget : Bool} (hold : Succession front old)
      (hdelay : env.clock.unixTimestamp + 172800 ≤ env'.clock.unixTimestamp) :
      Succession (front ++ .call env
        (.initiateOwnershipTransfer old remaining new isMultisigTarget) ::
          mid ++ .call env' (.acceptOwnershipTransfer new) :: back) new

/-- The actions show who initiated a pending transfer, and when. -/
inductive Initiated : List (Action D) → PendingOwnershipTransfer → Prop
  | intro {front mid : List (Action D)} {env : Env} {p : PendingOwnershipTransfer}
      {remaining : List AccountMeta} {isMultisigTarget : Bool}
      (howner : Succession front p.currentOwner) (hqueued : p.queuedAt = env.clock.unixTimestamp)
      (hdelay : p.minDelaySeconds = PendingOwnershipTransfer.defaultMinDelay) :
      Initiated (front ++ .call env
        (.initiateOwnershipTransfer p.currentOwner remaining p.newOwner isMultisigTarget) :: mid) p

variable {as : List (Action D)} {k : Pubkey} {p : PendingOwnershipTransfer}

theorem Succession.append (h : Succession as k) (bs : List (Action D)) :
    Succession (as ++ bs) k := by
  cases h with
  | created =>
    rw [List.append_assoc, List.cons_append]
    exact .created
  | handed hold hdelay =>
    rw [List.append_assoc, List.cons_append]
    exact .handed hold hdelay

theorem Initiated.append (h : Initiated as p) (bs : List (Action D)) :
    Initiated (as ++ bs) p := by
  cases h with
  | intro howner hqueued hdelay =>
    rw [List.append_assoc, List.cons_append]
    exact .intro howner hqueued hdelay

/-- The owner of the vault and the pending transfer are both accounted for. -/
structure Ledger.Descends (as : List (Action D)) (l : Ledger D) : Prop where
  owner : ∀ a ∈ l.live, Succession as a.vault.owner
  pending : ∀ p ∈ l.pendingOwner, Initiated as p

variable {l l' : Ledger D} {env : Env} {a : VaultAccounts D}

theorem Initiated.accepted {newOwner : Pubkey} (h : Initiated as p)
    (hready : TransferReady env a newOwner p) :
    Succession (as ++ [.call env (.acceptOwnershipTransfer newOwner)]) newOwner := by
  obtain ⟨howner, hqueued, hdelay⟩ := h
  have hwaited := hready.elapsed
  rw [hdelay, hqueued, show castI64 PendingOwnershipTransfer.defaultMinDelay = 172800 from rfl]
    at hwaited
  rw [← hready.newOwner]
  exact .handed howner (by omega)

variable [Host D] [DecidableEq D] {c : Call D}

theorem exec_initiated (hexec : exec env l c = .ok l') (hl : l.Descends as) :
    ∀ p ∈ l'.pendingOwner, Initiated (as ++ [.call env c]) p := by
  intro p hp
  by_cases hheld : l.Holds (.transfer p)
  · exact (hl.pending p hheld).append _
  -- the transfer is new, so this instruction has initiated it
  · have hqueues : c.Queues (.transfer p) := exec_queues hexec hheld hp
    cases c <;> try exact hqueues.elim
    case initiateOwnershipTransfer owner remaining newOwner isMultisigTarget =>
      simp only [exec, initiateOwnershipTransfer, seq_ok_iff, Ledger.loadAsOwner_ok_iff,
        mustBeNew_ok_iff, rejectCpi_ok_iff, ensure_ok_iff, VaultAccounts.cosignGate_ok_iff,
        exists_and_left, exists_const, pure_ok_iff] at hexec
      obtain ⟨b, ⟨hb, howner⟩, -, -, -, -, -, -, -, -, rfl⟩ := hexec
      obtain ⟨hcurrent, hnew, hqueued, hdelay⟩ : p.currentOwner = owner ∧ p.newOwner = newOwner ∧
          p.queuedAt = env.clock.unixTimestamp ∧
          p.minDelaySeconds = PendingOwnershipTransfer.defaultMinDelay := by
        rw [← Option.some.inj hp]
        exact ⟨rfl, rfl, rfl, rfl⟩
      subst hcurrent hnew
      exact .intro (howner ▸ hl.owner b hb) hqueued hdelay

theorem exec_succession (hexec : exec env l c = .ok l') (hl : l.Descends as) :
    ∀ a ∈ l'.live, Succession (as ++ [.call env c]) a.vault.owner := by
  intro a' ha'
  by_cases hwrites : Part.custody ∉ c.writes
  · obtain ⟨b, hb, hsame⟩ := Ledger.Agree.exists_before (exec_frame hexec hwrites) ha'
    have howner : a'.vault.owner = b.vault.owner := (Prod.mk.inj hsame).1
    rw [howner]
    exact (hl.owner b hb).append _
  cases c <;> simp [Call.writes, Part.ofVault] at hwrites
  case initializeVault owner feeDestination args =>
    obtain ⟨-, -, -, -, -, -, rfl⟩ := initializeVault_ok hexec
    cases ha'
    exact .created
  case closeVault =>
    obtain ⟨b, -, -, -, -, -, rfl⟩ := closeVault_ok hexec
    cases ha'
  case acceptOwnershipTransfer newOwner =>
    obtain ⟨b, p, version, hb, hp, hready, -, rfl⟩ := acceptOwnershipTransfer_ok hexec
    cases ha'
    exact (hl.pending p hp).accepted hready

/-- In every run from genesis the owner of a live vault has created it or accepted it, two days or
more after a transfer to it was initiated by an owner of whom the same holds. -/
theorem owner_by_succession {l₀ : Ledger D} (h₀ : l₀.Genesis) (hrun : Run Step l₀ as l)
    (ha : l.live = some a) : Succession as a.vault.owner := by
  suffices hdescends : l.Descends as from hdescends.owner a ha
  refine hrun.induct (P := fun as m => m.Descends as) ?_ ?_
  · constructor <;> simp [h₀.live, h₀.pendingOwner]
  · intro as m x m' _ hm hstep
    cases hstep with
    | call hexec => exact ⟨exec_succession hexec hm, exec_initiated hexec hm⟩
    | foreign =>
      exact ⟨fun a ha => (hm.owner a ha).append _, fun p hp => (hm.pending p hp).append _⟩

end Succession

section Sample

def succeededLedger : Ledger Preimage := after (sampleEnv 174800 400000) leavingLedger sampleAccept

theorem succeededLedger_ok :
    (exec (sampleEnv 174800 400000) leavingLedger sampleAccept).isOk = true ∧
      succeededLedger.live.map (fun a => a.vault.owner) = some (sampleKey 9) := by
  decide +kernel

theorem owner_by_succession_sample : ∃ as, Run Step emptyLedger as succeededLedger ∧
    Succession as (sampleKey 9) := by
  obtain ⟨haccepted, howner⟩ := succeededLedger_ok
  obtain ⟨a, ha, howner⟩ := Option.map_eq_some_iff.mp howner
  have hrun := (Run.snoc (.single step_sampleInitialize) step_leavingLedger).snoc
    (Step.after haccepted)
  have hchain := owner_by_succession genesis_emptyLedger hrun ha
  rw [howner] at hchain
  exact ⟨_, hrun, hchain⟩

end Sample

end Sigil
