import Sigil.Library.Trace
import Sigil.System.Exec

/-! # Transactions

A transaction runs the instructions it lists one after the other, at the top level, and commits
when all of them succeed. An instruction of this program is dispatched by the first eight bytes of
its data. No instruction of this program runs inside another program, so whatever else is listed
changes nothing of a vault but its token accounts.
-/

namespace Sigil

open Guard Trace TokenLedger

namespace Call

variable {D : Type}

/-- The first eight bytes of the hash of `global:` and the instruction's name. -/
def discriminator : Call D → List UInt8
  | initializeVault .. => [48, 191, 163, 44, 71, 129, 63, 164]
  | closeVault .. => [141, 103, 17, 126, 72, 75, 29, 29]
  | freezeVault .. => [144, 211, 63, 236, 97, 31, 170, 175]
  | reactivateVault .. => [245, 50, 143, 70, 114, 220, 25, 251]
  | setObserveOnly .. => [36, 88, 141, 35, 179, 134, 54, 12]
  | depositFunds .. => [202, 39, 52, 211, 53, 20, 250, 88]
  | withdrawFunds .. => [241, 36, 29, 111, 208, 31, 104, 217]
  | pauseAgent .. => [148, 32, 1, 26, 147, 122, 178, 140]
  | unpauseAgent .. => [46, 125, 165, 212, 241, 143, 190, 95]
  | registerAgent .. => [135, 157, 66, 195, 2, 113, 175, 30]
  | revokeAgent .. => [227, 60, 209, 125, 240, 117, 163, 73]
  | recordAgentViolation .. => [131, 113, 120, 227, 219, 36, 160, 109]
  | queueAgentGrant .. => [136, 162, 54, 49, 167, 254, 200, 26]
  | applyAgentGrant .. => [236, 230, 108, 143, 155, 71, 185, 87]
  | cancelAgentGrant .. => [193, 182, 191, 195, 80, 150, 140, 196]
  | queueAgentPermissionsUpdate .. => [182, 37, 105, 181, 28, 195, 223, 167]
  | applyAgentPermissionsUpdate .. => [234, 166, 205, 3, 28, 166, 221, 240]
  | cancelAgentPermissionsUpdate .. => [92, 232, 92, 115, 110, 238, 235, 55]
  | queuePolicyUpdate .. => [149, 18, 76, 197, 179, 193, 91, 77]
  | approvePendingPolicy .. => [151, 218, 153, 6, 155, 67, 8, 200]
  | cancelPendingPolicy .. => [153, 36, 104, 200, 50, 94, 207, 33]
  | applyPendingPolicy .. => [114, 212, 19, 227, 89, 199, 74, 62]
  | promoteGraylistDestination .. => [227, 87, 73, 141, 202, 251, 202, 228]
  | initiateOwnershipTransfer .. => [22, 108, 197, 103, 223, 145, 132, 65]
  | acceptOwnershipTransfer .. => [30, 187, 65, 5, 93, 131, 38, 208]
  | acceptOwnershipTransferMultisig .. => [112, 147, 61, 110, 221, 182, 203, 99]
  | cancelOwnershipTransfer .. => [2, 184, 195, 105, 138, 142, 154, 75]
  | createPostAssertions .. => [204, 21, 218, 182, 202, 140, 239, 63]
  | closePostAssertions .. => [226, 172, 252, 173, 29, 236, 59, 248]
  | agentTransfer .. => [199, 111, 151, 49, 124, 13, 150, 44]
  | validateAndAuthorize .. => validateAndAuthorizeDiscriminator
  | finalizeSession .. => finalizeSessionDiscriminator

theorem exists_validateAndAuthorize {c : Call D}
    (h : c.discriminator = validateAndAuthorizeDiscriminator) :
    ∃ args, c = .validateAndAuthorize args := by
  cases c <;> first
    | exact ⟨_, rfl⟩
    | simp [discriminator, validateAndAuthorizeDiscriminator, finalizeSessionDiscriminator] at h

theorem exists_finalizeSession {c : Call D} (h : c.discriminator = finalizeSessionDiscriminator) :
    ∃ args, c = .finalizeSession args := by
  cases c <;> first
    | exact ⟨_, rfl⟩
    | simp [discriminator, validateAndAuthorizeDiscriminator, finalizeSessionDiscriminator] at h

/-- The accounts of the two ends of a session that other instructions look up by position. -/
def positions [Host D] (vault : Pubkey) : Call D → List (ℕ × Pubkey)
  | validateAndAuthorize args =>
    [(0, args.agent), (1, vault), (5, sessionAddress D vault args.agent args.tokenMint),
      (6, args.vaultTokenAccount), (7, args.tokenMintAccount)]
  | finalizeSession args => [(0, args.payer), (1, vault), (2, args.session)]
  | _ => []

/-- A listed instruction reads as a call on a vault. -/
structure Encodes [Host D] (c : Call D) (vault : Pubkey) (ix : Instruction) : Prop where
  program : ix.programId = programId
  discriminator : ix.data.take 8 = c.discriminator
  accounts : ∀ p ∈ c.positions vault, ix.accounts[p.1]?.map AccountMeta.pubkey = some p.2

end Call

structure Transaction where
  clock : Clock
  instructions : List Instruction
  /-- What the accounts of this program hold when the instruction at a position runs. -/
  ownBytes : ℕ → Pubkey → List UInt8

def Transaction.env (tx : Transaction) (i : ℕ) : Env where
  clock := tx.clock
  stackHeight := transactionLevelStackHeight
  instructions := tx.instructions
  currentIndex := i
  ownBytes := tx.ownBytes i

section Steps

variable {D : Type} [Host D] [DecidableEq D]

/-- The effect of one listed instruction on the ledger of a vault: it is a call on this vault, or a
call on another one, or no call of this program. -/
inductive IxStep (env : Env) : Ledger D → Instruction → Ledger D → Prop
  | own {l l' : Ledger D} {ix : Instruction} {c : Call D} (hix : c.Encodes l.vaultKey ix)
      (h : exec env l c = .ok l') : IxStep env l ix l'
  | elsewhere {l m m' : Ledger D} {ix : Instruction} {c : Call D} (hix : c.Encodes m.vaultKey ix)
      (h : exec env m c = .ok m') (tokens : Accounts Pubkey) (others : Pubkey → AccountInfo) :
      IxStep env l ix { l with tokens := tokens, others := others }
  | foreign {l : Ledger D} {ix : Instruction}
      (hix : ix.programId = programId → ∀ c : Call D, ix.data.take 8 ≠ c.discriminator)
      (tokens : Accounts Pubkey) (others : Pubkey → AccountInfo) :
      IxStep env l ix { l with tokens := tokens, others := others }

/-- The instruction at a position takes its effect. -/
def Transaction.step (tx : Transaction) (l : Ledger D) (i : ℕ) (l' : Ledger D) : Prop :=
  ∃ ix, tx.instructions[i]? = some ix ∧ IxStep (tx.env i) l ix l'

def Transaction.Commits (tx : Transaction) (l l' : Ledger D) : Prop :=
  Run tx.step l (List.range tx.instructions.length) l'

variable {env : Env} {l l' : Ledger D} {ix : Instruction}

theorem IxStep.exec_of_discriminator {c : Call D} (h : IxStep env l ix l')
    (hix : hasDiscriminator c.discriminator ix = true) :
    ∃ (m m' : Ledger D) (c' : Call D), c'.discriminator = c.discriminator ∧
      c'.Encodes m.vaultKey ix ∧ exec env m c' = .ok m' := by
  obtain ⟨hprogram, hdata⟩ := of_decide_eq_true hix
  cases h with
  | own hview hexec => exact ⟨_, _, _, hview.discriminator.symm.trans hdata, hview, hexec⟩
  | elsewhere hview hexec => exact ⟨_, _, _, hview.discriminator.symm.trans hdata, hview, hexec⟩
  | foreign hnot => exact absurd hdata (hnot hprogram c)

theorem Transaction.exists_run {tx : Transaction} {js : List ℕ} (h : Run tx.step l js l') :
    ∃ as : List (Action D), Run Step l as l' := by
  refine h.invariant (P := fun s => ∃ as : List (Action D), Run Step l as s) ?_ ⟨[], .nil l⟩
  rintro s j s' ⟨as, hrun⟩ ⟨y, -, hstep⟩
  cases hstep with
  | own _ hexec => exact ⟨_, hrun.snoc (.call hexec)⟩
  | elsewhere => exact ⟨_, hrun.snoc (.foreign _ _ _)⟩
  | foreign => exact ⟨_, hrun.snoc (.foreign _ _ _)⟩

end Steps

end Sigil
