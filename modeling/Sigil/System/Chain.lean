import Sigil.System.Frame
import Sigil.System.Transaction

/-! # All vaults together

The chain has one ledger for each address that a vault can have; they share the token accounts and
the foreign accounts. An instruction of the program is a call on one vault, which the ledgers of
the others see as a change of token accounts. Seen from one vault, a step of the chain is a step of
its transaction.
-/

namespace Sigil

open Guard Trace TokenLedger

structure Chain (D : Type) where
  vault : Pubkey → Ledger D
  key : ∀ k, (vault k).vaultKey = k
  tokens : ∀ k j, (vault k).tokens = (vault j).tokens
  others : ∀ k j, (vault k).others = (vault j).others

section Defs

variable {D : Type}

/-- Nothing but token accounts and foreign accounts has changed. -/
def Ledger.OnlyForeign (l l' : Ledger D) : Prop :=
  ∃ tokens others, l' = { l with tokens := tokens, others := others }

/-- No vault has been created yet. -/
def Chain.Genesis (w : Chain D) : Prop := ∀ k, (w.vault k).Genesis

/-- The chain after a call on one vault has left its ledger behind. -/
def Chain.put (w : Chain D) (k : Pubkey) (l : Ledger D) (hl : l.vaultKey = k) : Chain D where
  vault := fun j => if j = k then l else { w.vault j with tokens := l.tokens, others := l.others }
  key := fun j => by
    split
    · rename_i hj
      exact hl.trans hj.symm
    · exact w.key j
  tokens := fun j j' => by split <;> split <;> rfl
  others := fun j j' => by split <;> split <;> rfl

def Chain.touch (w : Chain D) (tokens : Accounts Pubkey) (others : Pubkey → AccountInfo) :
    Chain D where
  vault := fun j => { w.vault j with tokens := tokens, others := others }
  key := w.key
  tokens := fun _ _ => rfl
  others := fun _ _ => rfl

theorem Chain.vault_put (w : Chain D) {k : Pubkey} {l : Ledger D} (hl : l.vaultKey = k) :
    (w.put k l hl).vault k = l :=
  if_pos rfl

theorem Chain.vault_touch (w : Chain D) (tokens : Accounts Pubkey) (others : Pubkey → AccountInfo)
    (k : Pubkey) : (w.touch tokens others).vault k =
      { w.vault k with tokens := tokens, others := others } :=
  rfl

theorem Chain.onlyForeign_put (w : Chain D) {k j : Pubkey} {l : Ledger D} (hl : l.vaultKey = k)
    (hj : j ≠ k) : (w.vault j).OnlyForeign ((w.put k l hl).vault j) :=
  ⟨l.tokens, l.others, if_neg hj⟩

variable [Host D] [DecidableEq D]

/-- The effect of one listed instruction on all vaults. -/
inductive ChainStep (env : Env) : Chain D → Instruction → Chain D → Prop
  | call {w w' : Chain D} {ix : Instruction} {c : Call D} (k : Pubkey) (hix : c.Encodes k ix)
      (h : exec env (w.vault k) c = .ok (w'.vault k))
      (hother : ∀ j, j ≠ k → (w.vault j).OnlyForeign (w'.vault j)) : ChainStep env w ix w'
  | foreign {w w' : Chain D} {ix : Instruction}
      (hix : ix.programId = programId → ∀ c : Call D, ix.data.take 8 ≠ c.discriminator)
      (hother : ∀ j, (w.vault j).OnlyForeign (w'.vault j)) : ChainStep env w ix w'

def Transaction.chainStep (tx : Transaction) (w : Chain D) (i : ℕ) (w' : Chain D) : Prop :=
  ∃ ix, tx.instructions[i]? = some ix ∧ ChainStep (tx.env i) w ix w'

/-- All instructions of a transaction succeed, and the chain is what they leave. -/
def Committed (w : Chain D) (tx : Transaction) (w' : Chain D) : Prop :=
  Run tx.chainStep w (List.range tx.instructions.length) w'

variable {env : Env} {w w' : Chain D} {ix : Instruction}

theorem ChainStep.put {k : Pubkey} {c : Call D} {l' : Ledger D} (hix : c.Encodes k ix)
    (h : exec env (w.vault k) c = .ok l') :
    ChainStep env w ix (w.put k l' ((exec_vaultKey h).trans (w.key k))) :=
  .call k hix ((w.vault_put _).symm ▸ h) fun _ hj => w.onlyForeign_put _ hj

theorem ChainStep.ixStep (h : ChainStep env w ix w') (j : Pubkey) :
    IxStep env (w.vault j) ix (w'.vault j) := by
  cases h with
  | call k hix hexec hother =>
    by_cases hj : j = k
    · subst hj
      exact .own ((w.key j).symm ▸ hix) hexec
    · obtain ⟨tokens, others, heq⟩ := hother j hj
      rw [heq]
      exact .elsewhere ((w.key k).symm ▸ hix) hexec tokens others
  | foreign hix hother =>
    obtain ⟨tokens, others, heq⟩ := hother j
    rw [heq]
    exact .foreign hix tokens others

theorem Committed.commits {tx : Transaction} (h : Committed w tx w') (j : Pubkey) :
    tx.Commits (w.vault j) (w'.vault j) := by
  refine h.map (fun w => w.vault j) fun _ _ _ hstep => ?_
  obtain ⟨ix, hix, hstep⟩ := hstep
  exact ⟨ix, hix, hstep.ixStep j⟩

theorem exists_run_of_committed {txs : List Transaction} (h : Run Committed w txs w') (j : Pubkey) :
    ∃ as : List (Action D), Run Step (w.vault j) as (w'.vault j) := by
  refine h.invariant (P := fun m => ∃ as : List (Action D), Run Step (w.vault j) as (m.vault j))
    ?_ ⟨[], .nil _⟩
  rintro m tx m' ⟨as, hrun⟩ hcommitted
  obtain ⟨bs, hrest⟩ := Transaction.exists_run (hcommitted.commits j)
  exact ⟨as ++ bs, hrun.append hrest⟩

end Defs

end Sigil
