import Sigil.Authority.AgentPower
import Sigil.Lifecycle.Incarnation
import Sigil.Session.Outflow

/-! # Custody

How tokens leave the accounts of a vault that requires a cosigner: by withdrawals that the cosigner
signs too and by the spends of the agents, until the cosigner gives up its say. It does that when it
signs the closing of the vault, approves an update of the policy or agrees to a change of owner. The
token accounts outlive the vault, so what a closed vault leaves behind belongs to the next one at
its address, which has no cosigner.
-/

namespace Sigil

open Guard Trace TokenLedger

section Tokens

variable {tokens tokens' : Accounts Pubkey}
  {vaultKey source mint expectedOwner feeDestination k : Pubkey}
  {fee protocolFee developerFee : UInt64}
  {dest treasury feeDest : Option (Pubkey × TokenAccount Pubkey)}
  {e : SigilError} {cluster : Cluster}

variable {D : Type} [Host D] {env : Env} {l l' : Ledger D} {owner : Pubkey} {amount : UInt64}

end Tokens

/-! ## The say of a key -/

section Say

variable {D : Type}

/-- The instructions with which a key can give up its say over withdrawals. -/
def Call.givesUp : Call D → Bool
  | closeVault .. | approvePendingPolicy .. | initiateOwnershipTransfer .. => true
  | _ => false

def Action.GivesUp (key : Pubkey) (x : Action D) : Prop := x.SignedBy key ∧ x.Calls Call.givesUp

variable [Host D] [DecidableEq D]

/-- A key has its say over withdrawals: it is the owner's, or that of the required cosigner. -/
structure HasSay (key : Pubkey) (l : Ledger D) (a : VaultAccounts D) : Prop where
  live : l.live = some a
  staged : l.Staged
  say : a.vault.owner = key ∧ l.pendingOwner = none ∨
    a.policy.cosignRequired = true ∧ a.policy.cosignSessionPubkey = key ∧
      ∀ p ∈ l.pendingPolicy, p.cosignApproved = false

variable {key : Pubkey} {env : Env} {c : Call D} {l l' : Ledger D} {a a' : VaultAccounts D}
  {x : Action D}

theorem HasSay.withdraw {owner mint : Pubkey} {remaining : List AccountMeta} {amount : UInt64}
    (h : HasSay key l a)
    (hexec : exec env l (.withdrawFunds owner mint remaining amount) = .ok l') :
    (Call.withdrawFunds owner mint remaining amount : Call D).SignedBy key := by
  obtain ⟨b, -, -, hb, howner, hcosign, -⟩ := withdrawFunds_ok hexec
  rcases h.say with ⟨hkey, -⟩ | ⟨hreq, hbound, -⟩
  · obtain rfl := Option.some.inj (h.live.symm.trans hb)
    exact .inl (howner.symm.trans hkey)
  · exact hbound ▸ signedBy_of_gate h.live hb hreq hcosign

/-- An owner keeps its vault unless it closes it or names a successor. -/
theorem HasSay.of_owner (hstaged : l'.Staged) (ha : l.live = some a) (howner : a.vault.owner = key)
    (hnone : l.pendingOwner = none) (hexec : exec env l c = .ok l')
    (hkept : ¬ (c.SignedBy key ∧ c.givesUp = true)) : ∃ a', HasSay key l' a' := by
  have htransfer : l'.pendingOwner = none := by
    by_contra hsome
    obtain ⟨p, hp⟩ := Option.ne_none_iff_exists'.mp hsome
    have hqueues : c.Queues (.transfer p) :=
      exec_queues hexec (fun hheld => nomatch hnone.symm.trans hheld) hp
    obtain ⟨b, hb, hsigner⟩ := hqueues.owner hexec
    cases ha.symm.trans hb
    cases c <;> try exact hqueues.elim
    exact hkept ⟨.inl (hsigner.trans howner), rfl⟩
  by_cases hcustody : Part.custody ∉ c.writes
  · obtain ⟨a', ha', hsame⟩ := (exec_frame hexec hcustody).exists_after ha
    exact ⟨a', ha', hstaged, .inl ⟨(congrArg Prod.fst hsame).trans howner, htransfer⟩⟩
  cases c <;> simp [Call.writes, Part.ofVault] at hcustody
  case initializeVault =>
    obtain ⟨hnew, -⟩ := initializeVault_ok hexec
    cases hnew.symm.trans ha
  case closeVault =>
    obtain ⟨b, hb, howner', -⟩ := closeVault_ok hexec
    cases ha.symm.trans hb
    exact absurd ⟨.inl (howner'.symm.trans howner), rfl⟩ hkept
  case acceptOwnershipTransfer =>
    obtain ⟨b, p, version, -, hp, -⟩ := acceptOwnershipTransfer_ok hexec
    cases hnone.symm.trans hp

/-- A required cosigner stays bound unless it approves an update or lets the vault be closed; if the
vault is handed over to it, it is the owner. -/
theorem HasSay.of_cosigner (hstaged : l.Staged) (hstaged' : l'.Staged) (ha : l.live = some a)
    (hreq : a.policy.cosignRequired = true) (hbound : a.policy.cosignSessionPubkey = key)
    (hunapproved : ∀ p ∈ l.pendingPolicy, p.cosignApproved = false)
    (hexec : exec env l c = .ok l') (hkept : ¬ (c.SignedBy key ∧ c.givesUp = true)) :
    ∃ a', HasSay key l' a' := by
  by_cases hc : c.isRoutine = true
  · obtain ⟨b, a', hb, ha', hkeeps, hpending⟩ := exec_routine hexec hc
    cases ha.symm.trans hb
    exact ⟨a', ha', hstaged', .inr ⟨(cosignRequired_of_core hkeeps.core).trans hreq,
      (cosignSessionPubkey_of_core hkeeps.core).trans hbound, hpending ▸ hunapproved⟩⟩
  cases c <;> try exact absurd rfl hc
  case initializeVault =>
    obtain ⟨hnew, -⟩ := initializeVault_ok hexec
    cases hnew.symm.trans ha
  case closeVault =>
    obtain ⟨b, hb, -, -, hcosign, -⟩ := closeVault_ok hexec
    exact absurd ⟨hbound ▸ signedBy_of_gate ha hb hreq hcosign, rfl⟩ hkept
  case approvePendingPolicy =>
    obtain ⟨b, -, hb, -, -, hkey, -⟩ := approvePendingPolicy_ok hexec
    cases ha.symm.trans hb
    exact absurd ⟨.inl (hkey.trans hbound), rfl⟩ hkept
  case queuePolicyUpdate =>
    obtain ⟨b, bound, hb, -, -, -, -, -, rfl⟩ := queuePolicyUpdate_ok hexec
    cases ha.symm.trans hb
    exact ⟨_, rfl, hstaged', .inr ⟨hreq, hbound, fun p hp => Option.some.inj hp ▸ rfl⟩⟩
  case cancelPendingPolicy =>
    obtain ⟨b, hb, -, rfl⟩ := cancelPendingPolicy_ok hexec
    cases ha.symm.trans hb
    exact ⟨_, rfl, hstaged', .inr ⟨hreq, hbound, fun p hp => nomatch hp⟩⟩
  case applyPendingPolicy =>
    obtain ⟨a', ha', hpending, -, hcontained⟩ := hstaged.apply ha hreq hunapproved hexec
    have hguards := hcontained.guards
    exact ⟨a', ha', hstaged', .inr ⟨hguards.cosignRequired hreq, hguards.cosigner.trans hbound,
      fun p hp => nomatch hpending.symm.trans hp⟩⟩
  case acceptOwnershipTransfer newOwner =>
    obtain ⟨b, p, version, hb, -, -, -, rfl⟩ := acceptOwnershipTransfer_ok hexec
    cases ha.symm.trans hb
    refine ⟨_, rfl, hstaged', ?_⟩
    by_cases hsuccessor : newOwner = key
    · exact .inl ⟨hsuccessor, rfl⟩
    · have hsame : a.policy.collapseCosigner newOwner = a.policy :=
        if_neg (hbound.trans_ne (Ne.symm hsuccessor))
      right
      change (a.policy.collapseCosigner newOwner).cosignRequired = true ∧
        (a.policy.collapseCosigner newOwner).cosignSessionPubkey = key ∧ _
      rw [hsame]
      exact ⟨hreq, hbound, hunapproved⟩

theorem HasSay.step (h : HasSay key l a) (hstep : Step l x l') (hkept : ¬ x.GivesUp key) :
    ∃ a', HasSay key l' a' := by
  have hstaged := h.staged.step hstep
  cases hstep with
  | foreign => exact ⟨a, h.live, hstaged, h.say⟩
  | call hexec =>
    rcases h.say with ⟨howner, hnone⟩ | ⟨hreq, hbound, hunapproved⟩
    · exact HasSay.of_owner hstaged h.live howner hnone hexec hkept
    · exact HasSay.of_cosigner h.staged hstaged h.live hreq hbound hunapproved hexec hkept

end Say

/-! ## Delegates -/

section Delegates

variable {D : Type}

/-- Whoever may draw on an account of the vault is the agent of an open session on it. -/
def Ledger.SessionsDraw (l : Ledger D) : Prop :=
  ∀ k d, delegateOf l.tokens l.vaultKey k = some d → ∃ address s, l.sessions address = some s ∧
    s.delegated = true ∧ s.delegationTokenAccount = k ∧ s.agent = d

theorem Ledger.SessionsDraw.mono {l l' : Ledger D} (h : l.SessionsDraw)
    (hsessions : l'.sessions = l.sessions)
    (hdelegate : ∀ k d, delegateOf l'.tokens l'.vaultKey k = some d →
      delegateOf l.tokens l.vaultKey k = some d) : l'.SessionsDraw := by
  intro k d hd
  rw [hsessions]
  exact h k d (hdelegate k d hd)

variable [Host D] {env : Env} {l l' : Ledger D} {k : Pubkey}

variable [DecidableEq D] {c : Call D}

end Delegates

/-! ## How tokens leave -/

section Leaves

variable {D : Type} [Host D] [DecidableEq D]

variable {key k : Pubkey} {env : Env} {c : Call D} {l l' : Ledger D} {a : VaultAccounts D}

variable {l₀ m m' : Ledger D} {as bs : List (Action D)} {x : Action D}

end Leaves

section Sample

def actions (calls : List (Env × Call Preimage)) : List (Action Preimage) :=
  calls.map fun x => .call x.1 x.2

def vaultAta : Pubkey :=
  associatedTokenAddress Preimage emptyLedger.vaultKey sampleMint tokenProgramId

end Sample

end Sigil
