import Sigil.System.Frame

/-! # Who can do what

Every instruction on a live vault asks for a key that the state names: the owner, the new owner of
a pending transfer, the cosigner, an agent. Only a session that has expired is closed by anyone.
-/

namespace Sigil

open Guard Trace

section Authorized

variable {D : Type}

inductive Call.Authorized (env : Env) (l : Ledger D) (a : VaultAccounts D) : Call D → Prop
  | owner {c : Call D} (hsigner : c.signer = a.vault.owner) : Authorized env l a c
  | newOwner {key : Pubkey} {pending : PendingOwnershipTransfer}
      (hpending : l.pendingOwner = some pending) (hkey : pending.newOwner = key) :
      Authorized env l a (.acceptOwnershipTransfer key)
  | initiator {key : Pubkey} {remaining : List AccountMeta} {pending : PendingOwnershipTransfer}
      (hpending : l.pendingOwner = some pending) (hkey : pending.currentOwner = key) :
      Authorized env l a (.cancelOwnershipTransfer key remaining)
  | cosigner {key : Pubkey} (hkey : key = a.policy.cosignSessionPubkey) :
      Authorized env l a (.approvePendingPolicy key)
  | spender {args : AgentTransferArgs} (hagent : a.vault.isAgent args.agent = true) :
      Authorized env l a (.agentTransfer args)
  | opener {args : ValidateAndAuthorizeArgs D} (hagent : a.vault.isAgent args.agent = true) :
      Authorized env l a (.validateAndAuthorize args)
  | closer {args : FinalizeSessionArgs} {s : SessionAuthority}
      (hsession : l.sessions args.session = some s)
      (hpayer : s.isExpired env.clock.unixTimestamp = false → args.payer = s.agent) :
      Authorized env l a (.finalizeSession args)

variable [Host D] [DecidableEq D] {env : Env} {c : Call D} {l l' : Ledger D} {a : VaultAccounts D}

omit [Host D] [DecidableEq D] in
theorem owner_of_loadAsOwner {owner : Pubkey} {f : VaultAccounts D → Result (Ledger D)}
    (ha : l.live = some a) (h : (l.loadAsOwner owner >>= f) = .ok l') : owner = a.vault.owner := by
  obtain ⟨b, hb, -⟩ := seq_ok_iff.mp h
  obtain ⟨hlive, howner⟩ := Ledger.loadAsOwner_ok_iff.mp hb
  cases ha.symm.trans hlive
  exact howner.symm

theorem exec_authorized (h : exec env l c = .ok l') (ha : l.live = some a) :
    c.Authorized env l a := by
  cases c with
  | initializeVault =>
    obtain ⟨hnone, -⟩ := initializeVault_ok h
    cases hnone.symm.trans ha
  | approvePendingPolicy =>
    obtain ⟨b, pending, hb, -, -, hkey, -⟩ := approvePendingPolicy_ok h
    cases ha.symm.trans hb
    exact .cosigner hkey
  | acceptOwnershipTransfer =>
    obtain ⟨b, pending, version, hb, hpending, hready, -⟩ := acceptOwnershipTransfer_ok h
    exact .newOwner hpending hready.newOwner
  | acceptOwnershipTransferMultisig => exact absurd h acceptOwnershipTransferMultisig_ne_ok
  | cancelOwnershipTransfer =>
    simp only [exec, cancelOwnershipTransfer, seq_ok_iff, mustExist_ok_iff, ensure_ok_iff,
      exists_and_left, exists_const] at h
    obtain ⟨b, -, pending, hpending, -, -, -, -, hkey, -⟩ := h
    exact .initiator hpending hkey.symm
  | agentTransfer =>
    simp only [exec, agentTransfer, seq_ok_iff, mustExist_ok_iff, ensure_ok_iff, exists_and_left,
      exists_const] at h
    obtain ⟨b, hb, hagent, -⟩ := h
    cases ha.symm.trans hb
    exact .spender hagent
  | validateAndAuthorize =>
    obtain ⟨b, vaultToken, pins, snapshots, tokens, ho⟩ := validateAndAuthorize_ok h
    cases ha.symm.trans ho.live
    exact .opener ho.isAgent
  | finalizeSession =>
    obtain ⟨b, s, revoked, outcome, vault, tracker, hclosed⟩ := finalizeSession_ok h
    exact .closer hclosed.session hclosed.payer
  | _ => exact .owner (owner_of_loadAsOwner ha h)

end Authorized

end Sigil
