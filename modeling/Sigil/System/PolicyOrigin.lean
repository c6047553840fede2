import Sigil.System.Frame

/-! # Where the policy comes from

The guards of a policy and the owner they protect are written by three instructions.
`exec_policyOrigin` names the one and what it checked; any other instruction leaves both alone.
-/

namespace Sigil

open Guard Trace

variable {D : Type} [Host D]

/-- Why the accounts have the owner and the guards that they have after an instruction. -/
inductive PolicyOrigin (env : Env) (l : Ledger D) (a' : VaultAccounts D) : Call D → Prop
  | kept {c : Call D} {a : VaultAccounts D} (ha : l.live = some a)
      (hcore : a'.policy.core = a.policy.core) (howner : a'.vault.owner = a.vault.owner) :
      PolicyOrigin env l a' c
  | created {owner feeDestination : Pubkey} {args : InitializeVaultArgs D}
      (hnew : l.live = none) (htimelock : minTimelockDuration ≤ args.timelockDuration)
      (hcosign : args.cosignRequired = false)
      (ha' : a' = args.newAccounts l.vaultKey owner feeDestination env.clock.slot) :
      PolicyOrigin env l a' (.initializeVault owner feeDestination args)
  | applied {owner : Pubkey} {a : VaultAccounts D} {pending : PendingPolicyUpdate D}
      {merged : PolicyConfig D} (ha : l.live = some a) (howner : a.vault.owner = owner)
      (hpending : l.pendingPolicy = some pending)
      (hmerged : applyUpdate env.clock owner a.policy pending = .ok merged)
      (hcore : a'.policy.core = merged.core) (hvault : a'.vault = a.vault) :
      PolicyOrigin env l a' (.applyPendingPolicy owner)
  | handedOver {newOwner : Pubkey} {a : VaultAccounts D} {version : UInt64}
      (ha : l.live = some a) (ha' : a' = (a.handOver newOwner).sealedAt version) :
      PolicyOrigin env l a' (.acceptOwnershipTransfer newOwner)

variable [DecidableEq D] {env : Env} {c : Call D} {l l' : Ledger D} {a' : VaultAccounts D}

theorem exec_policyOrigin (h : exec env l c = .ok l') (ha' : l'.live = some a') :
    PolicyOrigin env l a' c := by
  by_cases hguards : Part.guards ∉ c.writes
  · have hcustody : Part.custody ∉ c.writes := by
      cases c <;> simp [Call.writes, Part.ofVault] at hguards ⊢
    obtain ⟨a, ha, hcore⟩ := (exec_frame h hguards).exists_before ha'
    have howner := (exec_frame h hcustody).eq ha ha'
    exact .kept ha hcore (congrArg Prod.fst howner)
  rw [not_not] at hguards
  cases c <;> simp [Call.writes, Part.ofVault] at hguards
  case initializeVault =>
    have htimelock := initializeVault_timelock h
    obtain ⟨hnew, -, -, -, hcosign, -, rfl⟩ := initializeVault_ok h
    exact .created hnew htimelock hcosign (Option.some.inj ha').symm
  case closeVault =>
    obtain ⟨a, -, -, -, -, -, rfl⟩ := closeVault_ok h
    cases ha'
  case applyPendingPolicy =>
    obtain ⟨a, pending, merged, _, version, ha, howner, hpending, -, -, hmerged, -, -, rfl, -,
      rfl⟩ := applyPendingPolicy_ok h
    cases ha'
    exact .applied ha howner hpending hmerged rfl rfl
  case acceptOwnershipTransfer =>
    obtain ⟨a, pending, version, ha, -, -, -, rfl⟩ := acceptOwnershipTransfer_ok h
    exact .handedOver ha (Option.some.inj ha').symm

end Sigil
