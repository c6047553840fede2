import Sigil.Digest.PolicyDigest
import Sigil.State.Accounts
import Sigil.State.AgentSpendOverlay
import Sigil.State.Pending
import Sigil.State.Session

/-! # Ledger

The state an instruction runs on: the accounts that belong to one vault, the token accounts,
and what the instruction sees of its transaction. The four accounts a vault is created with
exist together or not at all. Pending permission updates and sessions are found by address.
-/

namespace Sigil

open Machine Guard TokenLedger

/-- What the runtime tells an instruction. The stored bytes of the program's own accounts, which
only byte-level assertions read, are left open. -/
structure Env where
  clock : Clock
  stackHeight : ℕ
  instructions : List Instruction
  currentIndex : ℕ
  ownBytes : Pubkey → List UInt8

/-- The accounts created by `initialize_vault`. -/
structure VaultAccounts (D : Type) where
  vault : AgentVault
  policy : PolicyConfig D
  tracker : SpendTracker
  overlay : AgentSpendOverlay

structure Ledger (D : Type) where
  vaultKey : Pubkey
  live : Option (VaultAccounts D)
  pendingPolicy : Option (PendingPolicyUpdate D)
  pendingOwner : Option PendingOwnershipTransfer
  pendingGrant : Option (PendingAgentGrant D)
  pendingPerms : Pubkey → Option (PendingAgentPermissionsUpdate D)
  postAssertions : Option PostExecutionAssertions
  sessions : Pubkey → Option SessionAuthority
  tokens : Accounts Pubkey
  others : Pubkey → AccountInfo

def transactionLevelStackHeight : ℕ := 1

/-- `reject_cpi!`. -/
def rejectCpi (env : Env) : Result Unit :=
  ensure (env.stackHeight = transactionLevelStackHeight) .cpiCallNotAllowed

theorem rejectCpi_ok_iff {env : Env} {u : Unit} :
    rejectCpi env = .ok u ↔ env.stackHeight = transactionLevelStackHeight :=
  ensure_ok_iff

def viaToken {α : Type} : Except TokenError α → Result α
  | .ok a => .ok a
  | .error e => .error (.token e)

theorem viaToken_ok_iff {α : Type} {x : Except TokenError α} {a : α} :
    viaToken x = .ok a ↔ x = .ok a := by
  cases x <;> simp [viaToken]

def mustBeNew {α : Type} (x : Option α) : Result Unit :=
  require (x.isNone = true) (.anchor .accountAlreadyInUse)

theorem mustBeNew_ok_iff {α : Type} {x : Option α} {u : Unit} :
    mustBeNew x = .ok u ↔ x = none := by
  simp [mustBeNew]

def mustExist {α : Type} (x : Option α) : Result α := okOr (.anchor .accountNotInitialized) x

theorem mustExist_ok_iff {α : Type} {x : Option α} {a : α} :
    mustExist x = .ok a ↔ x = some a :=
  okOr_ok_iff

/-- A signer among the remaining accounts with the bound key. -/
def hasBoundCosigner (remaining : List AccountMeta) (cosignSessionPubkey : Pubkey) : Bool :=
  cosignSessionPubkey ≠ Pubkey.default ∧
    remaining.any fun m => m.isSigner ∧ m.pubkey = cosignSessionPubkey

namespace VaultAccounts

variable {D : Type} (a : VaultAccounts D)

/-- While cosigning is required the bound cosigner must sign too. -/
def cosignGate (remaining : List AccountMeta) : Result Unit :=
  ensure (a.policy.cosignRequired = true →
    hasBoundCosigner remaining a.policy.cosignSessionPubkey = true) .errCosignRequired

def atVersion (version : UInt64) : VaultAccounts D :=
  { a with policy := { a.policy with policyVersion := version } }

/-- The accounts with the policy digest recomputed from the live fields. -/
def sealedAt [Host D] (version : UInt64) : VaultAccounts D :=
  { a with policy := { a.policy with
    policyPreviewDigest := liveDigest a.vault a.policy, policyVersion := version } }

def nextVersion : Result UInt64 := someOr .overflow (checkedAdd a.policy.policyVersion 1)

def bumpVersion : Result (VaultAccounts D) := do
  let version ← a.nextVersion
  return a.atVersion version

/-- Recompute the policy digest and move to the next version. -/
def reseal [Host D] : Result (VaultAccounts D) := do
  let version ← a.nextVersion
  return a.sealedAt version

variable {a} {a' : VaultAccounts D} {remaining : List AccountMeta} {u : Unit}

theorem cosignGate_ok_iff : a.cosignGate remaining = .ok u ↔
    (a.policy.cosignRequired = true →
      hasBoundCosigner remaining a.policy.cosignSessionPubkey = true) :=
  ensure_ok_iff

theorem bumpVersion_ok_iff : a.bumpVersion = .ok a' ↔
    ∃ version : UInt64, version.toNat = a.policy.policyVersion.toNat + 1 ∧
      a' = a.atVersion version := by
  simp only [bumpVersion, nextVersion, someOr_seq_ok_iff, checkedAdd_eq_some, pure_ok_iff]
  exact exists_congr fun _ => and_congr_right' eq_comm

theorem reseal_ok_iff [Host D] : a.reseal = .ok a' ↔
    ∃ version : UInt64, version.toNat = a.policy.policyVersion.toNat + 1 ∧
      a' = a.sealedAt version := by
  simp only [reseal, nextVersion, someOr_seq_ok_iff, checkedAdd_eq_some, pure_ok_iff]
  exact exists_congr fun _ => and_congr_right' eq_comm

end VaultAccounts

namespace Ledger

variable {D : Type} (l : Ledger D)

def setLive (a : VaultAccounts D) : Ledger D := { l with live := some a }

def loadAsOwner (owner : Pubkey) : Result (VaultAccounts D) := do
  let a ← mustExist l.live
  ensure (a.vault.owner = owner) .unauthorizedOwner
  return a

theorem loadAsOwner_ok_iff {l : Ledger D} {owner : Pubkey} {a : VaultAccounts D} :
    l.loadAsOwner owner = .ok a ↔ l.live = some a ∧ a.vault.owner = owner := by
  simp only [loadAsOwner, seq_ok_iff, mustExist_ok_iff, ensure_ok_iff, exists_and_left,
    exists_const, pure_ok_iff]
  constructor
  · rintro ⟨b, hb, howner, rfl⟩
    exact ⟨hb, howner⟩
  · rintro ⟨hb, howner⟩
    exact ⟨a, hb, howner, rfl⟩

section Info

variable [Host D]

def ownsAccount (key : Pubkey) : Bool :=
  l.live.isSome ∧ (key = l.vaultKey ∨ key = accountAddress D "policy" l.vaultKey ∨
      key = accountAddress D "tracker" l.vaultKey ∨ key = overlayAddress D l.vaultKey ∨
      key = accountAddress D "audit_success" l.vaultKey ∨
      key = accountAddress D "audit_rejected" l.vaultKey) ∨
    l.pendingPolicy.isSome ∧ key = accountAddress D "pending_policy" l.vaultKey ∨
    l.pendingOwner.isSome ∧ key = accountAddress D "pending_owner" l.vaultKey ∨
    l.pendingGrant.isSome ∧ key = accountAddress D "pending_agent_grant" l.vaultKey ∨
    l.postAssertions.isSome ∧ key = accountAddress D "post_assertions" l.vaultKey ∨
    (l.pendingPerms key).isSome ∨ (l.sessions key).isSome

/-- What an instruction sees at an address. -/
def accountInfo (env : Env) (key : Pubkey) : AccountInfo :=
  match l.tokens key with
  | some t => ⟨tokenProgramId, packToken t⟩
  | none => if l.ownsAccount key then ⟨programId, env.ownBytes key⟩ else l.others key

/-- The account at an address, when it is among the listed ones. -/
def listedInfo (env : Env) (listed : List AccountMeta) (key : Pubkey) : Option AccountInfo :=
  if listed.any fun m => m.pubkey = key then some (l.accountInfo env key) else none

end Info

/-- A token account of the token program, as the framework loads it. -/
def loadToken (key : Pubkey) : Result (TokenAccount Pubkey) := mustExist (l.tokens key)

end Ledger

section Listed

variable {D : Type} [Host D] {l : Ledger D} {env : Env} {listed : List AccountMeta}
  {info : AccountInfo} {key : Pubkey}

theorem listedInfo_eq_some_iff : l.listedInfo env listed key = some info ↔
    (∃ m ∈ listed, m.pubkey = key) ∧ info = l.accountInfo env key := by
  unfold Ledger.listedInfo
  split
  · rename_i hlisted
    simp only [List.any_eq_true, decide_eq_true_eq] at hlisted
    rw [Option.some.injEq, and_iff_right hlisted, eq_comm]
  · rename_i hlisted
    simp only [List.any_eq_true, decide_eq_true_eq] at hlisted
    simp [hlisted]

theorem listedInfo_eq_some (h : l.listedInfo env listed key = some info) :
    info = l.accountInfo env key :=
  (listedInfo_eq_some_iff.mp h).2

end Listed

end Sigil
