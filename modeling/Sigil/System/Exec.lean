import Sigil.Instructions.FinalizeSession
import Sigil.Instructions.Ownership
import Sigil.Instructions.PolicyUpdates

/-! # The program

One constructor of `Call` per instruction of the program, the dispatch `exec`, and runs: sequences
of successful instructions with whatever other programs do to token accounts and foreign
accounts in between.
-/

namespace Sigil

open TokenLedger

/-- An instruction of the program with its arguments, its signers and its remaining accounts. -/
inductive Call (D : Type)
  | initializeVault (owner feeDestination : Pubkey) (args : InitializeVaultArgs D)
  | closeVault (owner : Pubkey) (remaining : List AccountMeta)
  | freezeVault (owner : Pubkey) (remaining : List AccountMeta)
  | reactivateVault (owner : Pubkey) (remaining : List AccountMeta) (newAgent : Option Pubkey)
      (newAgentCapability : Option UInt8)
  | setObserveOnly (owner : Pubkey) (remaining : List AccountMeta) (newValue : Bool)
  | depositFunds (owner mint : Pubkey) (amount : UInt64)
  | withdrawFunds (owner mint : Pubkey) (remaining : List AccountMeta) (amount : UInt64)
  | pauseAgent (owner agentToPause : Pubkey)
  | unpauseAgent (owner : Pubkey) (remaining : List AccountMeta) (agentToUnpause : Pubkey)
  | registerAgent (owner : Pubkey) (remaining : List AccountMeta) (agent : Pubkey)
      (capability : UInt8) (spendingLimitUsd : UInt64)
  | revokeAgent (owner agentToRemove : Pubkey)
  | recordAgentViolation (owner agent : Pubkey) (errorCode : UInt32)
  | queueAgentGrant (owner : Pubkey) (remaining : List AccountMeta) (agent : Pubkey)
      (capability : UInt8) (spendingLimitUsd : UInt64)
  | applyAgentGrant (owner : Pubkey) (remaining : List AccountMeta)
  | cancelAgentGrant (owner : Pubkey) (remaining : List AccountMeta)
  | queueAgentPermissionsUpdate (owner : Pubkey) (remaining : List AccountMeta) (agent : Pubkey)
      (newCapability : UInt8) (spendingLimitUsd cooldownSeconds : UInt64) (cosignSession : Pubkey)
  | applyAgentPermissionsUpdate (owner : Pubkey) (remaining : List AccountMeta) (address : Pubkey)
  | cancelAgentPermissionsUpdate (owner : Pubkey) (remaining : List AccountMeta)
      (address : Pubkey)
  | queuePolicyUpdate (owner : Pubkey) (update : PolicyUpdate D) (cosignSession : Pubkey)
      (newPolicyPreviewDigest : D)
  | approvePendingPolicy (cosigner : Pubkey)
  | cancelPendingPolicy (owner : Pubkey)
  | applyPendingPolicy (owner : Pubkey)
  | promoteGraylistDestination (owner : Pubkey) (remaining : List AccountMeta)
      (destination : Pubkey)
  | initiateOwnershipTransfer (owner : Pubkey) (remaining : List AccountMeta) (newOwner : Pubkey)
      (isMultisigTarget : Bool)
  | acceptOwnershipTransfer (newOwner : Pubkey)
  | acceptOwnershipTransferMultisig (newOwner : Pubkey)
  | cancelOwnershipTransfer (currentOwner : Pubkey) (remaining : List AccountMeta)
  | createPostAssertions (owner : Pubkey) (entries : List PostAssertionEntry) (expectedDigest : D)
  | closePostAssertions (owner : Pubkey) (remaining : List AccountMeta) (expectedDigest : D)
  | agentTransfer (args : AgentTransferArgs)
  | validateAndAuthorize (args : ValidateAndAuthorizeArgs D)
  | finalizeSession (args : FinalizeSessionArgs)

section Exec

variable {D : Type} [Host D] [DecidableEq D]

def exec (env : Env) (l : Ledger D) : Call D → Result (Ledger D)
  | .initializeVault owner feeDestination args => initializeVault env owner feeDestination args l
  | .closeVault owner remaining => closeVault env owner remaining l
  | .freezeVault owner remaining => freezeVault env owner remaining l
  | .reactivateVault owner remaining agent capability =>
    reactivateVault env owner remaining agent capability l
  | .setObserveOnly owner remaining newValue => setObserveOnly env owner remaining newValue l
  | .depositFunds owner mint amount => depositFunds env owner mint amount l
  | .withdrawFunds owner mint remaining amount => withdrawFunds env owner mint remaining amount l
  | .pauseAgent owner agent => pauseAgent env owner agent l
  | .unpauseAgent owner remaining agent => unpauseAgent env owner remaining agent l
  | .registerAgent owner remaining agent capability limit =>
    registerAgent env owner remaining agent capability limit l
  | .revokeAgent owner agent => revokeAgent env owner agent l
  | .recordAgentViolation owner agent code => recordAgentViolation env owner agent code l
  | .queueAgentGrant owner remaining agent capability limit =>
    queueAgentGrant env owner remaining agent capability limit l
  | .applyAgentGrant owner remaining => applyAgentGrant env owner remaining l
  | .cancelAgentGrant owner remaining => cancelAgentGrant env owner remaining l
  | .queueAgentPermissionsUpdate owner remaining agent capability limit cooldown session =>
    queueAgentPermissionsUpdate env owner remaining agent capability limit cooldown session l
  | .applyAgentPermissionsUpdate owner remaining address =>
    applyAgentPermissionsUpdate env owner remaining address l
  | .cancelAgentPermissionsUpdate owner remaining address =>
    cancelAgentPermissionsUpdate env owner remaining address l
  | .queuePolicyUpdate owner update session digest =>
    queuePolicyUpdate env owner update session digest l
  | .approvePendingPolicy cosigner => approvePendingPolicy env cosigner l
  | .cancelPendingPolicy owner => cancelPendingPolicy env owner l
  | .applyPendingPolicy owner => applyPendingPolicy env owner l
  | .promoteGraylistDestination owner remaining destination =>
    promoteGraylistDestination env owner remaining destination l
  | .initiateOwnershipTransfer owner remaining newOwner isMultisig =>
    initiateOwnershipTransfer env owner remaining newOwner isMultisig l
  | .acceptOwnershipTransfer newOwner => acceptOwnershipTransfer env newOwner l
  | .acceptOwnershipTransferMultisig _ => acceptOwnershipTransferMultisig l
  | .cancelOwnershipTransfer owner remaining => cancelOwnershipTransfer env owner remaining l
  | .createPostAssertions owner entries digest => createPostAssertions env owner entries digest l
  | .closePostAssertions owner remaining digest =>
    closePostAssertions env owner remaining digest l
  | .agentTransfer args => agentTransfer env args l
  | .validateAndAuthorize args => validateAndAuthorize env args l
  | .finalizeSession args => finalizeSession env args l

inductive Action (D : Type)
  | call (env : Env) (c : Call D)
  | foreign

def Action.Calls {D : Type} (kind : Call D → Bool) : Action D → Prop
  | .call _ c => kind c = true
  | .foreign => False

/-- A successful instruction, or anything other programs do to accounts that are not the
vault's. -/
inductive Step : Ledger D → Action D → Ledger D → Prop
  | call {env : Env} {c : Call D} {l l' : Ledger D} (h : exec env l c = .ok l') :
      Step l (.call env c) l'
  | foreign (l : Ledger D) (tokens : Accounts Pubkey) (others : Pubkey → AccountInfo) :
      Step l .foreign { l with tokens := tokens, others := others }

/-- The ledger after an instruction; one that fails changes nothing. -/
def after (env : Env) (l : Ledger D) (c : Call D) : Ledger D :=
  match exec env l c with
  | .ok l' => l'
  | .error _ => l

theorem exec_after {env : Env} {l : Ledger D} {c : Call D} (h : (exec env l c).isOk = true) :
    exec env l c = .ok (after env l c) := by
  unfold after
  cases hexec : exec env l c with
  | ok => rfl
  | error => simp [hexec, Except.isOk, Except.toBool] at h

def failure (env : Env) (l : Ledger D) (c : Call D) : Option ProgramError :=
  match exec env l c with
  | .ok _ => none
  | .error e => some e

theorem exec_of_failure {env : Env} {l : Ledger D} {c : Call D} {e : ProgramError}
    (h : failure env l c = some e) : exec env l c = .error e := by
  unfold failure at h
  split at h
  · cases h
  · rename_i hexec
    exact hexec.trans (congrArg Except.error (Option.some.inj h))

theorem Step.after {env : Env} {l : Ledger D} {c : Call D} (h : (exec env l c).isOk = true) :
    Step l (.call env c) (after env l c) :=
  .call (exec_after h)

end Exec

/-- Before the vault is first created none of its accounts exists. -/
structure Ledger.Genesis {D : Type} (l : Ledger D) : Prop where
  live : l.live = none
  pendingPolicy : l.pendingPolicy = none
  pendingOwner : l.pendingOwner = none
  pendingGrant : l.pendingGrant = none
  pendingPerms : ∀ address, l.pendingPerms address = none
  postAssertions : l.postAssertions = none
  sessions : ∀ address, l.sessions address = none

namespace Call

variable {D : Type}

/-- The accounts after the ones an instruction names. -/
def remaining : Call D → List AccountMeta
  | closeVault _ remaining | freezeVault _ remaining | reactivateVault _ remaining _ _
  | setObserveOnly _ remaining _ | withdrawFunds _ _ remaining _ | unpauseAgent _ remaining _
  | registerAgent _ remaining _ _ _ | queueAgentGrant _ remaining _ _ _
  | applyAgentGrant _ remaining | cancelAgentGrant _ remaining
  | queueAgentPermissionsUpdate _ remaining _ _ _ _ _
  | applyAgentPermissionsUpdate _ remaining _ | cancelAgentPermissionsUpdate _ remaining _
  | promoteGraylistDestination _ remaining _ | initiateOwnershipTransfer _ remaining _ _
  | cancelOwnershipTransfer _ remaining | closePostAssertions _ remaining _ => remaining
  | agentTransfer args => args.remaining
  | validateAndAuthorize args => args.remaining
  | finalizeSession args => args.remaining
  | _ => []

/-- The account that an instruction requires as its signer. -/
def signer : Call D → Pubkey
  | initializeVault owner _ _ | closeVault owner _ | freezeVault owner _
  | reactivateVault owner _ _ _ | setObserveOnly owner _ _ | depositFunds owner _ _
  | withdrawFunds owner _ _ _ | pauseAgent owner _ | unpauseAgent owner _ _
  | registerAgent owner _ _ _ _ | revokeAgent owner _ | recordAgentViolation owner _ _
  | queueAgentGrant owner _ _ _ _ | applyAgentGrant owner _ | cancelAgentGrant owner _
  | queueAgentPermissionsUpdate owner _ _ _ _ _ _ | applyAgentPermissionsUpdate owner _ _
  | cancelAgentPermissionsUpdate owner _ _ | queuePolicyUpdate owner _ _ _
  | cancelPendingPolicy owner | applyPendingPolicy owner | promoteGraylistDestination owner _ _
  | initiateOwnershipTransfer owner _ _ _ | cancelOwnershipTransfer owner _
  | createPostAssertions owner _ _ | closePostAssertions owner _ _ => owner
  | approvePendingPolicy cosigner => cosigner
  | acceptOwnershipTransfer newOwner | acceptOwnershipTransferMultisig newOwner => newOwner
  | agentTransfer args => args.agent
  | validateAndAuthorize args => args.agent
  | finalizeSession args => args.payer

/-- Whether a key has signed the transaction of an instruction. -/
def SignedBy (c : Call D) (key : Pubkey) : Prop :=
  c.signer = key ∨ ∃ m ∈ c.remaining, m.isSigner = true ∧ m.pubkey = key

theorem signedBy_of_hasBoundCosigner {c : Call D} {key : Pubkey}
    (h : hasBoundCosigner c.remaining key = true) : c.SignedBy key := by
  simp only [hasBoundCosigner, decide_eq_true_eq, List.any_eq_true] at h
  obtain ⟨m, hm, hsigned⟩ := h.2
  exact .inr ⟨m, hm, hsigned⟩

end Call

section Sample

def sampleKey (n : UInt8) : Pubkey := Pubkey.ofBytes [n]

def envAt (time : ℤ) (slot : UInt64) (h : Machine.InI64 time) : Env where
  clock := ⟨slot, time, h⟩
  stackHeight := transactionLevelStackHeight
  instructions := []
  currentIndex := 0
  ownBytes := fun _ => []

def sampleEnv (time : UInt32) (slot : UInt64) : Env :=
  envAt time.toNat slot (Machine.inI64_toNat32 time)

/-- A ledger without accounts, at the address of the first vault of a sample owner. -/
def emptyLedger : Ledger Preimage where
  vaultKey := programAddress Preimage
    [seedBytes "vault", (sampleKey 1).bytes, SelfDelimiting.leBytes 8 0]
  live := none
  pendingPolicy := none
  pendingOwner := none
  pendingGrant := none
  pendingPerms := fun _ => none
  postAssertions := none
  sessions := fun _ => none
  tokens := fun _ => none
  others := fun _ => .empty

theorem genesis_emptyLedger : emptyLedger.Genesis :=
  ⟨rfl, rfl, rfl, rfl, fun _ => rfl, rfl, fun _ => rfl⟩

/-- A vault with one protocol and one destination. -/
def sampleArgs : InitializeVaultArgs Preimage :=
  let draft : InitializeVaultArgs Preimage := {
    vaultId := 0
    dailySpendingCapUsd := 1000
    maxTransactionSizeUsd := 100
    protocolMode := protocolModeAllowlist
    protocols := [sampleKey 2]
    developerFeeRate := 0
    maxSlippageBps := 50
    timelockDuration := 1800
    allowedDestinations := [sampleKey 3]
    protocolCaps := []
    observeOnly := false
    operatingHours := operatingHoursValidMask
    autoPromoteGrays := false
    autoRevokeThreshold := 5
    stableBalanceFloor := 0
    perRecipientDailyCapUsd := 0
    cosignRequired := false
    previewDigest := Host.zeroDigest }
  { draft with
    previewDigest := liveDigest (draft.newVault (sampleKey 1) (sampleKey 4))
      (draft.newPolicy emptyLedger.vaultKey 7) }

def sampleInitialize : Call Preimage := .initializeVault (sampleKey 1) (sampleKey 4) sampleArgs

def sampleLedger : Ledger Preimage :=
  after (sampleEnv 1000 7) emptyLedger sampleInitialize

theorem exec_sampleInitialize :
    exec (envAt 1000 7 (by decide)) emptyLedger sampleInitialize = .ok sampleLedger :=
  exec_after (by decide +kernel)

theorem step_sampleInitialize :
    Step emptyLedger (.call (envAt 1000 7 (by decide)) sampleInitialize) sampleLedger :=
  .call exec_sampleInitialize

attribute [irreducible] sampleLedger

def sampleInitiate : Call Preimage :=
  .initiateOwnershipTransfer (sampleKey 1) [] (sampleKey 9) false

def sampleAccept : Call Preimage := .acceptOwnershipTransfer (sampleKey 9)

def leavingLedger : Ledger Preimage := after (sampleEnv 2000 8) sampleLedger sampleInitiate

theorem step_leavingLedger :
    Step sampleLedger (.call (envAt 2000 8 (by decide)) sampleInitiate) leavingLedger :=
  .after (by decide +kernel)

attribute [irreducible] leavingLedger

end Sample

end Sigil
