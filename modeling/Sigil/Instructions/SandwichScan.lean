import Sigil.Instructions.PostAssertions

/-! # Scans of the surrounding transaction

An agent's session is a sandwich: `validate_and_authorize`, one instruction of an allowed
protocol, `finalize_session`. Each of the two ends reads the list of the transaction's
instructions and rejects whatever does not fit. The scans are loops with a bound of 64.
-/

namespace Sigil

open Machine Guard

def maxSysvarScanIterations : ℕ := 64

def maxDestinationWritableMetas : ℕ := 24

def maxDestinationCheckTotalMetas : ℕ := 64

/-- ComputeBudget and System instructions, which may stand anywhere. -/
def isInfrastructure (ix : Instruction) : Bool :=
  ix.programId = computeBudgetProgramId ∨ ix.programId = systemProgramId

def hasDiscriminator (discriminator : List UInt8) (ix : Instruction) : Bool :=
  ix.programId = programId ∧ ix.data.take 8 = discriminator

/-- Only infrastructure may precede `validate_and_authorize`. -/
def preScan (env : Env) : Result Unit :=
  (List.range env.currentIndex).forM fun i => do
    ensure (i < maxSysvarScanIterations) .sysvarScanBoundExceeded
    ensure (∀ ix ∈ env.instructions[i]?, isInfrastructure ix = true)
      .unauthorizedPreValidateInstruction

/-- Another `validate_and_authorize` for the same vault, agent and mint. -/
def isSameValidate (vault agent mint : Pubkey) (ix : Instruction) : Bool :=
  hasDiscriminator validateAndAuthorizeDiscriminator ix ∧
    ix.accounts[0]?.any (fun m => m.pubkey = agent) ∧
    ix.accounts[1]?.any (fun m => m.pubkey = vault) ∧
    ix.accounts[7]?.any (fun m => m.pubkey = mint)

/-- The siblings of the current instruction that a bounded scan sees. -/
def siblings (env : Env) : List Instruction :=
  ((env.instructions.take maxSysvarScanIterations).zipIdx.filter
    fun (_, i) => i ≠ env.currentIndex).map Prod.fst

theorem mem_siblings {env : Env} {j : ℕ} {ix : Instruction}
    (hlen : env.instructions.length ≤ maxSysvarScanIterations) (hj : j ≠ env.currentIndex)
    (hix : env.instructions[j]? = some ix) : ix ∈ siblings env := by
  rw [siblings, List.take_of_length_le hlen]
  refine List.mem_map.mpr ⟨(ix, j), List.mem_filter.mpr ⟨?_, decide_eq_true hj⟩, rfl⟩
  exact List.mk_mem_zipIdx_iff_getElem?.mpr hix

def rejectSameValidate (env : Env) (vault agent mint : Pubkey) : Result Unit :=
  ensure (∀ ix ∈ siblings env, isSameValidate vault agent mint ix = false) .errSandwichIntegrity

section Protected

variable {D : Type} [Host D]

/-- The accounts that no other program may have writable during a session. -/
def ta11ProtectedSet (vault session : Pubkey) (agents : List AgentEntry) : List Pubkey :=
  [vault, accountAddress D "policy" vault, accountAddress D "tracker" vault,
    overlayAddress D vault, session, accountAddress D "pending_policy" vault,
    accountAddress D "post_assertions" vault, accountAddress D "pending_owner" vault,
    accountAddress D "pending_agent_grant" vault, accountAddress D "audit_success" vault,
    accountAddress D "audit_rejected" vault] ++
  agents.map fun e => pendingAgentPermsAddress D vault e.pubkey

/-- A writable protected account is let through only when it is listed and not the program's. -/
def rejectProtectedWritable (env : Env) (l : Ledger D) (session : Pubkey)
    (agents : List AgentEntry) (remaining : List AccountMeta) : Result Unit :=
  ensure (∀ ix ∈ siblings env, ix.programId ≠ programId → ∀ m ∈ ix.accounts,
      m.isWritable = true → m.pubkey ∈ ta11ProtectedSet (D := D) l.vaultKey session agents →
      (l.listedInfo env remaining m.pubkey).any (fun info => info.owner ≠ programId) = true)
    .errProtectedWritable

/-- The two bounds on the accounts of an instruction that is looked at closely. -/
def checkMetaCounts (metas : List AccountMeta) : Result Unit := do
  ensure (metas.length ≤ maxDestinationCheckTotalMetas) .ixMetaCountExceeded
  ensure ((metas.filter fun m => m.isWritable).length ≤ maxDestinationWritableMetas)
    .ixMetaCountExceeded

/-- A Token-2022 account of the vault must have a listed mint without forbidden extensions. -/
def checkToken2022Output (env : Env) (l : Ledger D) (remaining : List AccountMeta)
    (mint : Pubkey) : Result Unit := do
  let info ← someOr .errToken2022OutputMintUnresolvable (l.listedInfo env remaining mint)
  ensure (info.owner = token2022ProgramId) .errToken2022OutputMintUnresolvable
  enforceToken2022ExtensionAllowlist info

/-- The check of one writable account: an allowed recipient must be out of its friction window. -/
def checkDestination (env : Env) (l : Ledger D) (policy : PolicyConfig D)
    (remaining : List AccountMeta) (m : AccountMeta) : Result Unit :=
  if m.isWritable = false ∨ m.pubkey = l.vaultKey then .ok ()
  else do
    let info ← someOr .destinationAccountUnresolvable (l.listedInfo env remaining m.pubkey)
    if isTokenProgram info.owner then do
      let view ← someOr .invalidTokenAccount (tokenView info.data)
      if view.owner = l.vaultKey then
        if info.owner = token2022ProgramId then checkToken2022Output env l remaining view.mint
        else .ok ()
      else
        ensure (policy.isDestinationAllowed view.owner = true →
            policy.isDestinationGraylisted view.owner env.clock.unixTimestamp = false)
          .errGraylistFriction
    else .ok ()

def enforceDestinationAllowlist (env : Env) (l : Ledger D) (policy : PolicyConfig D)
    (remaining metas : List AccountMeta) : Result Unit := do
  checkMetaCounts metas
  metas.forM (checkDestination env l policy remaining)

/-- What the check of the destinations says about the account at an address. -/
structure DestinationChecked (env : Env) (l : Ledger D) (policy : PolicyConfig D)
    (remaining : List AccountMeta) (key : Pubkey) : Prop where
  listed : remaining.any (fun r => r.pubkey = key) = true
  outOfWindow : ∀ view, readToken (l.accountInfo env key) = some view → view.owner ≠ l.vaultKey →
    policy.isDestinationAllowed view.owner = true →
    policy.isDestinationGraylisted view.owner env.clock.unixTimestamp = false
  output : ∀ view, readToken (l.accountInfo env key) = some view → view.owner = l.vaultKey →
    (l.accountInfo env key).owner = token2022ProgramId →
    (l.accountInfo env view.mint).owner = token2022ProgramId ∧
      enforceToken2022ExtensionAllowlist (l.accountInfo env view.mint) = .ok ()

theorem checkToken2022Output_ok {env : Env} {l : Ledger D} {remaining : List AccountMeta}
    {mint : Pubkey} (h : checkToken2022Output env l remaining mint = .ok ()) :
    (l.accountInfo env mint).owner = token2022ProgramId ∧
      enforceToken2022ExtensionAllowlist (l.accountInfo env mint) = .ok () := by
  simp only [checkToken2022Output, Ledger.listedInfo, seq_ok_iff, someOr_ok_iff,
    Option.ite_none_right_eq_some, ensure_ok_iff, exists_and_left, exists_const] at h
  obtain ⟨_, ⟨-, hinfo⟩, howner, hextensions⟩ := h
  cases hinfo
  exact ⟨howner, hextensions⟩

theorem enforceDestinationAllowlist_ok {env : Env} {l : Ledger D} {policy : PolicyConfig D}
    {remaining metas : List AccountMeta} {m : AccountMeta}
    (h : enforceDestinationAllowlist env l policy remaining metas = .ok ()) (hm : m ∈ metas)
    (hwritable : m.isWritable = true) (hkey : m.pubkey ≠ l.vaultKey) :
    DestinationChecked env l policy remaining m.pubkey := by
  obtain ⟨⟨⟩, -, hall⟩ := seq_ok_iff.mp h
  have hcheck := forM_ok_iff.mp hall m hm
  simp only [checkDestination, hwritable, hkey, Bool.true_eq_false, or_self, if_false,
    seq_ok_iff, someOr_ok_iff, Ledger.listedInfo, Option.ite_none_right_eq_some] at hcheck
  obtain ⟨_, ⟨hlisted, hinfo⟩, hcheck⟩ := hcheck
  cases hinfo
  have hview : ∀ view, readToken (l.accountInfo env m.pubkey) = some view →
      (if view.owner = l.vaultKey then
        if (l.accountInfo env m.pubkey).owner = token2022ProgramId then
          checkToken2022Output env l remaining view.mint
        else .ok ()
      else
        ensure (policy.isDestinationAllowed view.owner = true →
            policy.isDestinationGraylisted view.owner env.clock.unixTimestamp = false)
          .errGraylistFriction) = .ok () := by
    intro view hread
    obtain ⟨htoken, hdata⟩ := Option.ite_none_right_eq_some.mp hread
    simp only [htoken, if_true, seq_ok_iff, someOr_ok_iff, hdata] at hcheck
    obtain ⟨_, hsame, hcheck⟩ := hcheck
    cases hsame
    exact hcheck
  refine ⟨hlisted, ?_, ?_⟩
  · intro view hread howner hallowed
    have hfree := hview view hread
    rw [if_neg howner] at hfree
    exact ensure_ok_iff.mp hfree hallowed
  · intro view hread howner h2022
    have houtput := hview view hread
    rw [if_pos howner, if_pos h2022] at houtput
    exact checkToken2022Output_ok houtput

end Protected

inductive ScanAction | foundFinalize | infrastructure | passedSharedChecks
  deriving DecidableEq, Repr

/-- What a token instruction is rejected for, by its first byte. -/
def blockedTokenOpcode (opcode : UInt8) : Option SigilError :=
  if opcode ∈ [4, 13] then some .unauthorizedTokenApproval
  else if opcode ∈ [3, 12, 6, 8, 9, 15] then some .unauthorizedTokenTransfer
  else none

def blockedToken2022Opcode (opcode : UInt8) : Option SigilError :=
  if opcode ∈ [4, 13] then some .unauthorizedTokenApproval
  else if opcode ∈ [3, 12, 26, 6, 8, 9, 15] then some .unauthorizedTokenTransfer
  else if opcode ∈ [27, 42] then some .confidentialTransferBlocked
  else if opcode = 35 then some .permanentDelegateBlocked
  else if opcode = 36 then some .transferHookBlocked
  else if opcode ∈ [38, 45, 46] then some .lamportDrainBlocked
  else if opcode = 255 then some .batchInstructionBlocked
  else none

/-- The error for a blocked opcode of either token program. -/
def blockedOpcode (ix : Instruction) : Option SigilError :=
  if ix.programId = tokenProgramId then ix.data.head?.bind blockedTokenOpcode
  else if ix.programId = token2022ProgramId then ix.data.head?.bind blockedToken2022Opcode
  else none

section Scan

variable {D : Type}

/-- The position of the session among the accounts of `finalize_session`. -/
def finalizeSessionMetaIndex : ℕ := 2

def scanInstructionShared (policy : PolicyConfig D) (session : Pubkey) (ix : Instruction) :
    Result ScanAction :=
  if hasDiscriminator finalizeSessionDiscriminator ix then do
    let m ← someOr .missingFinalizeInstruction ix.accounts[finalizeSessionMetaIndex]?
    ensure (m.pubkey = session) .missingFinalizeInstruction
    return .foundFinalize
  else match blockedOpcode ix with
    | some e => fail e
    | none =>
      if isInfrastructure ix then .ok .infrastructure
      else do
        ensure (ix.programId ∉ knownAsyncFulfillmentPrograms) .asyncFulfillmentNotPermitted
        ensure (policy.isProtocolAllowed ix.programId = true) .protocolNotAllowed
        return .passedSharedChecks

/-- The scan of a session that spends, from position `iter` after the current instruction:
`count` protocol instructions were seen, the last one at `defi`. -/
def spendingScan [Host D] (env : Env) (l : Ledger D) (policy : PolicyConfig D)
    (session targetProtocol : Pubkey) (remaining : List AccountMeta) :
    ℕ → ℕ → Option ℕ → List Instruction → Result (ℕ × Bool)
  | _, count, _, [] => .ok (count, false)
  | iter, count, defi, ix :: rest => do
    ensure (iter < maxSysvarScanIterations) .sysvarScanBoundExceeded
    let action ← scanInstructionShared policy session ix
    match action with
    | .foundFinalize => do
      ensure (∀ d ∈ defi, iter = d + 1) .errDeFiInstructionNotAdjacentToFinalize
      return (count, true)
    | .infrastructure =>
      spendingScan env l policy session targetProtocol remaining (iter + 1) count defi rest
    | .passedSharedChecks => do
      ensure (ix.programId = targetProtocol) .protocolMismatch
      enforceDestinationAllowlist env l policy remaining ix.accounts
      spendingScan env l policy session targetProtocol remaining (iter + 1) (count + 1) (some iter)
        rest

/-- The scan of a session that moves no funds: only the closing instruction must be there. -/
def nonSpendingScan (policy : PolicyConfig D) (session : Pubkey) :
    ℕ → List Instruction → Result Bool
  | _, [] => .ok false
  | iter, ix :: rest => do
    ensure (iter < maxSysvarScanIterations) .sysvarScanBoundExceeded
    let action ← scanInstructionShared policy session ix
    match action with
    | .foundFinalize => .ok true
    | _ => nonSpendingScan policy session (iter + 1) rest

/-- The instructions after the current one. -/
def following (env : Env) : List Instruction := env.instructions.drop (env.currentIndex + 1)

def sandwichScan [Host D] (env : Env) (l : Ledger D) (policy : PolicyConfig D)
    (session targetProtocol : Pubkey) (remaining : List AccountMeta) (isSpending : Bool) :
    Result Unit :=
  if isSpending then do
    let (count, found) ←
      spendingScan env l policy session targetProtocol remaining 0 0 none (following env)
    ensure (count = 1) .tooManyDeFiInstructions
    ensure (found = true) .missingFinalizeInstruction
  else do
    let found ← nonSpendingScan policy session 0 (following env)
    ensure (found = true) .missingFinalizeInstruction

/-- Only infrastructure may follow `finalize_session`, as far as the scan looks. -/
def postScan (env : Env) : Result Unit :=
  ensure (∀ ix ∈ (following env).take maxSysvarScanIterations, isInfrastructure ix = true)
    .unauthorizedPostFinalizeInstruction

end Scan

end Sigil
