import Sigil.Authority.ProtocolSettings
import Sigil.Session.Destinations
import Sigil.System.Growth

/-! # Which builds run inside a session

The gate on builds looks at the protocol that a session declares. A session that spends runs no
other protocol; a session that spends nothing may run any protocol of the policy.
-/

namespace Sigil

open Guard Trace

section Gate

variable {D : Type} [Host D]

variable (D) in
/-- Where the loader keeps the code of a program. -/
def programDataAddress (program : Pubkey) : Pubkey :=
  Host.findProgramAddress D [program.bytes] bpfLoaderUpgradeableId

def Ledger.deployedHash (l : Ledger D) (env : Env) (program : Pubkey) : D :=
  Host.sha256 ((l.accountInfo env (programDataAddress D program)).data.drop programDataHeaderLen)

/-- A program whose build is pinned is deployed with that build. Code that is replaced inside a
transaction does not run before the next slot, so the build at the opening of a session is the one
that runs in it. -/
def Ledger.RunsPinnedBuild (l : Ledger D) (env : Env) (policy : PolicyConfig D)
    (program : Pubkey) : Prop :=
  policy.buildHash program ≠ Host.zeroDigest → l.deployedHash env program = policy.buildHash program

structure Ledger.Redeployed (l l₂ : Ledger D) : Prop where
  rest : l₂ = l.among l₂.others
  owner : ∀ key, (l₂.others key).owner = (l.others key).owner
  code : ∀ key, (∀ program, key ≠ programDataAddress D program) → l₂.others key = l.others key

structure Ledger.Deployed (l : Ledger D) (program : Pubkey) : Prop where
  notToken : l.tokens (programDataAddress D program) = none
  notOwn : l.ownsAccount (programDataAddress D program) = false
  owner : (l.others (programDataAddress D program)).owner = bpfLoaderUpgradeableId

def Ledger.extendCode (l : Ledger D) (program : Pubkey) (bytes : List UInt8) : Ledger D :=
  l.among (Function.update l.others (programDataAddress D program)
    { l.others (programDataAddress D program) with
      data := (l.others (programDataAddress D program)).data ++ bytes })

section Redeploy

variable {l : Ledger D} {program : Pubkey} {bytes : List UInt8}

theorem others_extendCode : (l.extendCode program bytes).others (programDataAddress D program) =
    { l.others (programDataAddress D program) with
      data := (l.others (programDataAddress D program)).data ++ bytes } :=
  Function.update_self ..

theorem others_extendCode_of_ne {key : Pubkey} (hkey : key ≠ programDataAddress D program) :
    (l.extendCode program bytes).others key = l.others key :=
  Function.update_of_ne hkey ..

theorem Ledger.Redeployed.refl (l : Ledger D) : l.Redeployed l :=
  ⟨rfl, fun _ => rfl, fun _ _ => rfl⟩

theorem redeployed_extendCode : l.Redeployed (l.extendCode program bytes) where
  rest := rfl
  owner key := by
    by_cases hkey : key = programDataAddress D program
    · rw [hkey, others_extendCode]
    · rw [others_extendCode_of_ne hkey]
  code key hkey := others_extendCode_of_ne (hkey program)

theorem Ledger.Deployed.extendCode (h : l.Deployed program) :
    (l.extendCode program bytes).Deployed program :=
  ⟨h.notToken, h.notOwn, (redeployed_extendCode.owner _).trans h.owner⟩

theorem Ledger.Deployed.grows (h : l.Deployed program) (bytes : List UInt8) (key : Pubkey) :
    (l.others key).Grows ((l.extendCode program bytes).others key) := by
  by_cases hkey : key = programDataAddress D program
  · rw [hkey, others_extendCode]
    refine ⟨rfl, fun htoken => ?_, bytes, rfl⟩
    rw [h.owner] at htoken
    exact absurd htoken (by decide)
  · rw [others_extendCode_of_ne hkey]
    exact .refl _

theorem Ledger.Deployed.deployedHash_eq (h : l.Deployed program) (env : Env) :
    l.deployedHash env program = Host.sha256
      ((l.others (programDataAddress D program)).data.drop programDataHeaderLen) := by
  simp only [Ledger.deployedHash, Ledger.accountInfo, h.notToken, h.notOwn, Bool.false_eq_true,
    if_false]

theorem Ledger.Deployed.deployedHash_extendCode_ne [IdealHost D] (h : l.Deployed program)
    (env : Env) (hbytes : programDataHeaderLen < bytes.length) :
    (l.extendCode program bytes).deployedHash env program ≠ l.deployedHash env program := by
  rw [h.deployedHash_eq, h.extendCode.deployedHash_eq, others_extendCode,
    IdealHost.sha256_injective.ne_iff]
  intro hsame
  have hlength := congrArg List.length hsame
  simp only [List.length_drop, List.length_append] at hlength
  omega

end Redeploy

variable [DecidableEq D] {env : Env} {l l' : Ledger D} {policy : PolicyConfig D}
  {target : Pubkey} {remaining : List AccountMeta}

/-- The gate lets a protocol through with the pinned build only, whatever accounts are listed. -/
theorem enforceVerifiedBuildIfArmed_ok
    (h : enforceVerifiedBuildIfArmed env l policy target remaining = .ok ()) :
    l.RunsPinnedBuild env policy target := by
  intro harmed
  simp only [enforceVerifiedBuildIfArmed, someOr_seq_ok_iff] at h
  obtain ⟨i, hi, h⟩ := h
  rw [buildHash_of_index hi] at harmed ⊢
  simp only [if_neg harmed, enforceProgramBuildHash, seq_ok_iff, someOr_ok_iff, ensure_ok_iff,
    exists_and_left, exists_const] at h
  obtain ⟨info, hinfo, -, -, hhash⟩ := h
  obtain rfl := listedInfo_eq_some hinfo
  exact hhash

theorem validateAndAuthorize_build {args : ValidateAndAuthorizeArgs D} {a : VaultAccounts D}
    (h : validateAndAuthorize env args l = .ok l') (ha : l.live = some a) :
    l.RunsPinnedBuild env a.policy args.targetProtocol := by
  simp only [validateAndAuthorize, Ledger.loadToken, seq_ok_iff, mustExist_ok_iff,
    mustBeNew_ok_iff, rejectCpi_ok_iff, ensure_ok_iff, exists_and_left, exists_const] at h
  obtain ⟨a', ha', -, -, vaultToken, -, -, -, -, -, -, -, -, -, -, -, -, -, -, -, -, -,
    -, -, -, -, -, ⟨⟩, hbuild, -⟩ := h
  cases ha.symm.trans ha'
  exact enforceVerifiedBuildIfArmed_ok hbuild

end Gate

section Session

variable {D : Type} [Host D] [DecidableEq D] {tx : Transaction} {i k : ℕ}
  {args : ValidateAndAuthorizeArgs D} {fargs : FinalizeSessionArgs} {l m n l' : Ledger D}
  {a : VaultAccounts D}

theorem Transaction.Trades.target_or_infrastructure (h : tx.Trades i k args fargs l m n l')
    (ha : l.live = some a) {j : ℕ} {ix : Instruction} (hi : i < j) (hk : j < k)
    (hix : tx.instructions[j]? = some ix) :
    ix.programId = args.targetProtocol ∨ isInfrastructure ix = true := by
  obtain ⟨defi, hdefi, -, hbetween, hmay, -⟩ := h.scanned ha
  rcases Nat.lt_or_ge j (k - 1) with hlt | hge
  · exact .inr (hbetween j ix hi hlt hix)
  · obtain rfl : j = k - 1 := by omega
    cases hdefi.symm.trans hix
    exact .inl hmay.target

/-- The instructions behind an opening run as before with more in the accounts of other
programs. -/
theorem step_grows {ix : Instruction} (hix : tx.instructions[i]? = some ix)
    (hencodes : (Call.validateAndAuthorize args).Encodes l.vaultKey ix) {j : ℕ} (hj : i < j)
    {s s' : Ledger D} (hstep : tx.step s j s') {others : Pubkey → AccountInfo}
    (hgrows : ∀ key, (s.others key).Grows (others key)) :
    ∃ later, tx.step (s.among others) j (s'.among later) ∧
      ∀ key, (s'.others key).Grows (later key) := by
  obtain ⟨y, hy, hstep⟩ := hstep
  cases hstep with
  | @own _ _ c hview hexec =>
    have htarget : ∀ args', c ≠ .validateAndAuthorize args' := by
      rintro args' rfl
      exact not_validate_of_opening hix hencodes hj hexec
    refine ⟨others, ⟨y, hy, .own hview (exec_grows hgrows (fun _ h => absurd h (htarget _)) hexec)⟩,
      ?_⟩
    rw [exec_others hexec]
    exact hgrows
  | elsewhere hview hexec tokens later =>
    exact ⟨later, ⟨y, hy, .elsewhere hview hexec tokens later⟩, fun key => .refl _⟩
  | foreign hnot tokens later =>
    exact ⟨later, ⟨y, hy, .foreign hnot tokens later⟩, fun key => .refl _⟩

theorem run_grows {ix : Instruction} (hix : tx.instructions[i]? = some ix)
    (hencodes : (Call.validateAndAuthorize args).Encodes l.vaultKey ix) {js : List ℕ}
    (hjs : ∀ j ∈ js, i < j) (hrun : Run tx.step m js n) {others : Pubkey → AccountInfo}
    (hgrows : ∀ key, (m.others key).Grows (others key)) :
    ∃ later, Run tx.step (m.among others) js (n.among later) ∧
      ∀ key, (n.others key).Grows (later key) := by
  induction hrun with
  | nil => exact ⟨others, .nil _, hgrows⟩
  | snoc _ hstep ih =>
    obtain ⟨hbefore, hlast⟩ := List.forall_mem_append.mp hjs
    obtain ⟨next, hnext, hgrows⟩ := ih hbefore
    obtain ⟨later, hlater, hgrows⟩ :=
      step_grows hix hencodes (hlast _ (List.mem_singleton_self _)) hstep hgrows
    exact ⟨later, hnext.snoc hlater, hgrows⟩

/-- A session is held as before with more in the accounts of other programs, the code of its
target excepted. -/
theorem Transaction.Holds.grows (h : tx.Holds i k args fargs l m n l')
    {others : Pubkey → AccountInfo} (hgrows : ∀ key, (l.others key).Grows (others key))
    (htarget : others (programDataAddress D args.targetProtocol) =
      l.others (programDataAddress D args.targetProtocol)) :
    ∃ m₂ n₂ l₂', tx.Holds i k args fargs (l.among others) m₂ n₂ l₂' := by
  obtain ⟨ix, hix, hencodes⟩ := h.opening
  have hopens : exec (tx.env i) (l.among others) (.validateAndAuthorize args) =
      .ok (m.among others) := by
    refine exec_grows hgrows ?_ h.opens
    rintro _ ⟨⟩
    exact htarget
  have hopened : ∀ key, (m.others key).Grows (others key) := by
    rw [exec_others h.opens]
    exact hgrows
  obtain ⟨later, hbetween, hlater⟩ := run_grows hix hencodes
    (fun j hj => (List.mem_range'_1.mp hj).1) h.between hopened
  exact ⟨m.among others, n.among later, l'.among later, ⟨ix, hix, hencodes⟩, hopens, hbetween,
    h.closing, exec_grows hlater (fun _ hcall => nomatch hcall) h.closes, h.session⟩

/-- Every program of a session runs its pinned build, whatever code is deployed, exactly when the
transaction runs no program with a pinned build beside the declared target. In a session that
spends, what it runs beside the target is infrastructure. -/
theorem session_builds_pinned_iff [IdealHost D] (h : tx.Holds i k args fargs l m n l')
    (ha : l.live = some a)
    (hdeployed : ∀ j ix, i < j → j < k → tx.instructions[j]? = some ix →
      a.policy.buildHash ix.programId ≠ Host.zeroDigest → l.Deployed ix.programId)
    (haddress : ∀ j ix, i < j → j < k → tx.instructions[j]? = some ix →
      a.policy.buildHash ix.programId ≠ Host.zeroDigest →
      programDataAddress D ix.programId = programDataAddress D args.targetProtocol →
      ix.programId = args.targetProtocol) :
    ((∀ l₂ m₂ n₂ l₂', l.Redeployed l₂ → tx.Holds i k args fargs l₂ m₂ n₂ l₂' →
        ∀ j ix, i < j → j < k → tx.instructions[j]? = some ix →
          l₂.RunsPinnedBuild (tx.env i) a.policy ix.programId) ↔
      ∀ j ix, i < j → j < k → tx.instructions[j]? = some ix →
        a.policy.buildHash ix.programId ≠ Host.zeroDigest → ix.programId = args.targetProtocol) ∧
    (tx.Trades i k args fargs l m n l' → ∀ j ix, i < j → j < k → tx.instructions[j]? = some ix →
      ix.programId ≠ args.targetProtocol → isInfrastructure ix = true) := by
  refine ⟨⟨?_, ?_⟩, ?_⟩
  · intro hall j ix hi hk hix harmed
    by_contra hbeside
    have hcode := hdeployed j ix hi hk hix harmed
    -- the pinned build and more of it
    have haside : programDataAddress D args.targetProtocol ≠ programDataAddress D ix.programId :=
      fun hsame => hbeside (haddress j ix hi hk hix harmed hsame.symm)
    -- the pinned build is deployed, and so is one with more code
    obtain ⟨m₂, n₂, l₂', hholds⟩ := h.grows
      (hcode.grows (List.replicate 46 0)) (others_extendCode_of_ne haside)
    have hbefore := hall l m n l' (.refl l) h j ix hi hk hix harmed
    have hafter := hall _ m₂ n₂ l₂' redeployed_extendCode hholds j ix hi hk hix harmed
    exact hcode.deployedHash_extendCode_ne (tx.env i) (by decide) (hafter.trans hbefore.symm)
  · intro honly l₂ m₂ n₂ l₂' hcode hholds j ix hi hk hix harmed
    have hlive : l₂.live = some a := by
      rw [hcode.rest]
      exact ha
    have htarget := honly j ix hi hk hix harmed
    rw [htarget] at harmed ⊢
    exact validateAndAuthorize_build hholds.opens hlive harmed
  · intro htrades j ix hi hk hix htarget
    exact (htrades.target_or_infrastructure ha hi hk hix).resolve_left htarget

end Session

section Sample

def armingLedger : Ledger Preimage :=
  after (sampleEnv 2000 30) operatedLedger (sampleQueue operatedLedger pinBuild Pubkey.default)

/-- The sample vault with its operator and two protocols, the build of the first one pinned. -/
def armedLedger : Ledger Preimage :=
  after (sampleEnv 3800 31) armingLedger (.applyPendingPolicy (sampleKey 1))

/-- The armed vault with its tokens, and the code that is deployed for the first protocol. -/
def deployedLedger (code : List UInt8) : Ledger Preimage :=
  { armedLedger with
    tokens := sampleTokens armedLedger.vaultKey 0
    others := fun key =>
      if key = programDataAddress Preimage (sampleKey 2) then
        ⟨bpfLoaderUpgradeableId, List.replicate 45 0 ++ code⟩
      else sampleOthers key }

def idleValidate (target : Pubkey) : ValidateAndAuthorizeArgs Preimage :=
  { sampleValidate armedLedger.vaultKey with
    amount := 0
    targetProtocol := target
    expectedPolicyVersion := 2
    expectedIntentDigest :=
      computeScalarIntentDigest armedLedger.vaultKey (sampleKey 9) sampleMint 0 target
    remaining := ⟨programDataAddress Preimage (sampleKey 2), false, false⟩ :: sampleMetas }

/-- Open, run the first protocol, close. -/
def idleTransaction (target : Pubkey) : Transaction where
  clock := (sampleEnv 4000 32).clock
  instructions :=
    [sampleInstruction armedLedger.vaultKey (.validateAndAuthorize (idleValidate target)),
      ⟨sampleKey 2, [], []⟩,
      sampleInstruction armedLedger.vaultKey
        (.finalizeSession (sampleFinalize armedLedger.vaultKey))]
  ownBytes := fun _ _ => []

def idleOpened (code : List UInt8) (target : Pubkey) : Ledger Preimage :=
  after ((idleTransaction target).env 0) (deployedLedger code)
    (.validateAndAuthorize (idleValidate target))

def idleClosed (code : List UInt8) (target : Pubkey) : Ledger Preimage :=
  after ((idleTransaction target).env 2) (idleOpened code target)
    (.finalizeSession (sampleFinalize armedLedger.vaultKey))

theorem run_deployedLedger (code : List UInt8) :
    ∃ as, Run Step emptyLedger as (deployedLedger code) := by
  obtain ⟨as, hrun⟩ := run_operatedLedger
  obtain ⟨hqueued, happlied⟩ :
      (exec (sampleEnv 2000 30) operatedLedger
        (sampleQueue operatedLedger pinBuild Pubkey.default)).isOk = true ∧
        (exec (sampleEnv 3800 31) armingLedger (.applyPendingPolicy (sampleKey 1))).isOk =
          true := by
    decide +kernel
  have harming : Step operatedLedger _ armingLedger := .after hqueued
  have harmed : Step armingLedger _ armedLedger := .after happlied
  exact ⟨_, ((hrun.snoc harming).snoc harmed).snoc (.foreign _ _ _)⟩

theorem vaultKey_deployedLedger (code : List UInt8) :
    (deployedLedger code).vaultKey = armedLedger.vaultKey := rfl

theorem holds_idle (code : List UInt8) (target : Pubkey)
    (hopens : exec ((idleTransaction target).env 0) (deployedLedger code)
      (.validateAndAuthorize (idleValidate target)) = .ok (idleOpened code target))
    (hcloses : exec ((idleTransaction target).env 2) (idleOpened code target)
      (.finalizeSession (sampleFinalize armedLedger.vaultKey)) = .ok (idleClosed code target)) :
    (idleTransaction target).Holds 0 2 (idleValidate target) (sampleFinalize armedLedger.vaultKey)
      (deployedLedger code) (idleOpened code target) (idleOpened code target)
      (idleClosed code target) where
  opening := by
    refine ⟨_, rfl, rfl, rfl, ?_⟩
    simp [sampleInstruction, metasAt, Call.positions, List.range_succ, vaultKey_deployedLedger]
  opens := hopens
  between := .single ⟨⟨sampleKey 2, [], []⟩, rfl,
    .foreign (fun hprogram => absurd hprogram (by decide)) _ _⟩
  closing := by
    refine ⟨_, rfl, ?_⟩
    rw [exec_vaultKey hopens]
    exact encodes_sampleFinalize _
  closes := hcloses
  session := rfl

/-- The session declares the second protocol and runs the first one, whose build is not the pinned
one. -/
theorem unpinned_build_runs :
    (∃ as, Run Step emptyLedger as (deployedLedger [9])) ∧
      (idleTransaction (sampleKey 6)).Holds 0 2 (idleValidate (sampleKey 6))
        (sampleFinalize armedLedger.vaultKey) (deployedLedger [9]) (idleOpened [9] (sampleKey 6))
        (idleOpened [9] (sampleKey 6)) (idleClosed [9] (sampleKey 6)) ∧
      ((idleTransaction (sampleKey 6)).instructions[1]?.any fun ix =>
        ix.programId = sampleKey 2) = true ∧
      ((deployedLedger [9]).live.any fun a => sampleKey 2 ∈ a.policy.protocols ∧
        a.policy.buildHash (sampleKey 2) = ⟨[1]⟩) = true ∧
      (deployedLedger [9]).deployedHash ((idleTransaction (sampleKey 6)).env 0) (sampleKey 2) =
        ⟨[9]⟩ := by
  obtain ⟨hopened, hclosed, hpinned⟩ :
      (exec ((idleTransaction (sampleKey 6)).env 0) (deployedLedger [9])
        (.validateAndAuthorize (idleValidate (sampleKey 6)))).isOk = true ∧
        (exec ((idleTransaction (sampleKey 6)).env 2) (idleOpened [9] (sampleKey 6))
          (.finalizeSession (sampleFinalize armedLedger.vaultKey))).isOk = true ∧
        ((deployedLedger [9]).live.any fun a => sampleKey 2 ∈ a.policy.protocols ∧
          a.policy.buildHash (sampleKey 2) = ⟨[1]⟩) = true := by decide +kernel
  exact ⟨run_deployedLedger [9], holds_idle _ _ (exec_after hopened) (exec_after hclosed),
    by decide +kernel, hpinned, by decide +kernel⟩

theorem session_builds_pinned_iff_armed :
    ∃ a, (deployedLedger [1]).live = some a ∧ a.policy.buildHash (sampleKey 2) ≠ Host.zeroDigest ∧
      (deployedLedger [1]).RunsPinnedBuild ((idleTransaction (sampleKey 2)).env 0) a.policy
        (sampleKey 2) := by
  obtain ⟨hopened, hclosed, harmed, hnotToken, hnotOwn, howner⟩ :
      (exec ((idleTransaction (sampleKey 2)).env 0) (deployedLedger [1])
        (.validateAndAuthorize (idleValidate (sampleKey 2)))).isOk = true ∧
        (exec ((idleTransaction (sampleKey 2)).env 2) (idleOpened [1] (sampleKey 2))
          (.finalizeSession (sampleFinalize armedLedger.vaultKey))).isOk = true ∧
        ((deployedLedger [1]).live.any fun a =>
          a.policy.buildHash (sampleKey 2) ≠ Host.zeroDigest) = true ∧
        (deployedLedger [1]).tokens (programDataAddress Preimage (sampleKey 2)) = none ∧
        (deployedLedger [1]).ownsAccount (programDataAddress Preimage (sampleKey 2)) = false ∧
        ((deployedLedger [1]).others (programDataAddress Preimage (sampleKey 2))).owner =
          bpfLoaderUpgradeableId := by decide +kernel
  have hholds := holds_idle [1] (sampleKey 2) (exec_after hopened) (exec_after hclosed)
  obtain ⟨a, ha, hpinned⟩ := (Option.any_eq_true _ _).mp harmed
  have honly : ∀ j ix, 0 < j → j < 2 → (idleTransaction (sampleKey 2)).instructions[j]? = some ix →
      ix = ⟨sampleKey 2, [], []⟩ := by
    intro j ix hi hk hix
    obtain rfl : j = 1 := by omega
    exact (Option.some.inj hix).symm
  have hall := (session_builds_pinned_iff hholds ha ?_ ?_).1.mpr ?_
  · exact ⟨a, ha, of_decide_eq_true hpinned,
      hall _ _ _ _ (.refl _) hholds 1 _ (by decide) (by decide) rfl⟩
  · intro j ix hi hk hix _
    obtain rfl := honly j ix hi hk hix
    exact ⟨hnotToken, hnotOwn, howner⟩
  · intro j ix hi hk hix _ _
    rw [honly j ix hi hk hix]
    rfl
  · intro j ix hi hk hix _
    rw [honly j ix hi hk hix]
    rfl

end Sample

end Sigil
