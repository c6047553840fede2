import Sigil.System.Exec

/-! # Accounts that grow

Of an account that is neither its own nor a token program's, an instruction reads the owner and
bytes that must be there. With more bytes at the end of such accounts an instruction that succeeds
does so again, to the same effect. The code of a program is kept in such an account.
-/

namespace Sigil

open Guard TokenLedger

/-- The same account, with more bytes at its end unless a token program owns it. -/
structure AccountInfo.Grows (x y : AccountInfo) : Prop where
  owner : y.owner = x.owner
  token : isTokenProgram x.owner = true → y.data = x.data
  more : ∃ bytes, y.data = x.data ++ bytes

namespace AccountInfo.Grows

variable {x y : AccountInfo}

theorem refl (x : AccountInfo) : x.Grows x := ⟨rfl, fun _ => rfl, [], (List.append_nil _).symm⟩

theorem eq_of_token (h : x.Grows y) (htoken : isTokenProgram x.owner = true) : y = x := by
  obtain ⟨owner, data⟩ := y
  obtain rfl : owner = x.owner := h.owner
  obtain rfl : data = x.data := h.token htoken
  rfl

theorem readToken (h : x.Grows y) : Sigil.readToken y = Sigil.readToken x := by
  by_cases htoken : isTokenProgram x.owner = true
  · rw [h.eq_of_token htoken]
  · rw [Sigil.readToken, Sigil.readToken, h.owner, if_neg htoken, if_neg htoken]

theorem unpackMint (h : x.Grows y) : Sigil.unpackMint y = Sigil.unpackMint x := by
  by_cases howner : x.owner = tokenProgramId
  · rw [h.eq_of_token (decide_eq_true (.inl howner))]
  · simp [Sigil.unpackMint, h.owner, howner]

theorem enforceToken2022ExtensionAllowlist (h : x.Grows y) :
    Sigil.enforceToken2022ExtensionAllowlist y = Sigil.enforceToken2022ExtensionAllowlist x := by
  by_cases howner : x.owner = token2022ProgramId
  · rw [h.eq_of_token (decide_eq_true (.inr howner))]
  · simp [Sigil.enforceToken2022ExtensionAllowlist, h.owner, howner]

theorem slice (h : x.Grows y) (e : PostAssertionEntry) :
    Extends (e.slice x.data) (e.slice y.data) := by
  intro bytes hslice
  obtain ⟨more, hmore⟩ := h.more
  simp only [PostAssertionEntry.slice, seq_ok_iff, ensure_ok_iff, exists_and_left, exists_const,
    pure_ok_iff] at hslice ⊢
  obtain ⟨hlength, rfl⟩ := hslice
  rw [hmore, List.length_append]
  refine ⟨by omega, ?_⟩
  rw [List.drop_append_of_le_length (by omega), List.take_append_of_le_length]
  rw [List.length_drop]
  omega

end AccountInfo.Grows

section Reads

variable {D : Type}

def Ledger.among (others : Pubkey → AccountInfo) (l : Ledger D) : Ledger D :=
  { l with others := others }

variable [Host D] {l : Ledger D} {others : Pubkey → AccountInfo} {env : Env}
  {remaining : List AccountMeta} {policy : PolicyConfig D} {α : Type}
  (hgrows : ∀ key, (l.others key).Grows (others key))

include hgrows

theorem accountInfo_grows (key : Pubkey) :
    (l.accountInfo env key).Grows ((l.among others).accountInfo env key) := by
  have howns : (l.among others).ownsAccount key = l.ownsAccount key := rfl
  unfold Ledger.accountInfo
  rw [howns]
  dsimp only [Ledger.among]
  split
  · exact .refl _
  · split
    · exact .refl _
    · exact hgrows key

theorem listedInfo_grows {key : Pubkey} {x : AccountInfo}
    (h : l.listedInfo env remaining key = some x) :
    ∃ y, (l.among others).listedInfo env remaining key = some y ∧ x.Grows y := by
  obtain ⟨hlisted, rfl⟩ := listedInfo_eq_some_iff.mp h
  exact ⟨_, listedInfo_eq_some_iff.mpr ⟨hlisted, rfl⟩, accountInfo_grows hgrows key⟩

theorem extends_listed {error : SigilError} {key : Pubkey} {f g : AccountInfo → Result α}
    (h : ∀ x y, x.Grows y → Extends (f x) (g y)) :
    Extends (do let x ← someOr error (l.listedInfo env remaining key); f x)
      (do let y ← someOr error ((l.among others).listedInfo env remaining key); g y) := by
  intro a ha
  obtain ⟨x, hx, ha⟩ := someOr_seq_ok_iff.mp ha
  obtain ⟨y, hy, hxy⟩ := listedInfo_grows hgrows hx
  exact someOr_seq_ok_iff.mpr ⟨y, hy, h x y hxy a ha⟩

theorem extends_listedToken {error error' : SigilError} {key : Pubkey} (f : TokenView → Result α) :
    Extends
      (do
        let x ← someOr error (l.listedInfo env remaining key)
        let view ← someOr error' (readToken x)
        f view)
      (do
        let y ← someOr error ((l.among others).listedInfo env remaining key)
        let view ← someOr error' (readToken y)
        f view) :=
  extends_listed hgrows fun _ _ hxy => hxy.readToken ▸ .refl _

theorem listedInfo_readToken (key : Pubkey) :
    ((l.among others).listedInfo env remaining key).bind readToken =
      (l.listedInfo env remaining key).bind readToken := by
  unfold Ledger.listedInfo
  split
  · exact (accountInfo_grows hgrows key).readToken
  · rfl

theorem checkDestination_grows (m : AccountMeta) :
    Extends (checkDestination env l policy remaining m)
      (checkDestination env (l.among others) policy remaining m) := by
  refine .ite (.refl _) (extends_listed hgrows fun x y hxy => ?_)
  by_cases htoken : isTokenProgram x.owner = true
  · cases hxy.eq_of_token htoken
    refine .ite (.seq (.refl _) fun view => .ite (.ite ?_ (.refl _)) (.refl _)) (.refl _)
    refine extends_listed hgrows fun mint mint' hmint => ?_
    rw [hmint.owner, hmint.enforceToken2022ExtensionAllowlist]
    exact .refl _
  · rw [hxy.owner, if_neg htoken, if_neg htoken]
    exact .refl _

theorem enforceDestinationAllowlist_grows (metas : List AccountMeta) :
    Extends (enforceDestinationAllowlist env l policy remaining metas)
      (enforceDestinationAllowlist env (l.among others) policy remaining metas) :=
  .seq (.refl _) fun _ => .forM (checkDestination_grows hgrows)

theorem spendingScan_grows (session target : Pubkey) (iter count : ℕ) (defi : Option ℕ)
    (rest : List Instruction) :
    Extends (spendingScan env l policy session target remaining iter count defi rest)
      (spendingScan env (l.among others) policy session target remaining iter count defi rest) := by
  induction rest generalizing iter count defi with
  | nil => exact .refl _
  | cons ix rest ih =>
    refine .seq (.refl _) fun _ => .seq (.refl _) fun action => ?_
    cases action with
    | foundFinalize => exact .refl _
    | infrastructure => exact ih _ _ _
    | passedSharedChecks =>
      refine .seq (.refl _) fun _ => .seq ?_ fun _ => ih _ _ _
      exact enforceDestinationAllowlist_grows hgrows ix.accounts

theorem sandwichScan_grows (session target : Pubkey) (isSpending : Bool) :
    Extends (sandwichScan env l policy session target remaining isSpending)
      (sandwichScan env (l.among others) policy session target remaining isSpending) :=
  .ite (.seq (spendingScan_grows hgrows _ _ _ _ _ _) fun _ => .refl _) (.refl _)

theorem rejectProtectedWritable_grows (session : Pubkey) (agents : List AgentEntry) :
    Extends (rejectProtectedWritable env l session agents remaining)
      (rejectProtectedWritable env (l.among others) session agents remaining) := by
  refine .require fun h ix hix hforeign m hm hwritable hprotected => ?_
  obtain ⟨x, hx, howner⟩ := (Option.any_eq_true _ _).mp
    (h ix hix hforeign m hm hwritable hprotected)
  obtain ⟨y, hy, hxy⟩ := listedInfo_grows hgrows hx
  rw [hy, Option.any_some, hxy.owner]
  exact howner

theorem sumVaultMintBalance_grows (mint target : Pubkey) (scope : UInt8) :
    Extends (sumVaultMintBalance env l mint scope target remaining)
      (sumVaultMintBalance env (l.among others) mint scope target remaining) := by
  refine .ite ?_ (.ite (extends_listedToken hgrows _) (.refl _))
  refine extends_listed hgrows fun x y hxy => ?_
  simp only [addVaultBalance, hxy.readToken]
  refine .seq (.refl _) fun sum => extends_listed hgrows fun x' y' hxy' => ?_
  rw [hxy'.readToken]
  exact .refl _

theorem extends_slice {error : SigilError} (e : PostAssertionEntry) (f : List UInt8 → Result α) :
    Extends
      (do
        let target ← someOr error (l.listedInfo env remaining e.targetAccount)
        let bytes ← e.slice target.data
        f bytes)
      (do
        let target ← someOr error ((l.among others).listedInfo env remaining e.targetAccount)
        let bytes ← e.slice target.data
        f bytes) :=
  extends_listed hgrows fun _ _ hxy => .seq (hxy.slice e) fun _ => .refl _

theorem captureSnapshot_grows (e : PostAssertionEntry) :
    Extends (captureSnapshot env l remaining e)
      (captureSnapshot env (l.among others) remaining e) := by
  unfold captureSnapshot
  rcases AssertionMode.tryFrom e.assertionMode with _ | mode
  · exact extends_slice hgrows e _
  cases mode with
  | mintDeltaCap => exact .seq (sumVaultMintBalance_grows hgrows _ _ _) fun _ => .refl _
  | outputBalanceFloor => exact extends_listedToken hgrows _
  | absolute | ataAuthorityPin | declarationConsistency => exact .refl _
  | _ => exact extends_slice hgrows e _

theorem verifyEntry_grows (e : PostAssertionEntry) (snapshot : List UInt8) (snapshotLen : UInt8) :
    Extends (verifyEntry env l remaining e snapshot snapshotLen)
      (verifyEntry env (l.among others) remaining e snapshot snapshotLen) := by
  refine .seq (.refl _) fun mode => ?_
  cases mode with
  | mintDeltaCap =>
    exact .seq (.refl _) fun _ => .seq (sumVaultMintBalance_grows hgrows _ _ _) fun _ => .refl _
  | ataAuthorityPin =>
    refine extends_listed hgrows fun x y hxy a ha => ?_
    cases hxy.eq_of_token (ensure_seq_ok_iff.mp ha).1
    exact ha
  | outputBalanceFloor => exact .seq (.refl _) fun _ => extends_listedToken hgrows _
  | declarationConsistency =>
    refine .seq (.refl _) fun defiIx => .seq (.refl _) fun m => ?_
    refine extends_listed hgrows fun x y hxy a ha => ?_
    cases hxy.eq_of_token (ensure_seq_ok_iff.mp ha).1
    exact ha
  | _ => exact extends_slice hgrows e _

theorem ensureAssertions_grows (s : SessionAuthority) :
    Extends (ensureAssertions env l policy remaining s)
      (ensureAssertions env (l.among others) policy remaining s) := by
  refine .ite (.seq (.refl _) fun found => .seq (.refl _) fun assertions => ?_) (.refl _)
  exact .forM fun _ => verifyEntry_grows hgrows _ _ _

theorem captureSnapshots_grows :
    Extends (captureSnapshots env l policy remaining)
      (captureSnapshots env (l.among others) policy remaining) :=
  .ite (.refl _) (.seq (.refl _) fun _ => .mapM (captureSnapshot_grows hgrows))

theorem sumStableBalances_grows (counts : Pubkey → AccountInfo → TokenView → Bool) (limit : ℕ)
    (seen : List Pubkey) (total : UInt64) (metas : List AccountMeta) :
    sumStableBalances env (l.among others) counts limit seen total metas =
      sumStableBalances env l counts limit seen total metas := by
  induction metas generalizing limit seen total with
  | nil => cases limit <;> rfl
  | cons m rest ih =>
    cases limit with
    | zero => rfl
    | succ limit =>
      have hinfo : (l.accountInfo env m.pubkey).Grows _ := accountInfo_grows hgrows m.pubkey
      by_cases htoken : isTokenProgram (l.accountInfo env m.pubkey).owner = true
      · simp only [sumStableBalances, hinfo.eq_of_token htoken, ih]
        rfl
      · have hneither : (l.accountInfo env m.pubkey).owner ≠ tokenProgramId ∧
            (l.accountInfo env m.pubkey).owner ≠ token2022ProgramId := by
          simpa [isTokenProgram] using htoken
        simp only [sumStableBalances, hinfo.owner, hneither, ne_eq, not_false_eq_true, and_self,
          if_true, ih]

theorem chargeSessionRecipient_grows (t : SpendTracker) (spend : UInt64) :
    chargeSessionRecipient env (l.among others) policy t remaining spend =
      chargeSessionRecipient env l policy t remaining spend := by
  have hrecipient : recipientOf env (l.among others) policy remaining =
      recipientOf env l policy remaining := by
    funext m
    simp only [recipientOf, listedInfo_readToken hgrows]
    rfl
  simp only [chargeSessionRecipient, hrecipient]

theorem transferFloorSum_grows (source : Pubkey) :
    transferFloorSum env (l.among others) source remaining =
      transferFloorSum env l source remaining := by
  simp only [transferFloorSum, sumStableBalances_grows hgrows]
  rfl

theorem sessionFloorSum_grows (args : FinalizeSessionArgs) :
    sessionFloorSum env (l.among others) args = sessionFloorSum env l args := by
  simp only [sessionFloorSum, sumStableBalances_grows hgrows]
  rfl

end Reads

section Handlers

variable {D : Type} [Host D] {l l' : Ledger D} {others : Pubkey → AccountInfo} {env : Env}
  (hgrows : ∀ key, (l.others key).Grows (others key))

include hgrows

theorem depositFunds_grows (owner mint : Pubkey) (amount : UInt64) :
    depositFunds env owner mint amount (l.among others) =
      Ledger.among others <$> depositFunds env owner mint amount l := by
  have hinfo : (l.accountInfo env mint).Grows ((l.among others).accountInfo env mint) :=
    accountInfo_grows hgrows mint
  have hinit : ∀ key, (l.among others).initIfNeeded key mint =
      (l.initIfNeeded key mint).among others := by
    intro key
    unfold Ledger.initIfNeeded Ledger.among
    dsimp only
    split <;> rfl
  simp only [depositFunds, map_seq, hinit, hinfo.unpackMint,
    hinfo.enforceToken2022ExtensionAllowlist]
  rfl

theorem withdrawFunds_grows (owner mint : Pubkey) (remaining : List AccountMeta)
    (amount : UInt64) : withdrawFunds env owner mint remaining amount (l.among others) =
      Ledger.among others <$> withdrawFunds env owner mint remaining amount l := by
  have hinfo : (l.accountInfo env mint).Grows ((l.among others).accountInfo env mint) :=
    accountInfo_grows hgrows mint
  simp only [withdrawFunds, map_seq, hinfo.unpackMint]
  rfl

theorem agentTransfer_grows (args : AgentTransferArgs) :
    agentTransfer env args (l.among others) = Ledger.among others <$> agentTransfer env args l := by
  have hinfo : (l.accountInfo env args.tokenMintAccount).Grows
      ((l.among others).accountInfo env args.tokenMintAccount) := accountInfo_grows hgrows _
  have hfloor : ∀ tokens, transferFloorSum env { l.among others with tokens := tokens }
      args.vaultTokenAccount args.remaining =
        transferFloorSum env { l with tokens := tokens } args.vaultTokenAccount args.remaining :=
    fun tokens => transferFloorSum_grows (l := { l with tokens := tokens }) hgrows _
  simp only [agentTransfer, map_seq, hinfo.unpackMint, hfloor]
  rfl

theorem revokePair_grows (session token : Pubkey) :
    revokePair env (l.among others) session token =
      Ledger.among others <$> revokePair env l session token := by
  have hinfo : (l.accountInfo env token).Grows ((l.among others).accountInfo env token) :=
    accountInfo_grows hgrows token
  unfold revokePair
  rw [hinfo.owner, show (l.among others).sessions session = l.sessions session from rfl]
  cases l.sessions session with
  | none => rfl
  | some s =>
    dsimp only
    rw [apply_ite (Ledger.among others <$> ·), map_seq]
    rfl

theorem revokePairs_grows (pairs : List AccountMeta) :
    revokePairs env (l.among others) pairs = Ledger.among others <$> revokePairs env l pairs := by
  induction l, pairs using revokePairs.induct with
  | case1 l session token rest ih =>
    rw [revokePairs, revokePairs, revokePair_grows hgrows, map_seq]
    cases hpair : revokePair env l session.pubkey token.pubkey with
    | error e => rfl
    | ok l₁ =>
      obtain ⟨tokens, rfl⟩ := revokePair_ok hpair
      exact ih _ hgrows
  | case2 pairs l hshort =>
    rw [revokePairs, revokePairs]
    · rfl
    · exact hshort
    · exact hshort

theorem freezeVault_grows (owner : Pubkey) (remaining : List AccountMeta) :
    freezeVault env owner remaining (l.among others) =
      Ledger.among others <$> freezeVault env owner remaining l := by
  have hrevoked : ∀ drains : Prop, ∀ _ : Decidable drains, ∀ pairs, revokePairs env
      (if drains then { l.among others with pendingOwner := none } else l.among others) pairs =
        Ledger.among others <$>
          revokePairs env (if drains then { l with pendingOwner := none } else l) pairs := by
    intro drains _ pairs
    split
    · exact revokePairs_grows (l := { l with pendingOwner := none }) hgrows pairs
    · exact revokePairs_grows hgrows pairs
  have hseq : ∀ x : Result (Ledger D), ∀ f : Ledger D → Result (Ledger D),
      (Ledger.among others <$> x) >>= f = x >>= fun m => f (m.among others) := by
    intro x f
    cases x <;> rfl
  simp only [freezeVault, map_seq, hrevoked, hseq]
  rfl

theorem finalizeSession_grows (args : FinalizeSessionArgs) :
    Extends (Ledger.among others <$> finalizeSession env args l)
      (finalizeSession env args (l.among others)) := by
  have hcharge : ∀ tokens policy tracker spend, chargeSessionRecipient env
      { l.among others with tokens := tokens } policy tracker args.remaining spend =
        chargeSessionRecipient env { l with tokens := tokens } policy tracker args.remaining
          spend :=
    fun tokens policy => chargeSessionRecipient_grows (l := { l with tokens := tokens }) hgrows
  have hfloor : ∀ tokens, sessionFloorSum env { l.among others with tokens := tokens } args =
      sessionFloorSum env { l with tokens := tokens } args :=
    fun tokens => sessionFloorSum_grows (l := { l with tokens := tokens }) hgrows args
  simp only [finalizeSession, map_seq, hcharge, hfloor]
  -- up to the assertions the steps are the same
  repeat refine .seq (.refl _) fun _ => ?_
  exact .seq (ensureAssertions_grows (by exact hgrows) _) fun _ => .refl _

theorem validateAndAuthorize_grows [DecidableEq D] {args : ValidateAndAuthorizeArgs D}
    (htarget : others (Host.findProgramAddress D [args.targetProtocol.bytes]
        bpfLoaderUpgradeableId) =
      l.others (Host.findProgramAddress D [args.targetProtocol.bytes] bpfLoaderUpgradeableId)) :
    Extends (Ledger.among others <$> validateAndAuthorize env args l)
      (validateAndAuthorize env args (l.among others)) := by
  have hmint : (l.accountInfo env args.tokenMintAccount).Grows
      ((l.among others).accountInfo env args.tokenMintAccount) := accountInfo_grows hgrows _
  have hgate : ∀ policy : PolicyConfig D,
      enforceVerifiedBuildIfArmed env (l.among others) policy args.targetProtocol args.remaining =
        enforceVerifiedBuildIfArmed env l policy args.targetProtocol args.remaining := by
    intro policy
    simp only [enforceVerifiedBuildIfArmed, Ledger.listedInfo, Ledger.accountInfo, Ledger.among,
      htarget]
    rfl
  simp only [validateAndAuthorize, map_seq, hmint.unpackMint, hgate]
  -- up to the scans the steps are the same
  repeat refine .seq (.refl _) fun _ => ?_
  refine .seq (rejectProtectedWritable_grows (l := l.setSession _ _) hgrows _ _) fun _ => ?_
  refine .seq (sandwichScan_grows (l := l.setSession _ _) hgrows _ _ _) fun _ => ?_
  refine .seq (.refl _) fun tokens => .seq ?_ fun _ => .refl _
  exact captureSnapshots_grows (l := { l.setSession _ _ with tokens := tokens }) hgrows

theorem exec_grows [DecidableEq D] {c : Call D}
    (htarget : ∀ args, c = .validateAndAuthorize args →
      others (Host.findProgramAddress D [args.targetProtocol.bytes] bpfLoaderUpgradeableId) =
        l.others (Host.findProgramAddress D [args.targetProtocol.bytes] bpfLoaderUpgradeableId))
    (h : exec env l c = .ok l') : exec env (l.among others) c = .ok (l'.among others) := by
  have hextends : Extends (Ledger.among others <$> exec env l c) (exec env (l.among others) c) := by
    cases c with
    | validateAndAuthorize args => exact validateAndAuthorize_grows hgrows (htarget args rfl)
    | finalizeSession args => exact finalizeSession_grows hgrows args
    | depositFunds owner mint amount =>
      exact depositFunds_grows hgrows owner mint amount ▸ .refl _
    | withdrawFunds owner mint remaining amount =>
      exact withdrawFunds_grows hgrows owner mint remaining amount ▸ .refl _
    | agentTransfer args => exact agentTransfer_grows hgrows args ▸ .refl _
    | freezeVault owner remaining => exact freezeVault_grows hgrows owner remaining ▸ .refl _
    | recordAgentViolation owner agent code =>
      simp only [exec, recordAgentViolation, map_seq, apply_ite (Ledger.among others <$> ·)]
      exact .refl _
    | _ =>
      -- the rest read no account of another program
      simp only [exec, initializeVault, closeVault, reactivateVault, setObserveOnly, pauseAgent,
        unpauseAgent, registerAgent, revokeAgent, queueAgentGrant, applyAgentGrant,
        cancelAgentGrant, queueAgentPermissionsUpdate, applyAgentPermissionsUpdate,
        cancelAgentPermissionsUpdate, queuePolicyUpdate, approvePendingPolicy,
        cancelPendingPolicy, applyPendingPolicy, promoteGraylistDestination,
        initiateOwnershipTransfer, acceptOwnershipTransfer, acceptOwnershipTransferMultisig,
        cancelOwnershipTransfer, createPostAssertions, closePostAssertions, map_seq]
      exact .refl _
  refine hextends _ ?_
  rw [h]
  rfl

omit hgrows in
theorem exec_others [DecidableEq D] {c : Call D} (h : exec env l c = .ok l') :
    l'.others = l.others := by
  have hsame : exec env (l.among l.others) c = .ok (l'.among l.others) :=
    exec_grows (fun _ => .refl _) (fun _ _ => rfl) h
  have heq : l' = l'.among l.others := Except.ok.inj (h.symm.trans hsame)
  rw [heq]
  rfl

end Handlers

end Sigil
