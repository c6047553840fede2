import Sigil.Spending.Graylist

/-! # The program's own accounts

Each account of a vault has a fixed list of seeds. No instruction of another program has one of
them writable next to a session. An update cannot put one on the allowlist of destinations if its
address comes from a name and the key of the vault alone; the vault itself and the overlay have
other seeds, and the list that an update is checked against does not hold their addresses.
-/

namespace Sigil

open Guard Trace SelfDelimiting

inductive VaultAccount
  | vault | policy | tracker | spendOverlay | postAssertions | auditSuccess | auditRejected
  | pendingPolicy | pendingOwner | pendingGrant
  | session (agent mint : Pubkey)
  | pendingPerms (agent : Pubkey)
  deriving DecidableEq

namespace VaultAccount

/-- The seeds that the instructions derive an account from. -/
def seeds (authority : Pubkey) (vaultId : UInt64) (vaultKey : Pubkey) :
    VaultAccount → List (List UInt8)
  | vault => [seedBytes "vault", authority.bytes, leBytes 8 vaultId.toNat]
  | policy => [seedBytes "policy", vaultKey.bytes]
  | tracker => [seedBytes "tracker", vaultKey.bytes]
  | spendOverlay => [seedBytes "agent_spend", vaultKey.bytes, [0]]
  | postAssertions => [seedBytes "post_assertions", vaultKey.bytes]
  | auditSuccess => [seedBytes "audit_success", vaultKey.bytes]
  | auditRejected => [seedBytes "audit_rejected", vaultKey.bytes]
  | pendingPolicy => [seedBytes "pending_policy", vaultKey.bytes]
  | pendingOwner => [seedBytes "pending_owner", vaultKey.bytes]
  | pendingGrant => [seedBytes "pending_agent_grant", vaultKey.bytes]
  | session agent mint => [seedBytes "session", vaultKey.bytes, agent.bytes, mint.bytes]
  | pendingPerms agent => [seedBytes "pending_agent_perms", vaultKey.bytes, agent.bytes]

/-- A vault has one account of the kind, and not one for each agent. -/
def IsSole : VaultAccount → Bool
  | session .. => false
  | pendingPerms .. => false
  | _ => true

section Address

variable {D : Type} [Host D]

def address (l : Ledger D) (a : VaultAccounts D) (k : VaultAccount) : Pubkey :=
  programAddress D (k.seeds a.vault.vaultAuthority a.vault.vaultId l.vaultKey)

/-- The accounts that a session of an agent is guarded against: all but the other sessions and the
updates that are pending for keys which are no agents. -/
def Guarded (a : VaultAccounts D) (args : ValidateAndAuthorizeArgs D) : VaultAccount → Prop
  | session agent mint => agent = args.agent ∧ mint = args.tokenMint
  | pendingPerms agent => ∃ e ∈ a.vault.agents, e.pubkey = agent
  | _ => True

theorem address_mem_ta11ProtectedSet {l : Ledger D} {a : VaultAccounts D}
    {args : ValidateAndAuthorizeArgs D} {k : VaultAccount} (hkey : l.vaultKey = vault.address l a)
    (hk : k.Guarded a args) :
    k.address l a ∈ ta11ProtectedSet (D := D) l.vaultKey
      (sessionAddress D l.vaultKey args.agent args.tokenMint) a.vault.agents := by
  unfold ta11ProtectedSet
  cases k with
  | vault =>
    rw [← hkey]
    exact List.mem_append_left _ List.mem_cons_self
  | session agent mint =>
    obtain ⟨rfl, rfl⟩ := hk
    refine List.mem_append_left _ ?_
    simp [address, seeds, sessionAddress]
  | pendingPerms agent =>
    obtain ⟨e, he, rfl⟩ := hk
    exact List.mem_append_right _ (List.mem_map.mpr ⟨e, he, rfl⟩)
  | _ =>
    refine List.mem_append_left _ ?_
    simp [address, seeds, accountAddress, overlayAddress]

/-- The deny list of an update has the address of an account whose seeds are a name and the key of
the vault. -/
theorem address_mem_vaultKeyedProtectedPdas {l : Ledger D} {a : VaultAccounts D}
    {k : VaultAccount} (hk : k.IsSole = true) (hvault : k ≠ vault) (hoverlay : k ≠ spendOverlay) :
    k.address l a ∈ vaultKeyedProtectedPdas (D := D) l.vaultKey := by
  cases k with
  | vault => exact absurd rfl hvault
  | spendOverlay => exact absurd rfl hoverlay
  | session => cases hk
  | pendingPerms => cases hk
  | _ => simp [address, seeds, vaultKeyedProtectedPdas, accountAddress]

end Address

end VaultAccount

section Runs

variable {D : Type} [Host D] [DecidableEq D] {env : Env} {c : Call D} {l₀ l m m' l' : Ledger D}
  {a : VaultAccounts D} {as : List (Action D)}

theorem exec_addressed (h : exec env l c = .ok l')
    (hl : ∀ a ∈ l.live, l.vaultKey = VaultAccount.vault.address l a) :
    ∀ a ∈ l'.live, l'.vaultKey = VaultAccount.vault.address l' a := by
  intro a' ha'
  rw [exec_vaultKey h]
  by_cases hwrites : Part.identity ∉ c.writes
  · obtain ⟨a, ha, hsame⟩ := (exec_frame h hwrites).exists_before ha'
    have hauthority : a'.vault.vaultAuthority = a.vault.vaultAuthority := congrArg Prod.fst hsame
    have hid : a'.vault.vaultId = a.vault.vaultId := congrArg (fun x => x.2.1) hsame
    have haddress := hl a ha
    rw [VaultAccount.address, VaultAccount.seeds, ← hauthority, ← hid] at haddress
    exact haddress
  cases c <;> simp [Call.writes, Part.ofVault] at hwrites
  case initializeVault =>
    have haddress := initializeVault_address h
    obtain ⟨-, -, -, -, -, -, rfl⟩ := initializeVault_ok h
    cases ha'
    exact haddress
  case closeVault =>
    obtain ⟨b, -, -, -, -, -, rfl⟩ := closeVault_ok h
    cases ha'

theorem run_addressed (hrun : Run Step l₀ as l) (h₀ : l₀.Genesis) :
    ∀ a ∈ l.live, l.vaultKey = VaultAccount.vault.address l a := by
  refine hrun.invariant (P := fun s => ∀ a ∈ s.live, s.vaultKey = VaultAccount.vault.address s a)
    ?_ (by simp [h₀.live])
  intro s x s' hs hstep
  cases hstep with
  | call hexec => exact exec_addressed hexec hs
  | foreign => exact hs

variable {tx : Transaction} {i : ℕ} {ix : Instruction} {args : ValidateAndAuthorizeArgs D}

/-- In a transaction that opens a session, no instruction of another program has an account of the
vault writable which exists and belongs to this program, whatever accounts the agent lists. -/
theorem own_accounts_not_writable (h₀ : l₀.Genesis) (hreach : Run Step l₀ as l)
    (hlen : tx.instructions.length ≤ maxSysvarScanIterations)
    (h : tx.Validates i ix args l m m' l') (ha : m.live = some a) :
    ∀ j y, j ≠ i → tx.instructions[j]? = some y → y.programId ≠ programId →
      ∀ x ∈ y.accounts, ∀ k : VaultAccount, k.Guarded a args → x.pubkey = k.address m a →
        ((m.withBlankSession args).accountInfo (tx.env i) x.pubkey).owner = programId →
        x.isWritable = false := by
  intro j y hj hy hforeign x hx k hk haddress howner
  obtain ⟨bs, hbefore⟩ := tx.exists_run h.before
  have hkey := run_addressed (hreach.append hbefore) h₀ a ha
  obtain ⟨_, vaultToken, pins, snapshots, tokens, hopened⟩ := validateAndAuthorize_ok h.validated
  cases ha.symm.trans hopened.live
  have hguard := ensure_ok_iff.mp hopened.guarded
  by_contra hwritable
  have hmem : x.pubkey ∈ ta11ProtectedSet (D := D) m.vaultKey
      (sessionAddress D m.vaultKey args.agent args.tokenMint) a.vault.agents := by
    rw [haddress]
    exact VaultAccount.address_mem_ta11ProtectedSet hkey hk
  have hlisted := hguard y (mem_siblings hlen hj hy) hforeign x hx (by simpa using hwritable) hmem
  -- what is listed is the account itself, and that one is the program's
  obtain ⟨info, hinfo, hother⟩ := (Option.any_eq_true _ _).mp hlisted
  unfold Ledger.listedInfo at hinfo
  split at hinfo
  · cases hinfo
    exact of_decide_eq_true hother howner
  · cases hinfo

theorem queuePolicyUpdate_destinations {owner cosignSession : Pubkey} {u : PolicyUpdate D}
    {digest : D}
    (h : queuePolicyUpdate env owner u cosignSession digest l = .ok l') :
    ∀ new ∈ u.allowedDestinations, ∀ d ∈ new, d ∉ vaultKeyedProtectedPdas (D := D) l.vaultKey := by
  obtain ⟨a, -, hvalid⟩ := queuePolicyUpdate_valid h
  simp only [validateUpdate, seq_ok_iff, ensure_ok_iff, exists_and_left, exists_const] at hvalid
  obtain ⟨-, -, -, -, -, -, -, hdenied, -⟩ := hvalid
  exact hdenied

/-- An accepted update allows none of the accounts of the vault as a destination exactly if its list
has neither the vault's own key nor the address of the overlay: the deny list has all the others. -/
theorem destinations_foreign_iff {owner cosignSession : Pubkey} {u : PolicyUpdate D} {digest : D}
    {new : List Pubkey} (h₀ : l₀.Genesis) (hreach : Run Step l₀ as l) (ha : l.live = some a)
    (h : exec env l (.queuePolicyUpdate owner u cosignSession digest) = .ok l')
    (hnew : u.allowedDestinations = some new) :
    (∀ k : VaultAccount, k.IsSole = true → k.address l a ∉ new) ↔
      l.vaultKey ∉ new ∧ overlayAddress D l.vaultKey ∉ new := by
  have hkey := run_addressed hreach h₀ a ha
  constructor
  · intro hall
    refine ⟨?_, hall .spendOverlay rfl⟩
    rw [hkey]
    exact hall .vault rfl
  · rintro ⟨hvault, hoverlay⟩ k hk hmem
    by_cases hv : k = .vault
    · subst hv
      rw [← hkey] at hmem
      exact hvault hmem
    by_cases ho : k = .spendOverlay
    · subst ho
      exact hoverlay hmem
    exact queuePolicyUpdate_destinations h new hnew _ hmem
      (VaultAccount.address_mem_vaultKeyedProtectedPdas hk hv ho)

end Runs

section Sample

/-- The sample trade with the policy among the accounts that the protocol reads. -/
def readingTransaction (vault : Pubkey) : Transaction :=
  { sampleTransaction vault with
    instructions :=
      [sampleInstruction vault (.validateAndAuthorize (sampleValidate vault)),
        ⟨sampleKey 2, sampleMetas ++ [⟨accountAddress Preimage "policy" vault, false, false⟩], []⟩,
        sampleInstruction vault (.finalizeSession (sampleFinalize vault))] }

def readingOpened : Ledger Preimage :=
  after ((readingTransaction tradingLedger.vaultKey).env 0) tradingLedger
    (.validateAndAuthorize (sampleValidate tradingLedger.vaultKey))

def readingSwapped : Ledger Preimage :=
  { readingOpened with tokens := sampleTokens tradingLedger.vaultKey 40 }

def readingClosed : Ledger Preimage :=
  after ((readingTransaction tradingLedger.vaultKey).env 2) readingSwapped
    (.finalizeSession (sampleFinalize tradingLedger.vaultKey))

theorem validates_reading : (readingTransaction tradingLedger.vaultKey).Validates 0
    (sampleInstruction tradingLedger.vaultKey
      (.validateAndAuthorize (sampleValidate tradingLedger.vaultKey)))
    (sampleValidate tradingLedger.vaultKey) tradingLedger tradingLedger readingOpened
    readingClosed := by
  refine ⟨.nil _, rfl, encodes_sampleValidate _, exec_after (by decide +kernel), ?_⟩
  have hswap : (readingTransaction tradingLedger.vaultKey).step readingOpened 1 readingSwapped :=
    ⟨_, rfl, .foreign (fun hprogram => absurd hprogram (by decide)) _ _⟩
  have hkey : readingSwapped.vaultKey = tradingLedger.vaultKey := by decide +kernel
  exact (Run.single hswap).snoc ⟨_, rfl, .own (hkey ▸ encodes_sampleFinalize _)
    (exec_after (by decide +kernel))⟩

theorem own_accounts_not_writable_reading :
    let policyKey := accountAddress Preimage "policy" tradingLedger.vaultKey
    ∃ y, (readingTransaction tradingLedger.vaultKey).instructions[1]? = some y ∧
      (∃ x ∈ y.accounts, x.pubkey = policyKey) ∧
      ∀ x ∈ y.accounts, x.pubkey = policyKey → x.isWritable = false := by
  intro policyKey
  obtain ⟨as, hrun⟩ := run_operatedLedger
  have hreach : Run Step emptyLedger (as ++ [.foreign]) tradingLedger := hrun.snoc (.foreign _ _ _)
  obtain ⟨a, ha⟩ := Option.isSome_iff_exists.mp
    (show tradingLedger.live.isSome = true by decide +kernel)
  have howner : ((tradingLedger.withBlankSession
      (sampleValidate tradingLedger.vaultKey)).accountInfo
        ((readingTransaction tradingLedger.vaultKey).env 0) policyKey).owner = programId := by
    decide +kernel
  refine ⟨_, rfl, ⟨_, List.mem_append_right _ (List.mem_singleton.mpr rfl), rfl⟩, ?_⟩
  rintro x hx hkey
  exact own_accounts_not_writable genesis_emptyLedger hreach (by decide) validates_reading ha 1 _
    (by decide) rfl (by decide) x hx .policy trivial hkey (hkey ▸ howner)

/-- The sample update allows one more recipient and no account of the vault. -/
theorem destinations_foreign_iff_newcomer :
    ∃ a, operatedLedger.live = some a ∧ ∀ k : VaultAccount, k.IsSole = true →
      k.address operatedLedger a ∉ [sampleKey 3, sampleKey 6] := by
  obtain ⟨as, hreach⟩ := run_operatedLedger
  obtain ⟨a, ha⟩ := Option.isSome_iff_exists.mp
    (show operatedLedger.live.isSome = true by decide +kernel)
  have hexec : exec (sampleEnv 1700 21) operatedLedger
      (sampleQueue operatedLedger (allowAlso (sampleKey 6)) Pubkey.default) =
        .ok (invitingLedger (sampleKey 6)) := exec_after (by decide +kernel)
  refine ⟨a, ha, (destinations_foreign_iff genesis_emptyLedger hreach ha hexec rfl).mpr ?_⟩
  decide +kernel

/-- The seeds of the accounts of a vault and of the list that an update is checked against. -/
def derivedSeeds (l : Ledger Preimage) (a : VaultAccounts Preimage) : List (List (List UInt8)) :=
  [VaultAccount.vault, .policy, .tracker, .spendOverlay, .postAssertions, .auditSuccess,
    .auditRejected, .pendingPolicy, .pendingOwner, .pendingGrant].map
      (fun k => k.seeds a.vault.vaultAuthority a.vault.vaultId l.vaultKey) ++
  [[seedBytes "vault", l.vaultKey.bytes], [seedBytes "agent_spend", l.vaultKey.bytes]]

/-- An update allows the vault itself as a destination, and the overlay, although no two of the
derived addresses collide. -/
theorem own_account_allowed :
    (∃ as, Run Step emptyLedger as operatedLedger) ∧ operatedLedger.live.isSome = true ∧
      ∀ a ∈ operatedLedger.live,
        (∀ s ∈ derivedSeeds operatedLedger a, ∀ s' ∈ derivedSeeds operatedLedger a,
          programAddress Preimage s = programAddress Preimage s' → s = s') ∧
        ∀ k ∈ [VaultAccount.vault, .spendOverlay],
          k.address operatedLedger a ∈
            (allowAlso (k.address operatedLedger a)).allowedDestinations.getD [] ∧
          (exec (sampleEnv 1700 21) operatedLedger (sampleQueue operatedLedger
            (allowAlso (k.address operatedLedger a)) Pubkey.default)).isOk = true := by
  exact ⟨run_operatedLedger, by decide +kernel, by decide +kernel⟩

end Sample

end Sigil
