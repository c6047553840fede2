import Mathlib.Logic.Function.Basic
import Sigil.Library.Machine
import Sigil.Library.Guard

/-! # Token ledger

Token accounts with an owner and at most one delegate, and the three operations of a token
program: transfer, approve and revoke. A transfer from an account to itself changes nothing.
-/

namespace TokenLedger

open Machine Guard

inductive TokenError
  | uninitializedAccount | accountFrozen | insufficientFunds | mintMismatch | ownerMismatch
  | overflow
  deriving DecidableEq, Repr

structure TokenAccount (κ : Type) where
  mint : κ
  owner : κ
  amount : UInt64
  delegate : Option κ
  frozen : Bool
  isNative : Option UInt64
  delegatedAmount : UInt64
  closeAuthority : Option κ
  deriving DecidableEq

abbrev Accounts (κ : Type) := κ → Option (TokenAccount κ)

variable {κ : Type} [DecidableEq κ] {s s' : Accounts κ} {t : TokenAccount κ}
  {source dest authority k : κ} {amount : UInt64}

/-- The account after its authority agreed to a transfer: a delegate uses up its allowance,
except on a transfer from the account to itself. -/
def TokenAccount.charge (t : TokenAccount κ) (authority : κ) (amount : UInt64)
    (selfTransfer : Bool) : Except TokenError (TokenAccount κ) :=
  if t.delegate = some authority then do
    let rest ← okOr .insufficientFunds (checkedSub t.delegatedAmount amount)
    if selfTransfer then return t
    else return { t with
      delegatedAmount := rest
      delegate := if rest = 0 then none else t.delegate }
  else do
    require (t.owner = authority) .ownerMismatch
    return t

def transfer (s : Accounts κ) (source dest authority : κ) (amount : UInt64) :
    Except TokenError (Accounts κ) := do
  let src ← okOr .uninitializedAccount (s source)
  let dst ← okOr .uninitializedAccount (s dest)
  require (src.frozen = false ∧ dst.frozen = false) .accountFrozen
  require (amount ≤ src.amount) .insufficientFunds
  require (src.mint = dst.mint) .mintMismatch
  let charged ← src.charge authority amount (source = dest)
  if source = dest then return s
  else
    let sent ← okOr .overflow (checkedSub charged.amount amount)
    let received ← okOr .overflow (checkedAdd dst.amount amount)
    return Function.update (Function.update s source (some { charged with amount := sent })) dest
      (some { dst with amount := received })

def setDelegate (s : Accounts κ) (source owner : κ) (delegate : Option κ) (amount : UInt64) :
    Except TokenError (Accounts κ) := do
  let src ← okOr .uninitializedAccount (s source)
  require (src.frozen = false) .accountFrozen
  require (src.owner = owner) .ownerMismatch
  return Function.update s source
    (some { src with delegate := delegate, delegatedAmount := amount })

def approve (s : Accounts κ) (source delegate owner : κ) (amount : UInt64) :
    Except TokenError (Accounts κ) :=
  setDelegate s source owner (some delegate) amount

def revoke (s : Accounts κ) (source owner : κ) : Except TokenError (Accounts κ) :=
  setDelegate s source owner none 0

theorem setDelegate_ok {owner : κ} {delegate : Option κ}
    (h : setDelegate s source owner delegate amount = .ok s') :
    ∃ t, s source = some t ∧ t.owner = owner ∧ s' = Function.update s source
      (some { t with delegate := delegate, delegatedAmount := amount }) := by
  simp only [setDelegate, okOr_seq_ok_iff, require_seq_ok_iff, pure_ok_iff] at h
  obtain ⟨t, ht, -, howner, rfl⟩ := h
  exact ⟨t, ht, howner, rfl⟩

/-- What the delegate of an account may still draw. -/
def TokenAccount.allowance (t : TokenAccount κ) : ℕ :=
  t.delegate.elim 0 fun _ => t.delegatedAmount.toNat

theorem charge_ok {selfTransfer : Bool} {t' : TokenAccount κ}
    (h : t.charge authority amount selfTransfer = .ok t') :
    t'.amount = t.amount ∧ t'.mint = t.mint ∧ t'.owner = t.owner ∧
      (t'.delegate = t.delegate ∨ t'.delegate = none) ∧
      (t.owner ≠ authority → selfTransfer = false →
        t.allowance = t'.allowance + amount.toNat) := by
  unfold TokenAccount.charge at h
  split at h
  · rename_i hdelegate
    simp only [okOr_seq_ok_iff, checkedSub_eq_some] at h
    obtain ⟨rest, hrest, h⟩ := h
    split at h
    · rename_i hself
      cases h
      exact ⟨rfl, rfl, rfl, .inl rfl, fun _ hother => by cases hself.symm.trans hother⟩
    · cases h
      refine ⟨rfl, rfl, rfl, ?_, fun _ _ => ?_⟩
      · by_cases hzero : rest = 0 <;> simp [hzero]
      · by_cases hzero : rest = 0
        · simp [TokenAccount.allowance, hdelegate, hzero, ← hrest]
        · simp [TokenAccount.allowance, hdelegate, hzero, ← hrest]
  · simp only [require_seq_ok_iff, pure_ok_iff] at h
    obtain ⟨howner, rfl⟩ := h
    exact ⟨rfl, rfl, rfl, .inl rfl, fun hother => absurd howner hother⟩

theorem transfer_ok (hne : source ≠ dest)
    (h : transfer s source dest authority amount = .ok s') :
    ∃ src dst src' dst' : TokenAccount κ, s source = some src ∧ s dest = some dst ∧
      s' = Function.update (Function.update s source (some src')) dest (some dst') ∧
      src.amount.toNat = src'.amount.toNat + amount.toNat ∧
      dst'.amount.toNat = dst.amount.toNat + amount.toNat ∧
      src'.mint = src.mint ∧ src'.owner = src.owner ∧
      (src'.delegate = src.delegate ∨ src'.delegate = none) ∧
      (src.owner ≠ authority → src.allowance = src'.allowance + amount.toNat) ∧
      { dst' with amount := dst.amount } = dst := by
  simp only [transfer, seq_ok_iff, okOr_ok_iff, require_ok_iff, exists_and_left, exists_const,
    if_neg hne, checkedSub_eq_some, checkedAdd_eq_some, pure_ok_iff] at h
  obtain ⟨src, hsrc, dst, hdst, -, -, -, charged, hcharged, sent, hsent, received, hreceived,
    rfl⟩ := h
  obtain ⟨hamount, hmint, howner, hdelegate, hallowance⟩ := charge_ok hcharged
  refine ⟨src, dst, _, _, hsrc, hdst, rfl, ?_, hreceived, hmint, howner, hdelegate,
    fun hother => hallowance hother (decide_eq_false hne), rfl⟩
  rw [← hamount, ← hsent]

theorem transfer_self_ok (h : transfer s source source authority amount = .ok s') : s' = s := by
  simp only [transfer, seq_ok_iff, okOr_ok_iff, require_ok_iff, exists_and_left, exists_const,
    if_true, pure_ok_iff] at h
  obtain ⟨_, -, _, -, -, -, -, -, -, rfl⟩ := h
  rfl

theorem transfer_of_ne (h : transfer s source dest authority amount = .ok s') {key : κ}
    (hsource : key ≠ source) (hdest : key ≠ dest) : s' key = s key := by
  by_cases hne : source = dest
  · subst hne
    rw [transfer_self_ok h]
  · obtain ⟨src, dst, src', dst', -, -, rfl, -⟩ := transfer_ok hne h
    rw [Function.update_of_ne hdest, Function.update_of_ne hsource]

theorem transfer_of_owner {src dst : TokenAccount κ} {sent received : UInt64} (hne : source ≠ dest)
    (hsrc : s source = some src) (hdst : s dest = some dst)
    (hthawed : src.frozen = false ∧ dst.frozen = false) (hmint : src.mint = dst.mint)
    (howner : src.owner = authority) (hdelegate : src.delegate ≠ some authority)
    (hsent : src.amount.toNat = sent.toNat + amount.toNat)
    (hreceived : received.toNat = dst.amount.toNat + amount.toNat) :
    transfer s source dest authority amount = .ok (Function.update
      (Function.update s source (some { src with amount := sent })) dest
        (some { dst with amount := received })) := by
  have henough : amount ≤ src.amount := UInt64.le_iff_toNat_le.mpr (by omega)
  have hcharged : src.charge authority amount (source = dest) = .ok src := by
    rw [TokenAccount.charge, if_neg hdelegate, require_of howner]
    rfl
  have hleft : checkedSub src.amount amount = some sent := checkedSub_eq_some.mpr hsent.symm
  have hadded : checkedAdd dst.amount amount = some received := checkedAdd_eq_some.mpr hreceived
  simp only [transfer, hsrc, hdst, okOr, ok_seq, require_of hthawed, require_of henough,
    require_of hmint, hcharged, if_neg hne, hleft, hadded]
  rfl

/-- What a transfer does to the account it is paid from; one that pays itself keeps everything. -/
theorem transfer_source (h : transfer s source dest authority amount = .ok s')
    (ht : s source = some t) :
    ∃ t', s' source = some t' ∧ t'.owner = t.owner ∧ (t.delegate = none → t'.delegate = none) ∧
      t.amount.toNat + (if dest = source then amount.toNat else 0) =
        t'.amount.toNat + amount.toNat := by
  by_cases hne : dest = source
  · subst hne
    obtain rfl := transfer_self_ok h
    exact ⟨t, ht, rfl, id, by simp⟩
  · obtain ⟨src, dst, src', dst', hsrc, -, rfl, hamount, -, -, howner, hdelegate, -⟩ :=
      transfer_ok (Ne.symm hne) h
    cases ht.symm.trans hsrc
    refine ⟨src', ?_, howner, fun hnone => ?_, ?_⟩
    · rw [Function.update_of_ne (Ne.symm hne), Function.update_self]
    · rcases hdelegate with hsame | hrevoked
      · exact hsame.trans hnone
      · exact hrevoked
    · rw [if_neg hne]
      exact hamount

section Custody

/-! ## What belongs to an owner

An owner loses tokens by transfers that it signs itself, and otherwise only as much as it has
allowed its delegates.
-/

variable {owner : κ}

def ownedAt (s : Accounts κ) (owner k : κ) : Option (TokenAccount κ) :=
  (s k).filter fun t => t.owner = owner

def held (s : Accounts κ) (owner k : κ) : ℕ := (ownedAt s owner k).elim 0 fun t => t.amount.toNat

def delegateOf (s : Accounts κ) (owner k : κ) : Option κ :=
  (ownedAt s owner k).bind TokenAccount.delegate

def allowanceOf (s : Accounts κ) (owner k : κ) : ℕ :=
  (ownedAt s owner k).elim 0 TokenAccount.allowance

theorem ownedAt_of_eq (h : s' k = s k) : ownedAt s' owner k = ownedAt s owner k := by
  unfold ownedAt
  rw [h]

theorem ownedAt_of_some (h : s k = some t) (howner : t.owner = owner) :
    ownedAt s owner k = some t := by
  simp [ownedAt, h, howner]

theorem ownedAt_of_owner_ne (h : s k = some t) (howner : t.owner ≠ owner) :
    ownedAt s owner k = none := by
  simp [ownedAt, h, howner]

theorem ownedAt_transfer (h : transfer s source dest authority amount = .ok s') (k owner : κ) :
    ownedAt s' owner k = ownedAt s owner k ∨
      ∃ t t', ownedAt s owner k = some t ∧ ownedAt s' owner k = some t' ∧
        (t'.delegate = t.delegate ∨ t'.delegate = none) ∧
        (t'.allowance = t.allowance ∧ t'.amount.toNat = t.amount.toNat + amount.toNat ∨
          k = source ∧ t.amount.toNat = t'.amount.toNat + amount.toNat ∧
            (owner ≠ authority → t.allowance = t'.allowance + amount.toNat)) := by
  by_cases hne : source = dest
  · subst hne
    rw [transfer_self_ok h]
    exact .inl rfl
  obtain ⟨src, dst, src', dst', hsrc, hdst, rfl, hsent, hreceived, -, hsource,
    hdelegate, hallowance, hdest⟩ := transfer_ok hne h
  by_cases hkd : k = dest
  · subst hkd
    have hsame : dst'.owner = dst.owner ∧ dst'.delegate = dst.delegate ∧
        dst'.allowance = dst.allowance := by
      rw [← hdest]
      exact ⟨rfl, rfl, rfl⟩
    by_cases howner : dst.owner = owner
    · exact .inr ⟨dst, dst', ownedAt_of_some hdst howner,
        ownedAt_of_some (Function.update_self ..) (hsame.1.trans howner), .inl hsame.2.1,
        .inl ⟨hsame.2.2, hreceived⟩⟩
    · left
      rw [ownedAt_of_owner_ne hdst howner]
      exact ownedAt_of_owner_ne (Function.update_self ..) (hsame.1 ▸ howner)
  by_cases hks : k = source
  · subst hks
    have hfound : Function.update (Function.update s k (some src')) dest (some dst') k =
        some src' := by
      rw [Function.update_of_ne hkd, Function.update_self]
    by_cases howner : src.owner = owner
    · refine .inr ⟨src, src', ownedAt_of_some hsrc howner,
        ownedAt_of_some hfound (hsource.trans howner), hdelegate, .inr ⟨rfl, hsent, ?_⟩⟩
      exact fun hother => hallowance (howner.symm ▸ hother)
    · left
      rw [ownedAt_of_owner_ne hsrc howner]
      exact ownedAt_of_owner_ne hfound (hsource ▸ howner)
  · left
    refine ownedAt_of_eq ?_
    rw [Function.update_of_ne hkd, Function.update_of_ne hks]

theorem held_le_transfer_of_ne (h : transfer s source dest authority amount = .ok s')
    (hk : k ≠ source) (owner : κ) : held s owner k ≤ held s' owner k := by
  unfold held
  rcases ownedAt_transfer h k owner with hsame | ⟨t, t', ht, ht', -, ⟨-, hmore⟩ | ⟨heq, -⟩⟩
  · rw [hsame]
  · simp only [ht, ht', Option.elim_some]
    omega
  · exact absurd heq hk

theorem delegateOf_transfer (h : transfer s source dest authority amount = .ok s') {d : κ}
    (hd : delegateOf s' owner k = some d) : delegateOf s owner k = some d := by
  unfold delegateOf at hd ⊢
  rcases ownedAt_transfer h k owner with hsame | ⟨t, t', ht, ht', hdelegate, -⟩
  · rwa [hsame] at hd
  · rw [ht', Option.bind_some] at hd
    rw [ht, Option.bind_some]
    rcases hdelegate with hsame | hnone
    · rwa [hsame] at hd
    · cases hnone.symm.trans hd

theorem setDelegate_held {other : κ} {delegate : Option κ}
    (h : setDelegate s source other delegate amount = .ok s') (k owner : κ) :
    held s' owner k = held s owner k ∧
      (k ≠ source → delegateOf s' owner k = delegateOf s owner k) ∧
      (k = source → ∀ d, delegateOf s' owner k = some d → delegate = some d) := by
  obtain ⟨t, ht, -, rfl⟩ := setDelegate_ok h
  unfold held delegateOf
  by_cases hk : k = source
  · subst hk
    have hfound := Function.update_self k
      (some { t with delegate := delegate, delegatedAmount := amount }) s
    by_cases howner : t.owner = owner
    · rw [ownedAt_of_some ht howner, ownedAt_of_some hfound howner]
      exact ⟨rfl, fun hne => absurd rfl hne, fun _ _ hd => hd⟩
    · rw [ownedAt_of_owner_ne ht howner, ownedAt_of_owner_ne hfound howner]
      exact ⟨rfl, fun _ => rfl, fun _ _ hd => by cases hd⟩
  · rw [ownedAt_of_eq (Function.update_of_ne hk _ _)]
    exact ⟨rfl, fun _ => rfl, fun heq => absurd heq hk⟩

/-- Nothing is taken from an owner, and nobody new is allowed to take anything. -/
structure Undrawn (owner : κ) (s s' : Accounts κ) : Prop where
  held : ∀ k, held s owner k ≤ held s' owner k
  delegate : ∀ k d, delegateOf s' owner k = some d → delegateOf s owner k = some d

theorem Undrawn.refl (owner : κ) (s : Accounts κ) : Undrawn owner s s :=
  ⟨fun _ => le_rfl, fun _ _ => id⟩

theorem Undrawn.trans {s'' : Accounts κ} (h : Undrawn owner s s') (h' : Undrawn owner s' s'') :
    Undrawn owner s s'' :=
  ⟨fun k => (h.held k).trans (h'.held k), fun k d hd => h.delegate k d (h'.delegate k d hd)⟩

theorem Undrawn.revoke {other : κ} (h : revoke s source other = .ok s') : Undrawn owner s s' where
  held k := (setDelegate_held h k owner).1.ge
  delegate k d hd := by
    obtain ⟨-, hothers, hself⟩ := setDelegate_held h k owner
    by_cases hk : k = source
    · cases hself hk d hd
    · rwa [← hothers hk]

theorem Undrawn.transfer (h : transfer s source dest authority amount = .ok s')
    (hsource : ownedAt s owner source = none) : Undrawn owner s s' where
  held k := by
    by_cases hk : k = source
    · rw [hk, TokenLedger.held, hsource]
      exact Nat.zero_le _
    · exact held_le_transfer_of_ne h hk owner
  delegate _ _ := delegateOf_transfer h

/-- What can become of the accounts of an owner that signs nothing. -/
structure Unsigned (owner : κ) (s s' : Accounts κ) : Prop where
  spent : ∀ k, held s owner k + allowanceOf s' owner k ≤ held s' owner k + allowanceOf s owner k
  delegate : ∀ k d, delegateOf s' owner k = some d → delegateOf s owner k = some d

theorem Unsigned.transfer (h : transfer s source dest authority amount = .ok s')
    (hother : owner ≠ authority) : Unsigned owner s s' where
  spent k := by
    unfold held allowanceOf
    rcases ownedAt_transfer h k owner with
      hsame | ⟨t, t', ht, ht', -, ⟨hallowance, hmore⟩ | ⟨-, hless, hallowance⟩⟩
    · rw [hsame]
    · simp only [ht, ht', Option.elim_some]
      omega
    · have hpaid := hallowance hother
      simp only [ht, ht', Option.elim_some]
      omega
  delegate _ _ := delegateOf_transfer h

end Custody

end TokenLedger
