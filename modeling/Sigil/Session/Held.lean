import Sigil.Session.Lifetime

/-! # A session from its opening to its closing

Whatever an agent lists between the two ends of a session, the session that `finalize_session`
closes is the one that `validate_and_authorize` opened, and the clock has not moved.
-/

namespace Sigil

open Guard Trace

section Held

variable {D : Type} [Host D] [DecidableEq D]

/-- A session that is opened by the instruction at position `i` of a transaction and closed by the
one at position `k`; the ledgers stand before and after the two. -/
structure Transaction.Holds (tx : Transaction) (i k : ℕ) (args : ValidateAndAuthorizeArgs D)
    (fargs : FinalizeSessionArgs) (l m n l' : Ledger D) : Prop where
  opening : ∃ ix, tx.instructions[i]? = some ix ∧
    (Call.validateAndAuthorize args).Encodes l.vaultKey ix
  opens : exec (tx.env i) l (.validateAndAuthorize args) = .ok m
  between : Run tx.step m (List.range' (i + 1) (k - (i + 1))) n
  closing : ∃ ix, tx.instructions[k]? = some ix ∧
    (Call.finalizeSession fargs : Call D).Encodes n.vaultKey ix
  closes : exec (tx.env k) n (.finalizeSession fargs) = .ok l'
  session : fargs.session = sessionAddress D l.vaultKey args.agent args.tokenMint

variable {tx : Transaction} {i j k : ℕ} {args : ValidateAndAuthorizeArgs D}
  {fargs : FinalizeSessionArgs} {l m n l' s s' : Ledger D}

theorem not_validate_of_opening {ix : Instruction} (hix : tx.instructions[i]? = some ix)
    (hencodes : (Call.validateAndAuthorize args).Encodes l.vaultKey ix) (hj : i < j)
    {args' : ValidateAndAuthorizeArgs D} :
    exec (tx.env j) s (.validateAndAuthorize args') ≠ .ok s' := by
  intro h
  obtain ⟨a, vaultToken, pins, snapshots, tokens, hopened⟩ := validateAndAuthorize_ok h
  have hinfra := preScan_ok hopened.before i hj ix hix
  cases hinfra.symm.trans (not_infrastructure_of_encodes hencodes)

theorem step_session {ix : Instruction} (hix : tx.instructions[i]? = some ix)
    (hencodes : (Call.validateAndAuthorize args).Encodes l.vaultKey ix) (hj : i < j)
    (h : tx.step s j s') (address : Pubkey) :
    s'.vaultKey = s.vaultKey ∧
      (s'.sessions address = s.sessions address ∨ s'.sessions address = none) := by
  obtain ⟨y, -, hstep⟩ := h
  cases hstep with
  | elsewhere => exact ⟨rfl, .inl rfl⟩
  | foreign => exact ⟨rfl, .inl rfl⟩
  | @own _ _ c hc hexec =>
    refine ⟨exec_vaultKey hexec, ?_⟩
    by_cases hsession : c.isSession = false
    · exact .inl (congrFun (exec_sessions hexec hsession).1 address)
    cases c <;> first | exact absurd rfl hsession | skip
    case validateAndAuthorize => exact absurd hexec (not_validate_of_opening hix hencodes hj)
    case finalizeSession fargs' =>
      obtain ⟨a, closed, revoked, outcome, vault, tracker, hclosed⟩ := finalizeSession_ok hexec
      rw [hclosed.result]
      rcases eq_or_ne address fargs'.session with rfl | hne
      · exact .inr (Function.update_self ..)
      · exact .inl (Function.update_of_ne hne ..)

namespace Transaction.Holds

theorem vaultKey_sessions (h : tx.Holds i k args fargs l m n l') :
    n.vaultKey = l.vaultKey ∧
      (n.sessions fargs.session = m.sessions fargs.session ∨ n.sessions fargs.session = none) := by
  obtain ⟨ix, hix, hencodes⟩ := h.opening
  refine h.between.invariant_of (Q := fun j => i < j)
    (P := fun s => s.vaultKey = l.vaultKey ∧
      (s.sessions fargs.session = m.sessions fargs.session ∨ s.sessions fargs.session = none))
    ?_ ?_ ⟨exec_vaultKey h.opens, .inl rfl⟩
  · rintro s j s' hj ⟨hkey, hs⟩ hstep
    obtain ⟨hkey', hs'⟩ := step_session hix hencodes hj hstep fargs.session
    refine ⟨hkey'.trans hkey, ?_⟩
    rcases hs' with hs' | hs'
    · rcases hs with hs | hs
      · exact .inl (hs'.trans hs)
      · exact .inr (hs'.trans hs)
    · exact .inr hs'
  · intro j hj
    rw [List.mem_range'_1] at hj
    omega

theorem session_kept (h : tx.Holds i k args fargs l m n l') :
    n.sessions fargs.session = m.sessions fargs.session := by
  obtain ⟨a, s, revoked, outcome, vault, tracker, hclosed⟩ := finalizeSession_ok h.closes
  rcases h.vaultKey_sessions.2 with heq | hnone
  · exact heq
  · cases hnone.symm.trans hclosed.session

theorem ends (h : tx.Holds i k args fargs l m n l') :
    ∃ a vaultToken pins snapshots tokens a' revoked outcome vault tracker,
      SessionOpened (tx.env i) args l m a vaultToken pins snapshots tokens ∧
      SessionClosed (tx.env k) fargs n l' a'
        (newSession tx.clock l.vaultKey a.policy args pins snapshots) revoked outcome vault
        tracker := by
  obtain ⟨a, vaultToken, pins, snapshots, tokens, hopened⟩ := validateAndAuthorize_ok h.opens
  obtain ⟨a', s, revoked, outcome, vault, tracker, hclosed⟩ := finalizeSession_ok h.closes
  have hs : m.sessions fargs.session =
      some (newSession tx.clock l.vaultKey a.policy args pins snapshots) := by
    rw [hopened.result, h.session]
    exact Function.update_self ..
  obtain rfl := Option.some.inj ((hs.symm.trans h.session_kept.symm).trans hclosed.session)
  exact ⟨a, vaultToken, pins, snapshots, tokens, a', revoked, outcome, vault, tracker, hopened,
    hclosed⟩

end Transaction.Holds

end Held

end Sigil
