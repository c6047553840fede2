import Sigil.Lifecycle.FreezeGate
import Sigil.Session.AssertionPairs

/-! # Assertions of a frozen vault

A frozen vault refuses most of what would weaken it, but not the two instructions on its
post-execution assertions. They are not gated by the status, so the owner can close the stored list
and store another one before the vault is reactivated. Nothing else touches the assertions, and the
reactivation itself leaves them alone.
-/

namespace Sigil

open Guard Trace Machine

section InForce

variable {D : Type}

/-- The assertions that a session of the vault is held to. -/
def Ledger.assertionsInForce (l : Ledger D) : Option PostExecutionAssertions :=
  l.live.bind fun a => if a.policy.hasPostAssertions = 0 then none else l.postAssertions

/-- The mark of the policy says whether there is a stored list. -/
def Ledger.AssertionsMarked (l : Ledger D) : Prop :=
  l.postAssertions.isSome = l.live.any fun a => a.policy.hasPostAssertions ≠ 0

def Call.createsAssertions : Call D → Bool
  | createPostAssertions .. => true
  | _ => false

def Call.closesAssertions : Call D → Bool
  | closePostAssertions .. => true
  | _ => false

variable {l l' : Ledger D}

theorem Ledger.AssertionsMarked.inForce (h : l.AssertionsMarked) :
    l.assertionsInForce = l.postAssertions := by
  unfold Ledger.AssertionsMarked at h
  unfold Ledger.assertionsInForce
  cases hlive : l.live with
  | none =>
    rw [hlive] at h
    exact (Option.isSome_eq_false_iff.mp h |> Option.isNone_iff_eq_none.mp).symm
  | some a =>
    rw [hlive, Option.any_some] at h
    by_cases hmark : a.policy.hasPostAssertions = 0
    · have hnone : l.postAssertions.isSome = false := by simpa [hmark] using h
      rw [Option.bind_some, if_pos hmark, Option.isSome_eq_false_iff.mp hnone |>
        Option.isNone_iff_eq_none.mp]
    · rw [Option.bind_some, if_neg hmark]

variable [Host D] [DecidableEq D] {env : Env} {c : Call D} {a : VaultAccounts D}

theorem exec_assertionsMarked (h : exec env l c = .ok l') (hl : l.AssertionsMarked) :
    l'.AssertionsMarked := by
  unfold Ledger.AssertionsMarked at hl ⊢
  by_cases hwrites : Part.assertions ∉ c.writes ∧ Part.assertionList ∉ c.writes
  · have hlist : l'.postAssertions = l.postAssertions := exec_frame h hwrites.2
    have hmark : l'.live.map _ = l.live.map _ := exec_frame h hwrites.1
    have hmarked {m : Ledger D} : (m.live.any fun a => a.policy.hasPostAssertions ≠ 0) =
        (m.live.map fun a => a.policy.hasPostAssertions).any (· ≠ 0) := by
      cases m.live <;> rfl
    rw [hlist, hl, hmarked, hmarked, hmark]
  cases c <;> simp [Call.writes, Part.ofVault] at hwrites
  case initializeVault =>
    obtain ⟨hnew, -, -, -, -, -, rfl⟩ := initializeVault_ok h
    rw [hnew] at hl
    exact hl
  case closeVault =>
    obtain ⟨b, hb, -, hzero, -, -, rfl⟩ := closeVault_ok h
    rw [hb, Option.any_some, hzero] at hl
    exact hl
  case createPostAssertions =>
    obtain ⟨b, assertions, version, -, -, -, -, rfl⟩ := createPostAssertions_ok h
    rfl
  case closePostAssertions =>
    obtain ⟨b, version, -, -, -, -, rfl⟩ := closePostAssertions_ok h
    rfl

theorem run_assertionsMarked {l₀ : Ledger D} {as : List (Action D)} (h₀ : l₀.Genesis)
    (hreach : Run Step l₀ as l) : l.AssertionsMarked := by
  refine hreach.invariant (P := Ledger.AssertionsMarked) ?_ ?_
  · intro m x m' hm hstep
    cases hstep with
    | call h => exact exec_assertionsMarked h hm
    | foreign => exact hm
  · unfold Ledger.AssertionsMarked
    rw [h₀.live, h₀.postAssertions]
    rfl

end InForce

section Frozen

variable {D : Type} [Host D] [DecidableEq D] {env : Env} {c : Call D} {l l' m m' : Ledger D}
  {a : VaultAccounts D} {bs : List (Action D)} {x : Action D}

theorem closePostAssertions_removes (h : exec env l c = .ok l')
    (hc : c.closesAssertions = true) :
    l.postAssertions.isSome = true ∧ l'.postAssertions = none := by
  cases c <;> try cases hc
  case closePostAssertions =>
    simp only [exec, closePostAssertions, seq_ok_iff, mustExist_ok_iff, pure_ok_iff] at h
    obtain ⟨b, -, A, hA, -, -, -, -, -, -, sealed, -, rfl⟩ := h
    exact ⟨by rw [hA]; rfl, rfl⟩

theorem createPostAssertions_adds (h : exec env l c = .ok l')
    (hc : c.createsAssertions = true) :
    l.postAssertions = none ∧ l'.postAssertions.isSome = true := by
  cases c <;> try cases hc
  case createPostAssertions =>
    obtain ⟨b, assertions, version, -, -, hnone, -, rfl⟩ := createPostAssertions_ok h
    exact ⟨hnone, rfl⟩

theorem exec_frozen_assertionList (h : exec env l c = .ok l') (ha : l.live = some a)
    (hfrozen : a.vault.status = .frozen) (hends : c.endsFreeze = false)
    (hcreates : c.createsAssertions = false) (hcloses : c.closesAssertions = false) :
    l'.postAssertions = l.postAssertions := by
  have hc : c.worksFrozen = true := (exec_frozen h ha hfrozen).resolve_right (by simp [hends])
  have hspared : Part.assertionList ∉ c.writes := by
    cases c <;> first
      | cases hc; done
      | cases hcreates; done
      | cases hcloses; done
      | simp [Call.writes]
  exact exec_frame h hspared

theorem step_frozen_assertionList (h : Step l x l') (ha : l.live = some a)
    (hfrozen : a.vault.status = .frozen) (hends : ¬ x.Calls Call.endsFreeze) :
    x.Calls Call.closesAssertions ∧ l.postAssertions.isSome = true ∧ l'.postAssertions = none ∨
    ¬ x.Calls Call.closesAssertions ∧ (x.Calls Call.createsAssertions ∧ l.postAssertions = none ∧
        l'.postAssertions.isSome = true ∨
      ¬ x.Calls Call.createsAssertions ∧ l'.postAssertions = l.postAssertions) := by
  cases h with
  | foreign => exact .inr ⟨id, .inr ⟨id, rfl⟩⟩
  | @call env c _ _ hexec =>
    cases hcloses : c.closesAssertions with
    | true => exact .inl ⟨hcloses, closePostAssertions_removes hexec hcloses⟩
    | false =>
      refine .inr ⟨Bool.eq_false_iff.mp hcloses, ?_⟩
      cases hcreates : c.createsAssertions with
      | true => exact .inl ⟨hcreates, createPostAssertions_adds hexec hcreates⟩
      | false =>
        exact .inr ⟨Bool.eq_false_iff.mp hcreates, exec_frozen_assertionList hexec ha hfrozen
          (Bool.eq_false_iff.mpr hends) hcreates hcloses⟩

theorem reactivateVault_assertionsInForce {owner : Pubkey} {remaining : List AccountMeta}
    {newAgent : Option Pubkey} {newCapability : Option UInt8} (hm : m.AssertionsMarked)
    (h : exec env m (.reactivateVault owner remaining newAgent newCapability) = .ok m') :
    m'.assertionsInForce = m.assertionsInForce := by
  have hlist : m'.postAssertions = m.postAssertions :=
    exec_frame (p := .assertionList) h (by simp [Call.writes])
  rw [hm.inForce, (exec_assertionsMarked h hm).inForce, hlist]

/-- A reachable vault is frozen and goes on without being reactivated. -/
structure FrozenEpisode (l : Ledger D) (bs : List (Action D)) (m : Ledger D) : Prop where
  reachable : ∃ l₀ as, l₀.Genesis ∧ Run Step l₀ as l
  frozen : ∃ a, l.live = some a ∧ a.vault.status = .frozen
  run : Run Step l bs m
  inside : ∀ x ∈ bs, ¬ x.Calls Call.endsFreeze

namespace FrozenEpisode

variable {front back : List (Action D)} {n n' : Ledger D}

theorem before (h : FrozenEpisode l bs m) (hsplit : bs = front ++ back)
    (hfront : Run Step l front n) : FrozenEpisode l front n :=
  ⟨h.reachable, h.frozen, hfront, fun x hx => h.inside x (hsplit ▸ List.mem_append_left _ hx)⟩

theorem still (h : FrozenEpisode l bs m) : ∃ b, m.live = some b ∧ b.vault.status = .frozen := by
  obtain ⟨a, ha, hfrozen⟩ := h.frozen
  obtain ⟨b, hb, hshut⟩ := run_shut h.run ha hfrozen h.inside
  exact ⟨b, hb, hshut.frozen⟩

theorem marked (h : FrozenEpisode l bs m) : m.AssertionsMarked := by
  obtain ⟨l₀, as, h₀, hreach⟩ := h.reachable
  exact run_assertionsMarked h₀ (hreach.append h.run)

theorem step (h : FrozenEpisode l bs m) (hsplit : bs = front ++ x :: back)
    (hfront : Run Step l front n) (hstep : Step n x n') :
    x.Calls Call.closesAssertions ∧ n.assertionsInForce.isSome = true ∧
      n'.assertionsInForce = none ∨
    ¬ x.Calls Call.closesAssertions ∧ (x.Calls Call.createsAssertions ∧
        n.assertionsInForce = none ∧ n'.assertionsInForce.isSome = true ∨
      ¬ x.Calls Call.createsAssertions ∧ n'.assertionsInForce = n.assertionsInForce) := by
  have hn := h.before hsplit hfront
  have hn' := h.before (hsplit.trans (List.append_cons _ _ _)) (hfront.snoc hstep)
  obtain ⟨b, hb, hfrozen⟩ := hn.still
  rw [hn.marked.inForce, hn'.marked.inForce]
  exact step_frozen_assertionList hstep hb hfrozen (h.inside x (by simp [hsplit]))

/-- The assertions stay in force while none are closed and none are stored where there were
none. -/
theorem assertionsInForce_eq (h : FrozenEpisode l bs m)
    (hcloses : ∀ x ∈ bs, ¬ x.Calls Call.closesAssertions)
    (hcreates : ∀ x ∈ bs, x.Calls Call.createsAssertions → l.assertionsInForce.isSome = true) :
    m.assertionsInForce = l.assertionsInForce := by
  -- Along the run: no step of it closes a list, and one that stores a list finds one in force.
  refine h.run.induct (P := fun front n => (∃ back, bs = front ++ back) →
    n.assertionsInForce = l.assertionsInForce) (fun _ => rfl) ?_ ⟨[], (List.append_nil bs).symm⟩
  rintro front n x n' hfront ih hstep ⟨back, hsplit⟩
  rw [← List.append_cons] at hsplit
  have hx : x ∈ bs := by simp [hsplit]
  have hprior := ih ⟨_, hsplit⟩
  rcases h.step hsplit hfront hstep with ⟨hcalls, -⟩ | ⟨-, ⟨hcalls, hnone, -⟩ | ⟨-, hsame⟩⟩
  · exact absurd hcalls (hcloses x hx)
  · have hsome := hcreates x hx hcalls
    rw [← hprior, hnone] at hsome
    cases hsome
  · exact hsame.trans hprior

end FrozenEpisode

/-- While a vault is frozen, no list is taken out of force exactly when none is closed, and the
list in force is the same throughout exactly when in addition none is stored. -/
theorem frozen_assertions_kept_iff (h : FrozenEpisode l bs m) {owner : Pubkey}
    {remaining : List AccountMeta} {newAgent : Option Pubkey} {newCapability : Option UInt8}
    (hthaw : exec env m (.reactivateVault owner remaining newAgent newCapability) = .ok m') :
    ((∀ front x back n n', bs = front ++ x :: back → Run Step l front n → Step n x n' →
      Run Step n' back m → ∀ A ∈ n.assertionsInForce, n'.assertionsInForce = some A) ↔
        ∀ x ∈ bs, ¬ x.Calls Call.closesAssertions) ∧
    ((∀ x ∈ bs, ¬ x.Calls Call.closesAssertions) →
      ∀ A ∈ l.assertionsInForce, m'.assertionsInForce = some A) ∧
    ((∀ front back n, bs = front ++ back → Run Step l front n → Run Step n back m →
      n.assertionsInForce = l.assertionsInForce) ↔
        ∀ x ∈ bs, ¬ x.Calls Call.closesAssertions ∧ ¬ x.Calls Call.createsAssertions) ∧
    m'.assertionsInForce = m.assertionsInForce := by
  have hend := reactivateVault_assertionsInForce h.marked hthaw
  refine ⟨⟨fun hkept x hx hcalls => ?_, fun hcloses => ?_⟩, fun hcloses A hA => ?_,
    ⟨fun hsame x hx => ?_, fun hnone => ?_⟩, hend⟩
  · obtain ⟨front, back, n, n', hsplit, hfront, hstep, hback⟩ := h.run.exists_split hx
    rcases h.step hsplit hfront hstep with ⟨-, hsome, hnone⟩ | ⟨hnot, -⟩
    · obtain ⟨A, hA⟩ := Option.isSome_iff_exists.mp hsome
      cases hnone.symm.trans (hkept front x back n n' hsplit hfront hstep hback A hA)
    · exact hnot hcalls
  · intro front x back n n' hsplit hfront hstep _ A hA
    rcases h.step hsplit hfront hstep with ⟨hcalls, -⟩ | ⟨-, ⟨-, hnone, -⟩ | ⟨-, hsame⟩⟩
    · exact absurd hcalls (hcloses x (by simp [hsplit]))
    · cases hnone.symm.trans hA
    · exact hsame.trans hA
  · have hA : l.assertionsInForce = some A := hA
    rw [hend, h.assertionsInForce_eq hcloses fun _ _ _ => by rw [hA]; rfl, hA]
  · obtain ⟨front, back, n, n', hsplit, hfront, hstep, hback⟩ := h.run.exists_split hx
    have hn := hsame front (x :: back) n hsplit hfront ((Run.single hstep).append hback)
    have hn' := hsame (front ++ [x]) back n' (hsplit.trans (List.append_cons _ _ _))
      (hfront.snoc hstep) hback
    rcases h.step hsplit hfront hstep
      with ⟨-, hsome, hnone⟩ | ⟨hcloses, ⟨-, hnone, hsome⟩ | ⟨hcreates, -⟩⟩
    · rw [hn, ← hn', hnone] at hsome
      cases hsome
    · rw [hn', ← hn, hnone] at hsome
      cases hsome
    · exact ⟨hcloses, hcreates⟩
  · intro front back n hsplit hfront _
    have hmem {x : Action D} (hx : x ∈ front) : x ∈ bs := hsplit ▸ List.mem_append_left _ hx
    exact (h.before hsplit hfront).assertionsInForce_eq (fun x hx => (hnone x (hmem hx)).1)
      fun x hx hcalls => absurd hcalls (hnone x (hmem hx)).2

end Frozen

section Sample

/-- The digest that the owner signs for a change of the mark. -/
def digestWithMark (l : Ledger Preimage) (mark : UInt8) : Preimage :=
  l.live.elim Host.zeroDigest fun a => liveDigest a.vault (a.markAssertions mark).policy

/-- At most `bound` units may leave an account. -/
def decreaseGuard (bound : UInt64) : PostAssertionEntry :=
  ⟨sampleKey 20, 64, 8, 0, SelfDelimiting.leBytes 8 bound.toNat, 1, List.Vector.replicate 8 0, 0⟩

/-- The sample vault with a guard of 45 units. -/
def guardedLedger : Ledger Preimage :=
  after (sampleEnv 1500 7) sampleLedger
    (.createPostAssertions (sampleKey 1) [decreaseGuard 45] (digestWithMark sampleLedger 1))

def frozenGuarded : Ledger Preimage :=
  after (sampleEnv 2000 8) guardedLedger (.freezeVault (sampleKey 1) [])

def strippedLedger : Ledger Preimage :=
  after (sampleEnv 2100 9) frozenGuarded
    (.closePostAssertions (sampleKey 1) [] (digestWithMark frozenGuarded 0))

/-- The frozen vault with a guard of a thousand units in place of the first. -/
def weakenedLedger : Ledger Preimage :=
  after (sampleEnv 2110 9) strippedLedger
    (.createPostAssertions (sampleKey 1) [decreaseGuard 1000] (digestWithMark strippedLedger 1))

def thawedLedger (l : Ledger Preimage) : Ledger Preimage := after (sampleEnv 2400 10) l thawCall

/-- What the owner does to the guard while the vault is frozen. -/
def weakening : List (Action Preimage) :=
  [.call (sampleEnv 2100 9)
      (.closePostAssertions (sampleKey 1) [] (digestWithMark frozenGuarded 0)),
    .call (sampleEnv 2110 9)
      (.createPostAssertions (sampleKey 1) [decreaseGuard 1000] (digestWithMark strippedLedger 1))]

/-- The frozen vault once its owner has told its agents to observe only. -/
def quietLedger : Ledger Preimage :=
  after (sampleEnv 2100 9) frozenGuarded (.setObserveOnly (sampleKey 1) [] true)

def quietly : List (Action Preimage) :=
  [.call (sampleEnv 2100 9) (.setObserveOnly (sampleKey 1) [] true), .foreign]

def GuardedBy (l : Ledger Preimage) (bound : UInt64) : Prop :=
  l.assertionsInForce = some ⟨l.vaultKey, [(decreaseGuard bound).stored]⟩

instance (l : Ledger Preimage) (bound : UInt64) : Decidable (GuardedBy l bound) :=
  inferInstanceAs (Decidable (_ = _))

theorem frozenEpisode_nil : FrozenEpisode frozenGuarded [] frozenGuarded where
  reachable := ⟨emptyLedger, _, genesis_emptyLedger, ((Run.single step_sampleInitialize).snoc
    (.after (by decide +kernel))).snoc (.after (by decide +kernel))⟩
  frozen := by
    have hstatus : frozenGuarded.live.any (fun a => a.vault.status = .frozen) = true := by
      decide +kernel
    obtain ⟨a, ha, hfrozen⟩ := (Option.any_eq_true _ _).mp hstatus
    exact ⟨a, ha, of_decide_eq_true hfrozen⟩
  run := .nil _
  inside := by simp

/-- The guard is replaced by a weaker one while the vault is frozen. -/
theorem frozen_guard_replaced :
    FrozenEpisode frozenGuarded weakening weakenedLedger ∧ GuardedBy frozenGuarded 45 ∧
      exec (sampleEnv 2400 10) weakenedLedger thawCall = .ok (thawedLedger weakenedLedger) ∧
      GuardedBy (thawedLedger weakenedLedger) 1000 := by
  refine ⟨⟨frozenEpisode_nil.reachable, frozenEpisode_nil.frozen,
    (Run.single (.after (by decide +kernel))).snoc (.after (by decide +kernel)), ?_⟩,
    by decide +kernel, exec_after (by decide +kernel), by decide +kernel⟩
  simp [weakening, Action.Calls, Call.endsFreeze]

theorem frozenEpisode_quietly : FrozenEpisode frozenGuarded quietly quietLedger where
  reachable := frozenEpisode_nil.reachable
  frozen := frozenEpisode_nil.frozen
  run := (Run.single (.after (by decide +kernel))).snoc (.foreign _ _ _)
  inside := by simp [quietly, Action.Calls, Call.endsFreeze]

theorem frozen_assertions_kept_iff_quiet :
    FrozenEpisode frozenGuarded quietly quietLedger ∧ GuardedBy frozenGuarded 45 ∧
      GuardedBy (thawedLedger quietLedger) 45 := by
  have hguarded : GuardedBy frozenGuarded 45 := by decide +kernel
  have hthaw : exec (sampleEnv 2400 10) quietLedger thawCall =
      .ok (thawedLedger quietLedger) := exec_after (by decide +kernel)
  have hquiet : ∀ x ∈ quietly, ¬ x.Calls Call.closesAssertions := by
    simp [quietly, Action.Calls, Call.closesAssertions]
  have hkey : quietLedger.vaultKey = frozenGuarded.vaultKey := by decide +kernel
  refine ⟨frozenEpisode_quietly, hguarded, ?_⟩
  unfold GuardedBy
  rw [(frozen_assertions_kept_iff frozenEpisode_quietly hthaw).2.1 hquiet _ hguarded,
    exec_vaultKey hthaw, hkey]

end Sample

end Sigil
