import Sigil.Cosign.PendingUpdate

/-! # Approvals as messages

A cosigner signs an approval at one time and anyone may deliver it at a later one. The message does
not say what it approves, so it counts for whatever update is pending when it arrives: that is the
update that was reviewed as long as nothing was queued in between.
-/

namespace Sigil

open Trace

/-- An approval that was signed: by whom, with which update pending at that time, and after how
many queued updates. -/
structure ApprovalMessage (D : Type) where
  cosigner : Pubkey
  reviewed : Option (PolicyUpdate D)
  round : ℕ

/-- A ledger with the approvals that are signed but not delivered, each of which counts once, and
the approval that was delivered last. -/
structure World (D : Type) where
  ledger : Ledger D
  queued : ℕ
  inFlight : ℕ → Option (ApprovalMessage D)
  consumed : Option (ApprovalMessage D)

inductive Event (D : Type)
  | sign (id : ℕ) (cosigner : Pubkey)
  | act (x : Action D)
  | deliver (env : Env) (id : ℕ)

def World.newMessage {D : Type} (w : World D) (cosigner : Pubkey) : ApprovalMessage D where
  cosigner := cosigner
  reviewed := w.ledger.pendingPolicy.map PendingPolicyUpdate.update
  round := w.queued

section Steps

variable {D : Type} [Host D] [DecidableEq D]

/-- One event. Every instruction but the approval may be taken at any time by whoever signs it. -/
inductive WorldStep : World D → Event D → World D → Prop
  | sign {w : World D} {id : ℕ} {cosigner : Pubkey} (hfree : w.inFlight id = none) :
      WorldStep w (.sign id cosigner)
        { w with inFlight := Function.update w.inFlight id (some (w.newMessage cosigner)) }
  | queue {w : World D} {x : Action D} {l' : Ledger D} (h : Step w.ledger x l')
      (hx : x.Calls Call.isQueue) :
      WorldStep w (.act x) { w with ledger := l', queued := w.queued + 1 }
  | other {w : World D} {x : Action D} {l' : Ledger D} (h : Step w.ledger x l')
      (hx : ¬ x.Calls Call.isQueue ∧ ¬ x.Calls Call.isApprove) :
      WorldStep w (.act x) { w with ledger := l' }
  | deliver {w : World D} {env : Env} {id : ℕ} {m : ApprovalMessage D} {l' : Ledger D}
      (hm : w.inFlight id = some m)
      (h : exec env w.ledger (.approvePendingPolicy m.cosigner) = .ok l') :
      WorldStep w (.deliver env id)
        { w with
          ledger := l'
          inFlight := Function.update w.inFlight id none
          consumed := some m }

/-- An approval is delivered before anything else is queued. -/
def Prompt (w : World D) : Event D → Prop
  | .deliver _ id => ∀ m ∈ w.inFlight id, m.round = w.queued
  | _ => True

def PromptStep (w : World D) (e : Event D) (w' : World D) : Prop := WorldStep w e w' ∧ Prompt w e

/-- Messages of the current round know what is pending, and so does the consumed one once the
pending update is approved. -/
structure World.Reviewed (w : World D) : Prop where
  round : ∀ id, ∀ m ∈ w.inFlight id, m.round ≤ w.queued
  current : ∀ id, ∀ m ∈ w.inFlight id, m.round = w.queued →
    ∀ p ∈ w.ledger.pendingPolicy, m.reviewed = some p.update
  approved : ∀ p ∈ w.ledger.pendingPolicy, p.cosignApproved = true →
    ∃ m, w.consumed = some m ∧ m.round = w.queued ∧ m.reviewed = some p.update

variable {w w' w₀ : World D} {e : Event D} {es : List (Event D)} {l l' : Ledger D} {x : Action D}

theorem Step.pending_eq_or_none (h : Step l x l')
    (hx : ¬ x.Calls Call.isQueue ∧ ¬ x.Calls Call.isApprove) :
    l'.pendingPolicy = none ∨ l'.pendingPolicy = l.pendingPolicy := by
  cases h with
  | foreign => exact .inr rfl
  | @call env c _ _ hexec =>
    by_cases hc : c.isRoutine = true
    · obtain ⟨b, b', -, -, -, hpending⟩ := exec_routine hexec hc
      exact .inr hpending
    · cases c <;> try exact absurd rfl hc
      case initializeVault =>
        obtain ⟨-, -, -, -, -, -, rfl⟩ := initializeVault_ok hexec
        exact .inr rfl
      case closeVault =>
        obtain ⟨b, -, -, -, -, -, rfl⟩ := closeVault_ok hexec
        exact ite_eq_or_eq _ none l.pendingPolicy
      case queuePolicyUpdate => exact absurd rfl hx.1
      case approvePendingPolicy => exact absurd rfl hx.2
      case cancelPendingPolicy =>
        obtain ⟨b, -, -, rfl⟩ := cancelPendingPolicy_ok hexec
        exact .inl rfl
      case applyPendingPolicy =>
        obtain ⟨b, -, -, -, -, -, -, -, -, -, -, -, -, -, -, rfl⟩ := applyPendingPolicy_ok hexec
        exact .inl rfl
      case acceptOwnershipTransfer =>
        obtain ⟨b, -, -, -, -, -, -, rfl⟩ := acceptOwnershipTransfer_ok hexec
        exact .inr rfl

theorem World.Reviewed.step (h : w.Reviewed) (hstep : PromptStep w e w') : w'.Reviewed := by
  obtain ⟨hstep, hprompt⟩ := hstep
  cases hstep with
  | @sign id cosigner hfree =>
    have hmessage : ∀ id', ∀ m ∈ Function.update w.inFlight id (some (w.newMessage cosigner)) id',
        m = w.newMessage cosigner ∨ m ∈ w.inFlight id' := by
      intro id' m hm
      by_cases hid : id' = id
      · subst hid
        rw [Function.update_self] at hm
        exact .inl (Option.some.inj hm).symm
      · rw [Function.update_of_ne hid] at hm
        exact .inr hm
    refine ⟨fun id' m hm => ?_, fun id' m hm hround p hp => ?_, h.approved⟩
    · rcases hmessage id' m hm with rfl | hold
      · exact le_rfl
      · exact h.round id' m hold
    · rcases hmessage id' m hm with rfl | hold
      · exact congrArg (Option.map PendingPolicyUpdate.update) hp
      · exact h.current id' m hold hround p hp
  | @queue x l' hstep hx =>
    refine ⟨fun id m hm => (h.round id m hm).trans (Nat.le_succ _), fun id m hm hround => ?_, ?_⟩
    · exact absurd (hround ▸ h.round id m hm) (Nat.not_succ_le_self _)
    · intro p hp happroved
      cases hstep with
      | foreign => exact absurd hx nofun
      | @call env c _ _ hexec =>
        cases c <;> try exact absurd hx Bool.false_ne_true
        obtain ⟨a, bound, -, -, -, -, -, -, rfl⟩ := queuePolicyUpdate_ok hexec
        cases hp
        exact absurd happroved Bool.false_ne_true
  | @other x l' hstep hx =>
    have hkept : ∀ p ∈ l'.pendingPolicy, p ∈ w.ledger.pendingPolicy := by
      intro p hp
      rcases hstep.pending_eq_or_none hx with hnone | hsame
      · exact absurd (hnone.symm.trans hp) nofun
      · exact hsame ▸ hp
    exact ⟨h.round, fun id m hm hround p hp => h.current id m hm hround p (hkept p hp),
      fun p hp => h.approved p (hkept p hp)⟩
  | @deliver env id m l' hm hexec =>
    have hround : m.round = w.queued := hprompt m hm
    have hother : ∀ id', ∀ m' ∈ Function.update w.inFlight id none id', m' ∈ w.inFlight id' := by
      intro id' m' hm'
      by_cases hid : id' = id
      · rw [hid, Function.update_self] at hm'
        exact absurd hm' nofun
      · rwa [Function.update_of_ne hid] at hm'
    obtain ⟨a, stored, -, hstored, -, -, -, -, -, rfl⟩ := approvePendingPolicy_ok hexec
    refine ⟨fun id' m' hm' => h.round id' m' (hother id' m' hm'), ?_, ?_⟩
    · intro id' m' hm' hround' p hp
      cases hp
      exact h.current id' m' (hother id' m' hm') hround' stored hstored
    · intro p hp _
      cases hp
      exact ⟨m, rfl, hround, h.current id m hm hround stored hstored⟩

theorem PromptStep.queue {n : ℕ} {inFlight : ℕ → Option (ApprovalMessage D)}
    {consumed : Option (ApprovalMessage D)} (h : Step l x l') (hx : x.Calls Call.isQueue) :
    PromptStep ⟨l, n, inFlight, consumed⟩ (.act x) ⟨l', n + 1, inFlight, consumed⟩ :=
  ⟨.queue h hx, trivial⟩

theorem PromptStep.other {n : ℕ} {inFlight : ℕ → Option (ApprovalMessage D)}
    {consumed : Option (ApprovalMessage D)} (h : Step l x l')
    (hx : ¬ x.Calls Call.isQueue ∧ ¬ x.Calls Call.isApprove) :
    PromptStep ⟨l, n, inFlight, consumed⟩ (.act x) ⟨l', n, inFlight, consumed⟩ :=
  ⟨.other h hx, trivial⟩

/-- As long as every approval is delivered before another update is queued, an elevated update that
is applied is the one its cosigner saw when it signed the approval. -/
theorem apply_consumes_reviewed_update (h₀ : w₀.ledger.pendingPolicy = none)
    (hnone : ∀ id, w₀.inFlight id = none) (hrun : Run PromptStep w₀ es w) {env : Env}
    {owner : Pubkey} (happly : exec env w.ledger (.applyPendingPolicy owner) = .ok l')
    {pending : PendingPolicyUpdate D} (hpending : w.ledger.pendingPolicy = some pending)
    (helevated : pending.isElevated) :
    ∃ m a applied, w.consumed = some m ∧ m.reviewed = some pending.update ∧
      m.round = w.queued ∧ w.ledger.live = some a ∧ l'.live = some applied ∧
      applied.policy.core = (a.policy.merge pending.update).core := by
  have hstart : w₀.Reviewed := by
    refine ⟨fun id m hm => ?_, fun id m hm => ?_, fun p hp => ?_⟩
    · exact absurd ((hnone id).symm.trans hm) nofun
    · exact absurd ((hnone id).symm.trans hm) nofun
    · exact absurd (h₀.symm.trans hp) nofun
  have hreviewed : w.Reviewed := hrun.invariant (fun _ _ _ hm hstep => hm.step hstep) hstart
  obtain ⟨a, stored, merged, applied, version, hlive, -, hstored, -, hcosign, hmerge, -, -, rfl, -,
    rfl⟩ := applyPendingPolicy_ok happly
  cases hpending.symm.trans hstored
  obtain ⟨happroved, -⟩ := hcosign fun hno => helevated hno.2
  obtain ⟨m, hm, hround, hseen⟩ := hreviewed.approved pending hpending happroved
  obtain ⟨graylist, -, rfl, -⟩ := applyUpdate_ok hmerge
  exact ⟨m, a, _, hm, hseen, hround, hlive, rfl, rfl⟩

end Steps

section Sample

theorem queue_stores_update {D : Type} [Host D] [DecidableEq D] {env : Env} {l l' : Ledger D}
    {owner session : Pubkey} {u : PolicyUpdate D} {digest : D}
    (h : exec env l (.queuePolicyUpdate owner u session digest) = .ok l') :
    l'.pendingPolicy.map PendingPolicyUpdate.update = some u := by
  obtain ⟨a, bound, -, -, -, -, -, -, rfl⟩ := queuePolicyUpdate_ok h
  rfl

def emptyWorld : World Preimage := ⟨emptyLedger, 0, fun _ => none, none⟩

def raisingWorld : World Preimage := ⟨raisingLedger 2000, 2, fun _ => none, none⟩

theorem run_raisingWorld : ∃ es, Run PromptStep emptyWorld es raisingWorld := by
  have hinit : PromptStep emptyWorld _ _ := .other step_sampleInitialize ⟨nofun, nofun⟩
  exact ⟨_, (((Run.single hinit).snoc (.queue step_enablingLedger (calls_sampleQueue ..))).snoc
    (.other step_cosignedLedger ⟨nofun, nofun⟩)).snoc
      (.queue step_raisingLedger (calls_sampleQueue ..))⟩

/-- The sample cosigner has signed an approval while the update to 2000 was pending. -/
def signedMessages : ℕ → Option (ApprovalMessage Preimage) :=
  Function.update (fun _ => none) 0 (some (raisingWorld.newMessage (sampleKey 5)))

theorem run_signedWorld :
    ∃ es, Run PromptStep emptyWorld es ⟨raisingLedger 2000, 2, signedMessages, none⟩ := by
  obtain ⟨es, hrun⟩ := run_raisingWorld
  have hsign : PromptStep raisingWorld (.sign 0 (sampleKey 5))
      ⟨raisingLedger 2000, 2, signedMessages, none⟩ := ⟨.sign rfl, trivial⟩
  exact ⟨_, hrun.snoc hsign⟩

theorem step_deliver {env : Env} {l l' : Ledger Preimage} {n : ℕ}
    (h : exec env l (.approvePendingPolicy (sampleKey 5)) = .ok l') :
    WorldStep ⟨l, n, signedMessages, none⟩ (.deliver env 0)
      ⟨l', n, Function.update signedMessages 0 none,
        some (raisingWorld.newMessage (sampleKey 5))⟩ :=
  .deliver (m := raisingWorld.newMessage (sampleKey 5)) rfl h

theorem reviewed_signedMessage :
    (raisingWorld.newMessage (sampleKey 5)).reviewed = some (raiseCap 2000) := by
  cases step_raisingLedger with
  | call h => exact queue_stores_update h

theorem apply_consumes_reviewed_update_raiseCap :
    ∃ (w : World Preimage) (m : ApprovalMessage Preimage) (l' : Ledger Preimage),
      exec (envAt 4800 201 (by decide)) w.ledger (.applyPendingPolicy (sampleKey 1)) = .ok l' ∧
      w.consumed = some m ∧ m.reviewed = w.ledger.pendingPolicy.map PendingPolicyUpdate.update := by
  have happrove : exec (envAt 4800 200 (by decide)) (raisingLedger 2000)
      (.approvePendingPolicy (sampleKey 5)) = .ok (after (envAt 4800 200 (by decide))
        (raisingLedger 2000) (.approvePendingPolicy (sampleKey 5))) :=
          exec_after (by decide +kernel)
  have happly : exec (envAt 4800 201 (by decide)) (after (envAt 4800 200 (by decide))
      (raisingLedger 2000) (.approvePendingPolicy (sampleKey 5)))
      (.applyPendingPolicy (sampleKey 1)) = .ok _ := exec_after (by decide +kernel)
  obtain ⟨es, hrun⟩ := run_signedWorld
  have hprompt : ∀ m ∈ signedMessages 0, m.round = 2 := fun m hm => Option.some.inj hm ▸ rfl
  obtain ⟨a, stored, -, -, helevated, -, -, -, -, hl'⟩ := approvePendingPolicy_ok happrove
  have hpending := congrArg Ledger.pendingPolicy hl'
  obtain ⟨m, -, -, hm, hseen, -⟩ := apply_consumes_reviewed_update rfl (fun _ => rfl)
    (hrun.snoc ⟨step_deliver happrove, hprompt⟩) happly hpending helevated
  exact ⟨_, m, _, happly, hm, hseen.trans (congrArg (Option.map _) hpending).symm⟩

/-- The owner cancels the update that was reviewed. -/
def cancelledLedger : Ledger Preimage :=
  after (sampleEnv 3100 120) (raisingLedger 2000) (.cancelPendingPolicy (sampleKey 1))

theorem step_cancelledLedger : Step (raisingLedger 2000) (.call (envAt 3100 120 (by decide))
    (.cancelPendingPolicy (sampleKey 1))) cancelledLedger :=
  .after (by decide +kernel)

def swappedLedger : Ledger Preimage :=
  after (sampleEnv 3200 130) cancelledLedger
    (sampleQueue cancelledLedger (raiseCap 9000) (sampleKey 5))

theorem exec_swappedLedger : exec (envAt 3200 130 (by decide)) cancelledLedger
    (sampleQueue cancelledLedger (raiseCap 9000) (sampleKey 5)) = .ok swappedLedger :=
  exec_after (by decide +kernel)

attribute [irreducible] cancelledLedger swappedLedger

/-- The approval that was signed for the update to 2000 counts for the update to 9000. -/
theorem approval_counts_for_swapped_update :
    ∃ (es : List (Event Preimage)) (w : World Preimage) (m : ApprovalMessage Preimage)
      (pending : PendingPolicyUpdate Preimage) (l' : Ledger Preimage),
      Run WorldStep emptyWorld es w ∧
      exec (envAt 5000 201 (by decide)) w.ledger (.applyPendingPolicy (sampleKey 1)) = .ok l' ∧
      w.ledger.pendingPolicy = some pending ∧ pending.isElevated ∧ w.consumed = some m ∧
      m.reviewed = some (raiseCap 2000) ∧ pending.update = raiseCap 9000 ∧
      m.reviewed ≠ some pending.update := by
  have happrove : exec (envAt 5000 200 (by decide)) swappedLedger
      (.approvePendingPolicy (sampleKey 5)) = .ok (after (envAt 5000 200 (by decide))
        swappedLedger (.approvePendingPolicy (sampleKey 5))) := exec_after (by decide +kernel)
  have happly : exec (envAt 5000 201 (by decide)) (after (envAt 5000 200 (by decide))
      swappedLedger (.approvePendingPolicy (sampleKey 5)))
      (.applyPendingPolicy (sampleKey 1)) = .ok _ := exec_after (by decide +kernel)
  obtain ⟨es, hsigned⟩ := run_signedWorld
  have hswapped := (hsigned.snoc (.other step_cancelledLedger ⟨nofun, nofun⟩)).snoc
    (.queue (.call exec_swappedLedger) (calls_sampleQueue ..))
  have hrun := (hswapped.mono fun _ _ _ h => h.1).snoc (step_deliver happrove)
  obtain ⟨a, stored, -, hstored, helevated, -, -, -, -, hl'⟩ := approvePendingPolicy_ok happrove
  have hupdate : stored.update = raiseCap 9000 :=
    Option.some.inj ((congrArg _ hstored).symm.trans (queue_stores_update exec_swappedLedger))
  refine ⟨_, _, _, _, _, hrun, happly, congrArg Ledger.pendingPolicy hl', helevated, rfl,
    reviewed_signedMessage, hupdate, ?_⟩
  rw [reviewed_signedMessage, hupdate]
  intro heq
  have hcap := congrArg PolicyUpdate.dailySpendingCapUsd (Option.some.inj heq)
  exact absurd hcap (by decide)

end Sample

end Sigil
