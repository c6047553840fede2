import Sigil.State.Tracker
import Sigil.State.AgentSpendOverlay

/-! # Cap checks

The two checks that both spending paths make before they record a spend: the vault's
rolling cap and the agent's own limit.
-/

namespace Sigil

open Machine

/-- The prior figure and the amount together stay within the cap. -/
def checkCap (e : SigilError) (prior amount cap : UInt64) : Result Unit := do
  let total ← someOr .overflow (checkedAdd prior amount)
  ensure (total ≤ cap) e

theorem checkCap_ok_iff {e : SigilError} {prior amount cap : UInt64} {u : Unit} :
    checkCap e prior amount cap = .ok u ↔ prior.toNat + amount.toNat ≤ cap.toNat := by
  simp only [checkCap, someOr_seq_ok_iff, checkedAdd_eq_some, ensure_ok_iff]
  constructor
  · rintro ⟨total, htotal, hle⟩
    rwa [← htotal]
  · intro hle
    have hcap := cap.toNat_lt
    have htotal : (UInt64.ofNat (prior.toNat + amount.toNat)).toNat =
        prior.toNat + amount.toNat := UInt64.toNat_ofNat_of_lt' (by unfold UInt64.size; omega)
    exact ⟨_, htotal, UInt64.le_iff_toNat_le.mpr (by rwa [htotal])⟩

namespace SpendTracker

def checkDailyCap (t : SpendTracker) (clock : Clock) (usdAmount cap : UInt64) : Result Unit :=
  checkCap .spendingCapExceeded (t.getRolling24hUsd clock) usdAmount cap

end SpendTracker

namespace AgentSpendOverlay

/-- A limit of zero means that the agent has none. -/
def checkAgentLimit (o : AgentSpendOverlay) (clock : Clock) (i : Fin maxOverlayEntries)
    (usdAmount limit : UInt64) : Result Unit :=
  if 0 < limit then
    checkCap .agentSpendLimitExceeded (o.getAgentRolling24hUsd clock i) usdAmount limit
  else .ok ()

/-- Check the agent's limit and record the amount in its slot. -/
def chargeSlot (o : AgentSpendOverlay) (clock : Clock) (i : Fin maxOverlayEntries)
    (usdAmount limit : UInt64) : Result AgentSpendOverlay := do
  o.checkAgentLimit clock i usdAmount limit
  o.recordAgentContribution clock i usdAmount

/-- An agent without a slot may spend only when it has no limit. -/
def chargeAgent (o : AgentSpendOverlay) (clock : Clock) (agent : Pubkey)
    (usdAmount limit : UInt64) : Result AgentSpendOverlay :=
  match o.findAgentSlot agent with
  | some i => o.chargeSlot clock i usdAmount limit
  | none => if 0 < limit then fail .agentSlotNotFound else .ok o

end AgentSpendOverlay

end Sigil
