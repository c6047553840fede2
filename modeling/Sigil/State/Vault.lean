import Sigil.Library.FirstMatch
import Sigil.Model.Base

/-! # Vault

The vault account: its owner, its agents and its lifecycle status.
-/

namespace Sigil

def capabilityDisabled : UInt8 := 0

def capabilityObserver : UInt8 := 1

def capabilityOperator : UInt8 := 2

def fullCapability : UInt8 := 2

def maxAgentsPerVault : ℕ := 10

def ownerTypeEoa : UInt8 := 0

def ownerTypeMultisig : UInt8 := 1

inductive VaultStatus | active | frozen | closed
  deriving DecidableEq, Repr

inductive FreezeReason | manual | autoRevoke | emergencyBoard
  deriving DecidableEq, Repr

structure AgentEntry where
  pubkey : Pubkey
  capability : UInt8
  spendingLimitUsd : UInt64
  paused : Bool
  consecutiveFailures : UInt8
  deriving DecidableEq

structure AgentVault where
  owner : Pubkey
  vaultId : UInt64
  agents : List AgentEntry
  feeDestination : Pubkey
  status : VaultStatus
  totalTransactions : UInt64
  totalVolume : UInt64
  totalFeesCollected : UInt64
  totalDepositedUsd : UInt64
  totalWithdrawnUsd : UInt64
  totalFailedTransactions : UInt64
  activeSessions : UInt8
  observeOnly : Bool
  frozenAtTimestamp : ℤ
  freezeReason : FreezeReason
  ownerType : UInt8
  vaultAuthority : Pubkey
  deriving DecidableEq

namespace AgentVault

def isActive (v : AgentVault) : Bool := v.status = .active

def getAgent (v : AgentVault) (signer : Pubkey) : Option AgentEntry :=
  v.agents.find? fun a => a.pubkey = signer

theorem pubkey_of_getAgent {v : AgentVault} {signer : Pubkey} {e : AgentEntry}
    (h : v.getAgent signer = some e) : e.pubkey = signer := by
  unfold getAgent at h
  simpa using List.find?_some h

def isAgent (v : AgentVault) (signer : Pubkey) : Bool :=
  v.agents.any fun a => a.pubkey = signer

def hasCapability (v : AgentVault) (signer : Pubkey) (isSpending : Bool) : Bool :=
  match v.getAgent signer with
  | some a => if isSpending then capabilityOperator ≤ a.capability
      else capabilityObserver ≤ a.capability
  | none => false

def isAgentPaused (v : AgentVault) (signer : Pubkey) : Bool :=
  match v.getAgent signer with
  | some a => a.paused
  | none => false

/-- The vault can take on an agent with this key. -/
structure HasRoomFor (v : AgentVault) (agent : Pubkey) : Prop where
  fresh : v.isAgent agent = false
  room : v.agents.length < maxAgentsPerVault

/-- The key and the capability of a new agent are in order: the key is a real one and not the
owner's. -/
structure Eligible (v : AgentVault) (agent : Pubkey) (capability : UInt8) : Prop where
  named : agent ≠ Pubkey.default
  notOwner : agent ≠ v.owner
  capable : capability ≤ fullCapability

/-- Change the first entry of an agent, as a write through `iter_mut().find(..)` does. -/
def updateAgent (v : AgentVault) (agent : Pubkey) (f : AgentEntry → AgentEntry) : AgentVault :=
  { v with agents := v.agents.modify (v.agents.findIdx fun a => a.pubkey = agent) f }

end AgentVault

end Sigil
