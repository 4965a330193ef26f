import IntentGuard.Contracts.World

/-!
# StakeVault and AgentRegistry

Stake custody and the two contracts' calls into it: `stake` deposits, the arbiter slashes.
-/

namespace IntentGuard

open Function

namespace StakeVault

variable {D : Deployment} (w : World D) (sender : Address)

def setWiring (agentRegistry challengeArbiter : Address) : Except Revert (World D) := do
  revertIf (sender ≠ D.deployer) .NotDeployer
  revertIf (w.vault.agentRegistry ≠ 0 ∨ w.vault.challengeArbiter ≠ 0) .AlreadyWired
  revertIf (agentRegistry = 0 ∨ challengeArbiter = 0) .ZeroAddress
  pure { w with vault := { w.vault with agentRegistry, challengeArbiter } }

def deposit (agentId : Bytes32) (src : Address) (amount : ℕ) : Except Revert (World D) := do
  revertIf (sender ≠ w.vault.agentRegistry) .OnlyAgentRegistry
  revertIf (amount = 0) .ZeroAmount
  let w ← w.safeTransferFrom D.stakeVault src D.stakeVault amount
  let newStake ← checkedAdd (w.vault.stake agentId) amount
  let vault := { w.vault with stake := update w.vault.stake agentId newStake }
  pure ({ w with vault }.emit [.Deposited agentId src amount newStake])

/-- Returns the amount paid. -/
def slash (agentId : Bytes32) (dst : Address) (amount : ℕ) : Except Revert (World D × ℕ) := do
  revertIf (sender ≠ w.vault.challengeArbiter) .OnlyChallengeArbiter
  revertIf (amount = 0) .ZeroAmount
  let current := w.vault.stake agentId
  revertIf (current = 0) .InsufficientStake
  let actual := if amount < current then amount else current
  let vault := { w.vault with stake := update w.vault.stake agentId (current - actual) }
  let w ← { w with vault }.safeTransfer D.stakeVault dst actual
  pure (w.emit [.Slashed agentId dst amount actual], actual)

def stakeOf (agentId : Bytes32) : ℕ := w.vault.stake agentId

end StakeVault

namespace AgentRegistry

variable {D : Deployment} (w : World D) (sender : Address)

def registerAgent (agentId : Bytes32) (operator : Address) (metadataURI : Bytes) :
    Except Revert (World D) := do
  revertIf (operator = 0) .ZeroAddress
  revertIf ((w.agents.agents agentId).registered = true) .AgentAlreadyRegistered
  let agents : State := ⟨update w.agents.agents agentId ⟨operator, metadataURI, true⟩⟩
  pure ({ w with agents }.emit [.AgentRegistered agentId operator metadataURI])

def stake (agentId : Bytes32) (amount : ℕ) : Except Revert (World D) := do
  let r := w.agents.agents agentId
  revertIf (r.registered = false) .AgentNotRegistered
  revertIf (sender ≠ r.operator) .NotAgentOperator
  revertIf (amount = 0) .ZeroStake
  let w ← StakeVault.deposit w D.agentRegistry agentId sender amount
  let newStake := StakeVault.stakeOf w agentId
  pure (w.emit [.AgentStaked agentId amount newStake])

def challengeWindow (agentId : Bytes32) : UInt64 :=
  if StakeVault.stakeOf w agentId ≥ GuardConstants.BRONZE_TIER_THRESHOLD then
    GuardConstants.BRONZE_CHALLENGE_WINDOW
  else 0

end AgentRegistry

end IntentGuard
