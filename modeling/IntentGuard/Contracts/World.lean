import IntentGuard.Contracts.Types
import IntentGuard.Lib.Erc20

/-!
# Deployment and state

`Deployment` is what the constructors fix: the USDC token, the addresses of the five contracts (all
different, none zero), the chain id, and the hash and signature recovery of the platform. `World` is
the storage of all contracts together with the token's, the block timestamp and the logs emitted so
far.

A mapping is a total function whose default is the zero value, as in storage. The reentrancy guards
are left out: the token has no hooks, so no call of one of these contracts is entered from within
another.
-/

namespace IntentGuard

structure Deployment where
  token : Erc20 Address
  keccak : Keccak
  /-- `ECDSA.tryRecover`: `none` when it reports an error. -/
  tryRecover : Bytes32 → Bytes → Option Address
  chainid : ℕ
  USDC : Address
  intentRegistry : Address
  stakeVault : Address
  guardedExecutor : Address
  agentRegistry : Address
  challengeArbiter : Address
  deployer : Address
  nodup : [USDC, intentRegistry, stakeVault, guardedExecutor, agentRegistry, challengeArbiter].Nodup
  ne_zero : ∀ c ∈ [USDC, intentRegistry, stakeVault, guardedExecutor, agentRegistry,
    challengeArbiter], c ≠ 0

/-- The addresses with code of this system behind them: none of them ever sends a transaction. -/
def Deployment.contracts (D : Deployment) : List Address :=
  [D.USDC, D.intentRegistry, D.stakeVault, D.guardedExecutor, D.agentRegistry, D.challengeArbiter]

namespace Deployment
variable (D : Deployment)

theorem stakeVault_mem : D.stakeVault ∈ D.contracts := by simp [contracts]

theorem challengeArbiter_mem : D.challengeArbiter ∈ D.contracts := by simp [contracts]

theorem agentRegistry_mem : D.agentRegistry ∈ D.contracts := by simp [contracts]

theorem contract_ne_zero {c : Address} (h : c ∈ D.contracts) : c ≠ 0 := D.ne_zero c h

theorem stakeVault_ne_zero : D.stakeVault ≠ 0 := D.contract_ne_zero D.stakeVault_mem

theorem challengeArbiter_ne_zero : D.challengeArbiter ≠ 0 :=
  D.contract_ne_zero D.challengeArbiter_mem

theorem guardedExecutor_ne_zero : D.guardedExecutor ≠ 0 := D.contract_ne_zero (by simp [contracts])

theorem agentRegistry_ne_zero : D.agentRegistry ≠ 0 := D.contract_ne_zero D.agentRegistry_mem

theorem stakeVault_ne_challengeArbiter : D.stakeVault ≠ D.challengeArbiter := by
  have h := D.nodup
  simp only [List.nodup_cons, List.mem_cons, not_or] at h
  exact h.2.2.1.2.2.1

end Deployment

namespace IntentRegistry

structure State where
  activeIntentHash : Address → Bytes32
  lastNonce : Address → ℕ
  intentConfig : Bytes32 → IntentConfig
  manifestURI : Bytes32 → Bytes
  intentExists : Bytes32 → Bool

end IntentRegistry

namespace AgentRegistry

/-- `AgentRecord` without `reputation`, which no call writes; `registered` is its `exists` flag. -/
structure AgentRecord where
  operator : Address
  metadataURI : Bytes
  registered : Bool
  deriving Inhabited

structure State where
  agents : Bytes32 → AgentRecord

end AgentRegistry

namespace StakeVault

structure State where
  agentRegistry : Address
  challengeArbiter : Address
  stake : Bytes32 → ℕ

end StakeVault

namespace GuardedExecutor

structure State where
  owner : Address
  traceAckSigner : Address
  delegates : Address → Bytes32 → Address → Bool
  spentByDay : Address → ℕ → ℕ
  execNonce : Address → ℕ
  receipts : Bytes32 → ReceiptSummary

end GuardedExecutor

namespace ChallengeArbiter

structure Challenge where
  receiptId : Bytes32
  challenger : Address
  resolved : Bool
  deriving DecidableEq, Inhabited

structure State where
  owner : Address
  reviewerSigner : Address
  nextId : ℕ
  challenges : ℕ → Challenge

end ChallengeArbiter

structure World (D : Deployment) where
  /-- `block.timestamp`. -/
  now : ℕ
  usdc : D.token.State
  registry : IntentRegistry.State
  agents : AgentRegistry.State
  vault : StakeVault.State
  executor : GuardedExecutor.State
  arbiter : ChallengeArbiter.State
  logs : List Event

namespace World
variable {D : Deployment} (w : World D)

/-- Append to the logs. -/
def emit (es : List Event) : World D := { w with logs := w.logs ++ es }

/-- `USDC.balanceOf(a)`. -/
def balanceOf (a : Address) : ℕ := D.token.balanceOf w.usdc a

/-- `SafeERC20.safeTransfer` of USDC by the contract at `sender`. -/
def safeTransfer (sender dst : Address) (amount : ℕ) : Except Revert (World D) := do
  let u ← orRevert .SafeERC20FailedOperation (D.token.transfer w.usdc sender dst amount)
  pure { w with usdc := u }

/-- `SafeERC20.safeTransferFrom` of USDC by the contract at `spender`. -/
def safeTransferFrom (spender src dst : Address) (amount : ℕ) : Except Revert (World D) := do
  let u ← orRevert .SafeERC20FailedOperation (D.token.transferFrom w.usdc spender src dst amount)
  pure { w with usdc := u }

end World

end IntentGuard
