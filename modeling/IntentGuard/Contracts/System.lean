import IntentGuard.Contracts.ChallengeArbiter
import IntentGuard.Lib.Runs

/-!
# The combined transition system

A `Call` is a transaction to one of the five contracts or to the token, `exec` runs it for a sender,
and `step` is one action of the chain: time passing, or a transaction by an account, which leaves
the state as it was when the call reverts. `init` is the state right after `setWiring`.
-/

namespace IntentGuard

open Function

/-- The transactions. `Ownable2Step` is library code; the contracts use only that `owner()` is some
account, so any sender may hand it to any account here. `MockUSDC.mint` is open to everyone. -/
inductive Call
  | commitIntent (intentHash : Bytes32) (cfg : IntentConfig) (manifestURI : Bytes)
  | revokeIntent
  | registerAgent (agentId : Bytes32) (operator : Address) (metadataURI : Bytes)
  | stake (agentId : Bytes32) (amount : ℕ)
  | setWiring (agentRegistry challengeArbiter : Address)
  | deposit (agentId : Bytes32) (src : Address) (amount : ℕ)
  | slash (agentId : Bytes32) (dst : Address) (amount : ℕ)
  | setAgentDelegate (agentId : Bytes32) (delegate : Address) (approved : Bool)
  | executeWithGuard (req : ExecutionRequest)
  | setTraceAckSigner (signer : Address)
  | executorOwner (newOwner : Address)
  | fileAmountViolation (receiptId : Bytes32)
  | resolveByReviewer (challengeId : ℕ) (uphold : Bool) (slashAmount : ℕ) (reviewerSig : Bytes)
  | setReviewerSigner (signer : Address)
  | arbiterOwner (newOwner : Address)
  | usdcTransfer (dst : Address) (value : ℕ)
  | usdcTransferFrom (src dst : Address) (value : ℕ)
  | usdcApprove (spender : Address) (value : ℕ)
  | usdcMint (dst : Address) (value : ℕ)
  deriving DecidableEq

variable {D : Deployment}

/-- A transaction comes from an account that is neither zero nor one of the contracts. -/
structure Tx (D : Deployment) where
  sender : Address
  call : Call
  sender_ne_zero : sender ≠ 0
  external : sender ∉ D.contracts

inductive Action (D : Deployment)
  | elapse (seconds : ℕ)
  | send (tx : Tx D)

def exec (w : World D) (sender : Address) : Call → Except Revert (World D)
  | .commitIntent intentHash cfg manifestURI =>
    IntentRegistry.commitIntent w sender intentHash cfg manifestURI
  | .revokeIntent => IntentRegistry.revokeIntent w sender
  | .registerAgent agentId operator metadataURI =>
    AgentRegistry.registerAgent w agentId operator metadataURI
  | .stake agentId amount => AgentRegistry.stake w sender agentId amount
  | .setWiring agentRegistry challengeArbiter =>
    StakeVault.setWiring w sender agentRegistry challengeArbiter
  | .deposit agentId src amount => StakeVault.deposit w sender agentId src amount
  | .slash agentId dst amount => Prod.fst <$> StakeVault.slash w sender agentId dst amount
  | .setAgentDelegate agentId delegate approved =>
    .ok (GuardedExecutor.setAgentDelegate w sender agentId delegate approved)
  | .executeWithGuard req => Prod.fst <$> GuardedExecutor.executeWithGuard w sender req
  | .setTraceAckSigner signer => GuardedExecutor.setTraceAckSigner w sender signer
  | .executorOwner newOwner => .ok { w with executor := { w.executor with owner := newOwner } }
  | .fileAmountViolation receiptId =>
    Prod.fst <$> ChallengeArbiter.fileAmountViolation w sender receiptId
  | .resolveByReviewer challengeId uphold slashAmount reviewerSig =>
    ChallengeArbiter.resolveByReviewer w challengeId uphold slashAmount reviewerSig
  | .setReviewerSigner signer => ChallengeArbiter.setReviewerSigner w sender signer
  | .arbiterOwner newOwner => .ok { w with arbiter := { w.arbiter with owner := newOwner } }
  | .usdcTransfer dst value => w.safeTransfer sender dst value
  | .usdcTransferFrom src dst value => w.safeTransferFrom sender src dst value
  | .usdcApprove spender value => do
    let u ← orRevert .SafeERC20FailedOperation (D.token.approve w.usdc sender spender value)
    pure { w with usdc := u }
  | .usdcMint dst value => do
    let u ← orRevert .SafeERC20FailedOperation (D.token.mint w.usdc dst value)
    pure { w with usdc := u }

/-- The state after a transaction: unchanged when it reverts. -/
def apply (w : World D) (tx : Tx D) : World D :=
  match exec w tx.sender tx.call with
  | .ok w' => w'
  | .error _ => w

def step (w : World D) : Action D → World D
  | .elapse seconds => { w with now := w.now + seconds }
  | .send tx => apply w tx

/-- What the contracts find when `setWiring` has been called: no contract has approved anyone to
spend its USDC, and the clock is not at zero. -/
structure Genesis (D : Deployment) where
  now : ℕ
  now_pos : 0 < now
  usdc : D.token.State
  allowance_contracts : ∀ c ∈ D.contracts, ∀ a, D.token.allowance usdc c a = 0
  traceAckSigner : Address
  reviewerSigner : Address
  initialOwner : Address

def init (g : Genesis D) : World D where
  now := g.now
  usdc := g.usdc
  registry := ⟨fun _ => 0, fun _ => 0, fun _ => default, fun _ => [], fun _ => false⟩
  agents := ⟨fun _ => default⟩
  vault := ⟨D.agentRegistry, D.challengeArbiter, fun _ => 0⟩
  executor := ⟨g.initialOwner, g.traceAckSigner, fun _ _ _ => false, fun _ _ => 0, fun _ => 0,
    fun _ => default⟩
  arbiter := ⟨g.initialOwner, g.reviewerSigner, 0, fun _ => default⟩
  logs := []

/-- The states of the system. -/
abbrev Reachable (g : Genesis D) (w : World D) : Prop := Runs.Reachable step (init g) w

/-! ### A deployment to compute with -/

namespace Localnet

def localnet : Deployment where
  token := Erc20.ledger
  keccak := Keccak.numbering
  tryRecover := plainRecover
  chainid := 31337
  USDC := 1
  intentRegistry := 2
  stakeVault := 3
  guardedExecutor := 4
  agentRegistry := 5
  challengeArbiter := 6
  deployer := 7
  nodup := by decide
  ne_zero := by decide

def alice : Address := 10
def operator : Address := 11
def delegate : Address := 12
def merchant : Address := 13
def challenger : Address := 14
def agent : Bytes32 := 100

/-- The keys of the trace service and of the reviewer. -/
def traceKey : SigningKey plainRecover := plainKey 20
def reviewerKey : SigningKey plainRecover := plainKey 21

/-- Day 10; alice, the operator and the challenger hold 1000 USDC each. -/
def genesis : Genesis localnet where
  now := 10 * days1
  now_pos := by decide
  usdc := ⟨fun a => if a ∈ [alice, operator, challenger] then 1000000000 else 0, fun _ _ => 0⟩
  allowance_contracts := fun _ _ _ => rfl
  traceAckSigner := traceKey.address
  reviewerSigner := reviewerKey.address
  initialOwner := 7

def send (sender : Address) (call : Call)
    (h : sender ≠ 0 ∧ sender ∉ localnet.contracts := by decide) :
    Action localnet :=
  .send ⟨sender, call, h.1, h.2⟩

theorem challenger_external : challenger ≠ 0 ∧ challenger ∉ localnet.contracts := by decide

theorem alice_external : alice ≠ 0 ∧ alice ∉ localnet.contracts := by decide

theorem delegate_external : delegate ≠ 0 ∧ delegate ∉ localnet.contracts := by decide

/-- At most 10 USDC a transaction and 100 a day, to the merchant, until day 40. -/
def config : IntentConfig where
  owner := alice
  token := 1
  maxSpendPerTx := 10000000
  maxSpendPerDay := 100000000
  allowedCounterparties := [merchant]
  expiry := 3456000
  nonce := 1

/-- A payment of alice's agent to the merchant, with the trace service's acknowledgement. -/
def payment (amount : ℕ) : ExecutionRequest where
  owner := alice
  agentId := agent
  target := merchant
  token := 1
  amount
  data := []
  traceURI := []
  traceAck :=
    { contextDigest := 5
      uriHash := 0
      expiresAt := 3456000
      signature :=
        traceKey.sign
          (GuardedExecutor.traceAckDigest localnet.keccak localnet.guardedExecutor localnet.chainid
            5 0 3456000 agent
            alice) }

/-- The operator stakes for the agent; alice commits, delegates and approves the executor. -/
def setUp (stake : ℕ) : List (Action localnet) :=
  [send operator (.registerAgent agent operator []),
    send operator (.usdcApprove localnet.stakeVault 1000000000), send operator (.stake agent stake),
    send alice (.commitIntent 77 config []), send alice (.setAgentDelegate agent delegate true),
    send alice (.usdcApprove localnet.guardedExecutor 1000000000)]

/-- The same, and the delegate pays twice. -/
def twoPayments (stake : ℕ) : List (Action localnet) :=
  setUp stake ++
    [send delegate (.executeWithGuard (payment 15000000)),
      send delegate (.executeWithGuard (payment 12000000))]

/-- The ids of the two receipts. -/
def firstId : Bytes32 := GuardedExecutor.receiptIdOf localnet alice agent 0
def secondId : Bytes32 := GuardedExecutor.receiptIdOf localnet alice agent 1

end Localnet

end IntentGuard
