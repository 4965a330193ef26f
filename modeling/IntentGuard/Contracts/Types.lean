import IntentGuard.Lib.Hashing

/-!
# Shared types of the contracts

`IGuardTypes.sol`, `GuardConstants.sol`, the custom errors and the events. A `uint256` is a natural
number: where the compiler's overflow check can fire the sum goes through `checkedAdd`, and the two
counters (`_execNonce`, `_nextId`) only ever grow by one. `uint64` values keep their width. A
`bytes32` and an `address` are words.
-/

namespace IntentGuard

abbrev Address := Word
abbrev Bytes32 := Word

/-! ### IGuardTypes -/

inductive GuardDecision
  | GREEN | YELLOW | RED
  deriving DecidableEq

structure IntentConfig where
  owner : Address
  token : Address
  maxSpendPerTx : ℕ
  maxSpendPerDay : ℕ
  allowedCounterparties : List Address
  expiry : UInt64
  nonce : ℕ
  deriving DecidableEq, Inhabited

structure TraceAck where
  contextDigest : Bytes32
  uriHash : Bytes32
  expiresAt : UInt64
  signature : Bytes
  deriving DecidableEq

structure ExecutionRequest where
  owner : Address
  agentId : Bytes32
  target : Address
  token : Address
  amount : ℕ
  data : Bytes
  traceURI : Bytes
  traceAck : TraceAck
  deriving DecidableEq

structure ReceiptSummary where
  owner : Address
  agentId : Bytes32
  intentHash : Bytes32
  target : Address
  token : Address
  amount : ℕ
  callDataHash : Bytes32
  contextDigest : Bytes32
  nonce : ℕ
  timestamp : UInt64
  deriving DecidableEq, Inhabited

/-! ### GuardConstants -/

namespace GuardConstants

def COUNTERPARTY_NOT_ALLOWED (K : Keccak) : Bytes32 := K.bytes (utf8 "COUNTERPARTY_NOT_ALLOWED")
def TOKEN_NOT_USDC (K : Keccak) : Bytes32 := K.bytes (utf8 "TOKEN_NOT_USDC")
def INTENT_EXPIRED (K : Keccak) : Bytes32 := K.bytes (utf8 "INTENT_EXPIRED")
def DAY_CAP_EXCEEDED (K : Keccak) : Bytes32 := K.bytes (utf8 "DAY_CAP_EXCEEDED")
def DELEGATE_NOT_APPROVED (K : Keccak) : Bytes32 := K.bytes (utf8 "DELEGATE_NOT_APPROVED")
def TRACE_ACK_INVALID (K : Keccak) : Bytes32 := K.bytes (utf8 "TRACE_ACK_INVALID")
def TRACE_ACK_EXPIRED (K : Keccak) : Bytes32 := K.bytes (utf8 "TRACE_ACK_EXPIRED")
def NO_ACTIVE_INTENT (K : Keccak) : Bytes32 := K.bytes (utf8 "NO_ACTIVE_INTENT")

def EIP712_DOMAIN_NAME : String := "IntentGuard"
def EIP712_DOMAIN_VERSION : String := "1"

def TRACE_ACK_TYPE : String :=
  "TraceAck(bytes32 contextDigest,bytes32 uriHash,uint64 expiresAt,address guardedExecutor," ++
    "uint256 chainId,bytes32 agentId,address owner)"

def TRACE_ACK_TYPEHASH (K : Keccak) : Bytes32 := K.bytes (utf8 TRACE_ACK_TYPE)

def MAX_COUNTERPARTIES : ℕ := 8
def BRONZE_CHALLENGE_WINDOW : UInt64 := 259200
def BRONZE_TIER_THRESHOLD : ℕ := 50000000
def CHALLENGE_BOND : ℕ := 1000000

end GuardConstants

/-- The number of seconds of `1 days`. -/
def days1 : ℕ := 86400

/-! ### Reverts -/

/-- The reason a call reverts with. -/
inductive Revert
  -- IntentRegistry
  | NotConfigOwner | TokenNotUsdc | CounterpartyListTooLong | IntentAlreadyExpired
  | NonceNotStrictlyIncreasing | IntentHashMismatch | NotIntentOwner
  -- AgentRegistry
  | ZeroAddress | AgentAlreadyRegistered | AgentNotRegistered | NotAgentOperator | ZeroStake
  -- StakeVault
  | AlreadyWired | NotDeployer | OnlyAgentRegistry | OnlyChallengeArbiter | ZeroAmount
  | InsufficientStake
  -- GuardedExecutor
  | GuardRejected (reasonCode : Bytes32) | ZeroSigner
  -- ChallengeArbiter
  | ReceiptNotFound | ChallengeWindowClosed | NotOverspend | InvalidReviewerSignature
  | ChallengeAlreadyResolved
  -- libraries: Ownable, SafeERC20, the arithmetic panic
  | OwnableUnauthorizedAccount (account : Address) | SafeERC20FailedOperation | ArithmeticOverflow
  deriving DecidableEq

/-- `if (c) revert e;` -/
def revertIf (c : Prop) [Decidable c] (e : Revert) : Except Revert Unit :=
  if c then .error e else .ok ()

/-- A `uint256` addition outside `unchecked`. -/
def checkedAdd (a b : ℕ) : Except Revert ℕ :=
  if a + b < 2 ^ 256 then .ok (a + b) else .error .ArithmeticOverflow

/-- A library call that reverts when the operation fails. -/
def orRevert {α : Type} (e : Revert) : Option α → Except Revert α
  | some a => .ok a
  | none => .error e

section
variable {ε α β : Type} {e : Revert}

/-- A sequence succeeds when its first call does and the rest does after it. -/
@[simp] theorem bind_eq_ok {x : Except ε α} {f : α → Except ε β} {b : β} :
    (x >>= f) = .ok b ↔ ∃ a, x = .ok a ∧ f a = .ok b := by
  rcases x with _ | a
  · exact ⟨fun h => absurd h (by simp [bind, Except.bind]), fun ⟨_, h, _⟩ => absurd h (by simp)⟩
  · exact ⟨fun h => ⟨a, rfl, h⟩, fun ⟨_, h, hf⟩ => by cases h; exact hf⟩

theorem bind_eq_error {x : Except ε α} {f : α → Except ε β} {e : ε} :
    (x >>= f) = .error e ↔ x = .error e ∨ ∃ a, x = .ok a ∧ f a = .error e := by
  rcases x with _ | a <;> simp [bind, Except.bind]

@[simp] theorem map_eq_ok {x : Except ε α} {f : α → β} {b : β} :
    f <$> x = .ok b ↔ ∃ a, x = .ok a ∧ f a = b := by
  rcases x with _ | a <;> simp [Functor.map, Except.map]

@[simp] theorem pure_eq_ok {a b : α} : (pure a : Except ε α) = .ok b ↔ a = b :=
  Except.ok.injEq a b ▸ Iff.rfl

@[simp] theorem revertIf_eq_ok {c : Prop} [Decidable c] {u : Unit} :
    revertIf c e = .ok u ↔ ¬ c := by
  by_cases h : c <;> simp [revertIf, h]

@[simp] theorem checkedAdd_eq_ok {a b c : ℕ} :
    checkedAdd a b = .ok c ↔ a + b < 2 ^ 256 ∧ a + b = c := by
  rw [checkedAdd]
  split_ifs with h
  · exact ⟨fun hc => ⟨h, Except.ok.inj hc⟩, fun hc => congrArg Except.ok hc.2⟩
  · exact ⟨fun hc => absurd hc (by simp), fun hc => absurd hc.1 h⟩

@[simp] theorem orRevert_eq_ok {o : Option α} {a : α} : orRevert e o = .ok a ↔ o = some a := by
  cases o <;> simp [orRevert]

end

/-! ### Events -/

inductive Event
  | IntentCommitted (owner : Address) (intentHash : Bytes32) (manifestURI : Bytes)
  | IntentRevoked (owner : Address) (intentHash : Bytes32)
  | AgentRegistered (agentId : Bytes32) (operator : Address) (metadataURI : Bytes)
  | AgentStaked (agentId : Bytes32) (amount newStake : ℕ)
  | Deposited (agentId : Bytes32) (src : Address) (amount newStake : ℕ)
  | Slashed (agentId : Bytes32) (dst : Address) (requested actual : ℕ)
  | AgentDelegateSet (owner : Address) (agentId : Bytes32) (delegate : Address) (approved : Bool)
  | ActionReceipt (receiptId : Bytes32) (receipt : ReceiptSummary)
  | ReceiptStored (receiptId : Bytes32) (owner : Address) (intentHash : Bytes32)
  | TraceURIStored (receiptId : Bytes32) (traceURI : Bytes)
  | TraceAckSignerUpdated (previous current : Address)
  | ChallengeFiled (challengeId : ℕ) (receiptId : Bytes32) (challenger : Address)
  | ChallengeResolved (challengeId : ℕ) (uphold : Bool) (payout : ℕ)
  | ReviewerSignerUpdated (previous current : Address)
  deriving DecidableEq

end IntentGuard
