import IntentGuard.Infra.Store

/-!
# The log decoder

`handleLog` of `indexer/decoder.ts`. A log carries the event that `decodeEventLog` finds in it, if
any, and its provenance, unless a pending log lacks it.
-/

namespace IntentGuard.Infra

open Js

structure Provenance where
  blockNumber : ℕ
  transactionHash : Bytes32
  logIndex : ℕ
  deriving DecidableEq

structure Log where
  event : Option Event
  provenance : Option Provenance
  deriving DecidableEq

/-- A log of a mined block whose event is in the indexer's ABI. -/
structure MinedLog extends Provenance where
  event : Event
  deriving DecidableEq

def MinedLog.toLog (l : MinedLog) : Log := ⟨some l.event, some l.toProvenance⟩

/-- `toText` is the client's decoding of a `string` argument. -/
structure DecodeContext where
  blockTimestamp : ℕ → ℕ
  toText : Bytes → JsString

/-- What `emitEvent` is called with. -/
inductive SSEEvent
  | receiptCreated (receiptId : Bytes32) (owner : Address) (agentId : Bytes32)
      (amount timestamp : ℕ)
  | challengeFiled (challengeId : ℕ) (receiptId : Bytes32) (challenger : Address) (timestamp : ℕ)
  | challengeResolved (challengeId : ℕ) (uphold : Bool) (payout timestamp : ℕ)
  deriving DecidableEq

/-- `known` is the value that `handleLog` returns. -/
structure Handled where
  store : Store
  known : Bool
  emitted : List SSEEvent

variable (ctx : DecodeContext) (p : Provenance)

def receiptRow (receiptId : Bytes32) (r : ReceiptSummary) : ReceiptRow where
  receiptId
  owner := r.owner
  agentId := r.agentId
  intentHash := r.intentHash
  target := r.target
  token := r.token
  amount := r.amount
  callDataHash := r.callDataHash
  contextDigest := r.contextDigest
  nonce := r.nonce
  ts := toNumber r.timestamp.toNat
  traceUri := none
  blockNumber := toNumber p.blockNumber
  txHash := p.transactionHash
  logIndex := p.logIndex

def filingOf (challengeId : ℕ) (receiptId : Bytes32) (challenger : Address) :
    InsertChallengeInput where
  challengeId
  receiptId
  challenger
  blockNumber := p.blockNumber
  txHash := p.transactionHash
  blockTimestamp := ctx.blockTimestamp p.blockNumber

def resolutionOf (challengeId : ℕ) (uphold : Bool) (payout : ℕ) : ResolveChallengeInput where
  challengeId
  uphold
  payout
  blockNumber := p.blockNumber
  txHash := p.transactionHash
  blockTimestamp := ctx.blockTimestamp p.blockNumber

def intentRow (owner : Address) (intentHash : Bytes32) (manifestURI : Bytes) : IntentRow where
  intentHash
  owner
  manifestUri := ctx.toText manifestURI
  active := true
  blockNumber := toNumber p.blockNumber
  txHash := p.transactionHash
  logIndex := p.logIndex

def agentRow (agentId : Bytes32) (operator : Address) (metadataURI : Bytes) : AgentRow where
  agentId
  operator
  metadataUri := ctx.toText metadataURI
  totalStake := 0
  blockNumber := toNumber p.blockNumber
  txHash := p.transactionHash

def delegateRow (owner : Address) (agentId : Bytes32) (delegate : Address) (approved : Bool) :
    DelegateRow where
  owner
  agentId
  delegate
  approved
  blockNumber := toNumber p.blockNumber
  txHash := p.transactionHash
  logIndex := p.logIndex

/-- The `switch` of `handleLog`. -/
def handleEvent (provider : Provider) (s : Store) : Event → Except StoreError Handled
  | .ActionReceipt receiptId r => do
    let s ← upsertReceipt provider (receiptRow p receiptId r) s
    let timestamp := toNumber (ctx.blockTimestamp p.blockNumber)
    pure ⟨s, true, [.receiptCreated receiptId r.owner r.agentId r.amount timestamp]⟩
  | .ReceiptStored .. => pure ⟨s, true, []⟩
  | .TraceURIStored receiptId traceURI =>
    pure ⟨setReceiptTraceUri receiptId (ctx.toText traceURI) s, true, []⟩
  | .AgentDelegateSet owner agentId delegate approved =>
    pure ⟨insertDelegate provider (delegateRow p owner agentId delegate approved) s, true, []⟩
  | .ChallengeFiled challengeId receiptId challenger =>
    let timestamp := toNumber (ctx.blockTimestamp p.blockNumber)
    pure ⟨upsertChallengeFiled provider (filingOf ctx p challengeId receiptId challenger) s, true,
      [.challengeFiled challengeId receiptId challenger timestamp]⟩
  | .ChallengeResolved challengeId uphold payout =>
    let timestamp := toNumber (ctx.blockTimestamp p.blockNumber)
    pure ⟨resolveChallenge (resolutionOf ctx p challengeId uphold payout) s, true,
      [.challengeResolved challengeId uphold payout timestamp]⟩
  | .IntentCommitted owner intentHash manifestURI => do
    let s ← insertIntentCommitted provider (intentRow ctx p owner intentHash manifestURI) s
    pure ⟨s, true, []⟩
  | .IntentRevoked owner _ => pure ⟨markIntentRevoked owner s, true, []⟩
  | .AgentRegistered agentId operator metadataURI =>
    pure ⟨upsertAgentRegistered provider (agentRow ctx p agentId operator metadataURI) s, true, []⟩
  | .AgentStaked agentId _ newStake => pure ⟨applyStakeIncrease agentId newStake s, true, []⟩
  | _ => pure ⟨s, false, []⟩

def handleLog (provider : Provider) (s : Store) (log : Log) : Except StoreError Handled :=
  match log.event, log.provenance with
  | some event, some p => handleEvent ctx p provider s event
  | _, _ => .ok ⟨s, false, []⟩

/-- One pass of `handleLog` over a list of logs. -/
def handleLogs (provider : Provider) (s : Store) : List MinedLog → Except StoreError Store
  | [] => .ok s
  | log :: logs => do
    let r ← handleLog ctx provider s log.toLog
    handleLogs provider r.store logs

end IntentGuard.Infra
