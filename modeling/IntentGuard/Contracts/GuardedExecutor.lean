import IntentGuard.Contracts.IntentRegistry

/-!
# GuardedExecutor

The guard and the guarded payment. `checkTraceAck` is the last part of `_checkGuard`, from the
acknowledgement on.
-/

namespace IntentGuard.GuardedExecutor

open Function

variable {D : Deployment} (w : World D) (sender : Address)

def setAgentDelegate (agentId : Bytes32) (delegate : Address) (approved : Bool) : World D :=
  let perAgent := update (w.executor.delegates sender agentId) delegate approved
  let delegates :=
    update w.executor.delegates sender (update (w.executor.delegates sender) agentId perAgent)
  { w with executor := { w.executor with delegates } }.emit
    [.AgentDelegateSet sender agentId delegate approved]

/-- `structHash` of `_checkGuard`, in the executor at `guardedExecutor` on chain `chainid`. -/
def traceAckStructHash (K : Keccak) (guardedExecutor : Address) (chainid : ℕ)
    (contextDigest uriHash : Bytes32) (expiresAt : UInt64) (agentId : Bytes32) (owner : Address) :
    Bytes32 :=
  K.words
    [GuardConstants.TRACE_ACK_TYPEHASH K, contextDigest, uriHash, expiresAt.toNat, guardedExecutor,
      chainid, agentId, owner]

/-- `EIP712._hashTypedDataV4` with the domain of the constructor. -/
def hashTypedDataV4 (K : Keccak) (guardedExecutor : Address) (chainid : ℕ) (structHash : Bytes32) :
    Bytes32 :=
  Eip712.hashTypedData K
    { name := GuardConstants.EIP712_DOMAIN_NAME
      version := GuardConstants.EIP712_DOMAIN_VERSION
      chainId := chainid
      verifyingContract := guardedExecutor } structHash

/-- The digest the acknowledgement's signature is recovered from. -/
def traceAckDigest (K : Keccak) (guardedExecutor : Address) (chainid : ℕ)
    (contextDigest uriHash : Bytes32) (expiresAt : UInt64) (agentId : Bytes32) (owner : Address) :
    Bytes32 :=
  hashTypedDataV4 K guardedExecutor chainid
    (traceAckStructHash K guardedExecutor chainid contextDigest uriHash expiresAt agentId owner)

def checkTraceAck (req : ExecutionRequest) : GuardDecision × Bytes32 :=
  let ack := req.traceAck
  if ack.expiresAt.toNat ≤ w.now then (.RED, GuardConstants.TRACE_ACK_EXPIRED D.keccak)
  else if D.keccak.bytes req.traceURI ≠ ack.uriHash then
    (.RED, GuardConstants.TRACE_ACK_INVALID D.keccak)
  else
    let digest :=
      traceAckDigest D.keccak D.guardedExecutor D.chainid ack.contextDigest ack.uriHash
        ack.expiresAt req.agentId
        req.owner
    if D.tryRecover digest ack.signature ≠ some w.executor.traceAckSigner then
      (.RED, GuardConstants.TRACE_ACK_INVALID D.keccak)
    else (.GREEN, 0)

def _checkGuard (req : ExecutionRequest) : Except Revert (GuardDecision × Bytes32) :=
  if w.executor.delegates req.owner req.agentId sender = false then
    .ok (.RED, GuardConstants.DELEGATE_NOT_APPROVED D.keccak)
  else if req.token ≠ D.USDC then .ok (.RED, GuardConstants.TOKEN_NOT_USDC D.keccak)
  else
    let intentHash := IntentRegistry.getActiveIntentHash w req.owner
    if intentHash = 0 then .ok (.RED, GuardConstants.NO_ACTIVE_INTENT D.keccak)
    else
      let cfg := (IntentRegistry.getIntent w intentHash).1
      if cfg.expiry.toNat ≤ w.now then .ok (.RED, GuardConstants.INTENT_EXPIRED D.keccak)
      else if req.target ∉ cfg.allowedCounterparties then
        .ok (.RED, GuardConstants.COUNTERPARTY_NOT_ALLOWED D.keccak)
      else do
        let spent ← checkedAdd (w.executor.spentByDay req.owner (w.now / days1)) req.amount
        if spent > cfg.maxSpendPerDay then pure (.RED, GuardConstants.DAY_CAP_EXCEEDED D.keccak)
        else pure (checkTraceAck w req)

def preflightCheck (req : ExecutionRequest) : Except Revert (GuardDecision × Bytes32) :=
  _checkGuard w sender req

/-- `keccak256(abi.encode(owner, agentId, nonce, block.chainid, address(this)))`. -/
def receiptIdOf (D : Deployment) (owner : Address) (agentId : Bytes32) (nonce : ℕ) : Bytes32 :=
  D.keccak.words [owner, agentId, nonce, D.chainid, D.guardedExecutor]

def executeWithGuard (req : ExecutionRequest) : Except Revert (World D × Bytes32) := do
  let (decision, reasonCode) ← _checkGuard w sender req
  revertIf (decision ≠ .GREEN) (.GuardRejected reasonCode)
  let dayBucket := w.now / days1
  let spent ← checkedAdd (w.executor.spentByDay req.owner dayBucket) req.amount
  let nonce := w.executor.execNonce req.owner
  let intentHash := IntentRegistry.getActiveIntentHash w req.owner
  let receiptId := receiptIdOf D req.owner req.agentId nonce
  let summary : ReceiptSummary :=
    { owner := req.owner
      agentId := req.agentId
      intentHash
      target := req.target
      token := req.token
      amount := req.amount
      callDataHash := D.keccak.bytes req.data
      contextDigest := req.traceAck.contextDigest
      nonce
      timestamp := UInt64.ofNat w.now }
  let executor :=
    { w.executor with
      spentByDay := update w.executor.spentByDay req.owner
        (update (w.executor.spentByDay req.owner) dayBucket spent)
      execNonce := update w.executor.execNonce req.owner (nonce + 1)
      receipts := update w.executor.receipts receiptId summary }
  let w := { w with executor }.emit
    [.ActionReceipt receiptId summary, .ReceiptStored receiptId req.owner intentHash,
      .TraceURIStored receiptId req.traceURI]
  let w ← w.safeTransferFrom D.guardedExecutor req.owner req.target req.amount
  pure (w, receiptId)

def getReceipt (receiptId : Bytes32) : ReceiptSummary := w.executor.receipts receiptId

def setTraceAckSigner (signer : Address) : Except Revert (World D) := do
  revertIf (sender ≠ w.executor.owner) (.OwnableUnauthorizedAccount sender)
  revertIf (signer = 0) .ZeroSigner
  let prev := w.executor.traceAckSigner
  pure ({ w with executor := { w.executor with traceAckSigner := signer } }.emit
    [.TraceAckSignerUpdated prev signer])

end IntentGuard.GuardedExecutor
