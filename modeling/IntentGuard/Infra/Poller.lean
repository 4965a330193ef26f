import IntentGuard.Infra.Decoder
import IntentGuard.Lib.Runs

/-!
# The poller

`indexer/poller.ts`: what one `catchUp` does, write by write. Whatever stops a `catchUp` (a failing
call of the client or of the store, or the end of the process), the writes before that point have
been made and no other: an attempt says after how many writes it is stopped, if at all.
-/

namespace IntentGuard.Infra

/-- One `catchUp`, with the chain heads that it reads. -/
structure Attempt where
  head : ℕ
  fallbackHead : ℕ
  INDEXER_BATCH_BLOCKS : ℕ
  batch_pos : 0 < INDEXER_BATCH_BLOCKS
  stopsAfter : Option ℕ

/-- A write of `indexRange`. -/
inductive IndexerWrite
  | handle (log : MinedLog)
  | setMeta (lastBlock : ℕ)

structure IndexerState where
  store : Store
  /-- The value of `META_LAST_INDEXED_BLOCK`. -/
  lastBlock : Option ℕ

structure Poller where
  ctx : DecodeContext
  provider : Provider
  INDEXER_START_BLOCK : Option ℕ
  deployment : DeploymentManifest
  /-- The indexed logs of the chain, in order. -/
  chain : List MinedLog

namespace Poller
variable (P : Poller)

/-- `client.getLogs` for the indexer's contracts and events. -/
def getLogs (fromBlock toBlock : ℕ) : List MinedLog :=
  P.chain.filter fun log => fromBlock ≤ log.blockNumber ∧ log.blockNumber ≤ toBlock

/-- The loop of `indexRange`; every turn moves the cursor, so `toBlock + 1 - cursor` turns are
enough. -/
def indexLoop (batchSize toBlock : ℕ) : ℕ → ℕ → List IndexerWrite
  | 0, _ => []
  | turns + 1, cursor =>
    if cursor ≤ toBlock then
      let upper := if cursor + batchSize > toBlock then toBlock else cursor + batchSize
      (P.getLogs cursor upper).map .handle ++
        .setMeta upper :: indexLoop batchSize toBlock turns (cursor + (batchSize + 1))
    else []

def indexRange (batchSize fromBlock toBlock : ℕ) : List IndexerWrite :=
  P.indexLoop batchSize toBlock (toBlock + 1 - fromBlock) fromBlock

/-- What `resolveStartBlock` returns when nothing has been indexed. -/
def firstBlock (fallbackHead : ℕ) : ℕ :=
  match P.INDEXER_START_BLOCK, P.deployment.startBlock with
  | some block, _ => block
  | none, some block => block
  | none, none => if fallbackHead > 1000 then fallbackHead - 1000 else 0

def resolveStartBlock (last : Option ℕ) (fallbackHead : ℕ) : ℕ :=
  match last with
  | some lastNum => if lastNum > 0 then lastNum + 1 else P.firstBlock fallbackHead
  | none => P.firstBlock fallbackHead

/-- The writes of an attempt until it is stopped. -/
def writes (last : Option ℕ) (a : Attempt) : List IndexerWrite :=
  let all := P.indexRange a.INDEXER_BATCH_BLOCKS (P.resolveStartBlock last a.fallbackHead) a.head
  match a.stopsAfter with
  | some n => all.take n
  | none => all

def perform (s : IndexerState) : IndexerWrite → Except StoreError IndexerState
  | .handle log => do
    let r ← handleLog P.ctx P.provider s.store log.toLog
    pure { s with store := r.store }
  | .setMeta lastBlock => pure { s with lastBlock := some lastBlock }

/-- A write that throws ends the attempt. -/
def performAll (s : IndexerState) : List IndexerWrite → IndexerState
  | [] => s
  | write :: rest =>
    match P.perform s write with
    | .ok s' => performAll s' rest
    | .error _ => s

def catchUp (s : IndexerState) (a : Attempt) : IndexerState :=
  P.performAll s (P.writes s.lastBlock a)

/-- The state of the indexer after a sequence of attempts on an empty store. -/
def catchUps (as : List Attempt) : IndexerState := Runs.run P.catchUp ⟨.empty, none⟩ as

end Poller

end IntentGuard.Infra
