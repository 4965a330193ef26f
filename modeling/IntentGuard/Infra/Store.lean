import IntentGuard.Infra.Config
import IntentGuard.Js.Number
import IntentGuard.Lib.Table
import Mathlib.Data.List.Sort

/-!
# The tables of the indexer

`store/receipts.ts`, `challenges.ts`, `intents.ts` and `agents.ts`, and the rows of `manifests.ts`,
with the columns, keys and constraints of `schema.ts`, for both providers. The `created_at` columns
are left out. Hexadecimal columns hold the value (the store lowers their case), amounts hold the
number that their decimal string spells.

A statement that violates a constraint throws under SQLite; the Supabase client reports it in a
field that nobody reads, so there it has no effect.
-/

namespace IntentGuard.Infra

open Js

structure ReceiptRow where
  receiptId : Bytes32
  owner : Address
  agentId : Bytes32
  intentHash : Bytes32
  target : Address
  token : Address
  amount : ℕ
  callDataHash : Bytes32
  contextDigest : Bytes32
  nonce : ℕ
  ts : ℕ
  traceUri : Option JsString
  blockNumber : ℕ
  txHash : Bytes32
  logIndex : ℕ
  deriving DecidableEq

inductive ChallengeStatus
  | FILED | UPHELD | REJECTED
  deriving DecidableEq

structure ChallengeRow where
  challengeId : ℕ
  receiptId : Bytes32
  challenger : Address
  status : ChallengeStatus
  payout : Option ℕ
  filedBlock : ℕ
  filedTx : Bytes32
  filedAt : ℕ
  resolvedBlock : Option ℕ
  resolvedTx : Option Bytes32
  resolvedAt : Option ℕ
  deriving DecidableEq

structure IntentRow where
  intentHash : Bytes32
  owner : Address
  manifestUri : JsString
  active : Bool
  blockNumber : ℕ
  txHash : Bytes32
  logIndex : ℕ
  deriving DecidableEq

structure AgentRow where
  agentId : Bytes32
  operator : Address
  metadataUri : JsString
  totalStake : ℕ
  blockNumber : ℕ
  txHash : Bytes32
  deriving DecidableEq

structure DelegateRow where
  owner : Address
  agentId : Bytes32
  delegate : Address
  approved : Bool
  blockNumber : ℕ
  txHash : Bytes32
  logIndex : ℕ
  deriving DecidableEq

/-- The primary key of `delegates`. -/
def DelegateRow.key (r : DelegateRow) : Address × Bytes32 × Address × ℕ × Bytes32 :=
  (r.owner, r.agentId, r.delegate, r.logIndex, r.txHash)

structure Store where
  receipts : List ReceiptRow
  challenges : List ChallengeRow
  intents : List IntentRow
  agents : List AgentRow
  delegates : List DelegateRow
  deriving DecidableEq

def Store.empty : Store := ⟨[], [], [], [], []⟩

inductive StoreError
  | uniqueViolation
  deriving DecidableEq

/-- The outcome of a statement that violates a constraint. -/
def rejected (provider : Provider) (s : Store) : Except StoreError Store :=
  match provider with
  | .sqlite => .error .uniqueViolation
  | .supabase => .ok s

variable (provider : Provider)

/-! ### Receipts -/

/-- `input` has no trace URI; a conflicting row keeps its own. -/
def upsertReceipt (input : ReceiptRow) (s : Store) : Except StoreError Store :=
  if ∃ r ∈ s.receipts, r.receiptId ≠ input.receiptId ∧ r.txHash = input.txHash ∧
    r.logIndex = input.logIndex then
    rejected provider s
  else
    let update (row : ReceiptRow) : ReceiptRow := { input with traceUri := row.traceUri }
    .ok { s with receipts := Table.upsert ReceiptRow.receiptId update input s.receipts }

def setReceiptTraceUri (receiptId : Bytes32) (traceUri : JsString) (s : Store) : Store :=
  let update (row : ReceiptRow) : ReceiptRow := { row with traceUri := some traceUri }
  { s with receipts := Table.updateWhere (fun row => row.receiptId = receiptId) update s.receipts }

def getReceipt (receiptId : Bytes32) (s : Store) : Option ReceiptRow :=
  Table.find ReceiptRow.receiptId receiptId s.receipts

/-! ### Challenges -/

structure InsertChallengeInput where
  challengeId : ℕ
  receiptId : Bytes32
  challenger : Address
  blockNumber : ℕ
  txHash : Bytes32
  blockTimestamp : ℕ

structure ResolveChallengeInput where
  challengeId : ℕ
  uphold : Bool
  payout : ℕ
  blockNumber : ℕ
  txHash : Bytes32
  blockTimestamp : ℕ

/-- The row of a challenge that has just been filed. -/
def filedRow (input : InsertChallengeInput) : ChallengeRow where
  challengeId := input.challengeId
  receiptId := input.receiptId
  challenger := input.challenger
  status := .FILED
  payout := none
  filedBlock := toNumber input.blockNumber
  filedTx := input.txHash
  filedAt := toNumber input.blockTimestamp
  resolvedBlock := none
  resolvedTx := none
  resolvedAt := none

/-- The columns of the insert, written over a row; SQLite leaves the status out on a conflict. -/
def refile (input : InsertChallengeInput) (row : ChallengeRow) : ChallengeRow :=
  { row with
    receiptId := input.receiptId
    challenger := input.challenger
    status :=
      match provider with
      | .sqlite => row.status
      | .supabase => .FILED
    filedBlock := toNumber input.blockNumber
    filedTx := input.txHash
    filedAt := toNumber input.blockTimestamp }

def upsertChallengeFiled (input : InsertChallengeInput) (s : Store) : Store :=
  { s with
    challenges := Table.upsert ChallengeRow.challengeId (refile provider input)
      (filedRow input) s.challenges }

def resolveRow (input : ResolveChallengeInput) (row : ChallengeRow) : ChallengeRow :=
  { row with
    status := if input.uphold then .UPHELD else .REJECTED
    payout := some input.payout
    resolvedBlock := some (toNumber input.blockNumber)
    resolvedTx := some input.txHash
    resolvedAt := some (toNumber input.blockTimestamp) }

def resolveChallenge (input : ResolveChallengeInput) (s : Store) : Store :=
  { s with
    challenges :=
      Table.updateWhere (fun row => row.challengeId = input.challengeId)
        (resolveRow input) s.challenges }

def getChallenge (challengeId : ℕ) (s : Store) : Option ChallengeRow :=
  Table.find ChallengeRow.challengeId challengeId s.challenges

/-- `ORDER BY filed_block DESC, filed_at DESC`; rows that tie stay in the order of the table. -/
def filedAfter (a b : ChallengeRow) : Prop :=
  b.filedBlock < a.filedBlock ∨ b.filedBlock = a.filedBlock ∧ b.filedAt ≤ a.filedAt

instance : DecidableRel filedAfter := fun _ _ => inferInstanceAs (Decidable (_ ∨ _))

def findChallengeByReceipt (receiptId : Bytes32) (s : Store) : Option ChallengeRow :=
  ((s.challenges.filter fun row => row.receiptId = receiptId).insertionSort filedAfter).head?

theorem findChallengeByReceipt_mem {receiptId : Bytes32} {s : Store} {c : ChallengeRow}
    (h : findChallengeByReceipt receiptId s = some c) :
    c ∈ s.challenges ∧ c.receiptId = receiptId := by
  unfold findChallengeByReceipt at h
  have hmem := List.mem_of_mem_head? h
  rw [List.mem_insertionSort, List.mem_filter] at hmem
  exact ⟨hmem.1, of_decide_eq_true hmem.2⟩

theorem findChallengeByReceipt_eq_none {receiptId : Bytes32} {s : Store} :
    findChallengeByReceipt receiptId s = none ↔ ∀ c ∈ s.challenges, c.receiptId ≠ receiptId := by
  unfold findChallengeByReceipt
  rw [List.head?_eq_none_iff, ← List.length_eq_zero_iff, List.length_insertionSort,
    List.length_eq_zero_iff, List.filter_eq_nil_iff]
  simp only [decide_eq_true_eq, ne_eq]

/-! ### Intents -/

/-- `UPDATE intents SET active = 0 WHERE owner = ? AND active = 1`. -/
def deactivate (owner : Address) (rows : List IntentRow) : List IntentRow :=
  Table.updateWhere (fun row => row.owner = owner ∧ row.active = true)
    (fun row => { row with active := false }) rows

theorem unique_deactivate {rows : List IntentRow} (h : Table.UniqueKeys IntentRow.intentHash rows)
    (owner : Address) :
    Table.UniqueKeys IntentRow.intentHash (deactivate owner rows) := by
  refine Table.UniqueKeys.updateWhere ?_ h
  intro r
  rfl

/-- SQLite runs both statements in a transaction, and checks the conflict target
`(tx_hash, log_index)` before the primary key. Under Supabase the conflict target is the primary
key, and the update stays when the insert fails. -/
def insertIntentCommitted (input : IntentRow) (s : Store) : Except StoreError Store :=
  let rows := deactivate input.owner s.intents
  match provider with
  | .sqlite =>
    if ∃ r ∈ rows, r.txHash = input.txHash ∧ r.logIndex = input.logIndex then
      .ok { s with intents := rows }
    else if ∃ r ∈ rows, r.intentHash = input.intentHash then .error .uniqueViolation
    else .ok { s with intents := rows ++ [input] }
  | .supabase =>
    if ∃ r ∈ rows, r.intentHash = input.intentHash then .ok { s with intents := rows }
    else if ∃ r ∈ rows, r.txHash = input.txHash ∧ r.logIndex = input.logIndex then
      .ok { s with intents := rows }
    else .ok { s with intents := rows ++ [input] }

def markIntentRevoked (owner : Address) (s : Store) : Store :=
  { s with intents := deactivate owner s.intents }

/-- `ORDER BY block_number DESC`; rows that tie stay in the order of the table. -/
def committedAfter (a b : IntentRow) : Prop := b.blockNumber ≤ a.blockNumber

instance : DecidableRel committedAfter := fun _ _ => inferInstanceAs (Decidable (_ ≤ _))

def getActiveIntent (owner : Address) (s : Store) : Option IntentRow :=
  ((s.intents.filter fun row => row.owner = owner ∧ row.active = true).insertionSort
    committedAfter).head?

def listIntentsByOwner (owner : Address) (limit : ℕ) (s : Store) : List IntentRow :=
  ((s.intents.filter fun row => row.owner = owner).insertionSort committedAfter).take limit

/-! ### Agents and delegates -/

/-- `input` has no stake. -/
def upsertAgentRegistered (input : AgentRow) (s : Store) : Store :=
  let update (row : AgentRow) : AgentRow :=
    match provider with
    | .sqlite => { row with operator := input.operator, metadataUri := input.metadataUri }
    | .supabase => input
  { s with agents := Table.upsert AgentRow.agentId update input s.agents }

def getAgent (agentId : Bytes32) (s : Store) : Option AgentRow :=
  Table.find AgentRow.agentId agentId s.agents

def applyStakeIncrease (agentId : Bytes32) (newStake : ℕ) (s : Store) : Store :=
  let update (row : AgentRow) : AgentRow := { row with totalStake := newStake }
  { s with agents := Table.updateWhere (fun row => row.agentId = agentId) update s.agents }

def insertDelegate (input : DelegateRow) (s : Store) : Store :=
  { s with
    delegates :=
      match provider with
      | .sqlite => Table.insertOrReplace DelegateRow.key input s.delegates
      | .supabase => Table.upsert DelegateRow.key (fun _ => input) input s.delegates }

/-! ### Manifests -/

/-- A row of `manifests`, a table that the indexer does not write. -/
structure ManifestRow where
  intentHash : Bytes32
  manifestUri : JsString
  manifestJson : JsString
  owner : Address
  token : Address
  maxSpendPerTx : ℕ
  maxSpendPerDay : ℕ
  expiry : ℕ
  nonce : ℕ
  allowedCounterparties : List Address

def getManifestByHash (intentHash : Bytes32) (rows : List ManifestRow) : Option ManifestRow :=
  Table.find ManifestRow.intentHash intentHash rows

end IntentGuard.Infra
