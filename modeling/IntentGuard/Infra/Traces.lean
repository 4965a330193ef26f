import IntentGuard.Infra.CanonicalJson
import IntentGuard.Infra.Config
import IntentGuard.Infra.Signer
import IntentGuard.Lib.Runs
import IntentGuard.Lib.Table

/-!
# The trace service

`store/traces.ts` and the handler of `POST /v1/traces`.
-/

namespace IntentGuard.Infra

open Js

/-! ### The store -/

/-- A row of `traces` without `created_at`, which no handler reads. -/
structure TraceRow where
  contextDigest : Bytes32
  traceUri : JsString
  uriHash : Bytes32
  agentId : Option Bytes32
  owner : Option Address
  traceJson : JsString
  expiresAt : ℕ
  signer : Address
  signature : Bytes
  deriving DecidableEq

/-- SQLite throws when the statement fails; the Supabase client reports the failure in a field that
nobody reads. On a conflict SQLite keeps the columns that the statement does not name. -/
def insertTrace (provider : Provider) (rows : List TraceRow) (input : TraceRow) (fails : Bool) :
    Except HttpError (List TraceRow) :=
  match provider with
  | .sqlite =>
    if fails then .error unhandled
    else
      let update (row : TraceRow) : TraceRow :=
        { row with
          traceUri := input.traceUri
          uriHash := input.uriHash
          expiresAt := input.expiresAt
          signer := input.signer
          signature := input.signature }
      .ok (Table.upsert TraceRow.contextDigest update input rows)
  | .supabase =>
    if fails then
      .ok rows
    else .ok (Table.upsert TraceRow.contextDigest (fun _ => input) input rows)

def getTraceByDigest (provider : Provider) (rows : List TraceRow) (contextDigest : Bytes32)
    (fails : Bool) :
    Except HttpError (Option TraceRow) :=
  if fails then
    match provider with
    | .sqlite => .error unhandled
    | .supabase => .ok none
  else .ok (Table.find TraceRow.contextDigest contextDigest rows)

/-! ### The request -/

structure TraceBody where
  agentId : Bytes32
  owner : Address
  contextDigest : Bytes32
  trace : Json

/-- `z.union([z.string(), z.record(z.unknown()), z.array(z.unknown())])`; a record is rebuilt
without an own key `__proto__`. -/
def traceField (body : Json) : Option Json :=
  match body.get? "trace" with
  | some (.string s) => some (.string s)
  | some (.object entries) => some (.object (entries.filter fun e => e.1 ≠ text "__proto__"))
  | some (.array items) => some (.array items)
  | _ => none

def TraceBody.safeParse (body : Json) : Option TraceBody := do
  let agentId ← hexField 64 "agentId" body
  let owner ← hexField 40 "owner" body
  let contextDigest ← hexField 64 "contextDigest" body
  let trace ← traceField body
  pure { agentId, owner, contextDigest, trace }

def toCanonicalBytes (trace : Json) : Except HttpError JsString :=
  match trace with
  | .string s => .ok s
  | trace =>
    match canonicalize trace with
    | .ok s => .ok s
    | .error message => .error (badRequest ("trace is not canonicalizable: " ++ message))

/-- A request whose trace hashes to the digest it names. -/
structure TraceRequest where
  agentId : Bytes32
  owner : Address
  contextDigest : Bytes32
  canonicalJson : JsString
  deriving DecidableEq

def validateTrace (K : Keccak) (body : Json) : Except HttpError TraceRequest := do
  let parsed ← orThrow (badRequest "invalid trace body") (TraceBody.safeParse body)
  let canonicalJson ← toCanonicalBytes parsed.trace
  throwIf (K.bytes (Js.encode canonicalJson) ≠ parsed.contextDigest)
    (badRequest "contextDigest does not match keccak256(canonical(trace))")
  pure
    { agentId := parsed.agentId
      owner := parsed.owner
      contextDigest := parsed.contextDigest
      canonicalJson }

/-! ### The handler -/

/-- The service's configuration; `TRACE_ACK_TTL_SECONDS` is checked to be positive at the start. -/
structure TraceService (K : Keccak) (tryRecover : Bytes32 → Bytes → Option Address) where
  DATABASE_PROVIDER : Provider
  CHAIN_ID : ℕ
  TRACE_ACK_TTL_SECONDS : ℕ
  ttl_pos : 0 < TRACE_ACK_TTL_SECONDS
  deployment : Option DeploymentManifest
  traceAck : SigningKey tryRecover

/-- A request with what its handling meets: the two readings of the clock, the URI of the pinned
trace or `none` when pinning throws, and whether the two store calls fail. -/
structure TraceCall where
  body : Json
  lookupTime : Time
  signTime : Time
  advancing : lookupTime.ms ≤ signTime.ms
  lookupFails : Bool
  pin : Option JsString
  insertFails : Bool

structure TraceResponse where
  traceURI : JsString
  contextDigest : Bytes32
  uriHash : Bytes32
  expiresAt : ℕ
  signature : Bytes
  signer : Address
  guardedExecutor : Address
  chainId : ℕ
  agentId : Bytes32
  owner : Address
  deriving DecidableEq

variable {K : Keccak} {tryRecover : Bytes32 → Bytes → Option Address}
  (S : TraceService K tryRecover)

namespace TraceService

def resolveTraceAckContext : Except HttpError Signer.TraceAckSignContext := do
  let deployment ← orThrow unhandled S.deployment
  pure
    { guardedExecutor := deployment.contracts.GuardedExecutor
      chainId := deployment.chainId.getD S.CHAIN_ID }

/-- `cached && cached.expiresAt > now`. -/
def unexpired (cached : Option TraceRow) (now : Time) : Option TraceRow :=
  cached.filter fun row => now.seconds < row.expiresAt

def post (rows : List TraceRow) (c : TraceCall) :
    Except HttpError (List TraceRow × TraceResponse) := do
  let req ← validateTrace K c.body
  let ctx ← S.resolveTraceAckContext
  let cached ← getTraceByDigest S.DATABASE_PROVIDER rows req.contextDigest c.lookupFails
  match unexpired cached c.lookupTime with
  | some row =>
    pure
      (rows,
        { traceURI := row.traceUri
          contextDigest := row.contextDigest
          uriHash := row.uriHash
          expiresAt := row.expiresAt
          signature := row.signature
          signer := row.signer
          guardedExecutor := ctx.guardedExecutor
          chainId := ctx.chainId
          agentId := req.agentId
          owner := req.owner })
  | none =>
    let uri ← orThrow unhandled c.pin
    let payload : Signer.TraceAckPayload :=
      { contextDigest := req.contextDigest
        uriHash := K.bytes (Js.encode uri)
        expiresAt := toNumber (c.signTime.seconds + S.TRACE_ACK_TTL_SECONDS)
        agentId := req.agentId
        owner := req.owner }
    let signature ← orThrow unhandled (Signer.signTraceAck K payload ctx S.traceAck)
    let rows ←
      insertTrace S.DATABASE_PROVIDER rows
        { contextDigest := req.contextDigest
          traceUri := uri
          uriHash := payload.uriHash
          agentId := some req.agentId
          owner := some req.owner
          traceJson := req.canonicalJson
          expiresAt := payload.expiresAt
          signer := S.traceAck.address
          signature }
        c.insertFails
    pure
      (rows,
        { traceURI := uri
          contextDigest := req.contextDigest
          uriHash := payload.uriHash
          expiresAt := payload.expiresAt
          signature
          signer := S.traceAck.address
          guardedExecutor := ctx.guardedExecutor
          chainId := ctx.chainId
          agentId := req.agentId
          owner := req.owner })

/-- The `traces` table after a request: a request that ends in an error has written nothing. -/
def step (rows : List TraceRow) (c : TraceCall) : List TraceRow :=
  match S.post rows c with
  | .ok (rows', _) => rows'
  | .error _ => rows

/-- The `traces` table after a sequence of requests. -/
def traces (cs : List TraceCall) : List TraceRow := Runs.run S.step [] cs

end TraceService

end IntentGuard.Infra
