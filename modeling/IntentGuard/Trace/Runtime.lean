import IntentGuard.Contracts.Rejections
import IntentGuard.Infra.LocalCas
import IntentGuard.Infra.ManifestStore
import IntentGuard.Trace.Client
import IntentGuard.Trace.Schema

/-!
# What the runtime sends

`execution-request.ts`, the client's part of `trace-client.ts` and the flow of `agents/shared.ts` up
to the request for the executor, whatever the trace service answers. The owner, the agent, the
target, the token and the amount go into the uploaded trace and into the request, on two ways.

* `request_agrees`: they arrive as the same values, for every spelling, and the acknowledgement is
  for the trace.
* `request_acknowledged_iff`: the URI arrives as it was hashed exactly when it has no white space
  around it, and then the guard does not take the acknowledgement for an invalid one.
-/

namespace IntentGuard.Agent

open Js Infra Trace SortedEntries

inductive FlowError
  /-- The engine's own error. -/
  | type
  | error (message : JsString)
  /-- `viem`'s error. -/
  | invalidAddress (address : JsString)
  | upload (e : UploadError)

/-! ### Records -/

/-- The properties that `...value` copies. -/
def spread : JsValue → List (JsString × JsValue)
  | .object es => es
  | .array vs => (vs.zipIdx).map fun p => (natToString p.2, p.1)
  | .string s => (s.zipIdx).map fun p => (natToString p.2, .string [p.1])
  | _ => []

/-- A property of an object literal after the ones before it. -/
def setKey (entries : List (JsString × JsValue)) (key : String) (value : JsValue) :
    List (JsString × JsValue) :=
  Table.upsert Prod.fst (fun _ => (text key, value)) (text key, value) entries

/-! ### The request -/

variable (A : AddressChecksum) (K : Keccak)

/-- `getAddress(address.toLowerCase())`. -/
def getAddress (address : JsString) : Except FlowError JsString :=
  orThrow (.invalidAddress (toLowerCase address)) (A.getAddress (toLowerCase address))

def normalizeAmountBigInt (value : JsValue) : Except FlowError ℤ :=
  let notInteger (received : JsString) : FlowError :=
    .error (text "amount must be a non-negative integer; received " ++ received)
  match value with
  | .bigint n => pure n
  | .number x =>
    if isInteger x.1 = false ∨ (x.1.negative = true ∧ x.1.digits ≠ 0) then
      throw (notInteger x.1.toString)
    else pure (numberToBigInt x.1)
  | .nan => throw (notInteger (text "NaN"))
  | .infinity negative => throw (notInteger (text (if negative then "-Infinity" else "Infinity")))
  | .string s =>
    let trimmed := trim s
    if isDecimalString trimmed = false then
      throw (.error (text "amount must be a base-10 integer string; received \"" ++ s ++ text "\""))
    else orThrow (.error (text "Cannot convert " ++ trimmed ++ text " to a BigInt"))
      (stringToBigInt trimmed)
  -- the value has no method `trim`
  | .undefined | .null | .bool _ | .array _ | .object _ => throw .type

def normalizeAmountString (value : JsValue) : Except FlowError JsString := do
  let amount ← normalizeAmountBigInt value
  pure (intToString amount)

structure LiveTraceOverrides where
  owner : JsString
  agentId : JsString
  intentHash : JsString
  target : JsString
  token : JsString
  amount : JsValue

def prepareLiveTrace (trace : JsValue) (overrides : LiveTraceOverrides) :
    Except FlowError JsValue := do
  let owner ← getAddress A overrides.owner
  throwIf (trace.isNullish = true) .type
  let target ← getAddress A overrides.target
  let token ← getAddress A overrides.token
  let amount ← normalizeAmountString overrides.amount
  let proposedAction :=
    setKey (setKey (setKey (spread (trace.get "proposedAction")) "target" (.string target))
    "token" (.string token)) "amount" (.string amount)
  pure (.object (setKey (setKey (setKey (setKey (spread trace) "owner" (.string owner))
    "agentId" (.string overrides.agentId)) "intentHash" (.string overrides.intentHash))
    "proposedAction" (.object proposedAction)))

structure TraceAck where
  contextDigest : JsString
  uriHash : Bytes32
  expiresAt : ℕ
  signature : Bytes

/-- `Omit<BuildExecutionRequestInput, "traceURI" | "traceAck">`. -/
structure RequestInput where
  owner : JsString
  agentId : JsString
  target : JsString
  token : JsString
  amount : JsValue
  data : Bytes

structure BuildExecutionRequestInput extends RequestInput where
  traceURI : JsString
  traceAck : TraceAck

structure ExecutionRequest where
  owner : JsString
  agentId : JsString
  target : JsString
  token : JsString
  amount : ℤ
  data : Bytes
  traceURI : JsString
  traceAck : TraceAck

def buildExecutionRequest (input : BuildExecutionRequestInput) :
    Except FlowError ExecutionRequest := do
  let traceURI := trim input.traceURI
  throwIf (traceURI = []) (.error (text "traceURI is required to build an ExecutionRequest"))
  let owner ← getAddress A input.owner
  let target ← getAddress A input.target
  let token ← getAddress A input.token
  let amount ← normalizeAmountBigInt input.amount
  pure
    { owner
      agentId := input.agentId
      target
      token
      amount
      data := input.data
      traceURI
      traceAck := input.traceAck }

/-! ### The flow -/

/-- A fixture file after `JSON.parse`. -/
structure Fixture where
  trace : JsValue
  expectedTarget : JsValue
  expectedAmount : JsValue
  distinctKeys : trace.DistinctKeys

structure AgentEnv where
  ownerAddress : JsString
  agentId : JsString

structure PreparedScenario where
  liveTrace : JsValue
  requestInput : RequestInput

/-- The string whose method `toLowerCase` is called; another value has none. -/
def receiver : JsValue → Except FlowError JsString
  | .string s => pure s
  | _ => throw .type

/-- `USDC` is the one of the deployment, and `intentHash` what the registry answers. -/
def prepareScenarioExecution (fixture : Fixture) (env : AgentEnv) (USDC : JsString)
    (intentHash : Bytes32) :
    Except FlowError PreparedScenario := do
  let expectedTarget ← receiver fixture.expectedTarget
  let normalizedTarget ← getAddress A expectedTarget
  let normalizedToken ← getAddress A USDC
  let normalizedOwner ← getAddress A env.ownerAddress
  throwIf (intentHash = 0)
    (.error (text "No active intent found for demo owner " ++ env.ownerAddress ++
    text ". Run npm run bootstrap first."))
  let liveTrace ← prepareLiveTrace A fixture.trace
    { owner := normalizedOwner
      agentId := env.agentId
      intentHash := toHex 64 intentHash
      target := normalizedTarget
      token := normalizedToken
      amount := fixture.expectedAmount }
  pure
    { liveTrace
      requestInput :=
        { owner := normalizedOwner
          agentId := env.agentId
          target := normalizedTarget
          token := normalizedToken
          amount := fixture.expectedAmount
          data := [] } }

structure TraceUploadResponse where
  traceURI : JsString
  contextDigest : JsString
  uriHash : Bytes32
  expiresAt : ℕ
  signature : Bytes

/-- `uploadTrace`, with the answer that comes back. -/
def uploadTrace (trace : JsValue) (data : TraceUploadResponse) :
    Except UploadError TraceUploadResponse := do
  let (localDigest, _) ← uploadRequest K trace
  throwIf (data.contextDigest ≠ localDigest) (.digestMismatch localDigest data.contextDigest)
  pure data

def toTraceAck (response : TraceUploadResponse) : TraceAck where
  contextDigest := response.contextDigest
  uriHash := response.uriHash
  expiresAt := response.expiresAt
  signature := response.signature

/-- `runExecuteFlow` up to the request, with the trace that it uploads. -/
def runExecuteFlow (fixture : Fixture) (env : AgentEnv) (USDC : JsString) (intentHash : Bytes32)
    (data : TraceUploadResponse) : Except FlowError (JsValue × ExecutionRequest) := do
  let prepared ← prepareScenarioExecution A fixture env USDC intentHash
  let traceResponse ← (uploadTrace K prepared.liveTrace data).mapError .upload
  let executionRequest ← buildExecutionRequest A
    { prepared.requestInput with
      traceURI := traceResponse.traceURI
      traceAck := toTraceAck traceResponse }
  pure (prepared.liveTrace, executionRequest)

/-- The argument of the executor's functions as `viem` encodes it, `none` where it throws. -/
def ExecutionRequest.encoded (req : ExecutionRequest) : Option IntentGuard.ExecutionRequest := do
  let owner ← hexLiteral 40 req.owner
  let agentId ← hexLiteral 64 req.agentId
  let target ← hexLiteral 40 req.target
  let token ← hexLiteral 40 req.token
  let amount ← Signer.uint256 req.amount
  let contextDigest ← hexLiteral 64 req.traceAck.contextDigest
  if req.traceAck.expiresAt < 2 ^ 64 then
    some
      { owner
        agentId
        target
        token
        amount
        data := req.data
        traceURI := Js.encode req.traceURI
        traceAck := ⟨contextDigest, req.traceAck.uriHash, UInt64.ofNat req.traceAck.expiresAt,
          req.traceAck.signature⟩ }
  else none

/-! ### The live trace -/

theorem get_setKey (entries : List (JsString × JsValue)) (key : String) (value : JsValue)
    (key' : String) :
    (JsValue.object (setKey entries key value)).get key' =
      if text key' = text key then value else (JsValue.object entries).get key' := by
  have hfind : Table.find Prod.fst (text key') (setKey entries key value) = _ :=
    Table.find_upsert (fun _ _ => rfl) (text key') entries
  show ((Table.find Prod.fst (text key') (setKey entries key value)).map Prod.snd).getD .undefined =
    _
  rw [hfind]
  by_cases hkey : text key = text key'
  · rw [if_pos hkey, if_pos hkey.symm]
    cases Table.find Prod.fst (text key') entries <;> rfl
  · rw [if_neg hkey, if_neg fun h => hkey h.symm]
    rfl

theorem meetsEntries_setKey {C : Condition} {entries : List (JsString × JsValue)}
    (hes : JsValue.MeetsEntries C entries) (key : String) {value : JsValue}
    (hvalue : value.Meets C) : JsValue.MeetsEntries C (setKey entries key value) := by
  rw [JsValue.meetsEntries_iff] at hes ⊢
  intro e he
  rcases Table.mem_upsert he with rfl | he | ⟨e', -, -, rfl⟩
  · exact hvalue
  · exact hes e he
  · exact hvalue

theorem meetsEntries_spread {v : JsValue} (hv : v.DistinctKeys) :
    JsValue.MeetsEntries JsValue.distinct (spread v) := by
  cases v with
  | object es => exact hv.2
  | array vs =>
    rw [JsValue.meetsEntries_iff]
    intro e he
    obtain ⟨p, hp, rfl⟩ := List.mem_map.1 he
    exact (JsValue.meetsItems_iff _ _).1 hv _ (List.fst_mem_of_mem_zipIdx hp)
  | string s =>
    rw [JsValue.meetsEntries_iff]
    intro e he
    obtain ⟨p, -, rfl⟩ := List.mem_map.1 he
    trivial
  | _ => trivial

variable {A K}

/-- The values that the live trace carries. -/
structure Carries (live : JsValue) (owner agentId target token : JsString) (amount : ℤ) : Prop where
  owner : live.get "owner" = .string owner
  agentId : live.get "agentId" = .string agentId
  target : (live.get "proposedAction").get "target" = .string target
  token : (live.get "proposedAction").get "token" = .string token
  amount : (live.get "proposedAction").get "amount" = .string (intToString amount)

theorem carries_of_prepareLiveTrace {trace live : JsValue} {overrides : LiveTraceOverrides}
    (h : prepareLiveTrace A trace overrides = .ok live) :
    ∃ owner target token amount, getAddress A overrides.owner = .ok owner ∧
      getAddress A overrides.target = .ok target ∧
      getAddress A overrides.token = .ok token ∧
      normalizeAmountBigInt overrides.amount = .ok amount ∧
        Carries live owner overrides.agentId target token amount := by
  unfold prepareLiveTrace at h
  obtain ⟨owner, howner, h⟩ := bind_eq_ok.1 h
  obtain ⟨_, -, h⟩ := bind_eq_ok.1 h
  obtain ⟨target, htarget, h⟩ := bind_eq_ok.1 h
  obtain ⟨token, htoken, h⟩ := bind_eq_ok.1 h
  obtain ⟨amountString, hstring, h⟩ := bind_eq_ok.1 h
  obtain ⟨amount, hamount, hstring⟩ := bind_eq_ok.1 hstring
  obtain rfl := Except.ok.inj hstring
  extract_lets action at h
  obtain rfl := Except.ok.inj h
  refine ⟨owner, target, token, amount, howner, htarget, htoken, hamount, ?_⟩
  have haction :
      (JsValue.object (setKey (setKey (setKey (setKey (spread trace) "owner" (.string owner))
          "agentId" (.string overrides.agentId)) "intentHash" (.string overrides.intentHash))
        "proposedAction" (.object action))).get "proposedAction" = .object action := by
    rw [get_setKey]
    rfl
  constructor
  · simp only [get_setKey]
    rfl
  · simp only [get_setKey]
    rfl
  · rw [haction]
    simp only [action, get_setKey]
    rfl
  · rw [haction]
    simp only [action, get_setKey]
    rfl
  · rw [haction]
    simp only [action, get_setKey]
    rfl

theorem distinctKeys_of_prepareLiveTrace {trace live : JsValue} (htrace : trace.DistinctKeys)
    {overrides : LiveTraceOverrides} (h : prepareLiveTrace A trace overrides = .ok live)
    (hkeys : HasKeys requiredKeys live)
    (hactionKeys : HasKeys proposedActionKeys (live.get "proposedAction")) : live.DistinctKeys := by
  have hnodup : ∀ {keys : List String} {es : List (JsString × JsValue)}, (keys.map text).Nodup →
      HasKeys keys (.object es) → (es.map Prod.fst).Nodup := by
    rintro keys es hkeys ⟨es', hes, hperm⟩
    obtain rfl := JsValue.object.inj hes
    exact hperm.nodup_iff.2 hkeys
  unfold prepareLiveTrace at h
  obtain ⟨owner, -, h⟩ := bind_eq_ok.1 h
  obtain ⟨_, -, h⟩ := bind_eq_ok.1 h
  obtain ⟨target, -, h⟩ := bind_eq_ok.1 h
  obtain ⟨token, -, h⟩ := bind_eq_ok.1 h
  obtain ⟨amount, -, h⟩ := bind_eq_ok.1 h
  extract_lets action at h
  obtain rfl := Except.ok.inj h
  have haction :
      (JsValue.object (setKey (setKey (setKey (setKey (spread trace) "owner" (.string owner))
          "agentId" (.string overrides.agentId)) "intentHash" (.string overrides.intentHash))
        "proposedAction" (.object action))).get "proposedAction" = .object action := by
    rw [get_setKey]
    rfl
  rw [haction] at hactionKeys
  have hstring : ∀ s, (JsValue.string s).DistinctKeys := fun _ => trivial
  have htarget := meetsEntries_setKey (meetsEntries_spread (htrace.get "proposedAction")) "target"
    (hstring target)
  have htoken := meetsEntries_setKey htarget "token" (hstring token)
  have hactionDistinct : (JsValue.object action).DistinctKeys :=
    ⟨hnodup (by decide) hactionKeys, meetsEntries_setKey htoken "amount" (hstring amount)⟩
  have howner := meetsEntries_setKey (meetsEntries_spread htrace) "owner" (hstring owner)
  have hagentId := meetsEntries_setKey howner "agentId" (hstring overrides.agentId)
  have hintentHash := meetsEntries_setKey hagentId "intentHash" (hstring overrides.intentHash)
  exact ⟨hnodup (by decide) hkeys, meetsEntries_setKey hintentHash "proposedAction" hactionDistinct⟩

/-! ### The decoded trace -/

/-- Looking a key up in distinct keys does not depend on their order. -/
theorem find_sortByKey {α : Type} {es : List (JsString × α)} (hes : (es.map Prod.fst).Nodup)
    (k : JsString) :
    (sortByKey le es).find? (fun e => e.1 = k) = es.find? fun e => e.1 = k :=
  have hsorted : ((sortByKey le es).map Prod.fst).Nodup :=
    ((sortByKey_perm es).map Prod.fst).nodup_iff.2 hes
  (Table.perm_iff_find hsorted hes).1 (sortByKey_perm es) k

theorem get?_jsonOf {v : JsValue} (hv : v.DistinctKeys) {key : String} {w : JsValue}
    (hget : v.get key = w) (hw : w ≠ .undefined) : (jsonOf v).get? key = some (jsonOf w) := by
  cases v with
  | object es =>
    have hkeys : ((jsonOfEntries es).map Prod.fst).Nodup := (keys_jsonOfEntries es).symm ▸ hv.1
    show ((sortByKey le (jsonOfEntries es)).find? fun e => e.1 = text key).map Prod.snd = _
    rw [find_sortByKey hkeys]
    have hfind : ((es.find? fun e => e.1 = text key).map Prod.snd).getD .undefined = w := hget
    clear hv hkeys hget
    induction es with
    | nil => exact absurd hfind.symm hw
    | cons e es ih =>
      obtain ⟨k, x⟩ := e
      unfold jsonOfEntries
      rw [List.find?_cons] at hfind ⊢
      by_cases hk : k = text key
      · rw [decide_eq_true hk] at hfind ⊢
        obtain rfl : x = w := hfind
        rfl
      · rw [decide_eq_false hk] at hfind ⊢
        exact ih hfind
  | _ => exact absurd hget.symm hw

theorem get?_enumerated {v w : Json} (hv : v.Plain) {key : String} (hget : v.get? key = some w) :
    v.enumerated.get? key = some w.enumerated := by
  cases v with
  | object es =>
    have hkeys : ((enumeratedEntries es).map Prod.fst).Nodup :=
      (keys_enumeratedEntries es).symm ▸ hv.1
    have hsorted : ((enumerate (enumeratedEntries es)).map Prod.fst).Nodup :=
      ((enumerate_perm _).map Prod.fst).nodup_iff.2 hkeys
    have hperm : (enumerate (enumeratedEntries es)).find? (fun e => e.1 = text key) =
        (enumeratedEntries es).find? fun e => e.1 = text key :=
      (Table.perm_iff_find hsorted hkeys).1 (enumerate_perm _) (text key)
    show ((enumerate (enumeratedEntries es)).find? fun e => e.1 = text key).map Prod.snd = _
    rw [hperm]
    have hfind : (es.find? fun e => e.1 = text key).map Prod.snd = some w := hget
    clear hv hkeys hsorted hperm hget
    induction es with
    | nil => exact absurd hfind nofun
    | cons e es ih =>
      obtain ⟨k, x⟩ := e
      unfold enumeratedEntries
      rw [List.find?_cons] at hfind ⊢
      by_cases hk : k = text key
      · rw [decide_eq_true hk] at hfind ⊢
        obtain rfl := Option.some.inj hfind
        rfl
      · rw [decide_eq_false hk] at hfind ⊢
        exact ih hfind
  | _ => exact absurd hget nofun

/-- The payload names the parties and the payment of the request. -/
structure Proposes (payload : Json) (req : ExecutionRequest) : Prop where
  owner : ∃ a, hexField 40 "owner" payload = some a ∧ hexLiteral 40 req.owner = some a
  agentId : ∃ a, hexField 64 "agentId" payload = some a ∧ hexLiteral 64 req.agentId = some a
  action : ∃ action, payload.get? "proposedAction" = some action ∧
    (∃ a, hexField 40 "target" action = some a ∧ hexLiteral 40 req.target = some a) ∧
    (∃ a, hexField 40 "token" action = some a ∧ hexLiteral 40 req.token = some a) ∧
    ∃ s, action.get? "amount" = some (.string s) ∧ isDecimalString s = true ∧
      stringToBigInt s = some req.amount

/-- A JSON value that is read at a key of the canonical text. -/
theorem get?_payload {v : JsValue} (hv : v.DistinctKeys) (hplain : (jsonOf v).Plain)
    {key : String} {w : JsValue} (hget : v.get key = w) (hw : w ≠ .undefined) :
    (jsonOf v).enumerated.get? key = some (jsonOf w).enumerated :=
  get?_enumerated hplain (get?_jsonOf hv hget hw)

theorem plain_of_get? {v w : Json} (hv : v.Plain) {key : String} (hget : v.get? key = some w) :
    w.Plain := by
  cases v with
  | object es =>
    obtain ⟨e, he, rfl⟩ :=
      Option.map_eq_some_iff.1
        (show (es.find? fun e => e.1 = text key).map Prod.snd = some w from hget)
    exact (meetsEntries_iff _ _).1 hv.2 e (List.mem_of_find?_eq_some he)
  | _ => exact absurd hget nofun

/-! ### The steps of the flow -/

theorem mapError_eq_ok {ε ε' α : Type} {f : ε → ε'} {x : Except ε α} {a : α} :
    x.mapError f = .ok a ↔ x = .ok a := by
  cases x with
  | error e => exact iff_of_false nofun nofun
  | ok b =>
    exact ⟨fun h => congrArg Except.ok (Except.ok.inj h),
      fun h => congrArg Except.ok (Except.ok.inj h)⟩

theorem exists_serialized {t : JsValue} {p : JsString × JsString} (h : uploadRequest K t = .ok p) :
    ∃ d, serializeCanonical t = .ok d ∧ p.1 = toHex 64 (K.bytes (Js.encode d)) := by
  unfold uploadRequest computeContextDigest at h
  obtain ⟨_, -, h⟩ := bind_eq_ok.1 h
  obtain ⟨localDigest, hdigest, h⟩ := bind_eq_ok.1 h
  obtain ⟨d, hd, hdigest⟩ := bind_eq_ok.1 (mapError_eq_ok.1 hdigest)
  obtain ⟨_, -, h⟩ := bind_eq_ok.1 h
  obtain ⟨_, -, h⟩ := bind_eq_ok.1 h
  obtain rfl := Except.ok.inj h
  exact ⟨d, hd, (Except.ok.inj hdigest).symm⟩

theorem uploadTrace_eq_ok {t : JsValue} {data response : TraceUploadResponse}
    (h : uploadTrace K t data = .ok response) :
    response = data ∧ ∃ d, serializeCanonical t = .ok d ∧
    data.contextDigest = toHex 64 (K.bytes (Js.encode d)) := by
  unfold uploadTrace at h
  obtain ⟨⟨localDigest, request⟩, hrequest, h⟩ := bind_eq_ok.1 h
  obtain ⟨_, hmatches, h⟩ := bind_eq_ok.1 h
  obtain ⟨d, hd, hdigest⟩ := exists_serialized hrequest
  rw [throwIf_eq_ok, ne_eq, not_not] at hmatches
  exact ⟨(Except.ok.inj h).symm, d, hd, hmatches.trans hdigest⟩

/-- What a request has from its input. -/
structure Built (A : AddressChecksum) (input : BuildExecutionRequestInput)
    (req : ExecutionRequest) : Prop where
  owner : getAddress A input.owner = .ok req.owner
  target : getAddress A input.target = .ok req.target
  token : getAddress A input.token = .ok req.token
  amount : normalizeAmountBigInt input.amount = .ok req.amount
  agentId : req.agentId = input.agentId
  traceURI : req.traceURI = trim input.traceURI
  traceAck : req.traceAck = input.traceAck

theorem built_of_buildExecutionRequest {input : BuildExecutionRequestInput} {req : ExecutionRequest}
    (h : buildExecutionRequest A input = .ok req) : Built A input req := by
  unfold buildExecutionRequest at h
  obtain ⟨_, -, h⟩ := bind_eq_ok.1 h
  obtain ⟨owner, howner, h⟩ := bind_eq_ok.1 h
  obtain ⟨target, htarget, h⟩ := bind_eq_ok.1 h
  obtain ⟨token, htoken, h⟩ := bind_eq_ok.1 h
  obtain ⟨amount, hamount, h⟩ := bind_eq_ok.1 h
  obtain rfl := Except.ok.inj h
  exact ⟨howner, htarget, htoken, hamount, rfl, rfl, rfl⟩

/-- The two ways of the values, up to the texts that they arrive as. -/
theorem runExecuteFlow_eq_ok {fixture : Fixture} {env : AgentEnv} {USDC : JsString}
    {intentHash : Bytes32} {data : TraceUploadResponse} {live : JsValue} {req : ExecutionRequest}
    (h : runExecuteFlow A K fixture env USDC intentHash data = .ok (live, req)) :
    Carries live req.owner env.agentId req.target req.token req.amount ∧ req.agentId = env.agentId ∧
      req.traceURI = trim data.traceURI ∧ req.traceAck = toTraceAck data ∧
        ∃ d, serializeCanonical live = .ok d ∧ live.DistinctKeys ∧
          data.contextDigest = toHex 64 (K.bytes (Js.encode d)) := by
  unfold runExecuteFlow at h
  obtain ⟨prepared, hprepared, h⟩ := bind_eq_ok.1 h
  obtain ⟨response, hupload, h⟩ := bind_eq_ok.1 h
  obtain ⟨request, hbuilt, h⟩ := bind_eq_ok.1 h
  obtain ⟨rfl, rfl⟩ := Prod.mk.inj (Except.ok.inj h)
  obtain ⟨rfl, d, hd, hdigest⟩ := uploadTrace_eq_ok (mapError_eq_ok.1 hupload)
  have hbuilt := built_of_buildExecutionRequest hbuilt
  unfold prepareScenarioExecution at hprepared
  obtain ⟨expectedTarget, -, hprepared⟩ := bind_eq_ok.1 hprepared
  obtain ⟨normalizedTarget, -, hprepared⟩ := bind_eq_ok.1 hprepared
  obtain ⟨normalizedToken, -, hprepared⟩ := bind_eq_ok.1 hprepared
  obtain ⟨normalizedOwner, -, hprepared⟩ := bind_eq_ok.1 hprepared
  obtain ⟨_, -, hprepared⟩ := bind_eq_ok.1 hprepared
  obtain ⟨live, hlive, hprepared⟩ := bind_eq_ok.1 hprepared
  obtain rfl := Except.ok.inj hprepared
  -- both ways normalize the same values once more
  obtain ⟨owner, target, token, amount, howner, htarget, htoken, hamount, hcarries⟩ :=
    carries_of_prepareLiveTrace hlive
  obtain rfl := Except.ok.inj (hbuilt.owner.symm.trans howner)
  obtain rfl := Except.ok.inj (hbuilt.target.symm.trans htarget)
  obtain rfl := Except.ok.inj (hbuilt.token.symm.trans htoken)
  obtain rfl := Except.ok.inj (hbuilt.amount.symm.trans hamount)
  have hshaped := shaped_of_validate (validate_of_serializeCanonical hd)
  have hdistinct :=
    distinctKeys_of_prepareLiveTrace fixture.distinctKeys hlive hshaped.root hshaped.proposedAction
  exact ⟨hcarries, hbuilt.agentId, hbuilt.traceURI, hbuilt.traceAck, d, hd, hdistinct, hdigest⟩

/-! ### What arrives -/

theorem get_record {fields : List (String × JsValue)} (hkeys : (fields.map fun f => text f.1).Nodup)
    {key : String} {v : JsValue} (hf : (key, v) ∈ fields) : (record fields).get key = v := by
  have hnodup : ((fields.map fun f => (text f.1, f.2)).map Prod.fst).Nodup := by rwa [List.map_map]
  exact get_of_mem hnodup (List.mem_map_of_mem hf) rfl

/-- What the normal form keeps of the trace. -/
theorem get_normalizeTrace (live : JsValue) :
    (normalizeTrace live).get "owner" = live.get "owner" ∧ (normalizeTrace live).get "agentId" =
      live.get "agentId" ∧
      (normalizeTrace live).get "proposedAction" =
        record (proposedActionKeys.map fun f => (f, (live.get "proposedAction").get f)) := by
  have hkeys : (requiredKeys.map text).Nodup := by decide
  unfold normalizeTrace
  refine ⟨get_record ?_ (List.mem_of_getElem? (i := 2) rfl),
    get_record ?_ (List.mem_of_getElem? (i := 1) rfl),
    get_record ?_ (List.mem_of_getElem? (i := 8) rfl)⟩
  · exact hkeys
  · exact hkeys
  · exact hkeys

theorem get_select (v : JsValue) {keys : List String} (hkeys : (keys.map text).Nodup) {key : String}
    (hkey : key ∈ keys) :
    (record (keys.map fun f => (f, v.get f))).get key = v.get key := by
  refine get_record ?_ (List.mem_map_of_mem hkey)
  rwa [List.map_map]

theorem stringToBigInt_intToString {n : ℤ} (h : isDecimalString (intToString n) = true) :
    stringToBigInt (intToString n) = some n := by
  cases n with
  | ofNat m =>
    rw [Int.ofNat_eq_natCast, intToString_natCast]
    exact ManifestStore.stringToBigInt_natToString m
  | negSucc m =>
    unfold intToString at h
    rw [if_pos (Int.negSucc_lt_zero m)] at h
    exact absurd h (by simp [isDecimalString])

/-- The acknowledgement is for the trace, and the trace is about the request. -/
structure Agrees (K : Keccak) (live : JsValue) (req : ExecutionRequest) : Prop where
  canonical : ∃ d payload, serializeCanonical live = .ok d ∧ JSON.parse d = some payload ∧
    req.traceAck.contextDigest = toHex 64 (K.bytes (Js.encode d)) ∧ Proposes payload req

/-- A hexadecimal string that is read at a key of the canonical text. -/
theorem hexField_payload {v : JsValue} (hv : v.DistinctKeys) (hplain : (jsonOf v).Plain) {n : ℕ}
    {key : String} {s : JsString} (hget : v.get key = .string s) (hhex : IsHex n (.string s)) :
    ∃ a, hexField n key (jsonOf v).enumerated = some a ∧ hexLiteral n s = some a := by
  obtain ⟨s', hs', hvalue⟩ := hhex
  obtain rfl := JsValue.string.inj hs'
  obtain ⟨a, ha⟩ := Option.ne_none_iff_exists'.1 hvalue
  refine ⟨a, ?_, ha⟩
  unfold hexField
  rw [get?_payload hv hplain hget nofun]
  exact ha

/-- For every spelling of the fixture, the environment and the deployment, and for every answer of
the service that the client accepts. -/
theorem request_agrees {fixture : Fixture} {env : AgentEnv} {USDC : JsString} {intentHash : Bytes32}
    {data : TraceUploadResponse} {live : JsValue} {req : ExecutionRequest}
    (h : runExecuteFlow A K fixture env USDC intentHash data = .ok (live, req)) :
    Agrees K live req := by
  obtain ⟨hcarries, hagentId, -, htraceAck, d, hd, hlive, hdigest⟩ := runExecuteFlow_eq_ok h
  obtain ⟨hchecked, hconvertible⟩ := validate_eq_ok_iff.1 (validate_of_serializeCanonical hd)
  have hplain := plain_serializeCanonical hlive hd
  have hnormal := normalizeTrace_distinctKeys hlive
  obtain ⟨hgetOwner, hgetAgentId, hgetAction⟩ := get_normalizeTrace live
  have hpayload := get?_jsonOf hnormal hgetAction nofun
  have haction :
      (record (proposedActionKeys.map
        fun f => (f, (live.get "proposedAction").get f))).DistinctKeys :=
    hgetAction ▸ hnormal.get "proposedAction"
  have hactionPlain := plain_of_get? hplain hpayload
  have hactionKeys : (proposedActionKeys.map text).Nodup := by decide
  have htarget :=
    (get_select (live.get "proposedAction") hactionKeys (List.mem_of_getElem? (i := 0) rfl)).trans
      hcarries.target
  have htoken :=
    (get_select (live.get "proposedAction") hactionKeys (List.mem_of_getElem? (i := 1) rfl)).trans
      hcarries.token
  have hamount :=
    (get_select (live.get "proposedAction") hactionKeys (List.mem_of_getElem? (i := 2) rfl)).trans
      hcarries.amount
  obtain ⟨s, hs, hdecimal⟩ := hconvertible.amount
  rw [hcarries.amount] at hs
  obtain rfl := Option.some.inj hs
  refine ⟨⟨d, _, hd, parse_serializeCanonical hlive hd, ?_, ?_⟩⟩
  · rw [htraceAck]
    exact hdigest
  · exact
      { owner :=
          hexField_payload hnormal hplain (hgetOwner.trans hcarries.owner)
            (hcarries.owner ▸ hchecked.owner)
        agentId := hagentId ▸
          hexField_payload hnormal hplain (hgetAgentId.trans hcarries.agentId)
            (hcarries.agentId ▸ hchecked.agentId)
        action :=
          ⟨_, get?_enumerated hplain hpayload,
            hexField_payload haction hactionPlain htarget (hcarries.target ▸ hchecked.target),
            hexField_payload haction hactionPlain htoken (hcarries.token ▸ hchecked.token),
            intToString req.amount, get?_payload haction hactionPlain hamount nofun, hdecimal,
            stringToBigInt_intToString hdecimal⟩ }

/-! ### The URI -/

/-- Trimming keeps the bytes of a string only when it keeps the string. -/
theorem encode_trim_iff {s : JsString} : Js.encode (trim s) = Js.encode s ↔ trim s = s := by
  refine ⟨fun h => ?_, congrArg Js.encode⟩
  obtain ⟨before, after, hs, -, -⟩ := exists_trim s
  have hlength := length_eq_of_encode_eq h
  have hsum := congrArg List.length hs
  rw [List.length_append, List.length_append] at hsum
  obtain rfl : before = [] := List.eq_nil_of_length_eq_zero (by omega)
  obtain rfl : after = [] := List.eq_nil_of_length_eq_zero (by omega)
  rw [List.nil_append, List.append_nil] at hs
  exact hs.symm

/-- The URIs of the two pinners. -/
inductive Pinned (S : LocalCas.Sha256) : JsString → Prop
  | localCas (publicBaseUrl : JsString) (b : Bytes) :
      Pinned S (LocalCas.pinnedUri publicBaseUrl (S.hex b))
  | web3Storage (cid : JsString) : Pinned S (text "ipfs://" ++ cid)

theorem not_blank_of_isHexDigit {u : UInt16} (h : LocalCas.isHexDigit u = true) :
    isBlank u = false := by
  unfold LocalCas.isHexDigit at h
  unfold isBlank
  simp only [Bool.or_eq_true, Bool.and_eq_true, decide_eq_true_eq] at h
  simp only [decide_eq_false_iff_not]
  omega

theorem head?_pinnedUri (publicBaseUrl hash : JsString) :
    (LocalCas.pinnedUri publicBaseUrl hash).head? = some (publicBaseUrl.head?.getD 47) := by
  unfold LocalCas.pinnedUri LocalCas.stripSlash
  cases publicBaseUrl with
  | nil => rfl
  | cons u rest =>
    cases rest with
    | nil =>
      split_ifs with hslash
      · obtain rfl := Option.some.inj hslash
        rfl
      · rfl
    | cons v rest =>
      split_ifs
      · rfl
      · rfl

/-- The URI of the local store has white space around it exactly when `PUBLIC_BASE_URL` begins with
some. -/
theorem trim_pinnedUri_iff {S : LocalCas.Sha256} {publicBaseUrl : JsString} {b : Bytes} :
    trim (LocalCas.pinnedUri publicBaseUrl (S.hex b)) = LocalCas.pinnedUri publicBaseUrl (S.hex b) ↔
      ∀ u ∈ publicBaseUrl.head?, isBlank u = false := by
  obtain ⟨hlength, hdigits⟩ := S.spelled b
  have hne : S.hex b ≠ [] := List.ne_nil_of_length_pos (by omega)
  have hlast : ∀ u ∈ (LocalCas.pinnedUri publicBaseUrl (S.hex b)).getLast?, isBlank u = false := by
    intro u hu
    unfold LocalCas.pinnedUri at hu
    rw [List.getLast?_append_of_ne_nil _ hne] at hu
    exact not_blank_of_isHexDigit (List.all_eq_true.1 hdigits u (List.mem_of_getLast? hu))
  rw [trim_eq_self_iff, and_iff_left hlast, head?_pinnedUri]
  cases publicBaseUrl with
  | nil => exact iff_of_true (fun u hu => Option.some.inj hu ▸ rfl) nofun
  | cons u rest => exact Iff.rfl

/-- The acknowledgement is signed for the request, by the signer that the executor knows, and has
not expired. -/
structure Fresh {D : Deployment} (key : SigningKey D.tryRecover) (w : World D)
    (req : IntentGuard.ExecutionRequest) :
    Prop where
  signer : w.executor.traceAckSigner = key.address
  unexpired : w.now < req.traceAck.expiresAt.toNat
  signature : req.traceAck.signature = key.sign
    (GuardedExecutor.traceAckDigest D.keccak D.guardedExecutor D.chainid req.traceAck.contextDigest
      req.traceAck.uriHash
      req.traceAck.expiresAt req.agentId req.owner)

/-- The acknowledgement fits the request, and the guard never takes a fresh one for invalid. -/
structure Acknowledged {D : Deployment} (key : SigningKey D.tryRecover) (live : JsValue)
    (req : ExecutionRequest) : Prop
    extends Agrees D.keccak live req where
  uriHash : D.keccak.bytes (Js.encode req.traceURI) = req.traceAck.uriHash
  accepted : ∀ chainReq, req.encoded = some chainReq → ∀ (w : World D) (sender : Address),
    Fresh key w chainReq →
    GuardedExecutor._checkGuard w sender chainReq ≠
      .ok (.RED, GuardConstants.TRACE_ACK_INVALID D.keccak)

theorem not_invalid_of_fresh {D : Deployment} (hK : D.keccak.CollisionFree)
    {key : SigningKey D.tryRecover} {w : World D} {sender : Address}
    {req : IntentGuard.ExecutionRequest} (hfresh : Fresh key w req)
    (huri : D.keccak.bytes req.traceURI = req.traceAck.uriHash) :
    GuardedExecutor._checkGuard w sender req ≠
      .ok (.RED, GuardConstants.TRACE_ACK_INVALID D.keccak) := by
  have hgreen : GuardedExecutor.checkTraceAck w req = (.GREEN, 0) := by
    unfold GuardedExecutor.checkTraceAck
    dsimp only
    rw [if_neg (Nat.not_le.2 hfresh.unexpired), if_neg (not_not.2 huri), hfresh.signature,
      key.recover_sign, hfresh.signer]
    exact if_neg (not_not.2 rfl)
  intro h
  have hrejects := (checkGuard_rejects (r := .TRACE_ACK_INVALID) hK).1 h
  cases hrejects with
  | traceAck _ _ hred => exact absurd (hgreen.symm.trans hred) nofun

/-- The URI of an encoded request. -/
theorem encoded_eq_some {req : ExecutionRequest} {chainReq : IntentGuard.ExecutionRequest}
    (h : req.encoded = some chainReq) :
    chainReq.traceURI = Js.encode req.traceURI ∧
    chainReq.traceAck.uriHash = req.traceAck.uriHash := by
  unfold ExecutionRequest.encoded at h
  simp only [Option.bind_eq_bind, Option.bind_eq_some_iff] at h
  obtain ⟨owner, -, agentId, -, target, -, token, -, amount, -, contextDigest, -, h⟩ := h
  split_ifs at h
  obtain rfl := Option.some.inj h
  exact ⟨rfl, rfl⟩

/-- When the service has hashed the URI that it answers, the request that is built from the answer
is the acknowledged one exactly when the URI has no white space around it. -/
theorem request_acknowledged_iff {D : Deployment} (hK : D.keccak.CollisionFree)
    (key : SigningKey D.tryRecover) {fixture : Fixture} {env : AgentEnv} {USDC : JsString}
    {intentHash : Bytes32} {data : TraceUploadResponse} {live : JsValue} {req : ExecutionRequest}
    (huri : data.uriHash = D.keccak.bytes (Js.encode data.traceURI))
    (h : runExecuteFlow A D.keccak fixture env USDC intentHash data = .ok (live, req)) :
    Acknowledged key live req ↔ trim data.traceURI = data.traceURI := by
  obtain ⟨-, -, hreqUri, hack, -⟩ := runExecuteFlow_eq_ok h
  have hhash : req.traceAck.uriHash = D.keccak.bytes (Js.encode data.traceURI) := by
    rw [hack]
    exact huri
  constructor
  · intro hacknowledged
    have hbytes := hK.bytes (hacknowledged.uriHash.trans hhash)
    rw [hreqUri] at hbytes
    exact encode_trim_iff.1 hbytes
  · intro htrim
    have hmatches : D.keccak.bytes (Js.encode req.traceURI) = req.traceAck.uriHash := by
      rw [hhash, hreqUri, htrim]
    refine { toAgrees := request_agrees h, uriHash := hmatches, accepted := ?_ }
    intro chainReq hencoded w sender hfresh
    obtain ⟨hchainUri, hchainHash⟩ := encoded_eq_some hencoded
    exact not_invalid_of_fresh hK hfresh (by rw [hchainUri, hchainHash, hmatches])

end IntentGuard.Agent

namespace IntentGuard.Localnet

open Js Infra Trace Agent

def paymentFixture : Fixture where
  trace := paymentTrace (.string (text "1")) zero
  expectedTarget := .string (text "0X3333333333333333333333333333333333333333")
  expectedAmount := .string (text " 02000000 ")
  distinctKeys := paymentTrace_distinctKeys trivial trivial

def agentEnv : AgentEnv where
  ownerAddress := text "0x1111111111111111111111111111111111111111"
  agentId := toHex 64 agent

def USDC : JsString := text "0x2222222222222222222222222222222222222222"

/-- An answer with the digest of the trace. -/
def answer (traceURI : JsString) : TraceUploadResponse where
  traceURI
  contextDigest :=
    (do
      let prepared ← (prepareScenarioExecution lowerCase paymentFixture agentEnv USDC 1).toOption
      (computeContextDigest localnet.keccak prepared.liveTrace).toOption).getD []
  uriHash := localnet.keccak.bytes (Js.encode traceURI)
  expiresAt := 600
  signature := []

theorem exists_request {traceURI : JsString}
    (h : (runExecuteFlow lowerCase localnet.keccak paymentFixture agentEnv USDC 1
      (answer traceURI)).isOk = true) :
    ∃ live req, runExecuteFlow lowerCase localnet.keccak paymentFixture agentEnv USDC 1
      (answer traceURI) = .ok (live, req) := by
  generalize runExecuteFlow lowerCase localnet.keccak paymentFixture agentEnv USDC 1
    (answer traceURI) = result at h
  cases result with
  | error e => exact absurd h Bool.false_ne_true
  | ok r => exact ⟨r.1, r.2, rfl⟩

end IntentGuard.Localnet

namespace IntentGuard.Agent

open Js Infra Trace Localnet

/-- The service runs with a `PUBLIC_BASE_URL` that begins with a space. -/
theorem blank_uri_not_acknowledged :
    ¬ ∀ D : Deployment, D.keccak.CollisionFree →
      ∀ (key : SigningKey D.tryRecover) (S : LocalCas.Sha256)
      (A : AddressChecksum) (fixture : Fixture) (env : AgentEnv) (USDC : JsString)
        (intentHash : Bytes32)
      (data : TraceUploadResponse) (live : JsValue) (req : ExecutionRequest),
      Pinned S data.traceURI →
      data.uriHash = D.keccak.bytes (Js.encode data.traceURI) →
      runExecuteFlow A D.keccak fixture env USDC intentHash data = .ok (live, req) →
        Acknowledged key live req := by
  intro h
  have hok : (runExecuteFlow lowerCase localnet.keccak paymentFixture agentEnv USDC 1
      (answer (LocalCas.pinnedUri (text " http://localhost:8787") (sha256.hex [123, 125])))).isOk =
        true := by decide +kernel
  obtain ⟨live, req, hflow⟩ := exists_request hok
  have hacknowledged := h localnet Keccak.numbering_collisionFree traceKey sha256 lowerCase
    paymentFixture agentEnv USDC 1 _
    live req (.localCas _ _) rfl hflow
  obtain ⟨-, -, hreqUri, hack, -⟩ := runExecuteFlow_eq_ok hflow
  have huri := hacknowledged.uriHash
  rw [hack, hreqUri] at huri
  have htrim := encode_trim_iff.1 (Keccak.numbering_collisionFree.bytes huri)
  exact absurd (trim_pinnedUri_iff.1 htrim 32 rfl) (by decide)

/-- An answer from the local store of a service at a clean address. -/
theorem request_acknowledged_iff_localCas :
    ∃ live req, runExecuteFlow lowerCase localnet.keccak paymentFixture agentEnv USDC 1
        (answer (LocalCas.pinnedUri (text "http://localhost:8787/") (sha256.hex [123, 125]))) =
          .ok (live, req) ∧
      Acknowledged (D := localnet) traceKey live req := by
  have hok : (runExecuteFlow lowerCase localnet.keccak paymentFixture agentEnv USDC 1
      (answer (LocalCas.pinnedUri (text "http://localhost:8787/") (sha256.hex [123, 125])))).isOk =
        true := by decide +kernel
  obtain ⟨live, req, hflow⟩ := exists_request hok
  refine ⟨live, req, hflow,
    (request_acknowledged_iff Keccak.numbering_collisionFree traceKey rfl hflow).2 ?_⟩
  exact trim_pinnedUri_iff.2 fun u hu => Option.some.inj hu ▸ rfl

end IntentGuard.Agent
