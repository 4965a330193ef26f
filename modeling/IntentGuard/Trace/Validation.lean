import IntentGuard.Infra.Config
import IntentGuard.Trace.Value

/-!
# Validation

`validation.ts`: the checks that a value passes before it is serialized as a `DecisionTrace`.
-/

namespace IntentGuard.Trace

open Js Infra

inductive TraceError
  /-- A `DecisionTraceValidationError`. -/
  | validation (message : JsString)
  | error (message : JsString)
  /-- The engine's own error, where an object has no primitive value. -/
  | type
  deriving DecidableEq

def DECISION_TRACE_SCHEMA_VERSION : JsString := text "1.0.0"

/-- `keys.join(", ")`. -/
def joinKeys : List JsString → JsString
  | [] => []
  | [k] => k
  | k :: ks => k ++ text ", " ++ joinKeys ks

def assertString (value : JsValue) (field : JsString) : Except TraceError Unit :=
  match value with
  | .string _ => pure ()
  | _ => throw (.validation (field ++ text " must be a string"))

def assertNumber (value : JsValue) (field : JsString) : Except TraceError Unit :=
  match value with
  | .number _ => pure ()
  | _ => throw (.validation (field ++ text " must be a finite number"))

def assertInteger (value : JsValue) (field : JsString) : Except TraceError Unit :=
  let failure : TraceError := .validation (field ++ text " must be an integer")
  match value with
  | .number x => throwIf (isInteger x.1 = false) failure
  | _ => throw failure

def assertArray (value : JsValue) (field : JsString) : Except TraceError Unit :=
  match value with
  | .array _ => pure ()
  | _ => throw (.validation (field ++ text " must be an array"))

def assertRecord (value : JsValue) (field : JsString) : Except TraceError Unit :=
  match value with
  | .object _ => pure ()
  | _ => throw (.validation (field ++ text " must be an object"))

def assertHex (value : JsValue) (hexLength : ℕ) (field : JsString) : Except TraceError Unit :=
  let failure : TraceError :=
    .validation (field ++ text " must be a 0x-prefixed hex string with " ++ natToString hexLength ++
      text " hex chars")
  match value with
  | .string s => throwIf (hexLiteral hexLength s = none) failure
  | _ => throw failure

/-- The sorted keys are compared in length and one by one, with one message for both. -/
def assertExactKeys (value : List (JsString × JsValue)) (allowedKeys : List String)
    (field : JsString) :
    Except TraceError Unit :=
  let actualKeys := (value.map Prod.fst).insertionSort fun a b => le a b
  let expectedKeys := (allowedKeys.map text).insertionSort fun a b => le a b
  throwIf (actualKeys ≠ expectedKeys)
    (.validation (field ++ text " has unexpected keys: expected " ++ joinKeys expectedKeys))

def toRecord (value : JsValue) : Except TraceError (List (JsString × JsValue)) :=
  match value with
  | .object entries => pure entries
  | _ => throw (.validation (text "Expected object shape while validating DecisionTrace"))

/-- `/^\d+$/.test(s)`. -/
def isDecimalString (s : JsString) : Bool := s ≠ [] && s.all fun u => 48 ≤ u.toNat && u.toNat ≤ 57

/-- `/^0x[0-9a-fA-F]*$/.test(s)`. -/
def isHexString : JsString → Bool
  | 48 :: 120 :: digits => digits.all fun u => (hexValue u).isSome
  | _ => false

/-- `for (const [index, value] of values.entries())`. -/
def forEntries (body : ℕ → JsValue → Except TraceError Unit) :
    ℕ → List JsValue → Except TraceError Unit
  | _, [] => pure ()
  | index, v :: vs => do
    body index v
    forEntries body (index + 1) vs

def requiredKeys : List String :=
  ["schemaVersion", "agentId", "owner", "intentHash", "session", "prompts", "toolCalls",
    "observations", "proposedAction", "nonce"]

def sessionKeys : List String := ["id", "startedAt", "model", "temperature"]

def promptKeys : List String := ["role", "content", "timestamp"]

def toolCallKeys : List String := ["name", "input", "output", "timestamp"]

def observationKeys : List String := ["source", "content", "timestamp"]

def proposedActionKeys : List String := ["target", "token", "amount", "callData", "rationale"]

/-- `${array}[${index}]${rest}`. -/
def itemField (array : String) (index : ℕ) (rest : String) : JsString :=
  text array ++ text "[" ++ natToString index ++ text "]" ++ text rest

def validatePrompt (index : ℕ) (prompt : JsValue) : Except TraceError Unit := do
  assertExactKeys (← toRecord prompt) promptKeys (itemField "prompts" index "")
  match prompt.get "role" with
  | .string role =>
    throwIf (role ∉ [text "user", text "system", text "assistant"])
      (.validation (itemField "prompts" index ".role is invalid"))
  | _ => throw (.validation (itemField "prompts" index ".role is invalid"))
  assertString (prompt.get "content") (itemField "prompts" index ".content")
  assertInteger (prompt.get "timestamp") (itemField "prompts" index ".timestamp")

def validateToolCall (index : ℕ) (toolCall : JsValue) : Except TraceError Unit := do
  assertExactKeys (← toRecord toolCall) toolCallKeys (itemField "toolCalls" index "")
  assertString (toolCall.get "name") (itemField "toolCalls" index ".name")
  assertRecord (toolCall.get "input") (itemField "toolCalls" index ".input")
  assertRecord (toolCall.get "output") (itemField "toolCalls" index ".output")
  assertInteger (toolCall.get "timestamp") (itemField "toolCalls" index ".timestamp")

def validateObservation (index : ℕ) (observation : JsValue) : Except TraceError Unit := do
  assertExactKeys (← toRecord observation) observationKeys (itemField "observations" index "")
  assertString (observation.get "source") (itemField "observations" index ".source")
  assertString (observation.get "content") (itemField "observations" index ".content")
  assertInteger (observation.get "timestamp") (itemField "observations" index ".timestamp")

def validateDecisionTrace (trace : JsValue) : Except TraceError Unit := do
  let root ← toRecord trace
  requiredKeys.forM fun key =>
    throwIf (text key ∉ root.map Prod.fst)
      (.validation (text "DecisionTrace missing required field \"" ++ text key ++ text "\""))
  assertExactKeys root requiredKeys (text "DecisionTrace")
  match trace.get "schemaVersion" with
  | .string version =>
    throwIf (version ≠ DECISION_TRACE_SCHEMA_VERSION)
      (.validation (text "schemaVersion must be 1.0.0; received " ++ version))
  | other =>
    let received ← orThrow .type other.toString
    throw (.validation (text "schemaVersion must be 1.0.0; received " ++ received))
  assertHex (trace.get "agentId") 64 (text "agentId")
  assertHex (trace.get "owner") 40 (text "owner")
  assertHex (trace.get "intentHash") 64 (text "intentHash")
  let session := trace.get "session"
  assertExactKeys (← toRecord session) sessionKeys (text "session")
  assertInteger (session.get "startedAt") (text "session.startedAt")
  assertNumber (session.get "temperature") (text "session.temperature")
  assertArray (trace.get "prompts") (text "prompts")
  forEntries validatePrompt 0 (trace.get "prompts").items
  assertArray (trace.get "toolCalls") (text "toolCalls")
  forEntries validateToolCall 0 (trace.get "toolCalls").items
  assertArray (trace.get "observations") (text "observations")
  forEntries validateObservation 0 (trace.get "observations").items
  let proposedAction := trace.get "proposedAction"
  assertExactKeys (← toRecord proposedAction) proposedActionKeys (text "proposedAction")
  assertHex (proposedAction.get "target") 40 (text "proposedAction.target")
  assertHex (proposedAction.get "token") 40 (text "proposedAction.token")
  let amount ← orThrow .type (proposedAction.get "amount").toString
  throwIf (isDecimalString amount = false)
    (.validation (text "proposedAction.amount must be a base-10 integer string"))
  let callData ← orThrow .type (proposedAction.get "callData").toString
  throwIf (isHexString callData = false)
    (.validation (text "proposedAction.callData must be a 0x-prefixed hex string"))
  assertString (proposedAction.get "rationale") (text "proposedAction.rationale")
  assertInteger (trace.get "nonce") (text "nonce")

/-! ### What passes -/

/-- An object with the given keys, in any order. -/
def HasKeys (keys : List String) (v : JsValue) : Prop :=
  ∃ es, v = .object es ∧ (es.map Prod.fst).Perm (keys.map text)

/-- The objects and arrays that an accepted trace consists of. -/
structure Shaped (trace : JsValue) : Prop where
  root : HasKeys requiredKeys trace
  session : HasKeys sessionKeys (trace.get "session")
  prompts : ∃ vs, trace.get "prompts" = .array vs ∧ ∀ v ∈ vs, HasKeys promptKeys v
  toolCalls : ∃ vs, trace.get "toolCalls" = .array vs ∧ ∀ v ∈ vs, HasKeys toolCallKeys v
  observations : ∃ vs, trace.get "observations" = .array vs ∧ ∀ v ∈ vs, HasKeys observationKeys v
  proposedAction : HasKeys proposedActionKeys (trace.get "proposedAction")

theorem toRecord_eq_ok {v : JsValue} {es : List (JsString × JsValue)} (h : toRecord v = .ok es) :
    v = .object es := by
  cases v with
  | object es' => rw [Except.ok.inj h]
  | _ => exact absurd h (by simp [toRecord, throw, throwThe, MonadExceptOf.throw])

theorem assertExactKeys_eq_ok {es : List (JsString × JsValue)} {keys : List String}
    {field : JsString} {u : Unit} (h : assertExactKeys es keys field = .ok u) :
    (es.map Prod.fst).Perm (keys.map text) := by
  have hsorted := not_not.1 (throwIf_eq_ok.1 h)
  have hactual := List.perm_insertionSort (fun a b => (le a b : Prop)) (es.map Prod.fst)
  have hexpected := List.perm_insertionSort (fun a b => (le a b : Prop)) (keys.map text)
  exact hactual.symm.trans ((List.Perm.of_eq hsorted).trans hexpected)

theorem assertArray_eq_ok {v : JsValue} {field : JsString} {u : Unit}
    (h : assertArray v field = .ok u) :
    ∃ vs, v = .array vs := by
  cases v with
  | array vs => exact ⟨vs, rfl⟩
  | _ => exact absurd h (by simp [assertArray, throw, throwThe, MonadExceptOf.throw])

theorem forEntries_eq_ok {body : ℕ → JsValue → Except TraceError Unit} {vs : List JsValue}
    {i : ℕ} {u : Unit} (h : forEntries body i vs = .ok u) : ∀ v ∈ vs, ∃ j, body j v = .ok () := by
  induction vs generalizing i with
  | nil => exact fun v hv => absurd hv List.not_mem_nil
  | cons v vs ih =>
    obtain ⟨⟨⟩, hv, hvs⟩ := bind_eq_ok.1 h
    exact List.forall_mem_cons.2 ⟨⟨i, hv⟩, ih hvs⟩

/-- A check that begins with the exact keys of a record. -/
theorem hasKeys_of_check {v : JsValue} {keys : List String} {field : JsString}
    {rest : Unit → Except TraceError Unit}
    (h : (do assertExactKeys (← toRecord v) keys field >>= rest) = .ok ()) : HasKeys keys v := by
  obtain ⟨es, hes, h⟩ := bind_eq_ok.1 h
  obtain ⟨u, hkeys, -⟩ := bind_eq_ok.1 h
  exact ⟨es, toRecord_eq_ok hes, assertExactKeys_eq_ok hkeys⟩

/-- Checks of an array and of its items. -/
theorem hasKeys_of_checks {v : JsValue} {keys : List String}
    {check : ℕ → JsValue → Except TraceError Unit} {field : JsString} {u u' : Unit}
    (hcheck : ∀ {i w}, check i w = .ok () → HasKeys keys w) (harray : assertArray v field = .ok u)
    (hentries : forEntries check 0 v.items = .ok u') :
    ∃ vs, v = .array vs ∧ ∀ w ∈ vs, HasKeys keys w := by
  obtain ⟨vs, rfl⟩ := assertArray_eq_ok harray
  refine ⟨vs, rfl, ?_⟩
  intro w hw
  obtain ⟨i, hi⟩ := forEntries_eq_ok hentries w hw
  exact hcheck hi

theorem shaped_of_validate {t : JsValue} (h : validateDecisionTrace t = .ok ()) : Shaped t := by
  unfold validateDecisionTrace at h
  obtain ⟨root, hroot, h⟩ := bind_eq_ok.1 h
  obtain ⟨_, -, h⟩ := bind_eq_ok.1 h
  obtain ⟨_, hkeys, h⟩ := bind_eq_ok.1 h
  extract_lets session proposedAction checked at h
  have hrest : checked () = .ok () := by
    generalize checked = rest at h
    generalize t.get "schemaVersion" = version at h
    cases version with
    | string s =>
      obtain ⟨_, -, h⟩ := bind_eq_ok.1 h
      exact h
    | _ =>
      obtain ⟨_, -, h⟩ := bind_eq_ok.1 h
      obtain ⟨_, hthrow, -⟩ := bind_eq_ok.1 h
      exact absurd hthrow (by simp [throw, throwThe, MonadExceptOf.throw])
  -- the three identifiers, the session, the arrays and the action, in the order of the checks
  obtain ⟨_, -, h⟩ := bind_eq_ok.1 hrest
  obtain ⟨_, -, h⟩ := bind_eq_ok.1 h
  obtain ⟨_, -, h⟩ := bind_eq_ok.1 h
  obtain ⟨sessionEntries, hsession, h⟩ := bind_eq_ok.1 h
  obtain ⟨_, hsessionKeys, h⟩ := bind_eq_ok.1 h
  obtain ⟨_, -, h⟩ := bind_eq_ok.1 h
  obtain ⟨_, -, h⟩ := bind_eq_ok.1 h
  obtain ⟨_, hprompts, h⟩ := bind_eq_ok.1 h
  obtain ⟨_, hprompt, h⟩ := bind_eq_ok.1 h
  obtain ⟨_, htoolCalls, h⟩ := bind_eq_ok.1 h
  obtain ⟨_, htoolCall, h⟩ := bind_eq_ok.1 h
  obtain ⟨_, hobservations, h⟩ := bind_eq_ok.1 h
  obtain ⟨_, hobservation, h⟩ := bind_eq_ok.1 h
  obtain ⟨actionEntries, haction, h⟩ := bind_eq_ok.1 h
  obtain ⟨_, hactionKeys, -⟩ := bind_eq_ok.1 h
  exact
    { root := ⟨root, toRecord_eq_ok hroot, assertExactKeys_eq_ok hkeys⟩
      session := ⟨sessionEntries, toRecord_eq_ok hsession, assertExactKeys_eq_ok hsessionKeys⟩
      prompts := hasKeys_of_checks hasKeys_of_check hprompts hprompt
      toolCalls := hasKeys_of_checks hasKeys_of_check htoolCalls htoolCall
      observations := hasKeys_of_checks hasKeys_of_check hobservations hobservation
      proposedAction := ⟨actionEntries, toRecord_eq_ok haction, assertExactKeys_eq_ok hactionKeys⟩ }

end IntentGuard.Trace
