import IntentGuard.Infra.Acknowledgements
import IntentGuard.Lib.Keccak256
import IntentGuard.Trace.Serialize

/-!
# Uploading a trace

`trace-client.ts` against the trace service: the text that `uploadTrace` sends, what the service's
JSON middleware makes of it, and the comparison of the digest that comes back. A text on the wire is
UTF-8, given by its code points.

`upload_agrees`: the service never finds that the digest does not match, nor does the client.
-/

namespace IntentGuard.Trace

open Js Infra

inductive UploadError
  | trace (e : TraceError)
  /-- `JSON.parse` throws. -/
  | syntaxError
  /-- A `TraceUploadError`. -/
  | upload (e : HttpError)
  /-- A `TraceDigestMismatchError`. -/
  | digestMismatch (ours theirs : JsString)
  deriving DecidableEq

/-- A value that is handed over as a `DecisionTrace`. -/
structure DecisionTrace where
  value : JsValue
  distinctKeys : value.DistinctKeys

/-! ### The request -/

/-- The string of a field that has been checked to be one. -/
def stringOf : JsValue → JsString
  | .string s => s
  | _ => []

/-- The body of the request. -/
def uploadBody (agentId owner localDigest : JsString) (tracePayload : Json) : Json :=
  .object
    [(text "agentId", .string agentId), (text "owner", .string owner),
      (text "contextDigest", .string localDigest), (text "trace", tracePayload)]

/-- The local digest and the text that is sent. -/
def uploadRequest (K : Keccak) (trace : JsValue) : Except UploadError (JsString × JsString) := do
  (validateDecisionTrace trace).mapError .trace
  let localDigest ← (computeContextDigest K trace).mapError .trace
  let canonicalJson ← (serializeCanonical trace).mapError .trace
  let tracePayload ← orThrow .syntaxError (JSON.parse canonicalJson)
  let body := uploadBody (stringOf (trace.get "agentId")) (stringOf (trace.get "owner"))
    localDigest tracePayload
  pure (localDigest, JSON.stringify body)

/-! ### The service -/

/-- `express.json({ limit: "1mb" })`. -/
def readBody (wire : List ℕ) : Except HttpError Json :=
  if 1048576 < (wire.flatMap utf8Bytes).length then .error unhandled
  else if wire = [] then .ok (.object [])
  else
    match JSON.parse (ofCodePoints wire) with
    | some (.object entries) => .ok (.object entries)
    | some (.array items) => .ok (.array items)
    | _ => .error unhandled

/-- An answer with its digest as it is spelled. -/
structure TraceAnswer where
  response : TraceResponse
  contextDigest : JsString
  deriving DecidableEq

variable {K : Keccak} {tryRecover : Bytes32 → Bytes → Option Address}
  (S : TraceService K tryRecover)

/-- A row keeps the digest in lower case, and a fresh answer repeats the request. -/
def spelledDigest (rows : List TraceRow) (c : TraceCall) (response : TraceResponse) : JsString :=
  match cachedAck S rows c, c.body.get? "contextDigest" with
  | none, some (.string s) => s
  | _, _ => toHex 64 response.contextDigest

/-- `POST /v1/traces` from the wire; of `c` only what the handling meets is used. -/
def receive (rows : List TraceRow) (c : TraceCall) (wire : List ℕ) :
    Except HttpError (List TraceRow × TraceAnswer) := do
  let body ← readBody wire
  let (rows', response) ← S.post rows { c with body }
  pure (rows', { response, contextDigest := spelledDigest S rows { c with body } response })

/-- The answer to an upload, with the table after it. -/
def uploadTrace (rows : List TraceRow) (c : TraceCall) (trace : JsValue) :
    Except UploadError (List TraceRow × TraceAnswer) := do
  let (localDigest, request) ← uploadRequest K trace
  let (rows', data) ← (receive S rows c (codePoints request)).mapError .upload
  throwIf (data.contextDigest ≠ localDigest) (.digestMismatch localDigest data.contextDigest)
  pure (rows', data)

/-! ### The request of an accepted trace -/

theorem keys_normalizeTrace (t : JsValue) :
    ∃ es, normalizeTrace t = .object es ∧ es.map Prod.fst = requiredKeys.map text := by
  refine ⟨_, rfl, ?_⟩
  simp only [List.map_cons, List.map_nil, requiredKeys]

/-- The payload is an object, and none of its keys is `__proto__`. -/
theorem jsonOf_normalizeTrace (t : JsValue) :
    ∃ es, jsonOf (normalizeTrace t) = .object es ∧ ∀ e ∈ es, e.1 ≠ text "__proto__" := by
  obtain ⟨fields, hfields, hkeys⟩ := keys_normalizeTrace t
  have hproto : ∀ k ∈ requiredKeys.map text, k ≠ text "__proto__" := by decide
  rw [hfields]
  refine ⟨_, rfl, ?_⟩
  intro e he
  have he := SortedEntries.mem_sortByKey.1 he
  apply hproto
  rw [← hkeys, ← keys_jsonOfEntries]
  exact List.mem_map_of_mem he

theorem exists_object_enumerated {v : Json}
    (h : ∃ es, v = .object es ∧ ∀ e ∈ es, e.1 ≠ text "__proto__") :
    ∃ es, v.enumerated = .object es ∧ ∀ e ∈ es, e.1 ≠ text "__proto__" := by
  obtain ⟨es, rfl, hproto⟩ := h
  refine ⟨_, rfl, ?_⟩
  intro e he
  have hkey := (keys_enumerate_enumeratedEntries es).mem_iff.1 (List.mem_map_of_mem he)
  obtain ⟨e', he', hkey⟩ := List.mem_map.1 hkey
  exact hkey ▸ hproto e' he'

/-- What is sent for a trace whose canonical text is `d`. -/
def sentBody (K : Keccak) (t : JsValue) (d : JsString) : Json :=
  uploadBody (stringOf (t.get "agentId")) (stringOf (t.get "owner"))
    (toHex 64 (K.bytes (Js.encode d)))
    (jsonOf (normalizeTrace t)).enumerated

/-- What the service reads of it. -/
def receivedBody (K : Keccak) (t : JsValue) (d : JsString) : Json :=
  uploadBody (stringOf (t.get "agentId")) (stringOf (t.get "owner"))
    (toHex 64 (K.bytes (Js.encode d)))
    (jsonOf (normalizeTrace t)).enumerated.enumerated

theorem uploadBody_plain (agentId owner localDigest : JsString) {tracePayload : Json}
    (h : tracePayload.Plain) :
    (uploadBody agentId owner localDigest tracePayload).Plain := by
  refine ⟨?_, trivial, trivial, trivial, h, trivial⟩
  show ([text "agentId", text "owner", text "contextDigest", text "trace"] : List JsString).Nodup
  decide

theorem uploadBody_enumerated (agentId owner localDigest : JsString) (tracePayload : Json) :
    (uploadBody agentId owner localDigest tracePayload).enumerated =
      uploadBody agentId owner localDigest tracePayload.enumerated := by
  have hindex : ∀ k ∈ [text "agentId", text "owner", text "contextDigest", text "trace"],
      arrayIndex k = none := by decide
  refine congrArg Json.object (enumerate_of_forall ?_)
  intro e he
  apply hindex
  exact List.mem_map_of_mem (f := Prod.fst) he

theorem validate_of_serializeCanonical {t : JsValue} {d : JsString}
    (h : serializeCanonical t = .ok d) :
    validateDecisionTrace t = .ok () := by
  unfold serializeCanonical at h
  generalize validateDecisionTrace t = valid at h
  cases valid with
  | error e => exact absurd h (by simp [bind, Except.bind])
  | ok u => rfl

section
variable {t : JsValue} (ht : t.DistinctKeys) {d : JsString} (h : serializeCanonical t = .ok d)

include ht h

theorem plain_serializeCanonical : (jsonOf (normalizeTrace t)).Plain :=
  (serializeCanonical_eq_ok ht h).2.mono canonical_implies_plain

theorem parse_serializeCanonical : JSON.parse d = some (jsonOf (normalizeTrace t)).enumerated := by
  obtain ⟨htext, -⟩ := serializeCanonical_eq_ok ht h
  rw [htext, parse_stringify (plain_serializeCanonical ht h)]

theorem canonicalize_serializeCanonical :
    canonicalize (jsonOf (normalizeTrace t)).enumerated = .ok d := by
  obtain ⟨htext, hcanonical⟩ := serializeCanonical_eq_ok ht h
  rw [htext]
  exact encode_enumerated (plain_serializeCanonical ht h)
    (encode_of_sorted (hcanonical.mono canonical_implies_sorted))

/-- The payload that the service canonicalizes. -/
theorem canonicalize_received :
    canonicalize (jsonOf (normalizeTrace t)).enumerated.enumerated = .ok d :=
  encode_enumerated (plain_serializeCanonical ht h).enumerated
    (canonicalize_serializeCanonical ht h)

theorem sentBody_plain (K : Keccak) : (sentBody K t d).Plain :=
  uploadBody_plain _ _ _ (plain_serializeCanonical ht h).enumerated

theorem uploadRequest_eq :
    uploadRequest K t = .ok
      (toHex 64 (K.bytes (Js.encode d)), JSON.stringify (sentBody K t d)) := by
  unfold uploadRequest computeContextDigest
  rw [validate_of_serializeCanonical h, h]
  simp only [Except.mapError, bind, Except.bind, pure, Except.pure, parse_serializeCanonical ht h,
    orThrow]
  rfl

end

/-! ### The middleware -/

theorem readBody_error {wire : List ℕ} {e : HttpError} (h : readBody wire = .error e) :
    e = unhandled := by
  unfold readBody at h
  split_ifs at h
  · exact (Except.error.inj h).symm
  · cases hparse : JSON.parse (ofCodePoints wire) with
    | none =>
      rw [hparse] at h
      exact (Except.error.inj h).symm
    | some v =>
      rw [hparse] at h
      cases v <;> first | exact (Except.error.inj h).symm | exact absurd h (by simp)

/-- What the middleware reads is what has been sent, unless it is too long. -/
theorem readBody_stringify {es : List (JsString × Json)} (hes : (Json.object es).Plain)
    {body : Json} (h : readBody (codePoints (JSON.stringify (.object es))) = .ok body) :
    body = (Json.object es).enumerated := by
  unfold readBody at h
  rw [ofCodePoints_codePoints (wellFormed_stringify _), parse_stringify hes] at h
  split_ifs at h with hlimit hempty
  · have htext := ofCodePoints_codePoints (wellFormed_stringify (.object es))
    rw [hempty] at htext
    exact absurd htext (by simp [ofCodePoints, JSON.stringify])
  · exact (Except.ok.inj h).symm

theorem readBody_sentBody {t : JsValue} (ht : t.DistinctKeys) {d : JsString}
    (h : serializeCanonical t = .ok d) {body : Json}
    (hread : readBody (codePoints (JSON.stringify (sentBody K t d))) = .ok body) :
    body = receivedBody K t d :=
  (readBody_stringify (sentBody_plain ht h K) hread).trans (uploadBody_enumerated _ _ _ _)

/-! ### The handler -/

def digestMismatch : HttpError :=
  badRequest "contextDigest does not match keccak256(canonical(trace))"

section
variable {S} {rows rows' : List TraceRow} {c : TraceCall}

/-- Past the validation every error of the handler is one that nobody caught. -/
theorem post_error {e : HttpError} (h : S.post rows c = .error e) :
    validateTrace K c.body = .error e ∨ e = unhandled := by
  unfold TraceService.post at h
  rcases bind_eq_error.1 h with h | ⟨req, -, h⟩
  · exact .inl h
  right
  rcases bind_eq_error.1 h with h | ⟨ctx, -, h⟩
  · unfold TraceService.resolveTraceAckContext at h
    rcases bind_eq_error.1 h with h | ⟨deployment, -, h⟩
    · exact orThrow_eq_error h
    · exact absurd h (by simp [pure, Except.pure])
  rcases bind_eq_error.1 h with h | ⟨cached, -, h⟩
  · unfold getTraceByDigest at h
    split_ifs at h
    cases hp : S.DATABASE_PROVIDER <;> simp [hp] at h
    exact h.symm
  cases hrow : TraceService.unexpired cached c.lookupTime with
  | some row =>
    rw [hrow] at h
    exact absurd h (by simp [pure, Except.pure])
  | none =>
    rw [hrow] at h
    rcases bind_eq_error.1 h with h | ⟨uri, -, h⟩
    · exact orThrow_eq_error h
    rcases bind_eq_error.1 h with h | ⟨signature, -, h⟩
    · exact orThrow_eq_error h
    rcases bind_eq_error.1 h with h | ⟨rows', -, h⟩
    · unfold insertTrace at h
      cases hp : S.DATABASE_PROVIDER <;> rw [hp] at h <;> dsimp only at h <;> split_ifs at h
      exact (Except.error.inj h).symm
    · exact absurd h (by simp [pure, Except.pure])

variable (hK : ∀ b, K.bytes b < 2 ^ 256) {t : JsValue} (ht : t.DistinctKeys) {d : JsString}
  (h : serializeCanonical t = .ok d)

include hK ht h

/-- The upload of an accepted trace passes the comparison of digests, if its other fields are
valid. -/
theorem validateTrace_receivedBody :
    (∃ req, validateTrace K (receivedBody K t d) = .ok req ∧
      req.contextDigest = K.bytes (Js.encode d)) ∨
      validateTrace K (receivedBody K t d) = .error (badRequest "invalid trace body") := by
  have hcanonical := canonicalize_received ht h
  have hspelled : hexLiteral 64 (toHex 64 (K.bytes (Js.encode d))) = some (K.bytes (Js.encode d)) :=
    hexLiteral_toHex (word_lt_digits (hK _))
  obtain ⟨es, hes, hproto⟩ :=
    exists_object_enumerated (exists_object_enumerated (jsonOf_normalizeTrace t))
  have hdigest : hexField 64 "contextDigest" (receivedBody K t d) = some (K.bytes (Js.encode d)) :=
    hspelled
  have htrace : traceField (receivedBody K t d) = some (.object es) := by
    unfold receivedBody
    rw [hes]
    show some (Json.object (es.filter fun e => e.1 ≠ text "__proto__")) = _
    rw [List.filter_eq_self.2 fun e he => decide_eq_true (hproto e he)]
  rw [hes] at hcanonical
  generalize receivedBody K t d = body at hdigest htrace
  unfold validateTrace TraceBody.safeParse
  rw [hdigest, htrace]
  cases hexField 64 "agentId" body with
  | none => exact .inr rfl
  | some agentId =>
    cases hexField 40 "owner" body with
    | none => exact .inr rfl
    | some owner =>
      refine .inl ⟨⟨agentId, owner, K.bytes (Js.encode d), d⟩, ?_, rfl⟩
      simp only [bind, Option.bind, orThrow, Except.bind, toCanonicalBytes, hcanonical,
        throwIf, pure]
      rw [if_neg (not_not.2 rfl)]
      rfl

/-- An answer to the upload spells the digest of the upload. -/
theorem spelledDigest_receivedBody (hbody : c.body = receivedBody K t d) {response : TraceResponse}
    (hpost : S.post rows c = .ok (rows', response)) :
    spelledDigest S rows c response = toHex 64 (K.bytes (Js.encode d)) := by
  have hget : c.body.get? "contextDigest" = some (.string (toHex 64 (K.bytes (Js.encode d)))) := by
    rw [hbody]
    rfl
  unfold spelledDigest
  rw [hget]
  cases answered_of_post hpost with
  | @cached req ctx row hvalid _ hfound =>
    have hreq : req.contextDigest = K.bytes (Js.encode d) := by
      rcases validateTrace_receivedBody hK ht h with ⟨req', hreq', hdigest⟩ | herror
      · rw [← hbody, hvalid] at hreq'
        rw [Except.ok.inj hreq', hdigest]
      · rw [← hbody, hvalid] at herror
        exact absurd herror (by simp)
    have hkey := Table.key_of_find _ (cachedAck_find hvalid hfound).1
    rw [hfound]
    show toHex 64 row.contextDigest = _
    rw [hkey, hreq]
  | signed _ _ hmissing => rw [hmissing]

end

/-! ### The upload -/

section
variable {rows : List TraceRow} {c : TraceCall} (hK : ∀ b, K.bytes b < 2 ^ 256) {t : JsValue}
  (ht : t.DistinctKeys)
  {d : JsString} (h : serializeCanonical t = .ok d)

include hK ht h

theorem receive_ne_digestMismatch :
    receive S rows c (codePoints (JSON.stringify (sentBody K t d))) ≠ .error digestMismatch := by
  intro herror
  rcases bind_eq_error.1 herror with hread | ⟨body, hread, herror⟩
  · exact absurd (readBody_error hread) (by decide)
  obtain rfl := readBody_sentBody ht h hread
  rcases bind_eq_error.1 herror with hpost | ⟨answer, -, herror⟩
  · rcases post_error hpost with hvalid | hunhandled
    · rcases validateTrace_receivedBody hK ht h with ⟨req, hreq, -⟩ | hinvalid
      · exact absurd (hreq.symm.trans hvalid) (by simp)
      · exact absurd (Except.error.inj (hinvalid.symm.trans hvalid)) (by decide)
    · exact absurd hunhandled (by decide)
  · exact absurd herror (by simp [pure, Except.pure])

theorem receive_contextDigest {rows' : List TraceRow} {data : TraceAnswer}
    (hanswer : receive S rows c (codePoints (JSON.stringify (sentBody K t d))) =
      .ok (rows', data)) :
    data.contextDigest = toHex 64 (K.bytes (Js.encode d)) := by
  obtain ⟨body, hread, hanswer⟩ := bind_eq_ok.1 hanswer
  obtain rfl := readBody_sentBody ht h hread
  obtain ⟨answer, hpost, hanswer⟩ := bind_eq_ok.1 hanswer
  obtain ⟨-, rfl⟩ := Prod.mk.inj (Except.ok.inj hanswer)
  exact spelledDigest_receivedBody hK ht h rfl hpost

end

/-- The upload of an accepted trace: the canonicalizer of the service writes the same text back, the
service never answers that the digest does not match, and the client never finds that it does
not. -/
theorem upload_agrees (hK : ∀ b, K.bytes b < 2 ^ 256) (t : DecisionTrace) {d : JsString}
    (h : serializeCanonical t.value = .ok d) :
    (∃ payload, JSON.parse d = some payload ∧ canonicalize payload = .ok d) ∧
      ∃ localDigest request, uploadRequest K t.value = .ok (localDigest, request) ∧
        ∀ rows c,
          receive S rows c (codePoints request) ≠ .error digestMismatch ∧
            ∀ ours theirs, uploadTrace S rows c t.value ≠ .error (.digestMismatch ours theirs) := by
  have ht := t.distinctKeys
  have hrequest := uploadRequest_eq (K := K) ht h
  refine ⟨⟨_, parse_serializeCanonical ht h, canonicalize_serializeCanonical ht h⟩, _,
    _, hrequest, ?_⟩
  intro rows c
  refine ⟨receive_ne_digestMismatch S hK ht h, ?_⟩
  intro ours theirs herror
  rcases bind_eq_error.1 herror with hfailed | ⟨sent, hsent, herror⟩
  · exact absurd (hrequest.symm.trans hfailed) (by simp)
  obtain rfl := Except.ok.inj (hrequest.symm.trans hsent)
  rcases bind_eq_error.1 herror with hfailed | ⟨answer, hanswer, herror⟩
  · generalize receive S rows c _ = answer at hfailed
    cases answer with
    | error e => exact absurd (Except.error.inj hfailed) (by simp)
    | ok answer => exact absurd hfailed (by simp [Except.mapError])
  · have hanswer : receive S rows c (codePoints (JSON.stringify (sentBody K t.value d))) =
        .ok answer := by
      generalize receive S rows c _ = answer' at hanswer
      cases answer' with
      | error e => exact absurd hanswer (by simp [Except.mapError])
      | ok answer' => exact congrArg Except.ok (Except.ok.inj hanswer)
    have hdigest := receive_contextDigest S hK ht h hanswer
    rcases bind_eq_error.1 herror with hmismatch | ⟨_, -, herror⟩
    · rw [throwIf, if_neg (not_not.2 hdigest)] at hmismatch
      exact absurd hmismatch (by simp)
    · exact absurd herror (by simp [pure, Except.pure])

end IntentGuard.Trace

namespace IntentGuard.Localnet

open Js Infra Trace

/-- Keccak-256 of byte strings; the other forms number their inputs. -/
def keccak256 : Keccak := { Keccak.numbering with bytes := Keccak256.word }

def uploadService : TraceService keccak256 localnet.tryRecover where
  DATABASE_PROVIDER := .sqlite
  CHAIN_ID := 84532
  TRACE_ACK_TTL_SECONDS := 600
  ttl_pos := traceService.ttl_pos
  deployment := some manifest
  traceAck := traceKey

def zero : JsValue := .number ⟨⟨false, 0, 0⟩, rfl⟩

/-- A trace with one tool call, the keys in no order and the model left undefined. -/
def toolTrace (input : JsValue) : JsValue :=
  record
    [("nonce", zero), ("schemaVersion", .string (text "1.0.0")),
      ("agentId", .string (toHex 64 agent)), ("owner", .string (toHex 40 alice)),
      ("intentHash", .string (toHex 64 0)),
      ("session",
        record [("model", .undefined), ("temperature", zero), ("startedAt", zero),
          ("id", .string (text "session"))]),
      ("prompts", .array []),
      ("toolCalls",
        .array
          [record
            [("timestamp", zero), ("name", .string (text "balance")), ("output", .object []),
              ("input", input)]]),
      ("observations", .array []),
      ("proposedAction",
        record
          [("target", .string (toHex 40 merchant)), ("token", .string (toHex 40 localnet.USDC)),
            ("rationale", .string []), ("amount", .string (text "2000000")),
              ("callData", .string (text "0x"))])]

theorem toolTrace_distinctKeys {input : JsValue} (h : input.DistinctKeys) :
    (toolTrace input).DistinctKeys := by
  have htop : List.Nodup [text "nonce", text "schemaVersion", text "agentId", text "owner",
      text "intentHash", text "session", text "prompts", text "toolCalls", text "observations",
      text "proposedAction"] := by decide
  have hsession : List.Nodup [text "model", text "temperature", text "startedAt", text "id"] := by
    decide
  have htoolCall : List.Nodup [text "timestamp", text "name", text "output", text "input"] := by
    decide
  have haction : List.Nodup [text "target", text "token", text "rationale", text "amount",
      text "callData"] := by decide
  simp only [toolTrace, meets_record, List.forall_mem_cons, List.map_cons, List.map_nil,
    JsValue.Meets, zero, JsValue.MeetsItems, JsValue.MeetsEntries, JsValue.distinct]
  simp only [htop, hsession, List.not_mem_nil, IsEmpty.forall_iff, implies_true, and_self,
    htoolCall, List.nodup_nil, and_true, true_and, haction]
  exact h

/-- An input with its keys in no order, an undefined property, a `bigint` and a lone surrogate. -/
def mixedInput : JsValue :=
  .object
    [(text "b", .array [.undefined, .bigint (-5), .string [0xD800]]), (text "a", .bool true),
      ([], .undefined)]

def mixedTrace : DecisionTrace where
  value := toolTrace mixedInput
  distinctKeys := by
    refine toolTrace_distinctKeys ⟨?_, ⟨trivial, trivial, trivial, trivial⟩, trivial,
      trivial, trivial⟩
    show ([text "b", text "a", []] : List JsString).Nodup
    decide

end IntentGuard.Localnet

namespace IntentGuard.Trace

open Js Infra Localnet

/-- The upload of a trace to a service over Keccak-256. -/
theorem upload_agrees_mixedTrace :
    ∃ d, serializeCanonical mixedTrace.value = .ok d ∧
      (∃ payload, JSON.parse d = some payload ∧ canonicalize payload = .ok d) ∧
        ∃ localDigest request,
          uploadRequest keccak256 mixedTrace.value = .ok (localDigest, request) ∧
          ∀ rows c,
            receive uploadService rows c (codePoints request) ≠ .error digestMismatch ∧
              ∀ ours theirs, uploadTrace uploadService rows c mixedTrace.value ≠
                .error (.digestMismatch ours theirs) := by
  have hok : (serializeCanonical mixedTrace.value).toOption.isSome := by decide +kernel
  cases h : serializeCanonical mixedTrace.value with
  | error e =>
    rw [h] at hok
    exact absurd hok Bool.false_ne_true
  | ok d => exact ⟨d, rfl, upload_agrees uploadService Keccak256.word_lt mixedTrace h⟩

end IntentGuard.Trace
