import IntentGuard.Trace.Client

/-!
# Which accepted traces are serialized

The validator and the serializer have each an idea of their own of a legal number. The validator
looks at the temperature, which may be fractional, at the timestamps and at the nonce; the session's
`id` and `model` and whatever stands inside a tool's input or output it leaves alone. The serializer
refuses a number that is no integer, wherever it stands.

`accepted_serializes_iff`: an accepted trace is serialized, its text is read back and taken by the
trace service's canonicalizer, and its upload request is built, exactly when all its numbers are
integers; otherwise the serializer says that it has met an invalid number.
-/

namespace IntentGuard.Trace

open Js Infra SortedEntries

mutual

/-- The JSON value that a value is, if it is one. -/
def JsValue.json? : JsValue → Option Json
  | .null => some .null
  | .bool b => some (.bool b)
  | .number x => some (.number x.1)
  | .string s => some (.string s)
  | .array vs => do
    let items ← jsonItems? vs
    pure (.array items)
  | .object es => do
    let entries ← jsonEntries? es
    pure (.object entries)
  | .undefined | .nan | .infinity _ | .bigint _ => none

def jsonItems? : List JsValue → Option (List Json)
  | [] => some []
  | v :: vs => do
    let item ← v.json?
    let items ← jsonItems? vs
    pure (item :: items)

def jsonEntries? : List (JsString × JsValue) → Option (List (JsString × Json))
  | [] => some []
  | (k, v) :: es => do
    let value ← v.json?
    let entries ← jsonEntries? es
    pure ((k, value) :: entries)

end

/-- Every number is an integer. -/
def integral : Condition where
  number x := isInteger x = true
  infinity := False
  string _ := True
  keys _ := True

/-- The serializer's error, with the number it has met. -/
def invalidNumber (x : JsString) : TraceError :=
  .error (text "Invalid number in trace: " ++ x ++ text ". Only finite integers allowed.")

/-- The canonical text of the trace is there, and the service that reads it back can canonicalize
it. -/
def Serializes (t : JsValue) : Prop :=
  ∃ d payload, serializeCanonical t = .ok d ∧ JSON.parse d = some payload ∧ ∃ d',
    toCanonicalBytes payload = .ok d'

/-! ### The serializer -/

mutual

theorem canonicalStringify_ok_iff (v : JsValue) :
    (∃ d, canonicalStringify v = .ok d) ↔ v.Meets integral := by
  cases v with
  | undefined | null | bool | string | bigint => exact iff_of_true ⟨_, rfl⟩ trivial
  | number x =>
    show _ ↔ isInteger x.1 = true
    unfold canonicalStringify
    split_ifs with hinteger
    · exact iff_of_true ⟨_, rfl⟩ hinteger
    · exact iff_of_false (fun ⟨d, hd⟩ => absurd hd (by simp)) hinteger
  | nan => exact iff_of_false (fun ⟨d, hd⟩ => absurd hd (by simp [canonicalStringify])) id
  | infinity negative =>
    exact iff_of_false (fun ⟨d, hd⟩ => absurd hd (by simp [canonicalStringify])) id
  | array vs =>
    show _ ↔ JsValue.MeetsItems integral vs
    rw [← canonicalStringifyItems_ok_iff]
    constructor
    · rintro ⟨d, hd⟩
      obtain ⟨ss, hss, -⟩ := bind_eq_ok.1 hd
      exact ⟨ss, hss⟩
    · rintro ⟨ss, hss⟩
      exact ⟨_, bind_eq_ok.2 ⟨ss, hss, rfl⟩⟩
  | object es =>
    show _ ↔ True ∧ JsValue.MeetsEntries integral es
    rw [true_and, ← canonicalStringifyEntries_ok_iff]
    constructor
    · rintro ⟨d, hd⟩
      obtain ⟨pairs, hpairs, -⟩ := bind_eq_ok.1 hd
      exact ok_of_collect_sortByKey hpairs
    · intro hentries
      cases hpairs : collect (sortByKey le (canonicalStringifyEntries es)) with
      | ok pairs => exact ⟨_, bind_eq_ok.2 ⟨pairs, hpairs, rfl⟩⟩
      | error e =>
        obtain ⟨p, hp, herror⟩ := collect_eq_error hpairs
        obtain ⟨s, hs⟩ := hentries p (mem_sortByKey.1 hp)
        exact absurd (herror.symm.trans hs) (by simp)

theorem canonicalStringifyItems_ok_iff (vs : List JsValue) :
    (∃ ds, canonicalStringifyItems vs = .ok ds) ↔ JsValue.MeetsItems integral vs := by
  cases vs with
  | nil => exact iff_of_true ⟨_, rfl⟩ trivial
  | cons v vs =>
    show _ ↔ v.Meets integral ∧ JsValue.MeetsItems integral vs
    rw [← canonicalStringify_ok_iff, ← canonicalStringifyItems_ok_iff]
    constructor
    · rintro ⟨ds, hds⟩
      obtain ⟨s, hs, hds⟩ := bind_eq_ok.1 hds
      obtain ⟨ss, hss, -⟩ := bind_eq_ok.1 hds
      exact ⟨⟨s, hs⟩, ss, hss⟩
    · rintro ⟨⟨s, hs⟩, ss, hss⟩
      exact ⟨_, bind_eq_ok.2 ⟨s, hs, bind_eq_ok.2 ⟨ss, hss, rfl⟩⟩⟩

theorem canonicalStringifyEntries_ok_iff (es : List (JsString × JsValue)) :
    (∀ p ∈ canonicalStringifyEntries es, ∃ s, p.2 = .ok s) ↔ JsValue.MeetsEntries integral es := by
  cases es with
  | nil => exact iff_of_true (fun p hp => absurd hp List.not_mem_nil) trivial
  | cons e es =>
    obtain ⟨k, v⟩ := e
    unfold canonicalStringifyEntries
    show _ ↔ v.Meets integral ∧ JsValue.MeetsEntries integral es
    rw [List.forall_mem_cons, ← canonicalStringify_ok_iff, ← canonicalStringifyEntries_ok_iff]

end

mutual

/-- Nothing but a number is refused. -/
theorem canonicalStringify_eq_error {v : JsValue} {e : TraceError}
    (h : canonicalStringify v = .error e) :
    ∃ x, e = invalidNumber x := by
  cases v with
  | undefined | null | bool | string | bigint =>
    exact absurd h (by simp [canonicalStringify, pure, Except.pure])
  | number x =>
    unfold canonicalStringify at h
    split_ifs at h with hinteger
    · exact absurd h (by simp [pure, Except.pure])
    · exact ⟨_, (Except.error.inj h).symm⟩
  | nan =>
    refine ⟨text "NaN", (Except.error.inj h).symm.trans ?_⟩
    decide
  | infinity negative => exact ⟨_, (Except.error.inj h).symm⟩
  | array vs =>
    rcases bind_eq_error.1 h with hitems | ⟨ss, -, h⟩
    · exact canonicalStringifyItems_eq_error hitems
    · exact absurd h (by simp [pure, Except.pure])
  | object es =>
    rcases bind_eq_error.1 h with hpairs | ⟨pairs, -, h⟩
    · obtain ⟨p, hp, herror⟩ := collect_eq_error hpairs
      exact canonicalStringifyEntries_eq_error p (mem_sortByKey.1 hp) herror
    · exact absurd h (by simp [pure, Except.pure])

theorem canonicalStringifyItems_eq_error {vs : List JsValue} {e : TraceError}
    (h : canonicalStringifyItems vs = .error e) : ∃ x, e = invalidNumber x := by
  cases vs with
  | nil => exact absurd h (by simp [canonicalStringifyItems, pure, Except.pure])
  | cons v vs =>
    rcases bind_eq_error.1 h with hv | ⟨s, -, h⟩
    · exact canonicalStringify_eq_error hv
    rcases bind_eq_error.1 h with hvs | ⟨ss, -, h⟩
    · exact canonicalStringifyItems_eq_error hvs
    · exact absurd h (by simp [pure, Except.pure])

theorem canonicalStringifyEntries_eq_error {es : List (JsString × JsValue)} {e : TraceError}
    (p : JsString × Except TraceError JsString) (hp : p ∈ canonicalStringifyEntries es)
    (h : p.2 = .error e) :
    ∃ x, e = invalidNumber x := by
  cases es with
  | nil => exact absurd hp List.not_mem_nil
  | cons entry es =>
    obtain ⟨k, v⟩ := entry
    rcases List.mem_cons.1 hp with rfl | hp
    · exact canonicalStringify_eq_error h
    · exact canonicalStringifyEntries_eq_error p hp h

end

/-! ### Accepted traces -/

theorem serializeCanonical_of_validate {t : JsValue} (h : validateDecisionTrace t = .ok ()) :
    serializeCanonical t = canonicalStringify (normalizeTrace t) := by
  unfold serializeCanonical
  rw [h]
  simp only [bind, Except.bind]

theorem serializeCanonical_ok_iff {t : JsValue} (h : validateDecisionTrace t = .ok ()) :
    (∃ d, serializeCanonical t = .ok d) ↔ t.Meets integral := by
  have hkeys : ∀ {ks ks' : List JsString}, ks.Perm ks' → (integral.keys ks ↔ integral.keys ks') :=
    fun _ => Iff.rfl
  rw [serializeCanonical_of_validate h, canonicalStringify_ok_iff]
  exact normalizeTrace_meets_iff hkeys (shaped_of_validate h)

/-- The service canonicalizes what it reads of a canonical text. -/
theorem toCanonicalBytes_received {t : JsValue} (ht : t.DistinctKeys) {d : JsString}
    (h : serializeCanonical t = .ok d) :
    toCanonicalBytes (jsonOf (normalizeTrace t)).enumerated = .ok d := by
  have hcanonical := canonicalize_serializeCanonical ht h
  obtain ⟨es, hes, -⟩ := exists_object_enumerated (jsonOf_normalizeTrace t)
  rw [hes] at hcanonical ⊢
  simp only [toCanonicalBytes, hcanonical]

/-- An accepted trace is serialized, and its upload request is built, exactly when all its numbers
are integers. -/
theorem accepted_serializes_iff (K : Keccak) (t : DecisionTrace)
    (h : validateDecisionTrace t.value = .ok ()) :
    (Serializes t.value ↔ t.value.Meets integral) ∧
      ((∃ request, uploadRequest K t.value = .ok request) ↔ t.value.Meets integral) ∧
        (¬ t.value.Meets integral →
          ∃ x, serializeCanonical t.value = .error (invalidNumber x)) := by
  have hok := serializeCanonical_ok_iff h
  refine ⟨?_, ?_, ?_⟩
  · rw [← hok]
    constructor
    · rintro ⟨d, payload, hd, -⟩
      exact ⟨d, hd⟩
    · rintro ⟨d, hd⟩
      exact ⟨d, _, hd, parse_serializeCanonical t.distinctKeys hd, d,
        toCanonicalBytes_received t.distinctKeys hd⟩
  · rw [← hok]
    constructor
    · rintro ⟨request, hrequest⟩
      obtain ⟨_, -, hrequest⟩ := bind_eq_ok.1 hrequest
      obtain ⟨_, -, hrequest⟩ := bind_eq_ok.1 hrequest
      obtain ⟨d, hd, -⟩ := bind_eq_ok.1 hrequest
      cases hserialized : serializeCanonical t.value with
      | ok d => exact ⟨d, rfl⟩
      | error e =>
        rw [hserialized] at hd
        exact absurd hd (by simp [Except.mapError])
    · rintro ⟨d, hd⟩
      exact ⟨_, uploadRequest_eq t.distinctKeys hd⟩
  · intro hfraction
    rw [serializeCanonical_of_validate h]
    cases hstringify : canonicalStringify (normalizeTrace t.value) with
    | ok d =>
      exact absurd (hok.1 ⟨d, (serializeCanonical_of_validate h).trans hstringify⟩) hfraction
    | error e =>
      obtain ⟨x, rfl⟩ := canonicalStringify_eq_error hstringify
      exact ⟨x, rfl⟩

end IntentGuard.Trace

namespace IntentGuard.Localnet

open Js Infra Trace

def half : JsValue := .number ⟨⟨false, 5, 0⟩, by decide +kernel⟩

/-- A JSON trace with one tool call. -/
def jsonTrace (temperature input : JsValue) : JsValue :=
  record
    [("nonce", zero), ("schemaVersion", .string (text "1.0.0")),
      ("agentId", .string (toHex 64 agent)), ("owner", .string (toHex 40 alice)),
      ("intentHash", .string (toHex 64 0)),
      ("session",
        record
          [("model", .string (text "model")), ("temperature", temperature), ("startedAt", zero),
            ("id", .string (text "session"))]),
      ("prompts", .array []),
      ("toolCalls",
        .array
          [record
            [("timestamp", zero), ("name", .string (text "balance")), ("output", .object []),
              ("input", input)]]),
      ("observations", .array []),
      ("proposedAction",
        record
          [("target", .string (toHex 40 merchant)), ("token", .string (toHex 40 localnet.USDC)),
            ("rationale", .string []), ("amount", .string (text "2000000")),
              ("callData", .string (text "0x"))])]

theorem jsonTrace_meets {C : Condition} (hkeys : ∀ ks, ks.Nodup → C.keys ks)
    (hstring : ∀ s, C.string s) (hzero : C.number ⟨false, 0, 0⟩) {temperature input : JsValue}
    (htemperature : temperature.Meets C) (hinput : input.Meets C) :
    (jsonTrace temperature input).Meets C := by
  have htop :=
    hkeys [text "nonce", text "schemaVersion", text "agentId", text "owner", text "intentHash",
      text "session", text "prompts", text "toolCalls", text "observations",
        text "proposedAction"] (by decide)
  have hsession := hkeys [text "model", text "temperature", text "startedAt", text "id"] (by decide)
  have htoolCall := hkeys [text "timestamp", text "name", text "output", text "input"] (by decide)
  have haction := hkeys [text "target", text "token", text "rationale", text "amount",
    text "callData"] (by decide)
  have hempty := hkeys [] List.nodup_nil
  simp only [jsonTrace, meets_record, List.forall_mem_cons, List.map_cons, List.map_nil,
    JsValue.Meets, zero, JsValue.MeetsItems, JsValue.MeetsEntries]
  simp only [htop, hsession, htoolCall, haction, hempty, hstring, hzero, htemperature, hinput,
    List.not_mem_nil, IsEmpty.forall_iff, implies_true, and_self]

def jsonDecisionTrace (temperature input : JsValue) (htemperature : temperature.DistinctKeys)
    (hinput : input.DistinctKeys) : DecisionTrace where
  value := jsonTrace temperature input
  distinctKeys := jsonTrace_meets (fun _ h => h) (fun _ => trivial) trivial htemperature hinput

end IntentGuard.Localnet

namespace IntentGuard.Trace

open Js Infra Localnet

/-- The schema's type of the temperature is `number`, and the serializer throws. -/
theorem fractional_temperature_refused :
    ¬ ∀ t : DecisionTrace, t.value.json?.isSome → validateDecisionTrace t.value = .ok () →
      Serializes t.value := by
  intro h
  have hjson : (jsonTrace half (.object [])).json?.isSome ∧
      (validateDecisionTrace (jsonTrace half (.object []))).isOk ∧
        (serializeCanonical (jsonTrace half (.object []))).isOk = false := by decide +kernel
  obtain ⟨hjson, hvalid, hrefused⟩ := hjson
  cases hchecked : validateDecisionTrace (jsonTrace half (.object [])) with
  | error e =>
    rw [hchecked] at hvalid
    exact absurd hvalid Bool.false_ne_true
  | ok u =>
    obtain ⟨d, payload, hd, -⟩ :=
      h (jsonDecisionTrace half (.object []) trivial ⟨List.nodup_nil, trivial⟩) hjson hchecked
    have hd : serializeCanonical (jsonTrace half (.object [])) = .ok d := hd
    rw [hd] at hrefused
    exact absurd hrefused Bool.noConfusion

/-- With an integer temperature the trace is serialized. -/
theorem accepted_serializes_iff_jsonTrace : Serializes (jsonTrace zero (.object [])) := by
  have hvalid : (validateDecisionTrace (jsonTrace zero (.object []))).isOk := by decide +kernel
  cases hchecked : validateDecisionTrace (jsonTrace zero (.object [])) with
  | error e =>
    rw [hchecked] at hvalid
    exact absurd hvalid Bool.false_ne_true
  | ok u =>
    have hintegral : (jsonTrace zero (.object [])).Meets integral :=
      jsonTrace_meets (fun _ _ => trivial) (fun _ => trivial) rfl rfl ⟨trivial, trivial⟩
    exact (accepted_serializes_iff keccak256
      (jsonDecisionTrace zero (.object []) trivial ⟨List.nodup_nil, trivial⟩)
      hchecked).1.2 hintegral

end IntentGuard.Trace
