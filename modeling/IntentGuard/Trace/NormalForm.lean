import IntentGuard.Infra.KeyOrder
import IntentGuard.Trace.Integral

/-!
# Canonical texts as normal forms

The two canonical encodings, `canonicalize` of the services and `serializeCanonical` of the trace
package, and the digest of a trace. Picking the known fields of an accepted trace one by one neither
drops nor adds anything (`jsonOf_normalized`), so the text of a trace is the text of the JSON value
that it is, with the keys in order.

`canonical_texts_are_normal_forms`: two values have the same text, and two traces the same digest,
exactly when one reorders the keys of the other.
-/

namespace IntentGuard.Trace

open Js Infra SortedEntries

/-! ### JSON-valued traces -/

theorem keys_jsonEntries? {es : List (JsString × JsValue)} {fs : List (JsString × Json)}
    (h : jsonEntries? es = some fs) :
    fs.map Prod.fst = es.map Prod.fst := by
  induction es generalizing fs with
  | nil =>
    obtain rfl := Option.some.inj h
    rfl
  | cons e es ih =>
    obtain ⟨value, -, h⟩ := Option.bind_eq_some_iff.1 h
    obtain ⟨entries, hentries, h⟩ := Option.bind_eq_some_iff.1 h
    obtain rfl := Option.some.inj h
    rw [List.map_cons, List.map_cons, ih hentries]

mutual

/-- A JSON-valued value is written as that JSON value, its keys in order. -/
theorem jsonOf_eq_ordered {v : JsValue} {j : Json} (h : v.json? = some j) :
    jsonOf v = j.ordered := by
  cases v with
  | undefined | nan | infinity | bigint => exact absurd h (by simp [JsValue.json?])
  | null | bool | string | number =>
    obtain rfl := Option.some.inj h
    rfl
  | array vs =>
    obtain ⟨items, hitems, h⟩ := Option.bind_eq_some_iff.1 h
    obtain rfl := Option.some.inj h
    exact congrArg Json.array (jsonOfItems_eq_ordered hitems)
  | object es =>
    obtain ⟨entries, hentries, h⟩ := Option.bind_eq_some_iff.1 h
    obtain rfl := Option.some.inj h
    exact congrArg (fun es => Json.object (sortByKey le es)) (jsonOfEntries_eq_ordered hentries)

theorem jsonOfItems_eq_ordered {vs : List JsValue} {items : List Json}
    (h : jsonItems? vs = some items) :
    jsonOfItems vs = orderedItems items := by
  cases vs with
  | nil =>
    obtain rfl := Option.some.inj h
    rfl
  | cons v vs =>
    obtain ⟨item, hitem, h⟩ := Option.bind_eq_some_iff.1 h
    obtain ⟨items, hitems, h⟩ := Option.bind_eq_some_iff.1 h
    obtain rfl := Option.some.inj h
    exact congrArg₂ List.cons (jsonOf_eq_ordered hitem) (jsonOfItems_eq_ordered hitems)

theorem jsonOfEntries_eq_ordered {es : List (JsString × JsValue)} {entries : List (JsString × Json)}
    (h : jsonEntries? es = some entries) : jsonOfEntries es = orderedEntries entries := by
  cases es with
  | nil =>
    obtain rfl := Option.some.inj h
    rfl
  | cons e es =>
    obtain ⟨value, hvalue, h⟩ := Option.bind_eq_some_iff.1 h
    obtain ⟨entries, hentries, h⟩ := Option.bind_eq_some_iff.1 h
    obtain rfl := Option.some.inj h
    exact congrArg₂ List.cons (congrArg (Prod.mk e.1) (jsonOf_eq_ordered hvalue))
      (jsonOfEntries_eq_ordered hentries)

end

mutual

theorem finite_of_json? {v : JsValue} (hv : v.DistinctKeys) {j : Json} (h : v.json? = some j) :
    j.Finite := by
  cases v with
  | undefined | nan | infinity | bigint => exact absurd h (by simp [JsValue.json?])
  | null | bool | string =>
    obtain rfl := Option.some.inj h
    trivial
  | number x =>
    obtain rfl := Option.some.inj h
    exact x.2
  | array vs =>
    obtain ⟨items, hitems, h⟩ := Option.bind_eq_some_iff.1 h
    obtain rfl := Option.some.inj h
    exact finite_of_jsonItems? hv hitems
  | object es =>
    obtain ⟨entries, hentries, h⟩ := Option.bind_eq_some_iff.1 h
    obtain rfl := Option.some.inj h
    refine ⟨?_, finite_of_jsonEntries? hv.2 hentries⟩
    rw [keys_jsonEntries? hentries]
    exact hv.1

theorem finite_of_jsonItems? {vs : List JsValue} (hvs : JsValue.MeetsItems JsValue.distinct vs)
    {items : List Json} (h : jsonItems? vs = some items) : MeetsItems finite items := by
  cases vs with
  | nil =>
    obtain rfl := Option.some.inj h
    trivial
  | cons v vs =>
    obtain ⟨item, hitem, h⟩ := Option.bind_eq_some_iff.1 h
    obtain ⟨items, hitems, h⟩ := Option.bind_eq_some_iff.1 h
    obtain rfl := Option.some.inj h
    exact ⟨finite_of_json? hvs.1 hitem, finite_of_jsonItems? hvs.2 hitems⟩

theorem finite_of_jsonEntries? {es : List (JsString × JsValue)}
    (hes : JsValue.MeetsEntries JsValue.distinct es) {entries : List (JsString × Json)}
    (h : jsonEntries? es = some entries) : MeetsEntries finite entries := by
  cases es with
  | nil =>
    obtain rfl := Option.some.inj h
    trivial
  | cons e es =>
    obtain ⟨value, hvalue, h⟩ := Option.bind_eq_some_iff.1 h
    obtain ⟨entries, hentries, h⟩ := Option.bind_eq_some_iff.1 h
    obtain rfl := Option.some.inj h
    exact ⟨finite_of_json? hes.1 hvalue, finite_of_jsonEntries? hes.2 hentries⟩

end

/-! ### Picking the fields one by one -/

theorem jsonOfItems_eq_map (vs : List JsValue) : jsonOfItems vs = vs.map jsonOf := by
  induction vs with
  | nil => rfl
  | cons v vs ih =>
    unfold jsonOfItems
    rw [ih]
    rfl

theorem jsonOfEntries_eq_map (es : List (JsString × JsValue)) :
    jsonOfEntries es = es.map fun e => (e.1, jsonOf e.2) := by
  induction es with
  | nil => rfl
  | cons e es ih =>
    unfold jsonOfEntries
    rw [ih]
    rfl

/-- The entries of an object, looked up by their keys. -/
theorem perm_select {es : List (JsString × JsValue)} {keys : List String}
    (hperm : (es.map Prod.fst).Perm (keys.map text)) (hkeys : (keys.map text).Nodup) :
    (keys.map fun f => (text f, (JsValue.object es).get f)).Perm es := by
  have hnodup : (es.map Prod.fst).Nodup := hperm.nodup_iff.2 hkeys
  let lookup (k : JsString) : JsString × JsValue :=
    (k, ((es.find? fun e => e.1 = k).map Prod.snd).getD .undefined)
  have hlookup : (es.map Prod.fst).map lookup = es := by
    rw [List.map_map]
    refine (List.map_congr_left ?_).trans (List.map_id es)
    intro e he
    have hfind : es.find? (fun e' => e'.1 = e.1) = some e :=
      (Table.find_eq_some_iff hnodup).2 ⟨he, rfl⟩
    show (e.1, ((es.find? fun e' => e'.1 = e.1).map Prod.snd).getD .undefined) = e
    rw [hfind]
    rfl
  have hmapped := hperm.map lookup
  rw [hlookup, List.map_map] at hmapped
  exact hmapped.symm

/-- An object whose fields are picked one by one is written as the object. -/
theorem jsonOf_select {v : JsValue} {keys : List String} (h : HasKeys keys v)
    (hkeys : (keys.map text).Nodup) {fields : List (String × JsValue)}
    (hfst : fields.map Prod.fst = keys) (hfields : ∀ f ∈ fields, jsonOf f.2 = jsonOf (v.get f.1)) :
    jsonOf (record fields) = jsonOf v := by
  obtain ⟨es, rfl, hperm⟩ := h
  have hselected : jsonOfEntries (fields.map fun f => (text f.1, f.2)) =
      (keys.map fun f => (text f, (JsValue.object es).get f)).map fun e => (e.1, jsonOf e.2) := by
    rw [jsonOfEntries_eq_map, ← hfst, List.map_map, List.map_map, List.map_map]
    apply List.map_congr_left
    intro f hf
    exact congrArg (Prod.mk (text f.1)) (hfields f hf)
  show Json.object (sortByKey le (jsonOfEntries _)) = Json.object (sortByKey le (jsonOfEntries es))
  rw [hselected]
  refine congrArg Json.object (sortByKey_eq_of_perm le.total le.trans le.antisymm ?_ ?_)
  · rw [jsonOfEntries_eq_map]
    exact (perm_select hperm hkeys).map _
  · rw [List.map_map, List.map_map]
    exact hkeys

theorem jsonOf_get {v : JsValue} {keys : List String} (h : HasKeys keys v)
    (hkeys : (keys.map text).Nodup) :
    jsonOf (record (keys.map fun f => (f, v.get f))) = jsonOf v := by
  apply jsonOf_select h hkeys
  · rw [List.map_map]
    exact List.map_id keys
  · exact List.forall_mem_map.2 fun _ _ => rfl

theorem jsonOf_map_get {v : JsValue} {keys : List String}
    (h : ∃ vs, v = .array vs ∧ ∀ w ∈ vs, HasKeys keys w) (hkeys : (keys.map text).Nodup) :
    jsonOf (.array (v.items.map fun w => record (keys.map fun f => (f, w.get f)))) = jsonOf v := by
  obtain ⟨vs, rfl, hvs⟩ := h
  show Json.array (jsonOfItems _) = Json.array (jsonOfItems vs)
  rw [jsonOfItems_eq_map, jsonOfItems_eq_map, List.map_map]
  refine congrArg Json.array (List.map_congr_left ?_)
  intro w hw
  exact jsonOf_get (hvs w hw) hkeys

/-- The normal form of an accepted trace is written as the trace. -/
theorem jsonOf_normalized {t : JsValue} (h : Shaped t) : jsonOf (normalizeTrace t) = jsonOf t := by
  have hsession := jsonOf_get h.session (by decide)
  have hprompts := jsonOf_map_get h.prompts (by decide)
  have htoolCalls := jsonOf_map_get h.toolCalls (by decide)
  have hobservations := jsonOf_map_get h.observations (by decide)
  have hproposedAction := jsonOf_get h.proposedAction (by decide)
  refine jsonOf_select h.root (by decide) rfl ?_
  iterate 4 refine List.forall_mem_cons.2 ⟨rfl, ?_⟩
  refine List.forall_mem_cons.2 ⟨hsession,
    List.forall_mem_cons.2 ⟨hprompts, List.forall_mem_cons.2 ⟨htoolCalls, ?_⟩⟩⟩
  refine List.forall_mem_cons.2 ⟨hobservations, List.forall_mem_cons.2 ⟨hproposedAction, ?_⟩⟩
  exact List.forall_mem_cons.2 ⟨rfl, fun f hf => absurd hf List.not_mem_nil⟩

/-! ### Digests -/

section
variable {t : JsValue} (ht : t.DistinctKeys) {j : Json} (hj : t.json? = some j) {d : JsString}
  (h : serializeCanonical t = .ok d)

include ht hj h

theorem serializeCanonical_eq_stringify : d = JSON.stringify j.ordered := by
  have hshaped := shaped_of_validate (validate_of_serializeCanonical h)
  rw [(serializeCanonical_eq_ok ht h).1, jsonOf_normalized hshaped, jsonOf_eq_ordered hj]

theorem serializeCanonical_eq_iff {t' : JsValue} (ht' : t'.DistinctKeys) {j' : Json}
    (hj' : t'.json? = some j') {d' : JsString} (h' : serializeCanonical t' = .ok d') :
    d = d' ↔ j.Reorders j' := by
  have hfinite := finite_of_json? ht hj
  have hfinite' := finite_of_json? ht' hj'
  rw [serializeCanonical_eq_stringify ht hj h, serializeCanonical_eq_stringify ht' hj' h',
    stringify_ordered_inj hfinite hfinite', ordered_eq_iff hfinite hfinite']

end

theorem computeContextDigest_eq {K : Keccak} {t : JsValue} {d : JsString}
    (h : serializeCanonical t = .ok d) :
    computeContextDigest K t = .ok (toHex 64 (K.bytes (Js.encode d))) := by
  unfold computeContextDigest
  rw [h]
  rfl

theorem digest_inj {K : Keccak} (hK : ∀ b, K.bytes b < 2 ^ 256) {s s' : JsString}
    (hs : WellFormed s) (hs' : WellFormed s')
    (hcollision : K.bytes (Js.encode s) = K.bytes (Js.encode s') → Js.encode s = Js.encode s') :
    toHex 64 (K.bytes (Js.encode s)) = toHex 64 (K.bytes (Js.encode s')) ↔ s = s' :=
  calc toHex 64 (K.bytes (Js.encode s)) = toHex 64 (K.bytes (Js.encode s'))
      ↔ K.bytes (Js.encode s) = K.bytes (Js.encode s') :=
        toHex_inj (word_lt_digits (hK _)) (word_lt_digits (hK _))
    _ ↔ Js.encode s = Js.encode s' := ⟨hcollision, congrArg K.bytes⟩
    _ ↔ s = s' := encode_inj hs hs'

/-- Two values have one canonical text exactly when one reorders the other, and the text is read
back as a reordering. Likewise for the texts of two JSON-valued traces; and for their digests, if
the hash does not collide on the two texts. -/
theorem canonical_texts_are_normal_forms {K : Keccak} (hK : ∀ b, K.bytes b < 2 ^ 256) :
    (∀ v w : Json, v.Finite → w.Finite →
        (canonicalize v = canonicalize w ↔ v.Reorders w) ∧
          ∃ s u, canonicalize v = .ok s ∧ JSON.parse s = some u ∧ u.Reorders v) ∧
      ∀ (t t' : DecisionTrace) (j j' : Json) (d d' : JsString), t.value.json? = some j →
        t'.value.json? = some j' →
        serializeCanonical t.value = .ok d → serializeCanonical t'.value = .ok d' →
          (d = d' ↔ j.Reorders j') ∧
            ((K.bytes (Js.encode d) = K.bytes (Js.encode d') → Js.encode d = Js.encode d') →
              (computeContextDigest K t.value = computeContextDigest K t'.value ↔
                j.Reorders j')) := by
  refine ⟨fun v w hv hw => ⟨canonicalize_eq_iff hv hw, parse_canonicalize hv⟩, ?_⟩
  intro t t' j j' d d' hj hj' h h'
  have htexts := serializeCanonical_eq_iff t.distinctKeys hj h t'.distinctKeys hj' h'
  refine ⟨htexts, ?_⟩
  intro hcollision
  have hwell : WellFormed d :=
    serializeCanonical_eq_stringify t.distinctKeys hj h ▸ wellFormed_stringify _
  have hwell' : WellFormed d' :=
    serializeCanonical_eq_stringify t'.distinctKeys hj' h' ▸ wellFormed_stringify _
  rw [computeContextDigest_eq h, computeContextDigest_eq h', Except.ok.injEq,
    digest_inj hK hwell hwell' hcollision, htexts]

end IntentGuard.Trace

namespace IntentGuard.Localnet

open Js Infra Trace

def sortedInput : JsValue := .object [(text "a", .bool true), (text "b", .null)]

def unsortedInput : JsValue := .object [(text "b", .null), (text "a", .bool true)]

def sortedTrace : DecisionTrace :=
  jsonDecisionTrace zero sortedInput trivial
    ⟨show List.Nodup [text "a", text "b"] by decide, trivial, trivial, trivial⟩

def unsortedTrace : DecisionTrace :=
  jsonDecisionTrace zero unsortedInput trivial
    ⟨show List.Nodup [text "b", text "a"] by decide, trivial, trivial, trivial⟩

end IntentGuard.Localnet

namespace IntentGuard.Trace

open Js Infra Localnet

/-- Two traces with the keys of a tool's input in either order. -/
theorem canonical_texts_are_normal_forms_sortedTrace :
    ∃ j j', sortedTrace.value.json? = some j ∧ unsortedTrace.value.json? = some j' ∧ j.Reorders j' ∧
      computeContextDigest keccak256 sortedTrace.value =
        computeContextDigest keccak256 unsortedTrace.value := by
  have hserialized : sortedTrace.value.json?.isSome ∧ unsortedTrace.value.json?.isSome ∧
      (serializeCanonical sortedTrace.value).isOk ∧
        serializeCanonical sortedTrace.value = serializeCanonical unsortedTrace.value := by
    decide +kernel
  obtain ⟨hj, hj', hok, hsame⟩ := hserialized
  obtain ⟨j, hj⟩ := Option.isSome_iff_exists.1 hj
  obtain ⟨j', hj'⟩ := Option.isSome_iff_exists.1 hj'
  cases h : serializeCanonical sortedTrace.value with
  | error e =>
    rw [h] at hok
    exact absurd hok Bool.false_ne_true
  | ok d =>
    have hK : ∀ b, keccak256.bytes b < 2 ^ 256 := Keccak256.word_lt
    obtain ⟨htexts, hdigests⟩ :=
      (canonical_texts_are_normal_forms hK).2 sortedTrace unsortedTrace j j' d d hj hj' h
      (hsame.symm.trans h)
    exact ⟨j, j', hj, hj', htexts.1 rfl, (hdigests fun _ => rfl).2 (htexts.1 rfl)⟩

end IntentGuard.Trace
