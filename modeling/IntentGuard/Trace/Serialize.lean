import IntentGuard.Infra.KeyOrder
import IntentGuard.Lib.SortedEntries
import IntentGuard.Trace.Validation

/-!
# Canonical serialization

`serialize.ts` and `digest.ts`. `jsonOf` is the JSON value that a trace value is written as:
`undefined` as `null`, a `bigint` as its digits in a string, the keys of an object in order.

`serializeCanonical_eq`: an accepted trace is written as the text of that value, which is one that
`JSON.parse` reads back.
-/

namespace IntentGuard.Trace

open Js Infra SortedEntries

mutual

def canonicalStringify : JsValue → Except TraceError JsString
  | .undefined | .null => pure (text "null")
  | .string s => pure (quote s)
  | .number x =>
    if isInteger x.1 then pure x.1.toString
    else throw
      (.error (text "Invalid number in trace: " ++ x.1.toString ++
        text ". Only finite integers allowed."))
  | .nan => throw (.error (text "Invalid number in trace: NaN. Only finite integers allowed."))
  | .infinity negative =>
    throw (.error (text "Invalid number in trace: " ++
      text (if negative then "-Infinity" else "Infinity") ++
      text ". Only finite integers allowed."))
  | .bool b => pure (text (if b then "true" else "false"))
  | .bigint n => pure (34 :: (intToString n ++ [34]))
  | .array vs => do
    let items ← canonicalStringifyItems vs
    pure (91 :: (joinComma items ++ [93]))
  | .object es => do
    let pairs ← collect (sortByKey le (canonicalStringifyEntries es))
    pure (123 :: (joinComma (pairs.map fun e => quote e.1 ++ 58 :: e.2) ++ [125]))

def canonicalStringifyItems : List JsValue → Except TraceError (List JsString)
  | [] => pure []
  | v :: vs => do
    let s ← canonicalStringify v
    let ss ← canonicalStringifyItems vs
    pure (s :: ss)

/-- What each property is written as; it is sorted before an error among them is thrown. -/
def canonicalStringifyEntries : List (JsString × JsValue) →
    List (JsString × Except TraceError JsString)
  | [] => []
  | (k, v) :: es => (k, canonicalStringify v) :: canonicalStringifyEntries es

end

def normalizeTrace (trace : JsValue) : JsValue :=
  let session := trace.get "session"
  let proposedAction := trace.get "proposedAction"
  record
    [("schemaVersion", trace.get "schemaVersion"), ("agentId", trace.get "agentId"),
      ("owner", trace.get "owner"), ("intentHash", trace.get "intentHash"),
      ("session",
        record
          [("id", session.get "id"), ("startedAt", session.get "startedAt"),
            ("model", session.get "model"), ("temperature", session.get "temperature")]),
      ("prompts",
        .array ((trace.get "prompts").items.map fun p =>
          record [("role", p.get "role"), ("content", p.get "content"),
            ("timestamp", p.get "timestamp")])),
      ("toolCalls",
        .array ((trace.get "toolCalls").items.map fun tc =>
          record
            [("name", tc.get "name"), ("input", tc.get "input"), ("output", tc.get "output"),
              ("timestamp", tc.get "timestamp")])),
      ("observations",
        .array ((trace.get "observations").items.map fun o =>
          record [("source", o.get "source"), ("content", o.get "content"),
            ("timestamp", o.get "timestamp")])),
      ("proposedAction",
        record
          [("target", proposedAction.get "target"), ("token", proposedAction.get "token"),
            ("amount", proposedAction.get "amount"), ("callData", proposedAction.get "callData"),
            ("rationale", proposedAction.get "rationale")]),
      ("nonce", trace.get "nonce")]

def serializeCanonical (trace : JsValue) : Except TraceError JsString := do
  validateDecisionTrace trace
  canonicalStringify (normalizeTrace trace)

def computeContextDigest (K : Keccak) (trace : JsValue) : Except TraceError JsString := do
  let canonical ← serializeCanonical trace
  pure (toHex 64 (K.bytes (Js.encode canonical)))

/-! ### What is written -/

/-- `-0` is written as `0`. -/
def numberOf (x : Double) : Decimal := if x.1.digits = 0 then ⟨false, 0, 0⟩ else x.1

mutual

def jsonOf : JsValue → Json
  | .undefined | .null | .nan | .infinity _ => .null
  | .bool b => .bool b
  | .number x => .number (numberOf x)
  | .bigint n => .string (intToString n)
  | .string s => .string s
  | .array vs => .array (jsonOfItems vs)
  | .object es => .object (sortByKey le (jsonOfEntries es))

def jsonOfItems : List JsValue → List Json
  | [] => []
  | v :: vs => jsonOf v :: jsonOfItems vs

def jsonOfEntries : List (JsString × JsValue) → List (JsString × Json)
  | [] => []
  | (k, v) :: es => (k, jsonOf v) :: jsonOfEntries es

end

/-! ### Numbers -/

theorem quote_of_plain {s : JsString}
    (hs : ∀ u ∈ s, 32 ≤ u.toNat ∧ u.toNat < 0x80 ∧ u ≠ 34 ∧ u ≠ 92) :
    quote s = 34 :: (s ++ [34]) := by
  have hunit : ∀ u ∈ s, ∀ paired, quoteUnit u paired = [u] := by
    intro u hu paired
    obtain ⟨hspace, hascii, hquote, hslash⟩ := hs u hu
    have hne : ∀ n : UInt16, n.toNat < 32 → u ≠ n := by
      intro n hn h
      subst h
      omega
    have hhigh : isHighSurrogate u = false := by
      unfold isHighSurrogate
      rw [decide_eq_false (by omega), Bool.false_and]
    have hlow : isLowSurrogate u = false := by
      unfold isLowSurrogate
      rw [decide_eq_false (by omega), Bool.false_and]
    unfold quoteUnit
    rw [if_neg (hne 8 (by decide)), if_neg (hne 9 (by decide)), if_neg (hne 10 (by decide)),
      if_neg (hne 12 (by decide)), if_neg (hne 13 (by decide)), if_neg hquote, if_neg hslash, hhigh,
        hlow, decide_eq_false (by omega)]
    rfl
  clear hs
  have hbody : quoteBody s = s := by
    fun_induction quoteBody s with
    | case1 => rfl
    | case2 u => exact hunit u List.mem_cons_self false
    | case3 u v rest hpair ih =>
      rw [List.forall_mem_cons, List.forall_mem_cons] at hunit
      rw [hunit.1, hunit.2.1, ih hunit.2.2]
      rfl
    | case4 u v rest hpair ih =>
      rw [List.forall_mem_cons] at hunit
      rw [hunit.1, ih hunit.2]
      rfl
  rw [quote, hbody]

theorem mem_natToString {n : ℕ} {u : UInt16} (hu : u ∈ natToString n) :
    48 ≤ u.toNat ∧ u.toNat ≤ 57 := by
  have hdigit : JsonText.isDigit u.toNat = true := isDigit_of_mem (List.mem_map_of_mem hu)
  simpa [JsonText.isDigit] using hdigit

theorem quote_intToString (n : ℤ) : quote (intToString n) = 34 :: (intToString n ++ [34]) := by
  have hdigits : ∀ u ∈ natToString n.natAbs, 32 ≤ u.toNat ∧ u.toNat < 0x80 ∧ u ≠ 34 ∧ u ≠ 92 := by
    intro u hu
    obtain ⟨hlow, hhigh⟩ := mem_natToString hu
    refine ⟨by omega, by omega, ?_, ?_⟩
    · intro h
      subst h
      exact absurd hlow (by decide)
    · intro h
      subst h
      exact absurd hhigh (by decide)
  apply quote_of_plain
  unfold intToString
  split_ifs
  · exact List.forall_mem_cons.2 ⟨by decide, hdigits⟩
  · exact hdigits

theorem isInteger_numberOf {x : Double} (h : isInteger x.1 = true) :
    isInteger (numberOf x) = true := by
  unfold numberOf
  split_ifs
  · rfl
  · exact h

/-! ### The canonical text -/

/-- What a canonical text carries: integers, and objects whose keys are in order. -/
def canonical : Condition where
  number x := (x.round = some x ∧ (x.digits = 0 → x.negative = false)) ∧ isInteger x = true
  infinity := False
  string _ := True
  keys ks := ks.Pairwise (· < ·)

theorem canonical_implies_plain : canonical.Implies plain where
  number _ h := h.1
  infinity h := h
  string _ _ := trivial
  keys ks h := by
    refine List.Pairwise.imp ?_ h
    intro a b hab heq
    exact List.lt_irrefl b (heq ▸ hab)

theorem canonical_implies_sorted : canonical.Implies sorted where
  number _ _ := trivial
  infinity h := h
  string _ _ := trivial
  keys _ h := h

theorem keys_jsonOfEntries (es : List (JsString × JsValue)) :
    (jsonOfEntries es).map Prod.fst = es.map Prod.fst := by
  induction es with
  | nil => rfl
  | cons e es ih =>
    unfold jsonOfEntries
    rw [List.map_cons, List.map_cons, ih]

/-- Sorting distinct keys puts them in order. -/
theorem pairwise_sortByKey_lt {α : Type} {es : List (JsString × α)} (h : (es.map Prod.fst).Nodup) :
    ((sortByKey le es).map Prod.fst).Pairwise (· < ·) := by
  have hsorted := pairwise_sortByKey le.total le.trans es
  have hkeys : (sortByKey le es).Pairwise fun a b => a.1 ≠ b.1 :=
    List.pairwise_map.1 (((sortByKey_perm es).map Prod.fst).nodup_iff.2 h)
  refine List.pairwise_map.2 ((hsorted.and hkeys).imp ?_)
  intro a b hab
  obtain ⟨hle, hne⟩ := hab
  have hle : a.1 ≤ b.1 := of_decide_eq_true hle
  by_contra hlt
  exact hne (List.le_antisymm hle (List.not_lt.1 hlt))

mutual

/-- What is written without an error is the text of a JSON value whose keys are in order. -/
theorem canonicalStringify_eq_ok {v : JsValue} (hv : v.DistinctKeys) {d : JsString}
    (h : canonicalStringify v = .ok d) :
    d = JSON.stringify (jsonOf v) ∧ (jsonOf v).Meets canonical := by
  cases v with
  | undefined | null | bool | string =>
    obtain rfl := Except.ok.inj h
    exact ⟨rfl, trivial⟩
  | number x =>
    unfold canonicalStringify at h
    split_ifs at h with hinteger
    obtain rfl := Except.ok.inj h
    exact ⟨(toString_writtenNumber x.1).symm, writtenNumber_plain x.2, isInteger_numberOf hinteger⟩
  | nan => exact absurd h (by simp [canonicalStringify])
  | infinity negative => exact absurd h (by simp [canonicalStringify])
  | bigint n =>
    obtain rfl := Except.ok.inj h
    exact ⟨(quote_intToString n).symm, trivial⟩
  | array vs =>
    unfold canonicalStringify at h
    obtain ⟨ss, hss, h⟩ := bind_eq_ok.1 h
    obtain rfl := Except.ok.inj h
    obtain ⟨rfl, hcanonical⟩ := canonicalStringifyItems_eq_ok hv hss
    exact ⟨rfl, hcanonical⟩
  | object es =>
    obtain ⟨hkeys, hdistinct⟩ := hv
    unfold canonicalStringify at h
    obtain ⟨ps, hps, h⟩ := bind_eq_ok.1 h
    obtain rfl := Except.ok.inj h
    obtain ⟨hentries, hvalues⟩ :=
      canonicalStringifyEntries_eq_ok hdistinct (ok_of_collect_sortByKey hps)
    rw [hentries, sortByKey_map, collect_map_ok] at hps
    obtain rfl := Except.ok.inj hps
    refine ⟨?_, pairwise_sortByKey_lt ((keys_jsonOfEntries es).symm ▸ hkeys),
      (meetsEntries_iff _ _).2 fun e he => hvalues e (mem_sortByKey.1 he)⟩
    show _ = 123 :: (joinComma (stringifyEntries (sortByKey le (jsonOfEntries es))) ++ [125])
    rw [stringifyEntries_eq_map, List.map_map]
    rfl

theorem canonicalStringifyItems_eq_ok {vs : List JsValue}
    (hvs : JsValue.MeetsItems JsValue.distinct vs) {ds : List JsString}
    (h : canonicalStringifyItems vs = .ok ds) :
    ds = stringifyItems (jsonOfItems vs) ∧ MeetsItems canonical (jsonOfItems vs) := by
  cases vs with
  | nil =>
    obtain rfl := Except.ok.inj h
    exact ⟨rfl, trivial⟩
  | cons v vs =>
    unfold canonicalStringifyItems at h
    obtain ⟨s, hs, h⟩ := bind_eq_ok.1 h
    obtain ⟨ss, hss, h⟩ := bind_eq_ok.1 h
    obtain rfl := Except.ok.inj h
    obtain ⟨rfl, hcanonical⟩ := canonicalStringify_eq_ok hvs.1 hs
    obtain ⟨rfl, hcanonicals⟩ := canonicalStringifyItems_eq_ok hvs.2 hss
    exact ⟨rfl, hcanonical, hcanonicals⟩

theorem canonicalStringifyEntries_eq_ok {es : List (JsString × JsValue)}
    (hes : JsValue.MeetsEntries JsValue.distinct es)
    (h : ∀ p ∈ canonicalStringifyEntries es, ∃ s, p.2 = .ok s) :
    (canonicalStringifyEntries es = (jsonOfEntries es).map
      fun e => (e.1, .ok (JSON.stringify e.2))) ∧
      ∀ e ∈ jsonOfEntries es, e.2.Meets canonical := by
  cases es with
  | nil => exact ⟨rfl, fun e he => absurd he List.not_mem_nil⟩
  | cons e es =>
    obtain ⟨k, v⟩ := e
    unfold canonicalStringifyEntries at h
    rw [List.forall_mem_cons] at h
    obtain ⟨⟨s, hs⟩, h⟩ := h
    have hs : canonicalStringify v = .ok s := hs
    obtain ⟨rfl, hcanonical⟩ := canonicalStringify_eq_ok hes.1 hs
    obtain ⟨htail, hvalues⟩ := canonicalStringifyEntries_eq_ok hes.2 h
    unfold canonicalStringifyEntries jsonOfEntries
    refine ⟨?_, List.forall_mem_cons.2 ⟨hcanonical, hvalues⟩⟩
    rw [htail, hs]
    rfl

end

/-! ### Traces -/

theorem distinctKeys_select {v : JsValue} (hv : v.DistinctKeys) (fields : List String)
    (hfields : (fields.map text).Nodup) :
    (record (fields.map fun f => (f, v.get f))).DistinctKeys := by
  refine meets_record.2 ⟨?_, ?_⟩
  · rwa [List.map_map]
  · intro f hf
    obtain ⟨key, -, rfl⟩ := List.mem_map.1 hf
    exact hv.get key

theorem distinctKeys_map_select {v : JsValue} (hv : v.DistinctKeys) (fields : List String)
    (hfields : (fields.map text).Nodup) :
    (JsValue.array
      (v.items.map fun w => record (fields.map fun f => (f, w.get f)))).DistinctKeys := by
  refine (JsValue.meetsItems_iff _ _).2 ?_
  intro w hw
  obtain ⟨w', hw', rfl⟩ := List.mem_map.1 hw
  exact distinctKeys_select (hv.items w' hw') fields hfields

theorem normalizeTrace_distinctKeys {t : JsValue} (ht : t.DistinctKeys) :
    (normalizeTrace t).DistinctKeys := by
  have hrequired : (requiredKeys.map text).Nodup := by decide
  have hsession := distinctKeys_select (ht.get "session") sessionKeys (by decide)
  have hprompts := distinctKeys_map_select (ht.get "prompts") promptKeys (by decide)
  have htoolCalls := distinctKeys_map_select (ht.get "toolCalls") toolCallKeys (by decide)
  have hobservations := distinctKeys_map_select (ht.get "observations") observationKeys (by decide)
  have hproposedAction :=
    distinctKeys_select (ht.get "proposedAction") proposedActionKeys (by decide)
  refine meets_record.2 ⟨hrequired, ?_⟩
  iterate 4 refine List.forall_mem_cons.2 ⟨ht.get _, ?_⟩
  refine List.forall_mem_cons.2 ⟨hsession,
    List.forall_mem_cons.2 ⟨hprompts, List.forall_mem_cons.2 ⟨htoolCalls, ?_⟩⟩⟩
  refine List.forall_mem_cons.2 ⟨hobservations, List.forall_mem_cons.2 ⟨hproposedAction, ?_⟩⟩
  exact List.forall_mem_cons.2 ⟨ht.get _, fun f hf => absurd hf List.not_mem_nil⟩

section
variable {C : Condition} (hC : ∀ {ks ks' : List JsString}, ks.Perm ks' → (C.keys ks ↔ C.keys ks'))

include hC

/-- An object and its properties picked one by one. -/
theorem meets_select {v : JsValue} {keys : List String} (h : HasKeys keys v)
    (hkeys : (keys.map text).Nodup) :
    (record (keys.map fun f => (f, v.get f))).Meets C ↔ v.Meets C := by
  obtain ⟨es, rfl, hperm⟩ := h
  have hnodup : (es.map Prod.fst).Nodup := hperm.nodup_iff.2 hkeys
  have hget : ∀ e ∈ es, ∀ f, e.1 = text f → (JsValue.object es).get f = e.2 := by
    intro e he f hfe
    show ((es.find? fun e => e.1 = text f).map Prod.snd).getD .undefined = e.2
    rw [show es.find? (fun e => e.1 = text f) = some e from
      (Table.find_eq_some_iff hnodup).2 ⟨he, hfe⟩]
    rfl
  rw [meets_record, List.map_map, List.forall_mem_map]
  show _ ↔ C.keys (es.map Prod.fst) ∧ JsValue.MeetsEntries C es
  rw [JsValue.meetsEntries_iff, hC hperm]
  refine and_congr Iff.rfl ⟨?_, ?_⟩
  · intro hfields e he
    obtain ⟨f, hf, hfe⟩ := List.mem_map.1 (hperm.mem_iff.1 (List.mem_map_of_mem he))
    rw [← hget e he f hfe.symm]
    exact hfields f hf
  · intro hentries f hf
    obtain ⟨e, he, hfe⟩ := List.mem_map.1 (hperm.mem_iff.2 (List.mem_map_of_mem hf))
    rw [hget e he f hfe]
    exact hentries e he

theorem meets_map_select {v : JsValue} {keys : List String}
    (h : ∃ vs, v = .array vs ∧ ∀ w ∈ vs, HasKeys keys w) (hkeys : (keys.map text).Nodup) :
    (JsValue.array (v.items.map fun w => record (keys.map fun f => (f, w.get f)))).Meets C ↔
      v.Meets C := by
  obtain ⟨vs, rfl, hvs⟩ := h
  show JsValue.MeetsItems C (vs.map _) ↔ JsValue.MeetsItems C vs
  rw [JsValue.meetsItems_iff, JsValue.meetsItems_iff, List.forall_mem_map]
  exact forall₂_congr fun w hw => meets_select hC (hvs w hw) hkeys

/-- The normal form of an accepted trace carries what the trace carries. -/
theorem normalizeTrace_meets_iff {t : JsValue} (h : Shaped t) :
    (normalizeTrace t).Meets C ↔ t.Meets C := by
  rw [← meets_select hC h.root (by decide)]
  have hsession := meets_select hC h.session (by decide)
  have hprompts := meets_map_select hC h.prompts (by decide)
  have htoolCalls := meets_map_select hC h.toolCalls (by decide)
  have hobservations := meets_map_select hC h.observations (by decide)
  have hproposedAction := meets_select hC h.proposedAction (by decide)
  unfold normalizeTrace
  rw [meets_record, meets_record]
  simp only [requiredKeys, List.map_cons, List.map_nil, List.forall_mem_cons]
  iterate 5 refine and_congr Iff.rfl ?_
  exact and_congr hsession (and_congr hprompts (and_congr htoolCalls (and_congr hobservations
    (and_congr hproposedAction Iff.rfl))))

end

/-- An accepted trace is written as the text of a JSON value whose keys are in order. -/
theorem serializeCanonical_eq_ok {t : JsValue} (ht : t.DistinctKeys) {d : JsString}
    (h : serializeCanonical t = .ok d) :
    d = JSON.stringify (jsonOf (normalizeTrace t)) ∧
    (jsonOf (normalizeTrace t)).Meets canonical := by
  unfold serializeCanonical at h
  generalize validateDecisionTrace t = valid at h
  cases valid with
  | error e => exact absurd h (by simp [bind, Except.bind])
  | ok u =>
    simp only [bind, Except.bind] at h
    exact canonicalStringify_eq_ok (normalizeTrace_distinctKeys ht) h

end IntentGuard.Trace
