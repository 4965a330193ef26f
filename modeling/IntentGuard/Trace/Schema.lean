import IntentGuard.Lib.Patterns
import IntentGuard.Trace.Integral
import Mathlib.Data.Rat.Defs

/-!
# The schema of a decision trace

`schema/decision-trace-v1.schema.json` against the checks of `validation.ts`. A `Schema` is a JSON
Schema with its `type` and the keywords that bear on it; `accepts` is whether a value is valid
against it. `Checked` and `Convertible` are what both sides check, and `Strict` what the schema
alone does.

`validator_matches_schema_iff`: the two agree on a value exactly when it fails a check that they
share or passes the five that the validator lacks.
-/

namespace IntentGuard.Trace

open Js Infra Pattern

/-! ### JSON Schema -/

/-- The keywords of a string. A pattern is anchored at both ends. -/
structure StringKeywords where
  const : Option JsString := none
  enum : Option (List JsString) := none
  pattern : Option (RegularExpression UInt16) := none

inductive Schema
  | string (keywords : StringKeywords)
  | number
  | integer (minimum : Option ℤ)
  | array (items : Schema)
  | object (required : List String) (properties : List (String × Schema))
      (additionalProperties : Bool)

/-- `minimum ≤ x`, where `x` is the number `±0.s × 10^n`. -/
def atLeast (minimum : ℤ) (x : Decimal) : Bool :=
  let magnitude : ℚ := x.digits * 10 ^ (x.exponent - (natToString x.digits).length)
  minimum ≤ (if x.negative then -magnitude else magnitude)

def StringKeywords.accepts (keywords : StringKeywords) (s : JsString) : Bool :=
  keywords.const.all (fun c => s = c) && keywords.enum.all (fun cs => cs.any fun c => s = c) &&
  keywords.pattern.all fun P => P.rmatch s

mutual

/-- The value is valid against the schema. -/
def Schema.accepts : Schema → JsValue → Bool
  | .string keywords, .string s => keywords.accepts s
  | .number, .number _ => true
  | .integer minimum, .number x => isInteger x.1 && minimum.all fun m => atLeast m x.1
  | .array items, .array vs => vs.all fun w => items.accepts w
  | .object required properties additionalProperties, .object es =>
    (required.all fun k => es.any fun e => e.1 = text k) && acceptsProperties properties es &&
      (additionalProperties || es.all fun e => properties.any fun p => e.1 = text p.1)
  | _, _ => false

def acceptsProperties : List (String × Schema) → List (JsString × JsValue) → Bool
  | [], _ => true
  | (k, schema) :: properties, es =>
    (es.all fun e => e.1 ≠ text k || schema.accepts e.2) && acceptsProperties properties es

end

/-! ### The document -/

/-- `[a-b]`. -/
def range (a b : UInt16) : List UInt16 :=
  (List.range' a.toNat (b.toNat + 1 - a.toNat)).map UInt16.ofNat

/-- `[0-9]`. -/
def digits : List UInt16 := range 48 57

/-- `[0-9a-fA-F]`. -/
def hexDigits : List UInt16 := range 48 57 ++ range 97 102 ++ range 65 70

def anyString : Schema := .string {}

def matching (pattern : RegularExpression UInt16) : Schema := .string { pattern := some pattern }

def decisionTraceSchema : Schema :=
  .object
    ["schemaVersion", "agentId", "owner", "intentHash", "session", "prompts", "toolCalls",
      "observations", "proposedAction", "nonce"]
    [("schemaVersion", .string { const := some (text "1.0.0") }),
      ("agentId", matching (literal (text "0x") * oneOf hexDigits ^ 64)),
      ("owner", matching (literal (text "0x") * oneOf hexDigits ^ 40)),
      ("intentHash", matching (literal (text "0x") * oneOf hexDigits ^ 64)),
      ("session",
        .object ["id", "startedAt", "model", "temperature"]
          [("id", anyString), ("startedAt", .integer none), ("model", anyString),
            ("temperature", .number)] false),
      ("prompts",
        .array
          (.object ["role", "content", "timestamp"]
            [("role", .string { enum := some [text "user", text "system", text "assistant"] }),
              ("content", anyString), ("timestamp", .integer none)] false)),
      ("toolCalls",
        .array
          (.object ["name", "input", "output", "timestamp"]
            [("name", anyString), ("input", .object [] [] true), ("output", .object [] [] true),
              ("timestamp", .integer none)] false)),
      ("observations",
        .array
          (.object ["source", "content", "timestamp"]
            [("source", anyString), ("content", anyString), ("timestamp", .integer none)] false)),
      ("proposedAction",
        .object ["target", "token", "amount", "callData", "rationale"]
          [("target", matching (literal (text "0x") * oneOf hexDigits ^ 40)),
            ("token", matching (literal (text "0x") * oneOf hexDigits ^ 40)),
            ("amount", matching (oneOf digits * (oneOf digits).star)),
            ("callData", matching (literal (text "0x") * (oneOf hexDigits).star)),
              ("rationale", anyString)] false),
      ("nonce", .integer (some 0))]
    false

/-! ### Kinds of values -/

def IsString (v : JsValue) : Prop := ∃ s, v = .string s

def IsNumber (v : JsValue) : Prop := ∃ x, v = .number x

def IsInteger (v : JsValue) : Prop := ∃ x : Double, v = .number x ∧ isInteger x.1 = true

def IsRecord (v : JsValue) : Prop := ∃ es, v = .object es

def IsHex (hexLength : ℕ) (v : JsValue) : Prop := ∃ s, v = .string s ∧ hexLiteral hexLength s ≠ none

/-- An array of values that each meet a condition. -/
def IsArrayOf (p : JsValue → Prop) (v : JsValue) : Prop := ∃ vs, v = .array vs ∧ ∀ w ∈ vs, p w

structure Prompt (v : JsValue) : Prop where
  keys : HasKeys promptKeys v
  role : ∃ s, v.get "role" = .string s ∧ s ∈ [text "user", text "system", text "assistant"]
  content : IsString (v.get "content")
  timestamp : IsInteger (v.get "timestamp")

structure ToolCall (v : JsValue) : Prop where
  keys : HasKeys toolCallKeys v
  name : IsString (v.get "name")
  input : IsRecord (v.get "input")
  output : IsRecord (v.get "output")
  timestamp : IsInteger (v.get "timestamp")

structure Observation (v : JsValue) : Prop where
  keys : HasKeys observationKeys v
  source : IsString (v.get "source")
  content : IsString (v.get "content")
  timestamp : IsInteger (v.get "timestamp")

/-- What the validator and the schema both check. -/
structure Checked (v : JsValue) : Prop where
  keys : HasKeys requiredKeys v
  schemaVersion : v.get "schemaVersion" = .string DECISION_TRACE_SCHEMA_VERSION
  agentId : IsHex 64 (v.get "agentId")
  owner : IsHex 40 (v.get "owner")
  intentHash : IsHex 64 (v.get "intentHash")
  session : HasKeys sessionKeys (v.get "session")
  startedAt : IsInteger ((v.get "session").get "startedAt")
  temperature : IsNumber ((v.get "session").get "temperature")
  prompts : IsArrayOf Prompt (v.get "prompts")
  toolCalls : IsArrayOf ToolCall (v.get "toolCalls")
  observations : IsArrayOf Observation (v.get "observations")
  proposedAction : HasKeys proposedActionKeys (v.get "proposedAction")
  target : IsHex 40 ((v.get "proposedAction").get "target")
  token : IsHex 40 ((v.get "proposedAction").get "token")
  rationale : IsString ((v.get "proposedAction").get "rationale")
  nonce : IsInteger (v.get "nonce")

/-- `amount` and `callData` have the right form once they are converted to strings. -/
structure Convertible (v : JsValue) : Prop where
  amount : ∃ s, ((v.get "proposedAction").get "amount").toString = some s ∧ isDecimalString s = true
  callData : ∃ s, ((v.get "proposedAction").get "callData").toString = some s ∧ isHexString s = true

/-- What the schema alone checks. -/
structure Strict (v : JsValue) : Prop where
  id : IsString ((v.get "session").get "id")
  model : IsString ((v.get "session").get "model")
  amount : IsString ((v.get "proposedAction").get "amount")
  callData : IsString ((v.get "proposedAction").get "callData")
  nonce : ∀ x : Double, v.get "nonce" = .number x → x.1.negative = false ∨ x.1.digits = 0

/-! ### Patterns -/

theorem mem_range {a b u : UInt16} : u ∈ range a b ↔ a.toNat ≤ u.toNat ∧ u.toNat ≤ b.toNat := by
  unfold range
  rw [List.mem_map]
  constructor
  · rintro ⟨n, hn, rfl⟩
    obtain ⟨hlow, hhigh⟩ := List.mem_range'_1.1 hn
    have hb := b.toNat_lt
    rw [UInt16.toNat_ofNat_of_lt' (show n < UInt16.size by change n < 65536; omega)]
    omega
  · rintro ⟨hlow, hhigh⟩
    exact ⟨u.toNat, List.mem_range'_1.2 (by omega), UInt16.ofNat_toNat⟩

theorem mem_digits {u : UInt16} : u ∈ digits ↔ (48 ≤ u.toNat && u.toNat ≤ 57) = true := by
  unfold digits
  rw [mem_range, Bool.and_eq_true, decide_eq_true_eq, decide_eq_true_eq]
  rfl

theorem mem_hexDigits {u : UInt16} : u ∈ hexDigits ↔ (hexValue u).isSome = true := by
  unfold hexDigits hexValue
  rw [List.mem_append, List.mem_append, mem_range, mem_range, mem_range]
  show ((48 ≤ u.toNat ∧ u.toNat ≤ 57) ∨ (97 ≤ u.toNat ∧ u.toNat ≤ 102)) ∨
    (65 ≤ u.toNat ∧ u.toNat ≤ 70) ↔ _
  dsimp only
  split_ifs <;> simp <;> omega

theorem foldl_hexValue_none (ds : JsString) :
    ds.foldl (fun acc u => do pure ((← acc) * 16 + (← hexValue u))) (none : Option ℕ) = none := by
  induction ds with
  | nil => rfl
  | cons u ds ih => exact ih

/-- The digits read as a number when all of them are digits. -/
theorem foldl_hexValue_ne_none_iff (ds : JsString) (acc : ℕ) :
    ds.foldl (fun acc u => do pure ((← acc) * 16 + (← hexValue u))) (some acc) ≠ none ↔
      ∀ u ∈ ds, (hexValue u).isSome = true := by
  induction ds generalizing acc with
  | nil => exact iff_of_true (Option.some_ne_none acc) (List.forall_mem_nil _)
  | cons u ds ih =>
    rw [List.foldl_cons, List.forall_mem_cons]
    cases hvalue : hexValue u with
    | none =>
      exact iff_of_false (fun h => h (foldl_hexValue_none ds)) fun h =>
        absurd h.1 Bool.false_ne_true
    | some d => exact (ih (acc * 16 + d)).trans (and_iff_right rfl).symm

theorem hexLiteral_ne_none_iff {n : ℕ} {s : JsString} :
    hexLiteral n s ≠ none ↔ ∃ ds, s = text "0x" ++ ds ∧ ds.length = n ∧ ∀ u ∈ ds,
      (hexValue u).isSome = true := by
  unfold hexLiteral
  split
  · next ds =>
    split_ifs with hlength
    · rw [foldl_hexValue_ne_none_iff]
      constructor
      · exact fun hall => ⟨ds, rfl, hlength, hall⟩
      · rintro ⟨ds', hds, -, hall⟩
        obtain rfl : ds = ds' := (List.cons.inj (List.cons.inj hds).2).2
        exact hall
    · refine iff_of_false (fun h => h rfl) ?_
      rintro ⟨ds', hds, hlength', -⟩
      obtain rfl : ds = ds' := (List.cons.inj (List.cons.inj hds).2).2
      exact hlength hlength'
  · next hshape =>
    refine iff_of_false (fun h => h rfl) ?_
    rintro ⟨ds, rfl, -, -⟩
    exact hshape ds rfl

theorem isHexString_iff {s : JsString} :
    isHexString s = true ↔ ∃ ds, s = text "0x" ++ ds ∧ ∀ u ∈ ds, (hexValue u).isSome = true := by
  unfold isHexString
  split
  · next ds =>
    rw [List.all_eq_true]
    constructor
    · exact fun hall => ⟨ds, rfl, hall⟩
    · rintro ⟨ds', hds, hall⟩
      obtain rfl : ds = ds' := (List.cons.inj (List.cons.inj hds).2).2
      exact hall
  · next hshape =>
    refine iff_of_false Bool.false_ne_true ?_
    rintro ⟨ds, rfl, -⟩
    exact hshape ds rfl

/-- `^0x[0-9a-fA-F]{n}$`. -/
theorem mem_hexPattern {n : ℕ} {s : JsString} :
    s ∈ (literal (text "0x") * oneOf hexDigits ^ n).matches' ↔ hexLiteral n s ≠ none := by
  rw [mem_literal_mul, hexLiteral_ne_none_iff]
  simp only [mem_oneOf_pow, mem_hexDigits]
  exact exists_congr fun ds => and_comm

/-! ### What the schema accepts -/

theorem string_accepts_iff {keywords : StringKeywords} {v : JsValue} :
    (Schema.string keywords).accepts v = true ↔ ∃ s, v = .string s ∧ keywords.accepts s = true := by
  cases v with
  | string s =>
    constructor
    · exact fun h => ⟨s, rfl, h⟩
    · rintro ⟨s', hs, h⟩
      obtain rfl := JsValue.string.inj hs
      exact h
  | _ => exact iff_of_false Bool.false_ne_true (by rintro ⟨s, hs, -⟩; exact absurd hs nofun)

theorem matching_accepts_iff {P : RegularExpression UInt16} {v : JsValue} :
    (matching P).accepts v = true ↔ ∃ s, v = .string s ∧ s ∈ P.matches' := by
  unfold matching
  rw [string_accepts_iff]
  exact exists_congr fun s => and_congr_right fun _ => RegularExpression.rmatch_iff_matches' P s

theorem hexPattern_accepts_iff {n : ℕ} {v : JsValue} :
    (matching (literal (text "0x") * oneOf hexDigits ^ n)).accepts v = true ↔ IsHex n v := by
  rw [matching_accepts_iff]
  simp only [mem_hexPattern]
  rfl

theorem amount_accepts_iff {v : JsValue} :
    (matching (oneOf digits * (oneOf digits).star)).accepts v = true ↔
      IsString v ∧ ∃ s, v.toString = some s ∧ isDecimalString s = true := by
  rw [matching_accepts_iff]
  constructor
  · rintro ⟨s, rfl, h⟩
    rw [mem_oneOf_plus] at h
    refine ⟨⟨s, rfl⟩, s, rfl, ?_⟩
    unfold isDecimalString
    rw [Bool.and_eq_true, decide_eq_true_eq, List.all_eq_true]
    exact ⟨h.1, fun u hu => mem_digits.1 (h.2 u hu)⟩
  · rintro ⟨⟨s, rfl⟩, s', hs, h⟩
    obtain rfl := Option.some.inj hs
    unfold isDecimalString at h
    rw [Bool.and_eq_true, decide_eq_true_eq, List.all_eq_true] at h
    exact ⟨s, rfl, mem_oneOf_plus.2 ⟨h.1, fun u hu => mem_digits.2 (h.2 u hu)⟩⟩

theorem callData_accepts_iff {v : JsValue} :
    (matching (literal (text "0x") * (oneOf hexDigits).star)).accepts v = true ↔
      IsString v ∧ ∃ s, v.toString = some s ∧ isHexString s = true := by
  rw [matching_accepts_iff]
  simp only [mem_literal_mul, mem_oneOf_star, mem_hexDigits, isHexString_iff]
  constructor
  · rintro ⟨s, rfl, ds, hds, rfl⟩
    exact ⟨⟨_, rfl⟩, _, rfl, ds, rfl, hds⟩
  · rintro ⟨⟨s, rfl⟩, s', hs, ds, rfl, hds⟩
    obtain rfl := Option.some.inj hs
    exact ⟨_, rfl, ds, hds, rfl⟩

theorem anyString_accepts_iff {v : JsValue} : anyString.accepts v = true ↔ IsString v := by
  unfold anyString
  rw [string_accepts_iff]
  exact exists_congr fun s => and_iff_left rfl

theorem number_accepts_iff {v : JsValue} : Schema.number.accepts v = true ↔ IsNumber v := by
  cases v with
  | number x => exact iff_of_true rfl ⟨x, rfl⟩
  | _ => exact iff_of_false Bool.false_ne_true (by rintro ⟨x, hx⟩; exact absurd hx nofun)

theorem integer_accepts_iff {minimum : Option ℤ} {v : JsValue} :
    (Schema.integer minimum).accepts v = true ↔
      IsInteger v ∧ ∀ x : Double, v = .number x → ∀ m ∈ minimum, atLeast m x.1 = true := by
  cases v with
  | number x =>
    show (isInteger x.1 && minimum.all fun m => atLeast m x.1) = true ↔ _
    rw [Bool.and_eq_true, Option.all_eq_true]
    constructor
    · rintro ⟨hinteger, hminimum⟩
      refine ⟨⟨x, rfl, hinteger⟩, ?_⟩
      rintro x' hx'
      obtain rfl := JsValue.number.inj hx'
      exact hminimum
    · rintro ⟨⟨x', hx', hinteger⟩, hminimum⟩
      obtain rfl := JsValue.number.inj hx'
      exact ⟨hinteger, hminimum x rfl⟩
  | _ => exact iff_of_false Bool.false_ne_true (by rintro ⟨⟨x, hx, -⟩, -⟩; exact absurd hx nofun)

theorem array_accepts_iff {items : Schema} {v : JsValue} :
    (Schema.array items).accepts v = true ↔ IsArrayOf (fun w => items.accepts w = true) v := by
  cases v with
  | array vs =>
    show (vs.all fun w => items.accepts w) = true ↔ _
    rw [List.all_eq_true]
    constructor
    · exact fun h => ⟨vs, rfl, h⟩
    · rintro ⟨vs', hvs, h⟩
      obtain rfl := JsValue.array.inj hvs
      exact h
  | _ => exact iff_of_false Bool.false_ne_true (by rintro ⟨vs, hvs, -⟩; exact absurd hvs nofun)

theorem record_accepts_iff {v : JsValue} :
    (Schema.object [] [] true).accepts v = true ↔ IsRecord v := by
  cases v with
  | object es => exact iff_of_true rfl ⟨es, rfl⟩
  | _ => exact iff_of_false Bool.false_ne_true (by rintro ⟨es, hes⟩; exact absurd hes nofun)

theorem acceptsProperties_iff {properties : List (String × Schema)}
    {es : List (JsString × JsValue)} :
    acceptsProperties properties es = true ↔
      ∀ p ∈ properties, ∀ e ∈ es, e.1 = text p.1 → p.2.accepts e.2 = true := by
  induction properties with
  | nil => exact iff_of_true rfl (List.forall_mem_nil _)
  | cons p properties ih =>
    obtain ⟨k, schema⟩ := p
    rw [acceptsProperties, Bool.and_eq_true, ih, List.all_eq_true, List.forall_mem_cons]
    refine and_congr_left fun _ => forall₂_congr fun e _ => ?_
    rw [Bool.or_eq_true, decide_eq_true_eq, ← Decidable.imp_iff_not_or]

/-- The value of a key of a record. -/
theorem get_of_mem {es : List (JsString × JsValue)} (hes : (es.map Prod.fst).Nodup)
    {e : JsString × JsValue} (he : e ∈ es) {key : String} (hkey : e.1 = text key) :
    (JsValue.object es).get key = e.2 := by
  have hfind : es.find? (fun e => e.1 = text key) = some e := by
    have h : Table.find Prod.fst (text key) es = some e := (Table.find_eq_some_iff hes).2 ⟨he, hkey⟩
    exact h
  show ((es.find? fun e => e.1 = text key).map Prod.snd).getD .undefined = e.2
  rw [hfind]
  rfl

/-- An object with all of its properties required and no others. -/
theorem closed_accepts_iff {required : List String} {properties : List (String × Schema)}
    (hkeys : (required.map text).Nodup) (hrequired : properties.map Prod.fst = required)
    {v : JsValue} (hv : v.DistinctKeys) :
    (Schema.object required properties false).accepts v = true ↔
      HasKeys required v ∧ ∀ p ∈ properties, p.2.accepts (v.get p.1) = true := by
  cases v with
  | object es =>
    have hes : (es.map Prod.fst).Nodup := hv.1
    show ((required.all fun k => es.any fun e => e.1 = text k) && acceptsProperties properties es &&
      (false || es.all fun e => properties.any fun p => e.1 = text p.1)) = true ↔ _
    rw [Bool.and_eq_true, Bool.and_eq_true, acceptsProperties_iff, Bool.false_or, List.all_eq_true,
      List.all_eq_true]
    simp only [List.any_eq_true, decide_eq_true_eq]
    constructor
    · rintro ⟨⟨hall, hvalues⟩, honly⟩
      have hperm : (es.map Prod.fst).Perm (required.map text) := by
        rw [List.perm_ext_iff_of_nodup hes hkeys]
        intro k
        rw [List.mem_map, List.mem_map]
        constructor
        · rintro ⟨e, he, rfl⟩
          obtain ⟨p, hp, hkey⟩ := honly e he
          exact ⟨p.1, hrequired ▸ List.mem_map_of_mem hp, hkey.symm⟩
        · rintro ⟨k, hk, rfl⟩
          exact hall k hk
      refine ⟨⟨es, rfl, hperm⟩, fun p hp => ?_⟩
      obtain ⟨e, he, hkey⟩ := hall p.1 (hrequired ▸ List.mem_map_of_mem hp)
      rw [get_of_mem hes he hkey]
      exact hvalues p hp e he hkey
    · rintro ⟨⟨es', hobject, hperm⟩, hvalues⟩
      obtain rfl := JsValue.object.inj hobject
      refine ⟨⟨fun k hk => ?_, fun p hp e he hkey => ?_⟩, fun e he => ?_⟩
      · exact List.mem_map.1 (hperm.mem_iff.2 (List.mem_map_of_mem hk))
      · rw [← get_of_mem hes he hkey]
        exact hvalues p hp
      · obtain ⟨k, hk, hkey⟩ := List.mem_map.1 (hperm.mem_iff.1 (List.mem_map_of_mem he))
        obtain ⟨p, hp, rfl⟩ := List.mem_map.1 (hrequired ▸ hk)
        exact ⟨p, hp, hkey.symm⟩
  | _ => exact iff_of_false Bool.false_ne_true (by rintro ⟨⟨es, hes, -⟩, -⟩; exact absurd hes nofun)

theorem isArrayOf_congr {p q : JsValue → Prop} {v : JsValue} (h : ∀ w ∈ v.items, (p w ↔ q w)) :
    IsArrayOf p v ↔ IsArrayOf q v := by
  refine exists_congr fun vs => and_congr_right fun hvs => forall₂_congr fun w hw => h w ?_
  rw [hvs]
  exact hw

theorem prompt_accepts_iff {v : JsValue} (hv : v.DistinctKeys) :
    (Schema.object ["role", "content", "timestamp"]
      [("role", .string { enum := some [text "user", text "system", text "assistant"] }),
        ("content", anyString), ("timestamp", .integer none)] false).accepts v = true ↔
          Prompt v := by
  have hkeys : (promptKeys.map text).Nodup := by decide
  refine Iff.trans (closed_accepts_iff hkeys (by rfl) hv) ?_
  simp only [List.forall_mem_cons, List.not_mem_nil, false_imp_iff, implies_true, and_true,
    string_accepts_iff, anyString_accepts_iff, integer_accepts_iff, Option.mem_def, reduceCtorEq]
  constructor
  · rintro ⟨hkeys, ⟨s, hs, hrole⟩, hcontent, htimestamp⟩
    exact ⟨hkeys, ⟨s, hs, by simpa [StringKeywords.accepts] using hrole⟩, hcontent, htimestamp⟩
  · rintro ⟨hkeys, ⟨s, hs, hrole⟩, hcontent, htimestamp⟩
    exact ⟨hkeys, ⟨s, hs, by simpa [StringKeywords.accepts] using hrole⟩, hcontent, htimestamp⟩

theorem toolCall_accepts_iff {v : JsValue} (hv : v.DistinctKeys) :
    (Schema.object ["name", "input", "output", "timestamp"]
      [("name", anyString), ("input", .object [] [] true), ("output", .object [] [] true),
        ("timestamp", .integer none)] false).accepts v = true ↔ ToolCall v := by
  have hkeys : (toolCallKeys.map text).Nodup := by decide
  refine Iff.trans (closed_accepts_iff hkeys (by rfl) hv) ?_
  simp only [List.forall_mem_cons, List.not_mem_nil, false_imp_iff, implies_true, and_true,
    record_accepts_iff, anyString_accepts_iff, integer_accepts_iff, Option.mem_def, reduceCtorEq]
  constructor
  · rintro ⟨hkeys, hname, hinput, houtput, htimestamp⟩
    exact ⟨hkeys, hname, hinput, houtput, htimestamp⟩
  · rintro ⟨hkeys, hname, hinput, houtput, htimestamp⟩
    exact ⟨hkeys, hname, hinput, houtput, htimestamp⟩

theorem observation_accepts_iff {v : JsValue} (hv : v.DistinctKeys) :
    (Schema.object ["source", "content", "timestamp"]
      [("source", anyString), ("content", anyString), ("timestamp", .integer none)]
        false).accepts v = true ↔
      Observation v := by
  have hkeys : (observationKeys.map text).Nodup := by decide
  refine Iff.trans (closed_accepts_iff hkeys (by rfl) hv) ?_
  simp only [List.forall_mem_cons, List.not_mem_nil, false_imp_iff, implies_true, and_true,
    anyString_accepts_iff, integer_accepts_iff, Option.mem_def, reduceCtorEq]
  constructor
  · rintro ⟨hkeys, hsource, hcontent, htimestamp⟩
    exact ⟨hkeys, hsource, hcontent, htimestamp⟩
  · rintro ⟨hkeys, hsource, hcontent, htimestamp⟩
    exact ⟨hkeys, hsource, hcontent, htimestamp⟩

theorem atLeast_zero_iff {x : Decimal} :
    atLeast 0 x = true ↔ x.negative = false ∨ x.digits = 0 := by
  unfold atLeast
  dsimp only
  have hpow : (0 : ℚ) < 10 ^ (x.exponent - (natToString x.digits).length) :=
    zpow_pos (by norm_num) _
  rw [decide_eq_true_eq, Int.cast_zero]
  cases hnegative : x.negative with
  | false =>
    refine iff_of_true ?_ (Or.inl rfl)
    rw [if_neg Bool.false_ne_true]
    exact mul_nonneg (Nat.cast_nonneg _) hpow.le
  | true =>
    rw [if_pos rfl, Left.nonneg_neg_iff]
    constructor
    · intro h
      by_contra hne
      have hdigits : 0 < x.digits := Nat.pos_of_ne_zero fun h => hne (Or.inr h)
      exact absurd h (not_le.2 (mul_pos (Nat.cast_pos.2 hdigits) hpow))
    · rintro (h | h)
      · exact absurd h Bool.noConfusion
      · rw [h, Nat.cast_zero, zero_mul]

theorem session_accepts_iff {v : JsValue} (hv : v.DistinctKeys) :
    (Schema.object ["id", "startedAt", "model", "temperature"]
      [("id", anyString), ("startedAt", .integer none), ("model", anyString),
        ("temperature", .number)]
      false).accepts v = true ↔
      HasKeys sessionKeys v ∧ IsString (v.get "id") ∧ IsInteger (v.get "startedAt") ∧
      IsString (v.get "model") ∧
        IsNumber (v.get "temperature") := by
  have hkeys : (sessionKeys.map text).Nodup := by decide
  refine Iff.trans (closed_accepts_iff hkeys (by rfl) hv) ?_
  simp only [List.forall_mem_cons, List.not_mem_nil, false_imp_iff, implies_true, and_true,
    anyString_accepts_iff, integer_accepts_iff, number_accepts_iff, Option.mem_def, reduceCtorEq]

theorem proposedAction_accepts_iff {v : JsValue} (hv : v.DistinctKeys) :
    (Schema.object ["target", "token", "amount", "callData", "rationale"]
      [("target", matching (literal (text "0x") * oneOf hexDigits ^ 40)),
        ("token", matching (literal (text "0x") * oneOf hexDigits ^ 40)),
        ("amount", matching (oneOf digits * (oneOf digits).star)),
        ("callData", matching (literal (text "0x") * (oneOf hexDigits).star)),
          ("rationale", anyString)]
      false).accepts v = true ↔
      HasKeys proposedActionKeys v ∧ IsHex 40 (v.get "target") ∧ IsHex 40 (v.get "token") ∧
        (IsString (v.get "amount") ∧ ∃ s, (v.get "amount").toString = some s ∧
          isDecimalString s = true) ∧
        (IsString (v.get "callData") ∧ ∃ s, (v.get "callData").toString = some s ∧
          isHexString s = true) ∧
        IsString (v.get "rationale") := by
  have hkeys : (proposedActionKeys.map text).Nodup := by decide
  refine Iff.trans (closed_accepts_iff hkeys (by rfl) hv) ?_
  simp only [List.forall_mem_cons, List.not_mem_nil, false_imp_iff, implies_true, and_true,
    anyString_accepts_iff, hexPattern_accepts_iff, amount_accepts_iff, callData_accepts_iff]

theorem schemaVersion_accepts_iff {v : JsValue} :
    (Schema.string { const := some (text "1.0.0") }).accepts v = true ↔
      v = .string DECISION_TRACE_SCHEMA_VERSION := by
  rw [string_accepts_iff]
  constructor
  · rintro ⟨s, rfl, h⟩
    have hconst : s = text "1.0.0" := by simpa [StringKeywords.accepts] using h
    rw [hconst]
    rfl
  · rintro rfl
    exact ⟨_, rfl, rfl⟩

/-- The schema accepts what passes the checks of both sides and its own. -/
theorem decisionTraceSchema_accepts_iff {v : JsValue} (hv : v.DistinctKeys) :
    decisionTraceSchema.accepts v = true ↔ Checked v ∧ Convertible v ∧ Strict v := by
  have hkeys : (requiredKeys.map text).Nodup := by decide
  refine Iff.trans (closed_accepts_iff hkeys (by rfl) hv) ?_
  simp only [List.forall_mem_cons, List.not_mem_nil, false_imp_iff, implies_true, and_true,
    schemaVersion_accepts_iff, hexPattern_accepts_iff, integer_accepts_iff, array_accepts_iff,
    session_accepts_iff (hv.get "session"),
    proposedAction_accepts_iff (hv.get "proposedAction"),
    isArrayOf_congr fun w hw => prompt_accepts_iff ((hv.get "prompts").items w hw),
    isArrayOf_congr fun w hw => toolCall_accepts_iff ((hv.get "toolCalls").items w hw),
    isArrayOf_congr fun w hw => observation_accepts_iff ((hv.get "observations").items w hw)]
  simp only [Option.mem_def, Option.some.injEq, forall_eq', atLeast_zero_iff]
  constructor
  · rintro ⟨hroot, hversion, hagentId, howner, hintentHash,
      ⟨hsession, hid, hstartedAt, hmodel, htemperature⟩, hprompts, htoolCalls, hobservations,
      ⟨haction, htarget, htoken, ⟨hamountString, hamount⟩, ⟨hcallDataString, hcallData⟩,
        hrationale⟩, hnonce, hminimum⟩
    exact
      ⟨⟨hroot, hversion, hagentId, howner, hintentHash, hsession, hstartedAt, htemperature,
        hprompts, htoolCalls,
          hobservations, haction, htarget, htoken, hrationale, hnonce⟩,
        ⟨hamount, hcallData⟩, ⟨hid, hmodel, hamountString, hcallDataString, hminimum⟩⟩
  · rintro ⟨hchecked, hconvertible, hstrict⟩
    exact
      ⟨hchecked.keys, hchecked.schemaVersion, hchecked.agentId, hchecked.owner, hchecked.intentHash,
        ⟨hchecked.session, hstrict.id, hchecked.startedAt, hstrict.model, hchecked.temperature⟩,
        hchecked.prompts,
        hchecked.toolCalls, hchecked.observations,
        ⟨hchecked.proposedAction, hchecked.target, hchecked.token,
          ⟨hstrict.amount, hconvertible.amount⟩, ⟨hstrict.callData, hconvertible.callData⟩,
            hchecked.rationale⟩,
        hchecked.nonce, hstrict.nonce⟩

/-! ### What the validator accepts -/

/-- The sorted keys are equal exactly when the keys are the same up to their order. -/
theorem assertExactKeys_eq_ok_iff {es : List (JsString × JsValue)} {keys : List String}
    {field : JsString} {u : Unit} :
    assertExactKeys es keys field = .ok u ↔ (es.map Prod.fst).Perm (keys.map text) := by
  refine ⟨assertExactKeys_eq_ok, fun hperm => throwIf_eq_ok.2 (not_not.2 ?_)⟩
  have : Std.Total fun a b : JsString => (le a b : Prop) := ⟨le.total⟩
  have : IsTrans JsString fun a b => (le a b : Prop) := ⟨le.trans⟩
  have hactual := List.perm_insertionSort (fun a b => (le a b : Prop)) (es.map Prod.fst)
  have hexpected := List.perm_insertionSort (fun a b => (le a b : Prop)) (keys.map text)
  refine ((hactual.trans hperm).trans hexpected.symm).eq_of_pairwise
    (fun a b _ _ => le.antisymm a b) ?_ ?_
  · exact List.pairwise_insertionSort _ _
  · exact List.pairwise_insertionSort _ _

/-- A check of the exact keys of a record, and the rest. -/
theorem exactKeys_eq_ok_iff {v : JsValue} {keys : List String} {field : JsString}
    {rest : Unit → Except TraceError Unit} {u : Unit} :
    (toRecord v >>= fun es => assertExactKeys es keys field >>= rest) = .ok u ↔
      HasKeys keys v ∧ rest () = .ok u := by
  cases v with
  | object es =>
    show (assertExactKeys es keys field >>= rest) = .ok u ↔ _
    rw [bind_eq_ok]
    constructor
    · rintro ⟨_, hkeys, hrest⟩
      exact ⟨⟨es, rfl, assertExactKeys_eq_ok hkeys⟩, hrest⟩
    · rintro ⟨⟨es', hes, hperm⟩, hrest⟩
      obtain rfl := JsValue.object.inj hes
      exact ⟨(), assertExactKeys_eq_ok_iff.2 hperm, hrest⟩
  | _ =>
    refine iff_of_false (fun h => absurd h nofun) ?_
    rintro ⟨⟨es, hes, -⟩, -⟩
    exact absurd hes nofun

/-- A check, and the rest. -/
theorem check_eq_ok_iff {check : Except TraceError Unit} {rest : Unit → Except TraceError Unit}
    {u : Unit} :
    (check >>= rest) = .ok u ↔ check = .ok () ∧ rest () = .ok u := by
  rw [bind_eq_ok]
  exact ⟨fun ⟨_, hcheck, hrest⟩ => ⟨hcheck, hrest⟩, fun ⟨hcheck, hrest⟩ => ⟨(), hcheck, hrest⟩⟩

theorem assertString_eq_ok_iff {v : JsValue} {field : JsString} {u : Unit} :
    assertString v field = .ok u ↔ IsString v := by
  cases v with
  | string s => exact iff_of_true rfl ⟨s, rfl⟩
  | _ => exact iff_of_false nofun (by rintro ⟨s, hs⟩; exact absurd hs nofun)

theorem assertNumber_eq_ok_iff {v : JsValue} {field : JsString} {u : Unit} :
    assertNumber v field = .ok u ↔ IsNumber v := by
  cases v with
  | number x => exact iff_of_true rfl ⟨x, rfl⟩
  | _ => exact iff_of_false nofun (by rintro ⟨x, hx⟩; exact absurd hx nofun)

theorem assertInteger_eq_ok_iff {v : JsValue} {field : JsString} {u : Unit} :
    assertInteger v field = .ok u ↔ IsInteger v := by
  cases v with
  | number x =>
    refine throwIf_eq_ok.trans (Bool.not_eq_false _ ▸ ?_)
    constructor
    · exact fun h => ⟨x, rfl, h⟩
    · rintro ⟨x', hx', h⟩
      obtain rfl := JsValue.number.inj hx'
      exact h
  | _ => exact iff_of_false nofun (by rintro ⟨x, hx, -⟩; exact absurd hx nofun)

theorem assertRecord_eq_ok_iff {v : JsValue} {field : JsString} {u : Unit} :
    assertRecord v field = .ok u ↔ IsRecord v := by
  cases v with
  | object es => exact iff_of_true rfl ⟨es, rfl⟩
  | _ => exact iff_of_false nofun (by rintro ⟨es, hes⟩; exact absurd hes nofun)

theorem assertHex_eq_ok_iff {v : JsValue} {n : ℕ} {field : JsString} {u : Unit} :
    assertHex v n field = .ok u ↔ IsHex n v := by
  cases v with
  | string s =>
    refine throwIf_eq_ok.trans ?_
    constructor
    · exact fun h => ⟨s, rfl, h⟩
    · rintro ⟨s', hs, h⟩
      obtain rfl := JsValue.string.inj hs
      exact h
  | _ => exact iff_of_false nofun (by rintro ⟨s, hs, -⟩; exact absurd hs nofun)

theorem forEntries_eq_ok_iff {body : ℕ → JsValue → Except TraceError Unit} {p : JsValue → Prop}
    (hbody : ∀ i w, body i w = .ok () ↔ p w) {vs : List JsValue} {i : ℕ} :
    forEntries body i vs = .ok () ↔ ∀ w ∈ vs, p w := by
  induction vs generalizing i with
  | nil => exact iff_of_true rfl (List.forall_mem_nil _)
  | cons w vs ih => rw [forEntries, check_eq_ok_iff, hbody, ih, List.forall_mem_cons]

/-- The checks of an array and of its items. -/
theorem array_eq_ok_iff {body : ℕ → JsValue → Except TraceError Unit} {p : JsValue → Prop}
    (hbody : ∀ i w, body i w = .ok () ↔ p w) {v : JsValue} {field : JsString} :
    (assertArray v field = .ok () ∧ forEntries body 0 v.items = .ok ()) ↔ IsArrayOf p v := by
  rw [forEntries_eq_ok_iff hbody]
  cases v with
  | array vs =>
    constructor
    · rintro ⟨-, h⟩
      exact ⟨vs, rfl, h⟩
    · rintro ⟨vs', hvs, h⟩
      obtain rfl := JsValue.array.inj hvs
      exact ⟨rfl, h⟩
  | _ =>
    refine iff_of_false (fun h => absurd h.1 nofun) ?_
    rintro ⟨vs, hvs, -⟩
    exact absurd hvs nofun

theorem validatePrompt_eq_ok_iff (i : ℕ) (w : JsValue) :
    validatePrompt i w = .ok () ↔ Prompt w := by
  unfold validatePrompt
  rw [exactKeys_eq_ok_iff]
  extract_lets checked
  have hchecked : checked () = .ok () ↔
      IsString (w.get "content") ∧ IsInteger (w.get "timestamp") := by
    show (assertString _ _ >>= fun _ => assertInteger _ _) = .ok () ↔ _
    rw [check_eq_ok_iff, assertString_eq_ok_iff, assertInteger_eq_ok_iff]
  generalize checked = rest at hchecked
  refine Iff.trans (b := HasKeys promptKeys w ∧
    (∃ s, w.get "role" = .string s ∧ s ∈ [text "user", text "system", text "assistant"]) ∧
      rest () = .ok ()) ?_ ?_
  · refine and_congr_right fun _ => ?_
    generalize w.get "role" = role
    cases role with
    | string s =>
      dsimp only
      rw [check_eq_ok_iff, throwIf_eq_ok, not_not]
      refine and_congr_left fun _ => ⟨fun h => ⟨s, rfl, h⟩, ?_⟩
      rintro ⟨s', hs, h⟩
      obtain rfl := JsValue.string.inj hs
      exact h
    | _ =>
      refine iff_of_false (fun h => absurd h nofun) ?_
      rintro ⟨⟨s, hs, -⟩, -⟩
      exact absurd hs nofun
  · rw [hchecked]
    constructor
    · rintro ⟨hkeys, hrole, hcontent, htimestamp⟩
      exact ⟨hkeys, hrole, hcontent, htimestamp⟩
    · rintro ⟨hkeys, hrole, hcontent, htimestamp⟩
      exact ⟨hkeys, hrole, hcontent, htimestamp⟩

theorem validateToolCall_eq_ok_iff (i : ℕ) (w : JsValue) :
    validateToolCall i w = .ok () ↔ ToolCall w := by
  unfold validateToolCall
  rw [exactKeys_eq_ok_iff, check_eq_ok_iff, check_eq_ok_iff, check_eq_ok_iff,
    assertString_eq_ok_iff, assertRecord_eq_ok_iff, assertRecord_eq_ok_iff, assertInteger_eq_ok_iff]
  constructor
  · rintro ⟨hkeys, hname, hinput, houtput, htimestamp⟩
    exact ⟨hkeys, hname, hinput, houtput, htimestamp⟩
  · rintro ⟨hkeys, hname, hinput, houtput, htimestamp⟩
    exact ⟨hkeys, hname, hinput, houtput, htimestamp⟩

theorem validateObservation_eq_ok_iff (i : ℕ) (w : JsValue) :
    validateObservation i w = .ok () ↔ Observation w := by
  unfold validateObservation
  rw [exactKeys_eq_ok_iff, check_eq_ok_iff, check_eq_ok_iff, assertString_eq_ok_iff,
    assertString_eq_ok_iff, assertInteger_eq_ok_iff]
  constructor
  · rintro ⟨hkeys, hsource, hcontent, htimestamp⟩
    exact ⟨hkeys, hsource, hcontent, htimestamp⟩
  · rintro ⟨hkeys, hsource, hcontent, htimestamp⟩
    exact ⟨hkeys, hsource, hcontent, htimestamp⟩

/-- A conversion that may throw, a check of its result, and the rest. -/
theorem converted_eq_ok_iff {o : Option JsString} {check : JsString → Bool} {e : TraceError}
    {rest : Unit → Except TraceError Unit} {u : Unit} :
    (orThrow .type o >>= fun s => throwIf (check s = false) e >>= rest) = .ok u ↔
      (∃ s, o = some s ∧ check s = true) ∧ rest () = .ok u := by
  rw [bind_eq_ok]
  simp only [orThrow_eq_ok, check_eq_ok_iff, throwIf_eq_ok, Bool.not_eq_false]
  constructor
  · rintro ⟨s, hs, hcheck, hrest⟩
    exact ⟨⟨s, hs, hcheck⟩, hrest⟩
  · rintro ⟨⟨s, hs, hcheck⟩, hrest⟩
    exact ⟨s, hs, hcheck, hrest⟩

/-- The exact keys include the required ones. -/
theorem requiredKeys_eq_ok_iff {v : JsValue} {e : String → TraceError} {field : JsString}
    {rest : Unit → Except TraceError Unit} {u : Unit} :
    (toRecord v >>= fun root =>
      (requiredKeys.forM fun key => throwIf (text key ∉ root.map Prod.fst) (e key)) >>= fun _ =>
      assertExactKeys root requiredKeys field >>= rest) = .ok u ↔
        HasKeys requiredKeys v ∧ rest () = .ok u := by
  have hpresent : ∀ (es : List (JsString × JsValue)) (keys : List String),
      (∀ key ∈ keys, text key ∈ es.map Prod.fst) →
      (keys.forM fun key => throwIf (text key ∉ es.map Prod.fst) (e key)) = .ok () := by
    intro es keys
    induction keys with
    | nil => exact fun _ => rfl
    | cons key keys ih =>
      intro hkeys
      rw [List.forall_mem_cons] at hkeys
      exact check_eq_ok_iff.2 ⟨throwIf_eq_ok.2 (not_not.2 hkeys.1), ih hkeys.2⟩
  rw [← @exactKeys_eq_ok_iff _ _ field, bind_eq_ok, bind_eq_ok]
  refine exists_congr fun es => and_congr_right fun _ => ?_
  rw [check_eq_ok_iff]
  refine and_iff_right_of_imp fun h => hpresent es requiredKeys fun key hkey => ?_
  obtain ⟨_, hkeys, -⟩ := bind_eq_ok.1 h
  exact (assertExactKeys_eq_ok hkeys).mem_iff.2 (List.mem_map_of_mem hkey)

/-- The validator accepts what passes the checks of both sides. -/
theorem validate_eq_ok_iff {v : JsValue} :
    validateDecisionTrace v = .ok () ↔ Checked v ∧ Convertible v := by
  unfold validateDecisionTrace
  extract_lets session proposedAction checked
  rw [requiredKeys_eq_ok_iff]
  refine Iff.trans (b := HasKeys requiredKeys v ∧
    v.get "schemaVersion" = .string DECISION_TRACE_SCHEMA_VERSION ∧
    checked () = .ok ()) ?_ ?_
  · generalize checked = rest
    refine and_congr_right fun _ => ?_
    generalize v.get "schemaVersion" = version
    cases version with
    | string s =>
      dsimp only
      rw [check_eq_ok_iff, throwIf_eq_ok, not_not, JsValue.string.injEq]
    | _ =>
      refine iff_of_false (fun h => ?_) fun h => absurd h.1 nofun
      obtain ⟨_, -, h⟩ := bind_eq_ok.1 h
      exact absurd h nofun
  · simp only [checked, check_eq_ok_iff, exactKeys_eq_ok_iff, converted_eq_ok_iff,
      assertHex_eq_ok_iff, assertInteger_eq_ok_iff, assertNumber_eq_ok_iff, assertString_eq_ok_iff]
    constructor
    · rintro ⟨hroot, hversion, hagentId, howner, hintentHash, hsession, hstartedAt, htemperature,
        hprompts, hprompt, htoolCalls, htoolCall, hobservations, hobservation, haction, htarget,
          htoken, hamount, hcallData, hrationale, hnonce⟩
      exact
        ⟨⟨hroot, hversion, hagentId, howner, hintentHash, hsession, hstartedAt, htemperature,
            (array_eq_ok_iff validatePrompt_eq_ok_iff).1 ⟨hprompts, hprompt⟩,
            (array_eq_ok_iff validateToolCall_eq_ok_iff).1 ⟨htoolCalls, htoolCall⟩,
            (array_eq_ok_iff validateObservation_eq_ok_iff).1 ⟨hobservations, hobservation⟩,
            haction, htarget, htoken,
            hrationale, hnonce⟩,
          ⟨hamount, hcallData⟩⟩
    · rintro ⟨hchecked, hconvertible⟩
      obtain ⟨hprompts, hprompt⟩ :=
        (@array_eq_ok_iff _ _ validatePrompt_eq_ok_iff _ (text "prompts")).2 hchecked.prompts
      obtain ⟨htoolCalls, htoolCall⟩ :=
        (@array_eq_ok_iff _ _ validateToolCall_eq_ok_iff _ (text "toolCalls")).2 hchecked.toolCalls
      obtain ⟨hobservations, hobservation⟩ :=
        (@array_eq_ok_iff _ _ validateObservation_eq_ok_iff _ (text "observations")).2
          hchecked.observations
      exact
        ⟨hchecked.keys, hchecked.schemaVersion, hchecked.agentId, hchecked.owner,
          hchecked.intentHash, hchecked.session, hchecked.startedAt, hchecked.temperature, hprompts,
          hprompt, htoolCalls, htoolCall, hobservations, hobservation,
          hchecked.proposedAction, hchecked.target, hchecked.token, hconvertible.amount,
          hconvertible.callData,
          hchecked.rationale, hchecked.nonce⟩

/-- A JSON value passes the validator exactly when it is valid against the schema, unless it passes
all that the two share and fails one of the five checks that the validator lacks. -/
theorem validator_matches_schema_iff {v : JsValue} (hv : v.DistinctKeys) :
    (validateDecisionTrace v = .ok () ↔ decisionTraceSchema.accepts v = true) ↔
      (Checked v → Convertible v → Strict v) := by
  rw [validate_eq_ok_iff, decisionTraceSchema_accepts_iff hv]
  constructor
  · exact fun h hchecked hconvertible => (h.1 ⟨hchecked, hconvertible⟩).2.2
  · exact fun h =>
      ⟨fun hvalid => ⟨hvalid.1, hvalid.2, h hvalid.1 hvalid.2⟩,
        fun hvalid => ⟨hvalid.1, hvalid.2.1⟩⟩

end IntentGuard.Trace

namespace IntentGuard.Localnet

open Js Infra Trace

def minusOne : JsValue := .number ⟨⟨true, 1, 1⟩, by decide +kernel⟩

/-- A JSON trace of a payment. -/
def paymentTrace (amount nonce : JsValue) : JsValue :=
  record
    [("schemaVersion", .string (text "1.0.0")), ("agentId", .string (toHex 64 agent)),
      ("owner", .string (toHex 40 alice)), ("intentHash", .string (toHex 64 0)),
      ("session",
        record
          [("id", .string (text "session")), ("startedAt", zero), ("model", .string (text "model")),
            ("temperature", zero)]),
      ("prompts", .array [record [("role", .string (text "user")), ("content", .string []),
        ("timestamp", zero)]]),
      ("toolCalls", .array []), ("observations", .array []),
      ("proposedAction",
        record
          [("target", .string (toHex 40 merchant)), ("token", .string (toHex 40 localnet.USDC)),
            ("amount", amount), ("callData", .string (text "0x")), ("rationale", .string [])]),
      ("nonce", nonce)]

theorem paymentTrace_distinctKeys {amount nonce : JsValue} (hamount : amount.DistinctKeys)
    (hnonce : nonce.DistinctKeys) : (paymentTrace amount nonce).DistinctKeys := by
  have htop : (requiredKeys.map text).Nodup := by decide
  have hsession : (sessionKeys.map text).Nodup := by decide
  have hprompt : (promptKeys.map text).Nodup := by decide
  have haction : (proposedActionKeys.map text).Nodup := by decide
  simp only [requiredKeys, sessionKeys, promptKeys, proposedActionKeys, List.map_cons,
    List.map_nil] at *
  simp only [paymentTrace, meets_record, List.forall_mem_cons, List.map_cons, List.map_nil,
    JsValue.Meets, zero, JsValue.MeetsItems, JsValue.distinct]
  simp only [htop, hsession, hprompt, haction, List.not_mem_nil, IsEmpty.forall_iff, implies_true,
    and_true, true_and]
  exact ⟨hamount, hnonce⟩

end IntentGuard.Localnet

namespace IntentGuard.Trace

open Js Infra Localnet

/-- The schema has a least nonce, and the validator does not. -/
theorem negative_nonce_passes :
    ¬ ∀ v : JsValue, v.DistinctKeys → v.json?.isSome →
      (validateDecisionTrace v = .ok () ↔ decisionTraceSchema.accepts v = true) := by
  intro h
  have hdistinct : (paymentTrace (.string (text "5")) minusOne).DistinctKeys :=
    paymentTrace_distinctKeys trivial trivial
  have hchecks : (paymentTrace (.string (text "5")) minusOne).json?.isSome ∧
      validateDecisionTrace (paymentTrace (.string (text "5")) minusOne) = .ok () := by
    decide +kernel
  have haccepted := (h _ hdistinct hchecks.1).1 hchecks.2
  have hstrict := ((decisionTraceSchema_accepts_iff hdistinct).1 haccepted).2.2
  have hnonce : (true = false) ∨ (1 = 0) := hstrict.nonce ⟨⟨true, 1, 1⟩, by decide +kernel⟩ rfl
  exact absurd hnonce (by decide)

/-- A payment with an amount that is a string and a nonce that is not negative. -/
theorem validator_matches_schema_iff_payment :
    validateDecisionTrace (paymentTrace (.string (text "5")) zero) = .ok () ↔
      decisionTraceSchema.accepts (paymentTrace (.string (text "5")) zero) = true := by
  have hdistinct : (paymentTrace (.string (text "5")) zero).DistinctKeys :=
    paymentTrace_distinctKeys trivial trivial
  refine (validator_matches_schema_iff hdistinct).2 fun _ _ => ?_
  exact
    { id := ⟨_, rfl⟩
      model := ⟨_, rfl⟩
      amount := ⟨_, rfl⟩
      callData := ⟨_, rfl⟩
      nonce := fun x hx => by
        obtain rfl := JsValue.number.inj hx
        exact Or.inl rfl }

end IntentGuard.Trace
