import IntentGuard.Infra.JsonParse

/-!
# Values of a decision trace

A `DecisionTrace` is checked at run time, so a trace is any JavaScript value that its producer can
hand over: a JSON value, with `undefined`, the numbers that JSON has no literal for, and `bigint`.
An object is its own properties, which have distinct keys (`DistinctKeys`); functions, symbols,
accessors and sparse arrays are left out.
-/

namespace IntentGuard.Trace

open Js Infra

inductive JsValue
  | undefined
  | null
  | bool (b : Bool)
  | number (x : Double)
  | nan
  | infinity (negative : Bool)
  | bigint (n : ℤ)
  | string (s : JsString)
  | array (items : List JsValue)
  | object (entries : List (JsString × JsValue))

namespace JsValue

/-- `value.key`, for a key that no prototype has. -/
def get (value : JsValue) (key : String) : JsValue :=
  match value with
  | .object entries => ((entries.find? fun e => e.1 = text key).map Prod.snd).getD .undefined
  | _ => .undefined

/-- The items of an array. -/
def items : JsValue → List JsValue
  | .array vs => vs
  | _ => []

def isNullish : JsValue → Bool
  | .undefined | .null => true
  | _ => false

section
variable (C : Condition)

mutual

/-- The condition holds at every depth. -/
def Meets : JsValue → Prop
  | .undefined | .null | .bool _ | .bigint _ => True
  | .number x => C.number x.1
  | .nan | .infinity _ => C.infinity
  | .string s => C.string s
  | .array vs => MeetsItems vs
  | .object es => C.keys (es.map Prod.fst) ∧ MeetsEntries es

def MeetsItems : List JsValue → Prop
  | [] => True
  | v :: vs => v.Meets ∧ MeetsItems vs

def MeetsEntries : List (JsString × JsValue) → Prop
  | [] => True
  | (_, v) :: es => v.Meets ∧ MeetsEntries es

end

theorem meetsItems_iff (vs : List JsValue) : MeetsItems C vs ↔ ∀ v ∈ vs, v.Meets C := by
  induction vs with
  | nil => simp [MeetsItems]
  | cons v vs ih => rw [MeetsItems, ih, List.forall_mem_cons]

theorem meetsEntries_iff (es : List (JsString × JsValue)) :
    MeetsEntries C es ↔ ∀ e ∈ es, e.2.Meets C := by
  induction es with
  | nil => simp [MeetsEntries]
  | cons e es ih => rw [MeetsEntries, ih, List.forall_mem_cons]

variable {C}

theorem Meets.get {v : JsValue} (hv : v.Meets C) (key : String) : (v.get key).Meets C := by
  cases v with
  | object es =>
    obtain ⟨-, hes⟩ := hv
    rw [meetsEntries_iff] at hes
    show (((es.find? _).map Prod.snd).getD .undefined).Meets C
    cases hfind : es.find? fun e => e.1 = text key with
    | none => trivial
    | some e => exact hes e (List.mem_of_find?_eq_some hfind)
  | _ => trivial

theorem Meets.items {v : JsValue} (hv : v.Meets C) : ∀ w ∈ v.items, w.Meets C := by
  cases v with
  | array vs => exact (meetsItems_iff C vs).1 hv
  | _ => exact fun w hw => absurd hw List.not_mem_nil

end

/-- The keys of every object are distinct. -/
def distinct : Condition where
  number _ := True
  infinity := True
  string _ := True
  keys ks := ks.Nodup

abbrev DistinctKeys (v : JsValue) : Prop := v.Meets distinct

end JsValue

/-! ### Conversions -/

/-- `n.toString()` of a `bigint`. -/
def intToString (n : ℤ) : JsString :=
  if n < 0 then 45 :: natToString n.natAbs else natToString n.natAbs

/-- `Number.isInteger(x)`: no digit stands behind the point. -/
def isInteger (x : Decimal) : Bool :=
  x.digits = 0 || ((natToString x.digits).length : ℤ) ≤ x.exponent

mutual

/-- `ToString(value)`, `none` where it throws a `TypeError`: an own property `toString` hides the
inherited method, and `valueOf` answers with the object. -/
def JsValue.toString : JsValue → Option JsString
  | .undefined => some (text "undefined")
  | .null => some (text "null")
  | .bool b => some (text (if b then "true" else "false"))
  | .number x => some x.1.toString
  | .nan => some (text "NaN")
  | .infinity negative => some (text (if negative then "-Infinity" else "Infinity"))
  | .bigint n => some (intToString n)
  | .string s => some s
  | .array vs => (toStringItems vs).map joinComma
  | .object es =>
    if es.any fun e => e.1 = text "toString" then none else some (text "[object Object]")

def toStringItems : List JsValue → Option (List JsString)
  | [] => some []
  | v :: vs => do
    let s ← if v.isNullish then pure [] else v.toString
    let ss ← toStringItems vs
    pure (s :: ss)

end

example : (JsValue.array [.array [.string (text "5")], .null, .bigint (-3)]).toString =
    some (text "5,,-3") := by decide +kernel

/-! ### Records -/

/-- An object literal with its properties spelled out. -/
def record (fields : List (String × JsValue)) : JsValue :=
  .object (fields.map fun f => (text f.1, f.2))

theorem meets_record {C : Condition} {fields : List (String × JsValue)} :
    (record fields).Meets C ↔ C.keys (fields.map fun f => text f.1) ∧ ∀ f ∈ fields,
      f.2.Meets C := by
  show C.keys ((fields.map _).map Prod.fst) ∧ JsValue.MeetsEntries C (fields.map _) ↔ _
  rw [List.map_map, JsValue.meetsEntries_iff, List.forall_mem_map]
  rfl

end IntentGuard.Trace
