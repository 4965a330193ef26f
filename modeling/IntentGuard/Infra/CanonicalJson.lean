import IntentGuard.Js.Number
import Mathlib.Data.List.Sort

/-!
# Canonical JSON

`canonical/json.ts` on the values that `JSON.parse` produces (no `bigint`, no `undefined`), and the
fields that the handlers read of such a value. A number of such a value is finite and printed from
its shortest decimal, or an infinity that a literal like `1e999` overflows to, which `encode`
refuses. The entries of an object have distinct keys and are sorted by `<`.
-/

namespace IntentGuard.Infra

open Js

inductive Json
  | null
  | bool (b : Bool)
  | number (x : Decimal)
  | infinity (negative : Bool)
  | string (s : JsString)
  | array (items : List Json)
  | object (entries : List (JsString × Json))

/-- `xs.join(",")`. -/
def joinComma : List JsString → JsString
  | [] => []
  | [x] => x
  | x :: xs => x ++ 44 :: joinComma xs

mutual

/-- `encode`, with the message of the error it throws. -/
def encode : Json → Except String JsString
  | .null => pure (text "null")
  | .bool b => pure (text (if b then "true" else "false"))
  | .number x => pure x.toString
  | .infinity _ => throw "canonicalize: non-finite number not allowed"
  | .string s => pure (quote s)
  | .array items => do
    let items ← encodeItems items
    pure (91 :: (joinComma items ++ [93]))
  | .object entries => do
    let entries ← encodeEntries entries
    let sorted := entries.insertionSort fun a b => le a.1 b.1
    pure (123 :: (joinComma (sorted.map fun e => quote e.1 ++ 58 :: e.2) ++ [125]))

def encodeItems : List Json → Except String (List JsString)
  | [] => pure []
  | v :: vs => do
    let s ← encode v
    let ss ← encodeItems vs
    pure (s :: ss)

/-- The entries with their values encoded, in the order of the object. -/
def encodeEntries : List (JsString × Json) → Except String (List (JsString × JsString))
  | [] => pure []
  | (k, v) :: es => do
    let s ← encode v
    let ss ← encodeEntries es
    pure ((k, s) :: ss)

end

def canonicalize (value : Json) : Except String JsString := encode value

/-- `value[key]` of an object. -/
def Json.get? (key : String) : Json → Option Json
  | .object entries => (entries.find? fun e => e.1 = text key).map Prod.snd
  | _ => none

/-- `z.string().regex(/^0x[0-9a-fA-F]{n}$/)` of a field. Two spellings of a value that differ in the
case of their digits are one value from here on: every later use of the string is blind to case. -/
def hexField (n : ℕ) (key : String) (body : Json) : Option ℕ :=
  match body.get? key with
  | some (.string s) => hexLiteral n s
  | _ => none

example :
    (canonicalize
      (.object [(text "b", .array [.null, .bool true]), (text "a", .string (text "x"))])).toOption =
      some (text "\x7b\"a\":\"x\",\"b\":[null,true]\x7d") := by decide +kernel

end IntentGuard.Infra
