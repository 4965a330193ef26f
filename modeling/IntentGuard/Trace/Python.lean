import IntentGuard.Js.Double
import IntentGuard.Lib.SortedEntries
import IntentGuard.Lib.Table
import IntentGuard.Trace.PythonKeccak

/-!
# The Python helper

`trace.py`: what `json.loads` reads, `serialize_canonical` and the two commands of `main`. A Python
string is a list of code points, which may be surrogates; an integer has no bound, and a float is
given by its shortest decimal. `json.loads` is given for the texts of the JSON grammar (it also
reads `NaN` and `Infinity`), and text enters and leaves the process in UTF-8.

`serializeCanonical_eq_ok`: what is written is the text of a tree.
-/

namespace IntentGuard.Trace.Python

open Js JsonText SortedEntries

abbrev PyString := List ℕ

inductive PyValue
  | none
  | bool (b : Bool)
  | int (n : ℤ)
  | float (x : Decimal)
  | inf (negative : Bool)
  | str (s : PyString)
  | list (items : List PyValue)
  | dict (entries : List (PyString × PyValue))

inductive PyError
  | jsonDecodeError
  | valueError (message : PyString)
  | unicodeEncodeError
  deriving DecidableEq

/-- A literal; every literal here is ASCII. -/
def ascii (s : String) : PyString := s.toList.map Char.toNat

/-! ### json.loads -/

def isHigh (c : ℕ) : Bool := 0xD800 ≤ c && c ≤ 0xDBFF

def isLow (c : ℕ) : Bool := 0xDC00 ≤ c && c ≤ 0xDFFF

/-- Two halves of a pair that are both escaped make one code point. -/
def decodeGlyphs : List Glyph → PyString
  | [] => []
  | .escaped c :: .escaped c' :: gs =>
    if isHigh c && isLow c' then (0x10000 + (c - 0xD800) * 0x400 + (c' - 0xDC00)) :: decodeGlyphs gs
    else c :: decodeGlyphs (.escaped c' :: gs)
  | g :: gs => g.code :: decodeGlyphs gs

/-- `int(…)` of a literal without a fraction and an exponent. -/
def intOf (x : Literal) : ℤ := if x.negative then -(ofDigits x.whole : ℤ) else ofDigits x.whole

def numberOf (x : Literal) : PyValue :=
  if x.fraction = [] ∧ x.exponent = Option.none then .int (intOf x)
  else
    match (decimalOf x).round with
    | some d => .float d
    | Option.none => .inf x.negative

/-- `d[key] = value`. -/
def setItem (entries : List (PyString × PyValue)) (e : PyString × PyValue) :
    List (PyString × PyValue) :=
  Table.upsert Prod.fst (fun _ => e) e entries

mutual

def ofTree : Tree → PyValue
  | .null => .none
  | .bool b => .bool b
  | .number x => numberOf x
  | .string s => .str (decodeGlyphs s)
  | .array ts => .list (ofItems ts)
  | .object ms => .dict ((ofMembers ms).foldl setItem [])

def ofItems : List Tree → List PyValue
  | [] => []
  | t :: ts => ofTree t :: ofItems ts

def ofMembers : List (List Glyph × Tree) → List (PyString × PyValue)
  | [] => []
  | (k, t) :: ms => (decodeGlyphs k, ofTree t) :: ofMembers ms

end

def loads (s : PyString) : Except PyError PyValue :=
  match JsonText.parse s with
  | some t => .ok (ofTree t)
  | Option.none => .error .jsonDecodeError

/-! ### serialize_canonical -/

/-- A character of `json.dumps(s, ensure_ascii=False)`. -/
def glyphOf (c : ℕ) : Glyph := if (shortEscape c).isSome || c < 0x20 then .escaped c else .raw c

/-- `json.dumps(s, ensure_ascii=False)`. -/
def dumps (s : PyString) : PyString := 34 :: printGlyphs (s.map glyphOf)

/-- `str(n)`. -/
def strInt (n : ℤ) : PyString := if n < 0 then 45 :: digitCodes n.natAbs else digitCodes n.natAbs

/-- The significand and the exponent of a float. -/
def binaryOf (x : Decimal) : ℕ × ℤ :=
  let scale := x.exponent - (digitCodes x.digits).length
  if x.digits = 0 then (0, 0) else nearestBinary (x.digits * 10 ^ scale.toNat) (10 ^ (-scale).toNat)

/-- `x.is_integer()`. -/
def isInteger (x : Decimal) : Bool :=
  (binaryOf x).1 * 2 ^ (binaryOf x).2.toNat % 2 ^ (-(binaryOf x).2).toNat = 0

/-- `int(x)`. -/
def truncate (x : Decimal) : ℤ :=
  let n : ℕ := (binaryOf x).1 * 2 ^ (binaryOf x).2.toNat / 2 ^ (-(binaryOf x).2).toNat
  if x.negative then -n else n

/-- `repr(x)` of a float that is not an integer. -/
def reprFloat (x : Decimal) : PyString :=
  let s := digitCodes x.digits
  let e := x.exponent - 1
  let body :=
    if 0 < x.exponent then s.take x.exponent.toNat ++ 46 :: s.drop x.exponent.toNat
    else if -4 < x.exponent then ascii "0." ++ List.replicate (-x.exponent).toNat 48 ++ s
    else
      let mantissa := if s.length = 1 then s else s.take 1 ++ 46 :: s.drop 1
      mantissa ++ ascii "e-" ++ (if e.natAbs < 10 then [48] else []) ++ digitCodes e.natAbs
  if x.negative then 45 :: body else body

def invalidNumber (repr : PyString) : PyError :=
  .valueError (ascii "Invalid number in trace: " ++ repr ++ ascii ". Only finite integers allowed.")

/-- `a <= b` of two strings: by code point, the shorter first. -/
def le (a b : PyString) : Bool := decide (a ≤ b)

mutual

def serializeCanonical : PyValue → Except PyError PyString
  | .none => pure (ascii "null")
  | .bool b => pure (ascii (if b then "true" else "false"))
  | .int n => pure (strInt n)
  | .float x =>
    if isInteger x then pure (strInt (truncate x)) else throw (invalidNumber (reprFloat x))
  | .inf negative => throw (invalidNumber (ascii (if negative then "-inf" else "inf")))
  | .str s => pure (dumps s)
  | .list items => do
    let items ← serializeItems items
    pure (91 :: (commas items ++ [93]))
  | .dict entries => do
    let parts ← collect (sortByKey le (serializeEntries entries))
    pure (123 :: (commas (parts.map fun e => dumps e.1 ++ 58 :: e.2) ++ [125]))

def serializeItems : List PyValue → Except PyError (List PyString)
  | [] => pure []
  | v :: vs => do
    let s ← serializeCanonical v
    let ss ← serializeItems vs
    pure (s :: ss)

/-- What each value is written as; the keys are sorted before an error among them is raised. -/
def serializeEntries : List (PyString × PyValue) → List (PyString × Except PyError PyString)
  | [] => []
  | (k, v) :: es => (k, serializeCanonical v) :: serializeEntries es

end

/-! ### The commands -/

/-- `canonical.encode("utf-8")`. -/
def encodeUtf8 (s : PyString) : Except PyError Bytes :=
  if s.any fun c => isHigh c || isLow c then
    .error .unicodeEncodeError
  else .ok (s.flatMap utf8Bytes)

/-- `serialize_canonical(json.loads(text))`. -/
def canonical (stdin : PyString) : Except PyError PyString := do
  let trace ← loads stdin
  serializeCanonical trace

/-- `bytes.hex()`. -/
def hex (b : Bytes) : PyString :=
  b.flatMap fun x => [JsonText.hexDigit (x.toNat / 16), JsonText.hexDigit (x.toNat % 16)]

/-- The output of `trace.py digest`. -/
def digest (stdin : PyString) : Except PyError PyString := do
  let text ← canonical stdin
  let data ← encodeUtf8 text
  match keccak256 data with
  | .ok hash => pure (ascii "0x" ++ hex hash)
  | .error message => throw (.valueError (ascii message))

example : canonical (ascii "\x7b\"b\": [1.0, -7, 1e21], \"a\": \"\\u0007\\ud83d\\ude00\"\x7d") =
    .ok (ascii "\x7b\"a\":\"\\u0007" ++ [0x1F600] ++
      ascii "\",\"b\":[1,-7,1000000000000000000000]\x7d") := by
  decide +kernel

/-! ### The tree of what is written -/

def intLiteral (n : ℤ) : Literal := ⟨n < 0, digitCodes n.natAbs, [], Option.none⟩

mutual

def writtenTree : PyValue → Tree
  | .none => .null
  | .bool b => .bool b
  | .int n => .number (intLiteral n)
  | .float x => .number (intLiteral (truncate x))
  | .inf _ => .null
  | .str s => .string (s.map glyphOf)
  | .list items => .array (writtenItems items)
  | .dict entries =>
    .object ((sortByKey le (writtenEntries entries)).map fun e => (e.1.map glyphOf, e.2))

def writtenItems : List PyValue → List Tree
  | [] => []
  | v :: vs => writtenTree v :: writtenItems vs

def writtenEntries : List (PyString × PyValue) → List (PyString × Tree)
  | [] => []
  | (k, v) :: es => (k, writtenTree v) :: writtenEntries es

end

theorem print_intLiteral (n : ℤ) : (intLiteral n).print = strInt n := by
  unfold intLiteral strInt Literal.print
  by_cases hn : n < 0
  · simp [hn]
  · simp [hn]

/-- No character that is escaped is a surrogate. -/
theorem lt_of_glyphOf_eq_escaped {c c' : ℕ} (h : glyphOf c = .escaped c') : c' < 0x80 := by
  unfold glyphOf at h
  split_ifs at h with hescape
  obtain rfl := Glyph.escaped.inj h
  rcases Bool.or_eq_true_iff.1 hescape with hshort | hcontrol
  · exact lt_of_shortEscape hshort
  · have := of_decide_eq_true hcontrol
    omega

theorem glyphOf_valid (c : ℕ) : (glyphOf c).Valid := by
  cases h : glyphOf c with
  | escaped c' => exact (lt_of_glyphOf_eq_escaped h).trans (by decide)
  | raw c' =>
    unfold glyphOf at h
    split_ifs at h with hescape
    obtain rfl := Glyph.raw.inj h
    simp only [Bool.or_eq_true, decide_eq_true_eq, not_or, not_lt] at hescape
    exact Glyph.raw_valid hescape.2 hescape.1

theorem intLiteral_valid (n : ℤ) : (intLiteral n).Valid where
  whole := fun c hc => isDigit_of_mem hc
  whole_ne_nil := digitCodes_ne_nil
  no_leading_zero := by
    intro h
    by_cases hn : n.natAbs = 0
    · show (digitCodes n.natAbs).length = 1
      rw [hn]
      rfl
    · exact absurd h (head?_digitCodes hn)
  fraction := by simp [intLiteral]
  exponent := by simp [intLiteral]

theorem glyphs_valid (s : PyString) : ∀ g ∈ s.map glyphOf, g.Valid := by
  intro g hg
  obtain ⟨c, -, rfl⟩ := List.mem_map.1 hg
  exact glyphOf_valid c

mutual

theorem writtenTree_valid (v : PyValue) : (writtenTree v).Valid := by
  cases v with
  | none | bool | inf => trivial
  | int n => exact intLiteral_valid n
  | float x => exact intLiteral_valid (truncate x)
  | str s => exact glyphs_valid s
  | list items => exact writtenItems_valid items
  | dict entries =>
    refine (validMembers_iff _).2 ?_
    intro m hm
    obtain ⟨e, he, rfl⟩ := List.mem_map.1 hm
    exact ⟨glyphs_valid e.1, writtenEntries_valid entries e (mem_sortByKey.1 he)⟩

theorem writtenItems_valid (vs : List PyValue) : ValidItems (writtenItems vs) := by
  cases vs with
  | nil => trivial
  | cons v vs => exact ⟨writtenTree_valid v, writtenItems_valid vs⟩

theorem writtenEntries_valid (es : List (PyString × PyValue)) :
    ∀ e ∈ writtenEntries es, e.2.Valid := by
  cases es with
  | nil => exact fun e he => absurd he List.not_mem_nil
  | cons e es => exact List.forall_mem_cons.2 ⟨writtenTree_valid e.2, writtenEntries_valid es⟩

end

mutual

/-- What is written without an error is the text of the tree. -/
theorem serializeCanonical_eq_ok {v : PyValue} {s : PyString} (h : serializeCanonical v = .ok s) :
    s = (writtenTree v).print := by
  cases v with
  | none =>
    obtain rfl := Except.ok.inj h
    rfl
  | bool b =>
    obtain rfl := Except.ok.inj h
    cases b <;> rfl
  | int n =>
    obtain rfl := Except.ok.inj h
    exact (print_intLiteral n).symm
  | float x =>
    unfold serializeCanonical at h
    split_ifs at h
    obtain rfl := Except.ok.inj h
    exact (print_intLiteral (truncate x)).symm
  | inf negative => exact absurd h (by simp [serializeCanonical])
  | str t =>
    obtain rfl := Except.ok.inj h
    rfl
  | list items =>
    unfold serializeCanonical at h
    cases hss : serializeItems items with
    | error e => exact absurd (hss ▸ h) (by simp [bind, Except.bind])
    | ok ss =>
      rw [hss] at h
      obtain rfl := Except.ok.inj h
      unfold writtenTree
      rw [print_array, serializeItems_eq_ok hss]
  | dict entries =>
    unfold serializeCanonical at h
    cases hps : collect (sortByKey le (serializeEntries entries)) with
    | error e => exact absurd (hps ▸ h) (by simp [bind, Except.bind])
    | ok ps =>
      rw [hps] at h
      obtain rfl := Except.ok.inj h
      rw [serializeEntries_eq_ok (ok_of_collect_sortByKey hps), sortByKey_map,
        collect_map_ok] at hps
      obtain rfl := Except.ok.inj hps
      unfold writtenTree
      rw [print_object, List.map_map, List.map_map]
      rfl

theorem serializeItems_eq_ok {vs : List PyValue} {ss : List PyString}
    (h : serializeItems vs = .ok ss) :
    ss = (writtenItems vs).map Tree.print := by
  cases vs with
  | nil =>
    obtain rfl := Except.ok.inj h
    rfl
  | cons v vs =>
    unfold serializeItems at h
    cases hs : serializeCanonical v with
    | error e => exact absurd (hs ▸ h) (by simp [bind, Except.bind])
    | ok s =>
      cases hss : serializeItems vs with
      | error e => exact absurd (hss ▸ hs ▸ h) (by simp [bind, Except.bind])
      | ok ss =>
        rw [hs, hss] at h
        obtain rfl := Except.ok.inj h
        unfold writtenItems
        rw [List.map_cons, serializeCanonical_eq_ok hs, serializeItems_eq_ok hss]

theorem serializeEntries_eq_ok {es : List (PyString × PyValue)}
    (h : ∀ p ∈ serializeEntries es, ∃ s, p.2 = .ok s) :
    serializeEntries es = (writtenEntries es).map fun e => (e.1, .ok e.2.print) := by
  cases es with
  | nil => rfl
  | cons e es =>
    obtain ⟨k, v⟩ := e
    unfold serializeEntries at h
    rw [List.forall_mem_cons] at h
    obtain ⟨⟨s, hs⟩, h⟩ := h
    have hs : serializeCanonical v = .ok s := hs
    unfold serializeEntries writtenEntries
    rw [List.map_cons, serializeEntries_eq_ok h, hs, serializeCanonical_eq_ok hs]

end

theorem serializeEntries_eq_map (es : List (PyString × PyValue)) :
    serializeEntries es = es.map fun e => (e.1, serializeCanonical e.2) := by
  induction es with
  | nil => rfl
  | cons e es ih => rw [serializeEntries, ih, List.map_cons]

/-- A dictionary is written when its values are. -/
theorem serializeCanonical_dict {es : List (PyString × PyValue)}
    (h : ∀ e ∈ es, ∃ s, serializeCanonical e.2 = .ok s) :
    ∃ s, serializeCanonical (.dict es) = .ok s := by
  have hall : ∀ p ∈ serializeEntries es, ∃ s, p.2 = .ok s := by
    rw [serializeEntries_eq_map, List.forall_mem_map]
    exact h
  unfold serializeCanonical
  rw [serializeEntries_eq_ok hall, sortByKey_map, collect_map_ok]
  exact ⟨_, rfl⟩

theorem writtenEntries_eq_map (es : List (PyString × PyValue)) :
    writtenEntries es = es.map fun e => (e.1, writtenTree e.2) := by
  induction es with
  | nil => rfl
  | cons e es ih => rw [writtenEntries, ih, List.map_cons]

/-! ### The order of the keys -/

theorem le_total (a b : PyString) : le a b ∨ le b a := by
  unfold le
  rw [decide_eq_true_eq, decide_eq_true_eq]
  exact LinearOrder.le_total a b

theorem le_trans (a b c : PyString) (hab : le a b) (hbc : le b c) : le a c :=
  decide_eq_true ((of_decide_eq_true hab).trans (of_decide_eq_true hbc))

theorem le_refl (a : PyString) : le a a := (le_total a a).elim id id

end IntentGuard.Trace.Python
