import IntentGuard.Infra.CanonicalJson
import IntentGuard.Js.Double
import IntentGuard.Js.Unicode
import IntentGuard.Lib.SortedEntries
import IntentGuard.Lib.Table

/-!
# JSON.parse and JSON.stringify

`JSON.parse` reads the tree of a text, `JSON.stringify` is given for what `JSON.parse` produces. The
properties of an object are listed in the order of their enumeration, which begins with the array
indices.

`parse_stringify`: reading back what has been written. `encode_enumerated`: the canonical text does
not depend on the order of the properties.
-/

namespace IntentGuard.Infra

open Js JsonText SortedEntries

/-! ### JSON.parse -/

def units (s : List Glyph) : JsString := s.map fun g => UInt16.ofNat g.code

def ofLiteral (x : Literal) : Json :=
  match (decimalOf x).round with
  | some d => .number d
  | none => .infinity x.negative

/-- A key that comes again replaces the value. -/
def setProperty (entries : List (JsString × Json)) (e : JsString × Json) : List (JsString × Json) :=
  Table.upsert Prod.fst (fun _ => e) e entries

/-- The array index that a key spells. -/
def arrayIndex (key : JsString) : Option ℕ :=
  let n := ofDigits (key.map UInt16.toNat)
  if key = natToString n ∧ n < 2 ^ 32 - 1 then some n else none

/-- The properties in the order of their enumeration: array indices by their value, then the others
as they were created. -/
def enumerate {α : Type} (entries : List (JsString × α)) : List (JsString × α) :=
  sortByKey (fun a b => (arrayIndex a).getD 0 ≤ (arrayIndex b).getD 0)
    (entries.filter fun e => (arrayIndex e.1).isSome) ++ entries.filter fun e =>
      !(arrayIndex e.1).isSome

mutual

def ofTree : Tree → Json
  | .null => .null
  | .bool b => .bool b
  | .number x => ofLiteral x
  | .string s => .string (units s)
  | .array ts => .array (ofItems ts)
  | .object ms => .object (enumerate ((ofMembers ms).foldl setProperty []))

def ofItems : List Tree → List Json
  | [] => []
  | t :: ts => ofTree t :: ofItems ts

def ofMembers : List (List Glyph × Tree) → List (JsString × Json)
  | [] => []
  | (k, t) :: ms => (units k, ofTree t) :: ofMembers ms

end

/-- `none` where it throws a `SyntaxError`. -/
def JSON.parse (s : JsString) : Option Json := (JsonText.parse (s.map UInt16.toNat)).map ofTree

/-! ### JSON.stringify -/

mutual

def JSON.stringify : Json → JsString
  | .null => text "null"
  | .bool b => text (if b then "true" else "false")
  | .number x => x.toString
  | .infinity _ => text "null"
  | .string s => quote s
  | .array items => 91 :: (joinComma (stringifyItems items) ++ [93])
  | .object entries => 123 :: (joinComma (stringifyEntries entries) ++ [125])

def stringifyItems : List Json → List JsString
  | [] => []
  | v :: vs => JSON.stringify v :: stringifyItems vs

def stringifyEntries : List (JsString × Json) → List JsString
  | [] => []
  | (k, v) :: es => (quote k ++ 58 :: JSON.stringify v) :: stringifyEntries es

end

example :
    (JSON.parse
      (text " \x7b\"b\": [1.50, \"\\u0041\\n\"], \"10\": 1, \"9\": 2, \"b\": [-0, 1e999]\x7d")).map
        JSON.stringify =
      some (text "\x7b\"9\":2,\"10\":1,\"b\":[0,null]\x7d") := by decide +kernel

/-- A new line inside of `depth` values. -/
def newLine (depth : ℕ) : JsString := 10 :: List.replicate (2 * depth) 32

/-- Every part on a line of its own. -/
def joinLines (depth : ℕ) : List JsString → JsString
  | [] => []
  | [s] => newLine depth ++ s
  | s :: ss => newLine depth ++ s ++ 44 :: joinLines depth ss

mutual

/-- `JSON.stringify(value, null, 2)`, inside of `depth` values. -/
def JSON.stringifyIndented (depth : ℕ) : Json → JsString
  | .null => text "null"
  | .bool b => text (if b then "true" else "false")
  | .number x => x.toString
  | .infinity _ => text "null"
  | .string s => quote s
  | .array [] => text "[]"
  | .array (v :: vs) =>
    91 :: (joinLines (depth + 1) (indentedItems (depth + 1) (v :: vs)) ++ newLine depth ++ [93])
  | .object [] => text "\x7b\x7d"
  | .object (e :: es) =>
    123 :: (joinLines (depth + 1) (indentedEntries (depth + 1) (e :: es)) ++ newLine depth ++ [125])

def indentedItems (depth : ℕ) : List Json → List JsString
  | [] => []
  | v :: vs => JSON.stringifyIndented depth v :: indentedItems depth vs

def indentedEntries (depth : ℕ) : List (JsString × Json) → List JsString
  | [] => []
  | (k, v) :: es =>
    (quote k ++ text ": " ++ JSON.stringifyIndented depth v) :: indentedEntries depth es

end

example :
    JSON.stringifyIndented 0
      (.object [(text "a", .array [.number ⟨false, 1, 1⟩, .object []]), (text "b", .array [])]) =
      text "\x7b\n  \"a\": [\n    1,\n    \x7b\x7d\n  ],\n  \"b\": []\n\x7d" := by decide +kernel

/-! ### Strings -/

/-- How `quoteUnit` writes a code unit. -/
def glyphOf (u : UInt16) (paired : Bool) : Glyph :=
  if (shortEscape u.toNat).isSome || u.toNat < 0x20 ||
    ((isHighSurrogate u || isLowSurrogate u) && !paired) then
    .escaped u.toNat
  else .raw u.toNat

def glyphs : JsString → List Glyph
  | [] => []
  | [u] => [glyphOf u false]
  | u :: v :: rest =>
    if isHighSurrogate u && isLowSurrogate v then glyphOf u true :: glyphOf v true :: glyphs rest
    else glyphOf u false :: glyphs (v :: rest)

theorem map_quoteUnit (u : UInt16) (paired : Bool) :
    (quoteUnit u paired).map UInt16.toNat = (glyphOf u paired).print := by
  have heq : ∀ n : UInt16, u = n ↔ u.toNat = n.toNat := fun n => UInt16.toNat_inj.symm
  have hlt := u.toNat_lt
  have hshort : ∀ n : UInt16, ∀ letter, u = n → JsonText.shortEscape n.toNat = some letter →
      (glyphOf u paired).print = [92, letter] := by
    intro n letter hu hletter
    subst hu
    unfold glyphOf
    rw [hletter]
    show Glyph.print (.escaped u.toNat) = _
    simp only [Glyph.print, hletter]
  unfold quoteUnit
  split_ifs with h8 h9 h10 h12 h13 h34 h92 hescape
  · exact (hshort 8 98 h8 rfl).symm
  · exact (hshort 9 116 h9 rfl).symm
  · exact (hshort 10 110 h10 rfl).symm
  · exact (hshort 12 102 h12 rfl).symm
  · exact (hshort 13 114 h13 rfl).symm
  · exact (hshort 34 34 h34 rfl).symm
  · exact (hshort 92 92 h92 rfl).symm
  all_goals
    have hnone : JsonText.shortEscape u.toNat = none := by
      rw [heq] at h8 h9 h10 h12 h13 h34 h92
      exact (if_neg h8).trans <| (if_neg h9).trans <| (if_neg h10).trans <| (if_neg h12).trans <|
        (if_neg h13).trans <|
        (if_neg h34).trans (if_neg h92)
    unfold glyphOf
    rw [hnone, Option.isSome_none, Bool.false_or]
  · rw [if_pos hescape]
    simp only [Glyph.print, hnone, unicodeEscape, List.map_cons, List.map_nil]
    rw [toNat_hexDigit (by omega), toNat_hexDigit (by omega), toNat_hexDigit (by omega),
      toNat_hexDigit (by omega)]
    rfl
  · rw [if_neg hescape]
    rfl

theorem map_quoteBody (s : JsString) :
    (quoteBody s).map UInt16.toNat = (glyphs s).flatMap Glyph.print := by
  fun_induction quoteBody s with
  | case1 => rfl
  | case2 u => rw [map_quoteUnit, glyphs, List.flatMap_singleton]
  | case3 u v rest hpair ih =>
    rw [glyphs, if_pos hpair]
    simp only [List.map_append, List.flatMap_cons, map_quoteUnit, ih, List.append_assoc]
  | case4 u v rest hpair ih =>
    rw [glyphs, if_neg hpair]
    simp only [List.map_append, List.flatMap_cons, map_quoteUnit, ih]

theorem map_quote (s : JsString) : (quote s).map UInt16.toNat = 34 :: printGlyphs (glyphs s) := by
  unfold quote printGlyphs
  rw [List.map_cons, List.map_append, map_quoteBody]
  rfl

theorem glyphOf_valid (u : UInt16) (paired : Bool) : (glyphOf u paired).Valid := by
  have hlt : u.toNat < 65536 := u.toNat_lt
  unfold glyphOf
  split_ifs with h
  · exact hlt
  · simp only [Bool.or_eq_true, decide_eq_true_eq, not_or, not_lt] at h
    exact Glyph.raw_valid h.1.2 h.1.1

theorem glyphs_valid (s : JsString) : ∀ g ∈ glyphs s, g.Valid := by
  fun_induction glyphs s with
  | case1 => exact fun g hg => absurd hg List.not_mem_nil
  | case2 u => simpa using glyphOf_valid u false
  | case3 u v rest hpair ih =>
    rw [List.forall_mem_cons, List.forall_mem_cons]
    exact ⟨glyphOf_valid u true, glyphOf_valid v true, ih⟩
  | case4 u v rest hpair ih =>
    rw [List.forall_mem_cons]
    exact ⟨glyphOf_valid u false, ih⟩

theorem code_glyphOf (u : UInt16) (paired : Bool) : (glyphOf u paired).code = u.toNat := by
  unfold glyphOf
  split_ifs <;> rfl

theorem units_glyphs (s : JsString) : units (glyphs s) = s := by
  unfold units
  fun_induction glyphs s with
  | case1 => rfl
  | case2 u => rw [List.map_singleton, code_glyphOf, UInt16.ofNat_toNat]
  | case3 u v rest hpair ih =>
    rw [List.map_cons, List.map_cons, code_glyphOf, code_glyphOf, UInt16.ofNat_toNat,
      UInt16.ofNat_toNat, ih]
  | case4 u v rest hpair ih => rw [List.map_cons, code_glyphOf, UInt16.ofNat_toNat, ih]

/-! ### Trees -/

section
variable (g : JsString → List Glyph)

mutual

/-- The tree that `JSON.stringify` writes, for readers to whom the string `s` is the literal
`g s`. -/
def treeOf : Json → Tree
  | .null => .null
  | .bool b => .bool b
  | .number x => .number x.literal
  | .infinity _ => .null
  | .string s => .string (g s)
  | .array items => .array (treesOf items)
  | .object entries => .object (membersOf entries)

def treesOf : List Json → List Tree
  | [] => []
  | v :: vs => treeOf v :: treesOf vs

def membersOf : List (JsString × Json) → List (List Glyph × Tree)
  | [] => []
  | (k, v) :: es => (g k, treeOf v) :: membersOf es

end

variable {g}

mutual

theorem treeOf_valid (hg : ∀ s, ∀ x ∈ g s, x.Valid) (v : Json) : (treeOf g v).Valid := by
  cases v with
  | null | bool | infinity => trivial
  | number x => exact literal_valid x
  | string s => exact hg s
  | array items => exact treesOf_valid hg items
  | object entries => exact membersOf_valid hg entries

theorem treesOf_valid (hg : ∀ s, ∀ x ∈ g s, x.Valid) (vs : List Json) :
    ValidItems (treesOf g vs) := by
  cases vs with
  | nil => trivial
  | cons v vs => exact ⟨treeOf_valid hg v, treesOf_valid hg vs⟩

theorem membersOf_valid (hg : ∀ s, ∀ x ∈ g s, x.Valid) (es : List (JsString × Json)) :
    ValidMembers (membersOf g es) := by
  cases es with
  | nil => trivial
  | cons e es => exact ⟨hg e.1, treeOf_valid hg e.2, membersOf_valid hg es⟩

end

end

/-- `f` gives the characters of a text, of which `g s` stand for the string `s` within its
quotes. -/
structure Reading (f : JsString → List ℕ) (g : JsString → List Glyph) : Prop where
  nil : f [] = []
  low : ∀ (u : UInt16) (s : JsString), u.toNat < 0xD800 → f (u :: s) = u.toNat :: f s
  append : ∀ a b : JsString, WellFormed a → f (a ++ b) = f a ++ f b
  quote : ∀ s : JsString, f (quote s) = 34 :: printGlyphs (g s)

theorem wellFormed_joinComma {ss : List JsString} (h : ∀ s ∈ ss, WellFormed s) :
    WellFormed (joinComma ss) := by
  fun_induction joinComma ss with
  | case1 => exact .nil
  | case2 s => exact h s List.mem_cons_self
  | case3 s ss hne ih =>
    rw [List.forall_mem_cons] at h
    exact h.1.append (.low (by decide) (ih h.2))

theorem low_of_print {x : Literal} (hx : x.Valid) : ∀ c ∈ x.print, c < 0xD800 := by
  have hdigits : ∀ digits : List ℕ, (∀ c ∈ digits, isDigit c = true) → ∀ c ∈ digits,
      c < 0xD800 := by
    intro digits h c hc
    have hc := h c hc
    simp only [isDigit, Bool.and_eq_true, decide_eq_true_eq] at hc
    omega
  obtain ⟨hwhole, -, -, hfraction, hexponent⟩ := hx
  intro c hc
  unfold Literal.print at hc
  rcases List.mem_append.1 hc with hc | hc
  · split_ifs at hc
    · obtain rfl := List.mem_singleton.1 hc
      decide
    · exact absurd hc List.not_mem_nil
  rcases List.mem_append.1 hc with hc | hc
  · exact hdigits _ hwhole c hc
  rcases List.mem_append.1 hc with hc | hc
  · split_ifs at hc
    · exact absurd hc List.not_mem_nil
    · rcases List.mem_cons.1 hc with rfl | hc
      · decide
      · exact hdigits _ hfraction c hc
  · cases hpower : x.exponent with
    | none =>
      rw [hpower] at hc
      exact absurd hc List.not_mem_nil
    | some power =>
      obtain ⟨negative, digits⟩ := power
      rw [hpower] at hc
      rcases List.mem_cons.1 hc with rfl | hc
      · decide
      rcases List.mem_cons.1 hc with rfl | hc
      · split_ifs <;> decide
      · exact hdigits _ (hexponent negative digits hpower).2 c hc

theorem low_of_toString (x : Decimal) : ∀ u ∈ x.toString, u.toNat < 0xD800 := by
  intro u hu
  apply low_of_print (literal_valid x)
  rw [print_literal]
  exact List.mem_map_of_mem hu

mutual

/-- A lone surrogate is escaped. -/
theorem wellFormed_stringify (v : Json) : WellFormed (JSON.stringify v) := by
  cases v with
  | null => exact .of_forall_low (forall_low (by decide))
  | infinity negative =>
    show WellFormed (text "null")
    exact .of_forall_low (forall_low (by decide))
  | bool b => cases b <;> exact .of_forall_low (forall_low (by decide))
  | number x => exact .of_forall_low (low_of_toString x)
  | string s => exact wellFormed_quote s
  | array items =>
    exact .low (by decide)
      ((wellFormed_joinComma (wellFormed_stringifyItems items)).append (.low (by decide) .nil))
  | object entries =>
    exact .low (by decide)
      ((wellFormed_joinComma (wellFormed_stringifyEntries entries)).append (.low (by decide) .nil))

theorem wellFormed_stringifyItems (vs : List Json) : ∀ s ∈ stringifyItems vs, WellFormed s := by
  cases vs with
  | nil => exact fun s hs => absurd hs List.not_mem_nil
  | cons v vs => exact List.forall_mem_cons.2 ⟨wellFormed_stringify v, wellFormed_stringifyItems vs⟩

theorem wellFormed_stringifyEntries (es : List (JsString × Json)) :
    ∀ s ∈ stringifyEntries es, WellFormed s := by
  cases es with
  | nil => exact fun s hs => absurd hs List.not_mem_nil
  | cons e es =>
    exact List.forall_mem_cons.2
      ⟨(wellFormed_quote e.1).append (.low (by decide) (wellFormed_stringify e.2)),
        wellFormed_stringifyEntries es⟩

end

namespace Reading

variable {f : JsString → List ℕ} {g : JsString → List Glyph}

theorem of_low (h : Reading f g) {s : JsString} (hs : ∀ u ∈ s, u.toNat < 0xD800) :
    f s = s.map UInt16.toNat := by
  induction s with
  | nil => exact h.nil
  | cons u s ih =>
    rw [List.forall_mem_cons] at hs
    rw [h.low u s hs.1, ih hs.2]
    rfl

theorem joinComma (h : Reading f g) {ss : List JsString} (hss : ∀ s ∈ ss, WellFormed s) :
    f (joinComma ss) = commas (ss.map f) := by
  fun_induction Infra.joinComma ss with
  | case1 => exact h.nil
  | case2 s => rfl
  | case3 s ss hne ih =>
    rw [List.forall_mem_cons] at hss
    cases ss with
    | nil => exact absurd rfl hne
    | cons s' ss =>
      rw [h.append _ _ hss.1, h.low 44 _ (by decide), ih hss.2]
      rfl

/-- The text between two brackets. -/
theorem brackets (h : Reading f g) {opening closing : UInt16} (hopening : opening.toNat < 0xD800)
    (hclosing : closing.toNat < 0xD800) {ss : List JsString} (hss : ∀ s ∈ ss, WellFormed s) :
    f (opening :: (Infra.joinComma ss ++ [closing])) =
      opening.toNat :: (commas (ss.map f) ++ [closing.toNat]) := by
  rw [h.low _ _ hopening, h.append _ _ (wellFormed_joinComma hss), h.joinComma hss,
    h.low _ _ hclosing, h.nil]

mutual

theorem stringify (h : Reading f g) (v : Json) : f (JSON.stringify v) = (treeOf g v).print := by
  cases v with
  | null => exact h.of_low (forall_low (by decide))
  | infinity negative =>
    show f (text "null") = _
    exact h.of_low (forall_low (by decide))
  | bool b => cases b <;> exact h.of_low (forall_low (by decide))
  | number x => exact (h.of_low (low_of_toString x)).trans (print_literal x).symm
  | string s => exact h.quote s
  | array items =>
    unfold JSON.stringify treeOf
    rw [print_array, h.brackets (by decide) (by decide) (wellFormed_stringifyItems items),
      stringifyItems h]
    rfl
  | object entries =>
    unfold JSON.stringify treeOf
    rw [print_object, h.brackets (by decide) (by decide) (wellFormed_stringifyEntries entries),
      stringifyEntries h]
    rfl

theorem stringifyItems (h : Reading f g) (vs : List Json) :
    (Infra.stringifyItems vs).map f = (treesOf g vs).map Tree.print := by
  cases vs with
  | nil => rfl
  | cons v vs =>
    unfold Infra.stringifyItems treesOf
    rw [List.map_cons, List.map_cons, stringify h v, stringifyItems h vs]

theorem stringifyEntries (h : Reading f g) (es : List (JsString × Json)) :
    (Infra.stringifyEntries es).map f = (membersOf g es).map printMember := by
  cases es with
  | nil => rfl
  | cons e es =>
    obtain ⟨k, v⟩ := e
    unfold Infra.stringifyEntries membersOf
    rw [List.map_cons, List.map_cons, stringifyEntries h es, h.append _ _ (wellFormed_quote k),
      h.low _ _ (by decide), h.quote, stringify h v]
    rfl

end

end Reading

/-- To JavaScript a text is its code units. -/
theorem reading_units : Reading (List.map UInt16.toNat) glyphs where
  nil := rfl
  low _ _ _ := rfl
  append _ _ _ := List.map_append
  quote := map_quote

/-! ### Conditions on values -/

/-- A condition on the numbers, the strings and the keys of each object of a value. -/
structure Condition where
  number : Decimal → Prop
  infinity : Prop
  string : JsString → Prop
  keys : List JsString → Prop

section
variable (C : Condition)

mutual

/-- The condition holds at every depth. -/
def Json.Meets : Json → Prop
  | .null | .bool _ => True
  | .number x => C.number x
  | .infinity _ => C.infinity
  | .string s => C.string s
  | .array items => MeetsItems items
  | .object entries => C.keys (entries.map Prod.fst) ∧ MeetsEntries entries

def MeetsItems : List Json → Prop
  | [] => True
  | v :: vs => v.Meets ∧ MeetsItems vs

def MeetsEntries : List (JsString × Json) → Prop
  | [] => True
  | (_, v) :: es => v.Meets ∧ MeetsEntries es

end

theorem meetsEntries_iff (es : List (JsString × Json)) :
    MeetsEntries C es ↔ ∀ e ∈ es, e.2.Meets C := by
  induction es with
  | nil => simp [MeetsEntries]
  | cons e es ih => rw [MeetsEntries, ih, List.forall_mem_cons]

variable {C} {C' : Condition}

/-- One condition implies another. -/
structure Condition.Implies (C C' : Condition) : Prop where
  number : ∀ x, C.number x → C'.number x
  infinity : C.infinity → C'.infinity
  string : ∀ s, C.string s → C'.string s
  keys : ∀ ks, C.keys ks → C'.keys ks

mutual

theorem Json.Meets.mono (h : C.Implies C') {v : Json} (hv : v.Meets C) : v.Meets C' := by
  cases v with
  | null | bool => trivial
  | number x => exact h.number x hv
  | infinity => exact h.infinity hv
  | string s => exact h.string s hv
  | array items => exact MeetsItems.mono h hv
  | object entries => exact ⟨h.keys _ hv.1, MeetsEntries.mono h hv.2⟩

theorem MeetsItems.mono (h : C.Implies C') {vs : List Json} (hvs : MeetsItems C vs) :
    MeetsItems C' vs := by
  cases vs with
  | nil => trivial
  | cons v vs => exact ⟨hvs.1.mono h, MeetsItems.mono h hvs.2⟩

theorem MeetsEntries.mono (h : C.Implies C') {es : List (JsString × Json)}
    (hes : MeetsEntries C es) :
    MeetsEntries C' es := by
  cases es with
  | nil => trivial
  | cons e es => exact ⟨hes.1.mono h, MeetsEntries.mono h hes.2⟩

end

end

/-! ### Reading back -/

/-- What a text can carry: doubles other than `-0` and the infinities, and objects with distinct
keys. -/
def plain : Condition where
  number x := x.round = some x ∧ (x.digits = 0 → x.negative = false)
  infinity := False
  string _ := True
  keys ks := ks.Nodup

abbrev Json.Plain (v : Json) : Prop := v.Meets plain

/-! ### The order of properties -/

theorem enumerate_perm {α : Type} (es : List (JsString × α)) : (enumerate es).Perm es :=
  ((sortByKey_perm _).append_right _).trans
    (List.filter_append_perm (fun e => (arrayIndex e.1).isSome) es)

theorem mem_enumerate {α : Type} {es : List (JsString × α)} {e : JsString × α} :
    e ∈ enumerate es ↔ e ∈ es :=
  (enumerate_perm es).mem_iff

/-- The order depends on the keys alone. -/
theorem enumerate_map {α β : Type} (f : JsString × α → β) (es : List (JsString × α)) :
    enumerate (es.map fun e => (e.1, f e)) = (enumerate es).map fun e => (e.1, f e) := by
  unfold enumerate
  rw [List.map_append, List.filter_map, List.filter_map, ← sortByKey_map]
  rfl

theorem enumerate_of_forall {α : Type} {es : List (JsString × α)}
    (h : ∀ e ∈ es, arrayIndex e.1 = none) :
    enumerate es = es := by
  have hnone : es.filter (fun e => (arrayIndex e.1).isSome) = [] := by
    rw [List.filter_eq_nil_iff]
    intro e he
    rw [h e he]
    exact Bool.false_ne_true
  have hall : es.filter (fun e => !(arrayIndex e.1).isSome) = es := by
    rw [List.filter_eq_self]
    intro e he
    rw [h e he]
    rfl
  unfold enumerate
  rw [hnone, hall]
  rfl

mutual

/-- The value with the properties of each object in the order of their enumeration. -/
def Json.enumerated : Json → Json
  | .null => .null
  | .bool b => .bool b
  | .number x => .number x
  | .infinity negative => .infinity negative
  | .string s => .string s
  | .array items => .array (enumeratedItems items)
  | .object entries => .object (enumerate (enumeratedEntries entries))

def enumeratedItems : List Json → List Json
  | [] => []
  | v :: vs => v.enumerated :: enumeratedItems vs

def enumeratedEntries : List (JsString × Json) → List (JsString × Json)
  | [] => []
  | (k, v) :: es => (k, v.enumerated) :: enumeratedEntries es

end

theorem keys_enumeratedEntries (es : List (JsString × Json)) :
    (enumeratedEntries es).map Prod.fst = es.map Prod.fst := by
  induction es with
  | nil => rfl
  | cons e es ih =>
    unfold enumeratedEntries
    rw [List.map_cons, List.map_cons, ih]

theorem keys_enumerate_enumeratedEntries (es : List (JsString × Json)) :
    ((enumerate (enumeratedEntries es)).map Prod.fst).Perm (es.map Prod.fst) := by
  have hperm := (enumerate_perm (enumeratedEntries es)).map Prod.fst
  rwa [keys_enumeratedEntries] at hperm

mutual

theorem Json.Plain.enumerated {v : Json} (hv : v.Plain) : v.enumerated.Plain := by
  cases v with
  | null | bool | infinity | number | string => exact hv
  | array items => exact plain_enumeratedItems hv
  | object entries =>
    refine ⟨(keys_enumerate_enumeratedEntries entries).nodup_iff.2 hv.1,
      (meetsEntries_iff _ _).2 ?_⟩
    intro e he
    exact plain_enumeratedEntries hv.2 e (mem_enumerate.1 he)

theorem plain_enumeratedItems {vs : List Json} (hvs : MeetsItems plain vs) :
    MeetsItems plain (enumeratedItems vs) := by
  cases vs with
  | nil => trivial
  | cons v vs => exact ⟨Json.Plain.enumerated hvs.1, plain_enumeratedItems hvs.2⟩

theorem plain_enumeratedEntries {es : List (JsString × Json)} (hes : MeetsEntries plain es) :
    ∀ e ∈ enumeratedEntries es, e.2.Plain := by
  cases es with
  | nil => exact fun e he => absurd he List.not_mem_nil
  | cons e es =>
    exact List.forall_mem_cons.2 ⟨Json.Plain.enumerated hes.1, plain_enumeratedEntries hes.2⟩

end

/-! ### The round trip -/

mutual

theorem ofTree_treeOf {v : Json} (hv : v.Plain) : ofTree (treeOf glyphs v) = v.enumerated := by
  cases v with
  | null | bool => rfl
  | infinity => exact absurd hv not_false
  | number x =>
    obtain ⟨hround, hzero⟩ := hv
    show ofLiteral x.literal = _
    unfold ofLiteral
    rw [decimalOf_literal (round_normal hround) hzero, hround]
    rfl
  | string s => exact congrArg Json.string (units_glyphs s)
  | array items => exact congrArg Json.array (ofItems_treesOf hv)
  | object entries =>
    obtain ⟨hkeys, hentries⟩ := hv
    have hnew : Table.UniqueKeys Prod.fst ([] ++ enumeratedEntries entries) := by
      unfold Table.UniqueKeys
      rwa [List.nil_append, keys_enumeratedEntries]
    show Json.object (enumerate ((ofMembers (membersOf glyphs entries)).foldl setProperty [])) = _
    rw [ofMembers_membersOf hentries]
    exact congrArg (fun es => Json.object (enumerate es)) (Table.foldl_upsert hnew)

theorem ofItems_treesOf {vs : List Json} (hvs : MeetsItems plain vs) :
    ofItems (treesOf glyphs vs) = enumeratedItems vs := by
  cases vs with
  | nil => rfl
  | cons v vs =>
    unfold treesOf ofItems enumeratedItems
    rw [ofTree_treeOf hvs.1, ofItems_treesOf hvs.2]

theorem ofMembers_membersOf {es : List (JsString × Json)} (hes : MeetsEntries plain es) :
    ofMembers (membersOf glyphs es) = enumeratedEntries es := by
  cases es with
  | nil => rfl
  | cons e es =>
    obtain ⟨k, v⟩ := e
    unfold membersOf ofMembers enumeratedEntries
    rw [units_glyphs, ofTree_treeOf hes.1, ofMembers_membersOf hes.2]

end

theorem parse_stringify {v : Json} (hv : v.Plain) :
    JSON.parse (JSON.stringify v) = some v.enumerated := by
  unfold JSON.parse
  rw [reading_units.stringify, parse_print (treeOf_valid glyphs_valid v), Option.map_some,
    ofTree_treeOf hv]

/-! ### Canonical texts -/

/-- Finite numbers, and objects whose keys are in order. -/
def sorted : Condition where
  number _ := True
  infinity := False
  string _ := True
  keys ks := ks.Pairwise (· < ·)

abbrev Json.Sorted (v : Json) : Prop := v.Meets sorted

theorem sortByKey_of_sorted {α : Type} {es : List (JsString × α)}
    (h : (es.map Prod.fst).Pairwise (· < ·)) :
    sortByKey le es = es := by
  apply sortByKey_of_pairwise
  refine (List.pairwise_map.1 h).imp ?_
  intro a b hab
  exact decide_eq_true (List.le_of_lt hab)

theorem stringifyEntries_eq_map (es : List (JsString × Json)) :
    stringifyEntries es = es.map fun e => quote e.1 ++ 58 :: JSON.stringify e.2 := by
  induction es with
  | nil => rfl
  | cons e es ih =>
    unfold stringifyEntries
    rw [ih]
    rfl

theorem encodeEntries_eq_collect (es : List (JsString × Json)) :
    encodeEntries es = collect (es.map fun e => (e.1, encode e.2)) := by
  induction es with
  | nil => rfl
  | cons e es ih =>
    unfold encodeEntries
    rw [ih]
    rfl

/-- An object is encoded from the texts of its values. -/
theorem encode_object {es : List (JsString × Json)} {ps : List (JsString × JsString)}
    (h : es.map (fun e => (e.1, encode e.2)) = ps.map fun p => (p.1, .ok p.2)) :
    encode (.object es) = .ok
      (123 :: (joinComma ((sortByKey le ps).map fun p => quote p.1 ++ 58 :: p.2) ++ [125])) := by
  unfold encode
  rw [encodeEntries_eq_collect, h, collect_map_ok]
  simp only [bind, Except.bind]
  rw [List.map_id']
  rfl

mutual

/-- The canonical text of a value in order is its text. -/
theorem encode_of_sorted {v : Json} (hv : v.Sorted) : encode v = .ok (JSON.stringify v) := by
  cases v with
  | null | bool | number | string => rfl
  | infinity => exact absurd hv not_false
  | array items =>
    unfold encode
    rw [encodeItems_of_sorted hv]
    rfl
  | object entries =>
    obtain ⟨horder, hentries⟩ := hv
    have hkeys : (entries.map fun e => (e.1, JSON.stringify e.2)).map Prod.fst =
        entries.map Prod.fst := by
      rw [List.map_map]
      rfl
    rw [encode_object (encodeEntries_of_sorted hentries), sortByKey_of_sorted (hkeys.symm ▸ horder),
      JSON.stringify, stringifyEntries_eq_map, List.map_map]
    rfl

theorem encodeItems_of_sorted {vs : List Json} (hvs : MeetsItems sorted vs) :
    encodeItems vs = .ok (stringifyItems vs) := by
  cases vs with
  | nil => rfl
  | cons v vs =>
    unfold encodeItems
    rw [encode_of_sorted hvs.1, encodeItems_of_sorted hvs.2]
    rfl

theorem encodeEntries_of_sorted {es : List (JsString × Json)} (hes : MeetsEntries sorted es) :
    es.map (fun e => (e.1, encode e.2)) =
      (es.map fun e => (e.1, JSON.stringify e.2)).map fun p => (p.1, .ok p.2) := by
  cases es with
  | nil => rfl
  | cons e es =>
    rw [List.map_cons, List.map_cons, List.map_cons, encode_of_sorted hes.1,
      encodeEntries_of_sorted hes.2]

end

/-! ### Canonical texts in any order of the properties -/

mutual

theorem exists_encode_enumerated {v : Json} (hv : v.Plain) :
    ∃ s, encode v = .ok s ∧ encode v.enumerated = .ok s := by
  cases v with
  | null | bool | number | string => exact ⟨_, rfl, rfl⟩
  | infinity => exact absurd hv not_false
  | array items =>
    obtain ⟨ss, h, h'⟩ := exists_encodeItems_enumerated hv
    unfold Json.enumerated encode
    rw [h, h']
    exact ⟨_, rfl, rfl⟩
  | object es =>
    obtain ⟨hkeys, hes⟩ := hv
    obtain ⟨ps, h, h'⟩ := exists_encodeEntries_enumerated hes
    have hps : (ps.map Prod.fst).Nodup := by
      have hfst := congrArg (List.map Prod.fst) h
      rw [List.map_map, List.map_map] at hfst
      exact hfst ▸ hkeys
    have henumerated : (enumerate (enumeratedEntries es)).map (fun e => (e.1, encode e.2)) =
        (enumerate ps).map fun p => (p.1, .ok p.2) := by
      rw [← enumerate_map, ← enumerate_map, h']
    refine ⟨_, encode_object h, ?_⟩
    rw [sortByKey_eq_of_perm le.total le.trans le.antisymm (enumerate_perm ps).symm hps]
    exact encode_object henumerated

theorem exists_encodeItems_enumerated {vs : List Json} (hvs : MeetsItems plain vs) :
    ∃ ss, encodeItems vs = .ok ss ∧ encodeItems (enumeratedItems vs) = .ok ss := by
  cases vs with
  | nil => exact ⟨_, rfl, rfl⟩
  | cons v vs =>
    obtain ⟨s, h, h'⟩ := exists_encode_enumerated hvs.1
    obtain ⟨ss, hs, hs'⟩ := exists_encodeItems_enumerated hvs.2
    unfold enumeratedItems encodeItems
    rw [h, h', hs, hs']
    exact ⟨_, rfl, rfl⟩

theorem exists_encodeEntries_enumerated {es : List (JsString × Json)}
    (hes : MeetsEntries plain es) :
    ∃ ps : List (JsString × JsString),
      es.map (fun e => (e.1, encode e.2)) = ps.map (fun p => (p.1, .ok p.2)) ∧
        (enumeratedEntries es).map (fun e => (e.1, encode e.2)) = ps.map fun p =>
          (p.1, .ok p.2) := by
  cases es with
  | nil => exact ⟨[], rfl, rfl⟩
  | cons e es =>
    obtain ⟨k, v⟩ := e
    obtain ⟨s, h, h'⟩ := exists_encode_enumerated hes.1
    obtain ⟨ps, hs, hs'⟩ := exists_encodeEntries_enumerated hes.2
    refine ⟨(k, s) :: ps, ?_, ?_⟩
    · rw [List.map_cons, List.map_cons, hs, h]
    · rw [enumeratedEntries, List.map_cons, List.map_cons, hs', h']

end

/-- The canonical text does not depend on the order of the properties. -/
theorem encode_enumerated {v : Json} (hv : v.Plain) {s : JsString} (h : encode v = .ok s) :
    encode v.enumerated = .ok s := by
  obtain ⟨s', hs, hs'⟩ := exists_encode_enumerated hv
  rw [hs', ← hs, h]

end IntentGuard.Infra
