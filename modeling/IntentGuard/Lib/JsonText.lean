import Mathlib.Data.List.TakeDrop
import Mathlib.Tactic.Common

/-!
# JSON texts

The grammar of JSON over characters given by their codes: parse trees, their compact texts, and a
parser. What a string or a number means is left to the language that reads the tree, so one grammar
serves languages whose characters are UTF-16 code units and languages whose characters are code
points.

`parse_print`: the parser reads a valid tree back from its compact text, so two trees with one text
are equal (`print_injective`).
-/

namespace JsonText

/-! ### Trees -/

/-- A character of a string literal: as itself, or by its code in an escape. -/
inductive Glyph
  | raw (c : ℕ)
  | escaped (c : ℕ)
  deriving DecidableEq

def Glyph.code : Glyph → ℕ
  | .raw c => c
  | .escaped c => c

/-- The digits of a number literal, an absent fraction being empty; the exponent has a sign. -/
structure Literal where
  negative : Bool
  whole : List ℕ
  fraction : List ℕ
  exponent : Option (Bool × List ℕ)
  deriving DecidableEq

inductive Tree
  | null
  | bool (b : Bool)
  | number (x : Literal)
  | string (s : List Glyph)
  | array (items : List Tree)
  | object (members : List (List Glyph × Tree))

/-! ### Texts -/

def hexDigit (d : ℕ) : ℕ := if d < 10 then 48 + d else 87 + d

def hexValue (c : ℕ) : Option ℕ :=
  if 48 ≤ c ∧ c ≤ 57 then some (c - 48)
  else if 97 ≤ c ∧ c ≤ 102 then some (c - 87)
  else if 65 ≤ c ∧ c ≤ 70 then some (c - 55)
  else none

/-- The letter of a two-character escape. -/
def shortEscape (c : ℕ) : Option ℕ :=
  if c = 8 then some 98
  else if c = 9 then some 116
  else if c = 10 then some 110
  else if c = 12 then some 102
  else if c = 13 then some 114
  else if c = 34 then some 34
  else if c = 92 then some 92
  else none

def unescape (letter : ℕ) : Option ℕ :=
  if letter = 98 then some 8
  else if letter = 116 then some 9
  else if letter = 110 then some 10
  else if letter = 102 then some 12
  else if letter = 114 then some 13
  else if letter = 34 then some 34
  else if letter = 92 then some 92
  else if letter = 47 then some 47
  else none

def Glyph.print : Glyph → List ℕ
  | .raw c => [c]
  | .escaped c =>
    match shortEscape c with
    | some letter => [92, letter]
    | none =>
      [92, 117, hexDigit (c / 4096), hexDigit (c / 256 % 16), hexDigit (c / 16 % 16),
        hexDigit (c % 16)]

/-- The characters of a string literal and its closing quote. -/
def printGlyphs (s : List Glyph) : List ℕ := s.flatMap Glyph.print ++ [34]

def Literal.print (x : Literal) : List ℕ :=
  (if x.negative then [45] else []) ++
    (x.whole ++
      ((if x.fraction = [] then [] else 46 :: x.fraction) ++
        match x.exponent with
        | none => []
        | some (negative, digits) => 101 :: (if negative then 45 else 43) :: digits))

mutual

/-- The text without spaces. -/
def Tree.print : Tree → List ℕ
  | .null => [110, 117, 108, 108]
  | .bool true => [116, 114, 117, 101]
  | .bool false => [102, 97, 108, 115, 101]
  | .number x => x.print
  | .string s => 34 :: printGlyphs s
  | .array [] => [91, 93]
  | .array (t :: ts) => 91 :: (t.print ++ printItems ts)
  | .object [] => [123, 125]
  | .object ((k, t) :: ms) => 123 :: 34 :: (printGlyphs k ++ 58 :: (t.print ++ printMembers ms))

/-- The further items of an array. -/
def printItems : List Tree → List ℕ
  | [] => [93]
  | t :: ts => 44 :: (t.print ++ printItems ts)

/-- The further members of an object. -/
def printMembers : List (List Glyph × Tree) → List ℕ
  | [] => [125]
  | (k, t) :: ms => 44 :: 34 :: (printGlyphs k ++ 58 :: (t.print ++ printMembers ms))

end

/-- Texts with commas between them. -/
def commas : List (List ℕ) → List ℕ
  | [] => []
  | [s] => s
  | s :: ss => s ++ 44 :: commas ss

def printMember (m : List Glyph × Tree) : List ℕ := 34 :: (printGlyphs m.1 ++ 58 :: m.2.print)

theorem print_append_printItems (t : Tree) (ts : List Tree) :
    t.print ++ printItems ts = commas ((t :: ts).map Tree.print) ++ [93] := by
  induction ts generalizing t with
  | nil => rfl
  | cons t' ts ih =>
    show t.print ++ 44 :: (t'.print ++ printItems ts) =
      (t.print ++ 44 :: commas ((t' :: ts).map Tree.print)) ++ [93]
    rw [ih t', List.append_assoc, List.cons_append]

theorem print_array (ts : List Tree) :
    (Tree.array ts).print = 91 :: (commas (ts.map Tree.print) ++ [93]) := by
  cases ts with
  | nil => rfl
  | cons t ts =>
    show 91 :: (t.print ++ printItems ts) = _
    rw [print_append_printItems]

theorem printMember_append_printMembers (m : List Glyph × Tree) (ms : List (List Glyph × Tree)) :
    printMember m ++ printMembers ms = commas ((m :: ms).map printMember) ++ [125] := by
  induction ms generalizing m with
  | nil => rfl
  | cons m' ms ih =>
    show printMember m ++ printMembers (m' :: ms) =
      (printMember m ++ 44 :: commas ((m' :: ms).map printMember)) ++ [125]
    have htail : printMembers (m' :: ms) = 44 :: (printMember m' ++ printMembers ms) := by
      simp [printMembers, printMember]
    rw [htail, ih m', List.append_assoc, List.cons_append]

theorem print_object (ms : List (List Glyph × Tree)) :
    (Tree.object ms).print = 123 :: (commas (ms.map printMember) ++ [125]) := by
  cases ms with
  | nil => rfl
  | cons m ms =>
    have htext : (Tree.object (m :: ms)).print = 123 :: (printMember m ++ printMembers ms) := by
      simp [Tree.print, printMember]
    rw [htext, printMember_append_printMembers]

/-! ### The parser -/

def skipSpace (s : List ℕ) : List ℕ := s.dropWhile fun c => c = 32 ∨ c = 9 ∨ c = 10 ∨ c = 13

def isDigit (c : ℕ) : Bool := 48 ≤ c && c ≤ 57

def expect (word : List ℕ) (t : Tree) (s : List ℕ) : Option (Tree × List ℕ) :=
  if word <+: s then some (t, s.drop word.length) else none

/-- A string literal after its opening quote. -/
def parseGlyphs : List ℕ → Option (List Glyph × List ℕ)
  | [] => none
  | 92 :: 117 :: a :: b :: c :: d :: rest => do
    let code := ((← hexValue a) * 16 + (← hexValue b)) * 256 +
      ((← hexValue c) * 16 + (← hexValue d))
    let (s, rest) ← parseGlyphs rest
    pure (.escaped code :: s, rest)
  | 92 :: letter :: rest => do
    let code ← unescape letter
    let (s, rest) ← parseGlyphs rest
    pure (.escaped code :: s, rest)
  | c :: rest =>
    if c = 34 then some ([], rest)
    else if c < 32 ∨ c = 92 then none
    else do
      let (s, rest) ← parseGlyphs rest
      pure (.raw c :: s, rest)

def parseSign : List ℕ → Bool × List ℕ
  | 45 :: rest => (true, rest)
  | s => (false, s)

/-- At least one digit. -/
def parseDigits (s : List ℕ) : Option (List ℕ × List ℕ) :=
  if (s.span isDigit).1 = [] then none else some (s.span isDigit)

def parseFraction : List ℕ → Option (List ℕ × List ℕ)
  | 46 :: rest => parseDigits rest
  | s => some ([], s)

/-- The sign and the digits after `e` or `E`. -/
def parsePower : List ℕ → Option (Option (Bool × List ℕ) × List ℕ)
  | 43 :: rest => (parseDigits rest).map fun r => (some (false, r.1), r.2)
  | s => (parseDigits (parseSign s).2).map fun r => (some ((parseSign s).1, r.1), r.2)

def parseExponent : List ℕ → Option (Option (Bool × List ℕ) × List ℕ)
  | [] => some (none, [])
  | c :: rest => if c = 101 ∨ c = 69 then parsePower rest else some (none, c :: rest)

def parseLiteral (s : List ℕ) : Option (Literal × List ℕ) := do
  let (whole, s') ← parseDigits (parseSign s).2
  if whole.head? = some 48 ∧ whole.length ≠ 1 then none
  else
    let (fraction, s') ← parseFraction s'
    let (exponent, s') ← parseExponent s'
    pure (⟨(parseSign s).1, whole, fraction, exponent⟩, s')

mutual

/-- Every level of nesting takes a character, so as much fuel as the text has characters is
enough. -/
def parseValue : ℕ → List ℕ → Option (Tree × List ℕ)
  | 0, _ => none
  | fuel + 1, s =>
    match skipSpace s with
    | [] => none
    | c :: rest =>
      if c = 34 then do
        let (s, rest) ← parseGlyphs rest
        pure (.string s, rest)
      else if c = 91 then
        if (skipSpace rest).head? = some 93 then some (.array [], (skipSpace rest).tail)
        else do
          let (t, rest) ← parseValue fuel rest
          let (ts, rest) ← parseItems fuel rest
          pure (.array (t :: ts), rest)
      else if c = 123 then
        if (skipSpace rest).head? = some 125 then some (.object [], (skipSpace rest).tail)
        else do
          let (m, rest) ← parseMember fuel rest
          let (ms, rest) ← parseMembers fuel rest
          pure (.object (m :: ms), rest)
      else if c = 110 then expect [117, 108, 108] .null rest
      else if c = 116 then expect [114, 117, 101] (.bool true) rest
      else if c = 102 then expect [97, 108, 115, 101] (.bool false) rest
      else do
        let (x, rest) ← parseLiteral (c :: rest)
        pure (.number x, rest)

def parseItems : ℕ → List ℕ → Option (List Tree × List ℕ)
  | 0, _ => none
  | fuel + 1, s =>
    match skipSpace s with
    | [] => none
    | c :: rest =>
      if c = 93 then some ([], rest)
      else if c = 44 then do
        let (t, rest) ← parseValue fuel rest
        let (ts, rest) ← parseItems fuel rest
        pure (t :: ts, rest)
      else none

def parseMember : ℕ → List ℕ → Option ((List Glyph × Tree) × List ℕ)
  | 0, _ => none
  | fuel + 1, s =>
    match skipSpace s with
    | [] => none
    | c :: rest =>
      if c = 34 then do
        let (k, rest) ← parseGlyphs rest
        if (skipSpace rest).head? = some 58 then do
          let (t, rest) ← parseValue fuel (skipSpace rest).tail
          pure ((k, t), rest)
        else none
      else none

def parseMembers : ℕ → List ℕ → Option (List (List Glyph × Tree) × List ℕ)
  | 0, _ => none
  | fuel + 1, s =>
    match skipSpace s with
    | [] => none
    | c :: rest =>
      if c = 125 then some ([], rest)
      else if c = 44 then do
        let (m, rest) ← parseMember fuel rest
        let (ms, rest) ← parseMembers fuel rest
        pure (m :: ms, rest)
      else none

end

/-- The tree of a text. -/
def parse (s : List ℕ) : Option Tree :=
  match parseValue s.length s with
  | some (t, rest) => if skipSpace rest = [] then some t else none
  | none => none

/-! ### Valid trees -/

def Glyph.Valid : Glyph → Prop
  | .raw c => 32 ≤ c ∧ c ≠ 34 ∧ c ≠ 92
  | .escaped c => c < 65536

structure Literal.Valid (x : Literal) : Prop where
  whole : ∀ c ∈ x.whole, isDigit c = true
  whole_ne_nil : x.whole ≠ []
  no_leading_zero : x.whole.head? = some 48 → x.whole.length = 1
  fraction : ∀ c ∈ x.fraction, isDigit c = true
  exponent : ∀ negative digits, x.exponent = some (negative, digits) → digits ≠ [] ∧ ∀ c ∈ digits,
    isDigit c = true

mutual

def Tree.Valid : Tree → Prop
  | .null | .bool _ => True
  | .number x => x.Valid
  | .string s => ∀ g ∈ s, g.Valid
  | .array ts => ValidItems ts
  | .object ms => ValidMembers ms

def ValidItems : List Tree → Prop
  | [] => True
  | t :: ts => t.Valid ∧ ValidItems ts

def ValidMembers : List (List Glyph × Tree) → Prop
  | [] => True
  | (k, t) :: ms => (∀ g ∈ k, g.Valid) ∧ t.Valid ∧ ValidMembers ms

end

theorem validMembers_iff (ms : List (List Glyph × Tree)) :
    ValidMembers ms ↔ ∀ m ∈ ms, (∀ g ∈ m.1, g.Valid) ∧ m.2.Valid := by
  induction ms with
  | nil => simp [ValidMembers]
  | cons m ms ih =>
    rw [ValidMembers, ih, List.forall_mem_cons]
    exact and_assoc.symm

theorem Glyph.raw_valid {c : ℕ} (hspace : 0x20 ≤ c) (hshort : ¬ (shortEscape c).isSome = true) :
    (Glyph.raw c).Valid := by
  refine ⟨hspace, ?_, ?_⟩
  · intro hquote
    exact hshort (by rw [hquote]; rfl)
  · intro hslash
    exact hshort (by rw [hslash]; rfl)

/-- The characters with an escape of their own are ASCII. -/
theorem lt_of_shortEscape {c : ℕ} (h : (shortEscape c).isSome = true) : c < 0x80 := by
  unfold shortEscape at h
  split_ifs at h <;> first | omega | exact absurd h (by simp)

/-! ### Reading back -/

theorem hexValue_hexDigit {d : ℕ} (h : d < 16) : hexValue (hexDigit d) = some d := by
  unfold hexDigit hexValue
  split_ifs <;> first | omega | (congr 1; omega)

theorem unescape_of_shortEscape {c letter : ℕ} (h : shortEscape c = some letter) :
    unescape letter = some c ∧ letter ≠ 117 := by
  unfold shortEscape at h
  split_ifs at h <;> (obtain rfl := Option.some.inj h; subst c; decide)

theorem parseGlyphs_glyph {g : Glyph} (hg : g.Valid) (s : List ℕ) :
    parseGlyphs (g.print ++ s) = (parseGlyphs s).map fun r => (g :: r.1, r.2) := by
  cases g with
  | raw c =>
    obtain ⟨hspace, hquote, hslash⟩ := hg
    show parseGlyphs (c :: s) = _
    rw [parseGlyphs.eq_4 _ _ (by simp [hslash]) (by simp [hslash]), if_neg hquote,
      if_neg (by omega)]
    cases parseGlyphs s <;> rfl
  | escaped c =>
    have hc : c < 65536 := hg
    unfold Glyph.print
    dsimp only
    cases hshort : shortEscape c with
    | some letter =>
      obtain ⟨hletter, hne⟩ := unescape_of_shortEscape hshort
      show parseGlyphs (92 :: letter :: s) = _
      rw [parseGlyphs.eq_3 _ _ (by simp [hne]), hletter]
      cases parseGlyphs s <;> rfl
    | none =>
      show parseGlyphs (92 :: 117 :: hexDigit (c / 4096) :: hexDigit (c / 256 % 16) ::
        hexDigit (c / 16 % 16) ::
        hexDigit (c % 16) :: s) = _
      rw [parseGlyphs, hexValue_hexDigit (by omega), hexValue_hexDigit (by omega),
        hexValue_hexDigit (by omega), hexValue_hexDigit (by omega)]
      have hcode : (c / 4096 * 16 + c / 256 % 16) * 256 + (c / 16 % 16 * 16 + c % 16) = c := by
        omega
      dsimp only [Option.bind_eq_bind, Option.bind_some]
      rw [hcode]
      cases parseGlyphs s <;> rfl

theorem parseGlyphs_print {s : List Glyph} (hs : ∀ g ∈ s, g.Valid) (rest : List ℕ) :
    parseGlyphs (printGlyphs s ++ rest) = some (s, rest) := by
  induction s with
  | nil => rfl
  | cons g s ih =>
    obtain ⟨hg, hs⟩ := List.forall_mem_cons.1 hs
    have htext : printGlyphs (g :: s) ++ rest = g.print ++ (printGlyphs s ++ rest) := by
      simp [printGlyphs]
    rw [htext, parseGlyphs_glyph hg, ih hs]
    rfl

/-- What may follow a number. -/
def Delimited (s : List ℕ) : Prop := ∀ c ∈ s.head?, isDigit c = false ∧ c ≠ 46 ∧ c ≠ 101 ∧ c ≠ 69

theorem span_digits {digits s : List ℕ} (hdigits : ∀ c ∈ digits, isDigit c = true)
    (hs : ∀ c ∈ s.head?, isDigit c = false) : (digits ++ s).span isDigit = (digits, s) := by
  have hstop : s.takeWhile isDigit = [] ∧ s.dropWhile isDigit = s := by
    cases s with
    | nil => exact ⟨rfl, rfl⟩
    | cons c s =>
      have hc : ¬ isDigit c = true := by simp [hs c rfl]
      exact ⟨List.takeWhile_cons_of_neg hc, List.dropWhile_cons_of_neg hc⟩
  rw [List.span_eq_takeWhile_dropWhile, List.takeWhile_append_of_pos hdigits,
    List.dropWhile_append_of_pos hdigits, hstop.1, hstop.2, List.append_nil]

theorem Delimited.no_digit {s : List ℕ} (h : Delimited s) : ∀ c ∈ s.head?, isDigit c = false :=
  fun c hc => (h c hc).1

theorem parseSign_print (negative : Bool) {s : List ℕ} (hs : s.head? ≠ some 45) :
    parseSign ((if negative then [45] else []) ++ s) = (negative, s) := by
  cases negative with
  | true => rfl
  | false =>
    show parseSign s = _
    unfold parseSign
    split
    · exact absurd rfl hs
    · rfl

theorem parseDigits_print {digits s : List ℕ} (hne : digits ≠ [])
    (hdigits : ∀ c ∈ digits, isDigit c = true) (hs : ∀ c ∈ s.head?, isDigit c = false) :
    parseDigits (digits ++ s) = some (digits, s) := by
  unfold parseDigits
  rw [span_digits hdigits hs]
  exact if_neg hne

theorem parseFraction_print {fraction s : List ℕ} (hfraction : ∀ c ∈ fraction, isDigit c = true)
    (hs : ∀ c ∈ s.head?, isDigit c = false ∧ c ≠ 46) :
    parseFraction ((if fraction = [] then [] else 46 :: fraction) ++ s) = some (fraction, s) := by
  by_cases hnil : fraction = []
  · rw [if_pos hnil, hnil]
    show parseFraction s = _
    unfold parseFraction
    split
    · exact absurd rfl (hs 46 rfl).2
    · rfl
  · rw [if_neg hnil]
    exact parseDigits_print hnil hfraction fun c hc => (hs c hc).1

theorem parsePower_print (negative : Bool) {digits s : List ℕ} (hne : digits ≠ [])
    (hdigits : ∀ c ∈ digits, isDigit c = true) (hs : ∀ c ∈ s.head?, isDigit c = false) :
    parsePower ((if negative then 45 else 43) :: (digits ++ s)) =
      some (some (negative, digits), s) := by
  have hparse := parseDigits_print hne hdigits hs
  cases negative with
  | true =>
    show (parseDigits (digits ++ s)).map _ = _
    rw [hparse]
    rfl
  | false =>
    show (parseDigits (digits ++ s)).map _ = _
    rw [hparse]
    rfl

/-- The text of an exponent. -/
def printExponent : Option (Bool × List ℕ) → List ℕ
  | none => []
  | some (negative, digits) => 101 :: (if negative then 45 else 43) :: digits

theorem parseExponent_print {exponent : Option (Bool × List ℕ)}
    (h : ∀ negative digits, exponent = some (negative, digits) → digits ≠ [] ∧ ∀ c ∈ digits,
      isDigit c = true)
    {rest : List ℕ} (hrest : Delimited rest) :
    parseExponent (printExponent exponent ++ rest) = some (exponent, rest) := by
  cases exponent with
  | none =>
    show parseExponent rest = _
    unfold parseExponent
    cases rest with
    | nil => rfl
    | cons c rest =>
      obtain ⟨-, -, hsmall, hcapital⟩ := hrest c rfl
      exact if_neg (by omega)
  | some power =>
    obtain ⟨negative, digits⟩ := power
    obtain ⟨hne, hdigits⟩ := h negative digits rfl
    exact parsePower_print negative hne hdigits hrest.no_digit

theorem head?_printExponent (exponent : Option (Bool × List ℕ)) {rest : List ℕ}
    (hrest : Delimited rest) :
    ∀ c ∈ (printExponent exponent ++ rest).head?, isDigit c = false ∧ c ≠ 46 := by
  intro c hc
  cases exponent with
  | none => exact ⟨(hrest c hc).1, (hrest c hc).2.1⟩
  | some power =>
    obtain rfl := Option.some.inj hc
    decide

theorem parseLiteral_print {x : Literal} (hx : x.Valid) {rest : List ℕ} (hrest : Delimited rest) :
    parseLiteral (x.print ++ rest) = some (x, rest) := by
  obtain ⟨negative, whole, fraction, exponent⟩ := x
  obtain ⟨hwhole, hne, hzero, hfraction, hexponent⟩ := hx
  dsimp only at hwhole hne hzero hfraction hexponent
  have htext : Literal.print ⟨negative, whole, fraction, exponent⟩ ++ rest =
      (if negative then [45] else []) ++ (whole ++
        ((if fraction = [] then [] else 46 :: fraction) ++ (printExponent exponent ++ rest))) := by
    unfold Literal.print printExponent
    simp only [List.append_assoc]
  have hpower := parseExponent_print hexponent hrest
  have htail := head?_printExponent exponent hrest
  generalize printExponent exponent ++ rest = tail at htext hpower htail
  have hfrac := parseFraction_print hfraction htail
  have hfrac_head : ∀ c ∈ ((if fraction = [] then [] else 46 :: fraction) ++ tail).head?,
      isDigit c = false := by
    intro c hc
    split_ifs at hc
    · exact (htail c hc).1
    · obtain rfl := Option.some.inj hc
      decide
  generalize (if fraction = [] then [] else 46 :: fraction) ++ tail = tail'
    at htext hfrac hfrac_head
  have hdigits := parseDigits_print hne hwhole hfrac_head
  have hhead : (whole ++ tail').head? ≠ some 45 := by
    intro h
    cases whole with
    | nil => exact hne rfl
    | cons d whole =>
      obtain rfl := Option.some.inj h
      exact absurd (hwhole 45 List.mem_cons_self) (by decide)
  have hsign := parseSign_print negative hhead
  rw [htext]
  unfold parseLiteral
  rw [hsign]
  dsimp only
  rw [hdigits]
  dsimp only [Option.bind_eq_bind, Option.bind_some]
  rw [if_neg (by intro h; exact h.2 (hzero h.1)), hfrac]
  dsimp only [Option.bind_eq_bind, Option.bind_some]
  rw [hpower]
  rfl

theorem skipSpace_cons {c : ℕ} (h : 32 < c) (s : List ℕ) : skipSpace (c :: s) = c :: s := by
  unfold skipSpace
  apply List.dropWhile_cons_of_neg
  simp
  omega

theorem Literal.Valid.head {x : Literal} (hx : x.Valid) (rest : List ℕ) :
    ∃ c s, x.print ++ rest = c :: s ∧ (c = 45 ∨ 48 ≤ c ∧ c ≤ 57) := by
  unfold Literal.print
  cases x.negative with
  | true => exact ⟨45, _, rfl, .inl rfl⟩
  | false =>
    cases hwhole : x.whole with
    | nil => exact absurd hwhole hx.whole_ne_nil
    | cons d whole =>
      have hd := hx.whole d (hwhole ▸ List.mem_cons_self)
      refine ⟨d, _, rfl, .inr ?_⟩
      simpa [isDigit] using hd

theorem delimited_cons {c : ℕ} (h : c = 44 ∨ c = 93 ∨ c = 125) (s : List ℕ) :
    Delimited (c :: s) := by
  intro d hd
  obtain rfl := Option.some.inj hd
  rcases h with rfl | rfl | rfl <;> decide

theorem delimited_printItems (ts : List Tree) (rest : List ℕ) :
    Delimited (printItems ts ++ rest) := by
  cases ts with
  | nil => exact delimited_cons (.inr (.inl rfl)) rest
  | cons t ts => exact delimited_cons (.inl rfl) _

theorem delimited_printMembers (ms : List (List Glyph × Tree)) (rest : List ℕ) :
    Delimited (printMembers ms ++ rest) := by
  cases ms with
  | nil => exact delimited_cons (.inr (.inr rfl)) rest
  | cons m ms => exact delimited_cons (.inl rfl) _

/-- A text begins with a character that is neither space nor a closing bracket. -/
theorem print_head {t : Tree} (ht : t.Valid) (rest : List ℕ) :
    ∃ c s, t.print ++ rest = c :: s ∧ 32 < c ∧ c ≠ 93 ∧ c ≠ 125 := by
  unfold Tree.Valid at ht
  unfold Tree.print
  split <;> try exact ⟨_, _, rfl, by decide, by decide, by decide⟩
  obtain ⟨c, s, htext, hc⟩ := Literal.Valid.head ht rest
  exact ⟨c, s, htext, by omega, by omega, by omega⟩

theorem parseMember_print {k : List Glyph} {t : Tree} (hk : ∀ g ∈ k, g.Valid) {fuel : ℕ}
    {rest : List ℕ} (h : parseValue fuel (t.print ++ rest) = some (t, rest)) :
    parseMember (fuel + 1) (34 :: (printGlyphs k ++ 58 :: (t.print ++ rest))) =
      some ((k, t), rest) := by
  rw [parseMember, skipSpace_cons (by decide)]
  dsimp only
  rw [if_pos rfl, parseGlyphs_print hk]
  dsimp only [Option.bind_eq_bind, Option.bind_some]
  rw [skipSpace_cons (by decide), List.head?_cons, if_pos rfl]
  dsimp only [List.tail_cons]
  rw [h]
  rfl

mutual

theorem parseValue_print (t : Tree) (fuel : ℕ) (rest : List ℕ) (ht : t.Valid)
    (hfuel : t.print.length ≤ fuel) (hrest : Delimited rest) :
    parseValue fuel (t.print ++ rest) = some (t, rest) := by
  obtain ⟨c, s, htext, -⟩ := print_head ht []
  cases fuel with
  | zero =>
    rw [List.append_nil] at htext
    rw [htext] at hfuel
    exact absurd hfuel (Nat.not_succ_le_zero _)
  | succ fuel =>
    cases t with
    | null => rfl
    | bool b => cases b <;> rfl
    | number x =>
      obtain ⟨c, s, htext, hc⟩ := Literal.Valid.head ht rest
      have hparse := parseLiteral_print ht hrest
      show parseValue (fuel + 1) (x.print ++ rest) = _
      rw [htext] at hparse ⊢
      rw [parseValue, skipSpace_cons (by omega)]
      dsimp only
      rw [if_neg (by omega), if_neg (by omega), if_neg (by omega), if_neg (by omega),
        if_neg (by omega), if_neg (by omega), hparse]
      rfl
    | string s =>
      show parseValue (fuel + 1) (34 :: (printGlyphs s ++ rest)) = _
      rw [parseValue, skipSpace_cons (by decide)]
      dsimp only
      rw [if_pos rfl, parseGlyphs_print ht]
      rfl
    | array ts =>
      cases ts with
      | nil => rfl
      | cons t ts =>
        obtain ⟨ht, hts⟩ := ht
        unfold Tree.print at hfuel ⊢
        rw [List.length_cons, List.length_append] at hfuel
        obtain ⟨c, s, htext, hspace, hclose, -⟩ := print_head ht (printItems ts ++ rest)
        have hvalue := parseValue_print t fuel (printItems ts ++ rest) ht (by omega)
          (delimited_printItems ts rest)
        have hitems := parseItems_print ts fuel rest hts (by omega)
        rw [List.cons_append, List.append_assoc, parseValue, skipSpace_cons (by decide)]
        dsimp only
        rw [if_neg (by decide), if_pos rfl]
        rw [htext] at hvalue ⊢
        rw [skipSpace_cons hspace, List.head?_cons, if_neg (by simpa using hclose), hvalue]
        dsimp only [Option.bind_eq_bind, Option.bind_some]
        rw [hitems]
        rfl
    | object ms =>
      cases ms with
      | nil => rfl
      | cons m ms =>
        obtain ⟨k, t⟩ := m
        obtain ⟨hk, ht, hms⟩ := ht
        unfold Tree.print at hfuel ⊢
        simp only [List.length_cons, List.length_append] at hfuel
        obtain ⟨fuel, rfl⟩ : ∃ n, fuel = n + 1 := ⟨fuel - 1, by omega⟩
        have hvalue := parseValue_print t fuel (printMembers ms ++ rest) ht (by omega)
          (delimited_printMembers ms rest)
        have hmembers := parseMembers_print ms (fuel + 1) rest hms (by omega)
        have hmember := parseMember_print hk hvalue
        simp only [List.cons_append, List.append_assoc]
        rw [parseValue, skipSpace_cons (by decide)]
        dsimp only
        rw [if_neg (by decide), if_neg (by decide), if_pos rfl, skipSpace_cons (by decide),
          List.head?_cons, if_neg (by decide), hmember]
        dsimp only [Option.bind_eq_bind, Option.bind_some]
        rw [hmembers]
        rfl

theorem parseItems_print (ts : List Tree) (fuel : ℕ) (rest : List ℕ) (hts : ValidItems ts)
    (hfuel : (printItems ts).length ≤ fuel) :
    parseItems fuel (printItems ts ++ rest) = some (ts, rest) := by
  cases ts with
  | nil =>
    obtain ⟨fuel, rfl⟩ : ∃ n, fuel = n + 1 :=
      ⟨fuel - 1, by simp only [printItems, List.length_cons] at hfuel; omega⟩
    rfl
  | cons t ts =>
    obtain ⟨ht, hts⟩ := hts
    unfold printItems at hfuel ⊢
    rw [List.length_cons, List.length_append] at hfuel
    obtain ⟨fuel, rfl⟩ : ∃ n, fuel = n + 1 := ⟨fuel - 1, by omega⟩
    have hvalue :=
      parseValue_print t fuel (printItems ts ++ rest) ht (by omega) (delimited_printItems ts rest)
    have hitems := parseItems_print ts fuel rest hts (by omega)
    rw [List.cons_append, List.append_assoc, parseItems, skipSpace_cons (by decide)]
    dsimp only
    rw [if_neg (by decide), if_pos rfl, hvalue]
    dsimp only [Option.bind_eq_bind, Option.bind_some]
    rw [hitems]
    rfl

theorem parseMembers_print (ms : List (List Glyph × Tree)) (fuel : ℕ) (rest : List ℕ)
    (hms : ValidMembers ms) (hfuel : (printMembers ms).length ≤ fuel) :
    parseMembers fuel (printMembers ms ++ rest) = some (ms, rest) := by
  cases ms with
  | nil =>
    obtain ⟨fuel, rfl⟩ : ∃ n, fuel = n + 1 :=
      ⟨fuel - 1, by simp only [printMembers, List.length_cons] at hfuel; omega⟩
    rfl
  | cons m ms =>
    obtain ⟨k, t⟩ := m
    obtain ⟨hk, ht, hms⟩ := hms
    unfold printMembers at hfuel ⊢
    simp only [List.length_cons, List.length_append] at hfuel
    obtain ⟨fuel, rfl⟩ : ∃ n, fuel = n + 2 := ⟨fuel - 2, by omega⟩
    have hvalue := parseValue_print t fuel (printMembers ms ++ rest) ht (by omega)
      (delimited_printMembers ms rest)
    have hmembers := parseMembers_print ms (fuel + 1) rest hms (by omega)
    have hmember := parseMember_print hk hvalue
    simp only [List.cons_append, List.append_assoc]
    rw [parseMembers, skipSpace_cons (by decide)]
    dsimp only
    rw [if_neg (by decide), if_pos rfl, hmember]
    dsimp only [Option.bind_eq_bind, Option.bind_some]
    rw [hmembers]
    rfl

end

/-- The round trip. -/
theorem parse_print {t : Tree} (ht : t.Valid) : parse t.print = some t := by
  have h := parseValue_print t t.print.length [] ht (Nat.le_refl _)
    (by intro c hc; exact absurd hc (by simp))
  rw [List.append_nil] at h
  unfold parse
  rw [h]
  rfl

theorem print_injective {t t' : Tree} (ht : t.Valid) (ht' : t'.Valid) (h : t.print = t'.print) :
    t = t' := by
  have hparse := parse_print ht
  rw [h, parse_print ht'] at hparse
  exact (Option.some.inj hparse).symm

/-! ### Printed characters -/

/-- No control characters. -/
def Visible (s : List ℕ) : Prop := ∀ c ∈ s, 32 ≤ c

@[simp] theorem visible_nil : Visible [] := fun _ hc => absurd hc List.not_mem_nil

@[simp] theorem visible_cons {c : ℕ} {s : List ℕ} : Visible (c :: s) ↔ 32 ≤ c ∧ Visible s :=
  List.forall_mem_cons

@[simp] theorem visible_append {s t : List ℕ} : Visible (s ++ t) ↔ Visible s ∧ Visible t :=
  List.forall_mem_append

theorem visible_digits {digits : List ℕ} (h : ∀ c ∈ digits, isDigit c = true) : Visible digits := by
  intro c hc
  have hdigit := h c hc
  simp only [isDigit, Bool.and_eq_true, decide_eq_true_eq] at hdigit
  omega

theorem le_hexDigit (d : ℕ) : 32 ≤ hexDigit d := by
  unfold hexDigit
  split_ifs <;> omega

theorem Glyph.visible_print {g : Glyph} (hg : g.Valid) : Visible g.print := by
  cases g with
  | raw c => exact visible_cons.2 ⟨hg.1, visible_nil⟩
  | escaped c =>
    cases hshort : shortEscape c with
    | none => simp [Glyph.print, hshort, le_hexDigit]
    | some letter =>
      have hletter : 32 ≤ letter := by
        unfold shortEscape at hshort
        split_ifs at hshort <;> (obtain rfl := Option.some.inj hshort; decide)
      simp [Glyph.print, hshort, hletter]

theorem visible_printGlyphs {s : List Glyph} (hs : ∀ g ∈ s, g.Valid) : Visible (printGlyphs s) := by
  unfold printGlyphs
  simp only [visible_append, visible_cons, visible_nil, and_true]
  refine ⟨?_, by decide⟩
  intro c hc
  obtain ⟨g, hg, hcg⟩ := List.mem_flatMap.1 hc
  exact Glyph.visible_print (hs g hg) c hcg

theorem Literal.visible_print {x : Literal} (hx : x.Valid) : Visible x.print := by
  have hsign : Visible (if x.negative then [45] else []) := by split_ifs <;> simp
  have hfraction : Visible (if x.fraction = [] then [] else 46 :: x.fraction) := by
    split_ifs
    · simp
    · simp [visible_digits hx.fraction]
  unfold Literal.print
  simp only [visible_append]
  refine ⟨hsign, visible_digits hx.whole, hfraction, ?_⟩
  cases hexponent : x.exponent with
  | none => simp
  | some power =>
    have hdigits := visible_digits (hx.exponent power.1 power.2 hexponent).2
    have hpower : 32 ≤ if power.1 then 45 else 43 := by split_ifs <;> decide
    simpa using ⟨hpower, hdigits⟩

mutual

/-- A text has no line ends. -/
theorem Tree.visible_print {t : Tree} (ht : t.Valid) : Visible t.print := by
  cases t with
  | null => simp [Tree.print]
  | bool b => cases b <;> simp [Tree.print]
  | number x => exact Literal.visible_print ht
  | string s => exact visible_cons.2 ⟨by decide, visible_printGlyphs ht⟩
  | array ts =>
    cases ts with
    | nil => simp [Tree.print]
    | cons t ts => simp [Tree.print, Tree.visible_print ht.1, visible_printItems ht.2]
  | object ms =>
    cases ms with
    | nil => simp [Tree.print]
    | cons m ms =>
      simp [Tree.print, visible_printGlyphs ht.1, Tree.visible_print ht.2.1,
        visible_printMembers ht.2.2]

theorem visible_printItems {ts : List Tree} (hts : ValidItems ts) : Visible (printItems ts) := by
  cases ts with
  | nil => simp [printItems]
  | cons t ts => simp [printItems, Tree.visible_print hts.1, visible_printItems hts.2]

theorem visible_printMembers {ms : List (List Glyph × Tree)} (hms : ValidMembers ms) :
    Visible (printMembers ms) := by
  cases ms with
  | nil => simp [printMembers]
  | cons m ms =>
    simp [printMembers, visible_printGlyphs hms.1, Tree.visible_print hms.2.1,
      visible_printMembers hms.2.2]

end

end JsonText
