import IntentGuard.Trace.Client
import IntentGuard.Trace.Python

/-!
# The two languages

A JSON text of the TypeScript package in the Python helper, value by value.

`canonical_stringify_iff`: the helper writes a canonical text back exactly when its value is
`portable`. From 10^21 on `String(x)` has an exponent, which Python reads as a float and writes in
full; a lone surrogate is escaped by one serializer alone; and an astral character sorts below
U+E000 to U+FFFF only by its code units.
-/

namespace IntentGuard.Trace

open Js Infra JsonText SortedEntries

/-! ### Strings -/

/-- The literal of a string to a reader of code points. -/
def points : JsString → List Glyph
  | [] => []
  | [u] => [glyphOf u false]
  | u :: v :: rest =>
    if isHighSurrogate u && isLowSurrogate v then
      .raw (0x10000 + (u.toNat - 0xD800) * 0x400 + (v.toNat - 0xDC00)) :: points rest
    else glyphOf u false :: points (v :: rest)

/-- The code points of a string, its lone surrogates among them. -/
def pyString : JsString → Python.PyString
  | [] => []
  | [u] => [u.toNat]
  | u :: v :: rest =>
    if isHighSurrogate u && isLowSurrogate v then
      (0x10000 + (u.toNat - 0xD800) * 0x400 + (v.toNat - 0xDC00)) :: pyString rest
    else u.toNat :: pyString (v :: rest)

theorem points_valid (s : JsString) : ∀ g ∈ points s, g.Valid := by
  fun_induction points s with
  | case1 => exact fun g hg => absurd hg List.not_mem_nil
  | case2 u => simpa using glyphOf_valid u false
  | case3 u v rest hpair ih =>
    rw [List.forall_mem_cons]
    exact ⟨⟨by omega, by omega, by omega⟩, ih⟩
  | case4 u v rest hpair ih =>
    rw [List.forall_mem_cons]
    exact ⟨glyphOf_valid u false, ih⟩

theorem codePoints_quoteUnit (u : UInt16) :
    codePoints (quoteUnit u false) = (glyphOf u false).print := by
  rw [codePoints_of_forall fun v hv => not_surrogate_of_mem_quoteUnit hv, map_quoteUnit]

theorem codePoints_quoteBody (s : JsString) :
    codePoints (quoteBody s) = (points s).flatMap Glyph.print := by
  fun_induction quoteBody s with
  | case1 => rfl
  | case2 u => rw [codePoints_quoteUnit, points, List.flatMap_singleton]
  | case3 u v rest hpair ih =>
    obtain ⟨hu, hv⟩ := Bool.and_eq_true_iff.1 hpair
    rw [points, if_pos hpair, quoteUnit_paired (le_of_isHighSurrogate hu),
      quoteUnit_paired (le_of_isLowSurrogate hv), List.flatMap_cons, ← ih]
    exact codePoints_pair hu hv _
  | case4 u v rest hpair ih =>
    rw [points, if_neg hpair, codePoints_append (wellFormed_quoteUnit u), codePoints_quoteUnit, ih,
      List.flatMap_cons]

/-- To Python a text is its code points. -/
theorem reading_codePoints : Reading codePoints points where
  nil := rfl
  low u s hu := codePoints_unit (not_surrogate_of_low hu).1 (not_surrogate_of_low hu).2 s
  append a b ha := codePoints_append ha b
  quote s := by
    have hquote : ∀ t, codePoints (34 :: t) = 34 :: codePoints t := codePoints_unit rfl rfl
    unfold quote printGlyphs
    rw [hquote, codePoints_append (wellFormed_quoteBody s), codePoints_quoteBody, hquote]
    rfl

theorem isHigh_toNat (u : UInt16) : Python.isHigh u.toNat = isHighSurrogate u := by
  unfold Python.isHigh isHighSurrogate
  congr 1
  rw [decide_eq_decide]
  omega

theorem isLow_toNat (u : UInt16) : Python.isLow u.toNat = isLowSurrogate u := by
  unfold Python.isLow isLowSurrogate
  congr 1
  rw [decide_eq_decide]
  omega

theorem decodeGlyphs_cons {g : Glyph} {gs : List Glyph}
    (h : ∀ c c', g = .escaped c → gs.head? = some (.escaped c') →
      ¬ (Python.isHigh c && Python.isLow c') = true) :
    Python.decodeGlyphs (g :: gs) = g.code :: Python.decodeGlyphs gs := by
  cases g with
  | raw c => rw [Python.decodeGlyphs.eq_3 _ _ (by simp)]
  | escaped c =>
    rcases gs with _ | ⟨_ | c', gs⟩
    · rw [Python.decodeGlyphs.eq_3 _ _ (by simp)]
    · rw [Python.decodeGlyphs.eq_3 _ _ (by simp)]
    · rw [Python.decodeGlyphs, if_neg (h c c' rfl rfl)]
      rfl

theorem glyphOf_eq_escaped {u : UInt16} {paired : Bool} {c : ℕ}
    (h : glyphOf u paired = .escaped c) : u.toNat = c := by
  rw [← code_glyphOf u paired, h]
  rfl

/-- The first character of a literal is escaped only for the first code unit. -/
theorem head?_points {v : UInt16} {rest : JsString} {c : ℕ}
    (h : (points (v :: rest)).head? = some (.escaped c)) :
    v.toNat = c := by
  cases rest with
  | nil => exact glyphOf_eq_escaped (Option.some.inj h)
  | cons w rest =>
    unfold points at h
    split_ifs at h
    · exact absurd (Option.some.inj h) (by simp)
    · exact glyphOf_eq_escaped (Option.some.inj h)

/-- `json.loads` reads the code points of a string. -/
theorem decodeGlyphs_points (s : JsString) : Python.decodeGlyphs (points s) = pyString s := by
  fun_induction points s with
  | case1 => rfl
  | case2 u =>
    rw [decodeGlyphs_cons (by intro c c' _ h; exact absurd h (by simp)), code_glyphOf]
    rfl
  | case3 u v rest hpair ih =>
    rw [pyString, if_pos hpair, decodeGlyphs_cons (by intro c c' h; exact absurd h (by simp)),
      ih, Glyph.code]
  | case4 u v rest hpair ih =>
    have hhead : ∀ c c', glyphOf u false = .escaped c →
        (points (v :: rest)).head? = some (.escaped c') →
        ¬ (Python.isHigh c && Python.isLow c') = true := by
      intro c c' hc hc' hboth
      obtain rfl := glyphOf_eq_escaped hc
      obtain rfl := head?_points hc'
      rw [isHigh_toNat, isLow_toNat] at hboth
      exact hpair hboth
    rw [pyString, if_neg hpair, decodeGlyphs_cons hhead, ih, code_glyphOf]

theorem ofCodePoints_pyString (s : JsString) : ofCodePoints (pyString s) = s := by
  unfold ofCodePoints
  fun_induction pyString s with
  | case1 => rfl
  | case2 u => rw [List.flatMap_singleton, unitsOf_toNat]
  | case3 u v rest hpair ih =>
    obtain ⟨hu, hv⟩ := Bool.and_eq_true_iff.1 hpair
    rw [List.flatMap_cons, unitsOf_pair hu hv, ih]
    rfl
  | case4 u v rest hpair ih =>
    rw [List.flatMap_cons, unitsOf_toNat, ih]
    rfl

theorem pyString_injective : Function.Injective pyString :=
  Function.LeftInverse.injective ofCodePoints_pyString

theorem code_points (s : JsString) : (points s).map Glyph.code = pyString s := by
  fun_induction points s with
  | case1 => rfl
  | case2 u => rw [List.map_singleton, code_glyphOf, pyString]
  | case3 u v rest hpair ih => rw [pyString, if_pos hpair, List.map_cons, ih, Glyph.code]
  | case4 u v rest hpair ih => rw [pyString, if_neg hpair, List.map_cons, ih, code_glyphOf]

/-- A well-formed string is quoted alike in both languages. -/
theorem points_of_wellFormed {s : JsString} (hs : WellFormed s) :
    points s = (pyString s).map Python.glyphOf := by
  induction hs with
  | nil => rfl
  | @unit u s hhigh hlow hs ih =>
    have hglyph : glyphOf u false = Python.glyphOf u.toNat := by
      unfold glyphOf Python.glyphOf
      rw [hhigh, hlow, Bool.or_self, Bool.false_and, Bool.or_false]
    cases s with
    | nil => rw [points, hglyph, pyString, List.map_singleton]
    | cons v s =>
      have hpair : ¬ (isHighSurrogate u && isLowSurrogate v) = true := by simp [hhigh]
      rw [points, if_neg hpair, pyString, if_neg hpair, List.map_cons, hglyph, ih]
  | @pair u v s hu hv hs ih =>
    have hpair : (isHighSurrogate u && isLowSurrogate v) = true := by rw [hu, hv]; rfl
    have hglyph (c : ℕ) : Python.glyphOf (0x10000 + c) = .raw (0x10000 + c) := by
      have hshort : shortEscape (0x10000 + c) = none := by
        unfold shortEscape
        rw [if_neg (by omega), if_neg (by omega), if_neg (by omega), if_neg (by omega),
          if_neg (by omega), if_neg (by omega), if_neg (by omega)]
      unfold Python.glyphOf
      rw [hshort, Option.isSome_none, decide_eq_false (by omega), Bool.or_self,
        if_neg Bool.false_ne_true]
    rw [points, if_pos hpair, pyString, if_pos hpair, List.map_cons, Nat.add_assoc, hglyph, ih]

theorem wellFormed_of_points {s : JsString} (h : ∀ c, .escaped c ∈ points s → c < 0xD800) :
    WellFormed s := by
  have hunit : ∀ u : UInt16, (∀ c, .escaped c = glyphOf u false → c < 0xD800) →
      isHighSurrogate u = false ∧ isLowSurrogate u = false := by
    intro u hu
    by_contra hsurrogate
    have hboth : (isHighSurrogate u || isLowSurrogate u) = true := by
      cases hhigh : isHighSurrogate u <;> cases hlow : isLowSurrogate u <;> simp [hhigh, hlow]
        at hsurrogate ⊢
    have hlt := hu u.toNat (by
      unfold glyphOf
      rw [hboth, Bool.not_false, Bool.and_true, Bool.or_true, if_pos rfl])
    rcases Bool.or_eq_true_iff.1 hboth with hhigh | hlow
    · exact absurd (le_of_isHighSurrogate hhigh) (by omega)
    · exact absurd (le_of_isLowSurrogate hlow) (by omega)
  fun_induction points s with
  | case1 => exact .nil
  | case2 u =>
    obtain ⟨hhigh, hlow⟩ := hunit u fun c hc => h c (hc ▸ List.mem_cons_self)
    exact .unit hhigh hlow .nil
  | case3 u v rest hpair ih =>
    obtain ⟨hu, hv⟩ := Bool.and_eq_true_iff.1 hpair
    exact .pair hu hv (ih fun c hc => h c (List.mem_cons_of_mem _ hc))
  | case4 u v rest hpair ih =>
    obtain ⟨hhigh, hlow⟩ := hunit u fun c hc => h c (hc ▸ List.mem_cons_self)
    exact .unit hhigh hlow (ih fun c hc => h c (List.mem_cons_of_mem _ hc))

/-- Only a well-formed string is quoted alike, and for no other string than itself. -/
theorem points_eq_iff {s : JsString} {t : Python.PyString} :
    points s = t.map Python.glyphOf ↔ WellFormed s ∧ t = pyString s := by
  constructor
  · intro h
    have hs : WellFormed s := by
      apply wellFormed_of_points
      intro c hc
      rw [h] at hc
      obtain ⟨c', -, hc'⟩ := List.mem_map.1 hc
      exact (Python.lt_of_glyphOf_eq_escaped hc').trans (by decide)
    have hcode : ∀ c, (Python.glyphOf c).code = c := by
      intro c
      unfold Python.glyphOf
      split_ifs <;> rfl
    refine ⟨hs, ?_⟩
    rw [← code_points, h, List.map_map]
    exact (List.map_id'' hcode t).symm
  · intro h
    obtain ⟨hs, rfl⟩ := h
    exact points_of_wellFormed hs

/-! ### Numbers -/

theorem digitCodes_mul_pow {n : ℕ} (hn : n ≠ 0) (j : ℕ) :
    digitCodes (n * 10 ^ j) = digitCodes n ++ List.replicate j 48 := by
  induction j with
  | zero => rw [Nat.pow_zero, Nat.mul_one, List.replicate_zero, List.append_nil]
  | succ j ih =>
    have hpos : n * 10 ^ j ≠ 0 := Nat.mul_ne_zero hn (Nat.pow_pos (by decide)).ne'
    have hstep : natToString (n * 10 ^ j * 10) = natToString (n * 10 ^ j) ++ [48] :=
      natToString_concat hpos (k := 0) (by decide)
    rw [Nat.pow_succ, ← Nat.mul_assoc, List.replicate_succ', ← List.append_assoc, ← ih]
    unfold digitCodes
    rw [hstep, List.map_append]
    rfl

/-- An integer below 10^21 is written in full, and read as what it is. -/
theorem intLiteral_intOf {negative : Bool} {n j : ℕ} (hn : n ≠ 0) :
    Python.intLiteral (Python.intOf ⟨negative, digitCodes n ++ List.replicate j 48, [], none⟩) =
      ⟨negative, digitCodes n ++ List.replicate j 48, [], none⟩ := by
  have hpos : n * 10 ^ j ≠ 0 := Nat.mul_ne_zero hn (Nat.pow_pos (by decide)).ne'
  unfold Python.intOf
  dsimp only
  rw [ofDigits_append_zeros, ofDigits_digitCodes, ← digitCodes_mul_pow hn]
  generalize n * 10 ^ j = m at hpos
  unfold Python.intLiteral
  cases negative with
  | true =>
    rw [if_pos rfl, decide_eq_true (by omega), Int.natAbs_neg, Int.natAbs_natCast]
  | false =>
    rw [if_neg Bool.false_ne_true, decide_eq_false (by omega), Int.natAbs_natCast]

/-- Below 10^21 an integer has a literal without a fraction and an exponent. -/
theorem numberOf_literal {x : Decimal} (hx : canonical.number x) (hsmall : x.exponent ≤ 21) :
    ∃ n, Python.numberOf x.literal = .int n ∧ Python.intLiteral n = x.literal := by
  obtain ⟨⟨hround, hzero⟩, hinteger⟩ := hx
  by_cases hdigits : x.digits = 0
  · refine ⟨0, ?_, ?_⟩
    all_goals
      unfold Decimal.literal
      rw [if_pos hdigits]
      rfl
  · have hlength : ((digitCodes x.digits).length : ℤ) ≤ x.exponent := by
      unfold isInteger at hinteger
      unfold digitCodes
      rw [List.length_map]
      simpa [hdigits] using hinteger
    unfold Decimal.literal
    rw [if_neg hdigits]
    dsimp only
    rw [if_pos ⟨hlength, hsmall⟩]
    exact ⟨_, rfl, intLiteral_intOf hdigits⟩

/-- From 10^21 on the literal has an exponent, which no integer is written with. -/
theorem writtenTree_numberOf_ne {x : Decimal} (hlarge : 21 < x.exponent) (hdigits : x.digits ≠ 0) :
    Python.writtenTree (Python.numberOf x.literal) ≠ .number x.literal := by
  have hexponent : x.literal.exponent ≠ none := by
    unfold Decimal.literal
    rw [if_neg hdigits]
    dsimp only
    rw [if_neg (by omega), if_neg (by omega), if_neg (by omega)]
    exact Option.some_ne_none _
  intro h
  unfold Python.numberOf at h
  rw [if_neg fun hint => hexponent hint.2] at h
  generalize (decimalOf x.literal).round = rounded at h
  cases rounded with
  | none => exact absurd h (by simp [Python.writtenTree])
  | some d => exact hexponent (congrArg Literal.exponent (Tree.number.inj h)).symm

theorem written_number_iff {x : Decimal} (hx : canonical.number x) :
    Python.writtenTree (Python.numberOf x.literal) = .number x.literal ↔ x.exponent ≤ 21 := by
  constructor
  · intro h
    by_contra hlarge
    refine writtenTree_numberOf_ne (not_le.1 hlarge) ?_ h
    intro hdigits
    have := (round_normal hx.1.1).zero hdigits
    omega
  · intro hsmall
    obtain ⟨n, hnumber, hliteral⟩ := numberOf_literal hx hsmall
    rw [hnumber, Python.writtenTree, hliteral]

/-! ### Objects -/

theorem membersOf_eq_map (g : JsString → List Glyph) (es : List (JsString × Json)) :
    membersOf g es = es.map fun e => (g e.1, treeOf g e.2) := by
  induction es with
  | nil => rfl
  | cons e es ih => rw [membersOf, ih, List.map_cons]

/-- What `json.loads` reads for a value. -/
def pyValue (j : Json) : Python.PyValue := Python.ofTree (treeOf points j)

theorem ofMembers_membersOf_points (es : List (JsString × Json)) :
    Python.ofMembers (membersOf points es) = es.map fun e => (pyString e.1, pyValue e.2) := by
  induction es with
  | nil => rfl
  | cons e es ih =>
    unfold membersOf Python.ofMembers
    rw [ih, decodeGlyphs_points]
    rfl

theorem pyValue_object {es : List (JsString × Json)} (hkeys : (es.map Prod.fst).Nodup) :
    pyValue (.object es) = .dict (es.map fun e => (pyString e.1, pyValue e.2)) := by
  have hnew : Table.UniqueKeys Prod.fst ([] ++ es.map fun e => (pyString e.1, pyValue e.2)) := by
    unfold Table.UniqueKeys
    rw [List.nil_append, List.map_map]
    have hnodup := hkeys.map pyString_injective
    rwa [List.map_map] at hnodup
  show Python.PyValue.dict ((Python.ofMembers (membersOf points es)).foldl Python.setItem []) = _
  rw [ofMembers_membersOf_points]
  exact congrArg Python.PyValue.dict (Table.foldl_upsert hnew)

theorem codePoints_eq_pyString {s : JsString} (hs : WellFormed s) : codePoints s = pyString s := by
  induction hs with
  | nil => rfl
  | @unit u s hhigh hlow hs ih =>
    rw [codePoints_unit hhigh hlow, ih]
    cases s with
    | nil => rfl
    | cons v s => rw [pyString, if_neg (by simp [hhigh])]
  | @pair u v s hu hv hs ih =>
    rw [codePoints_pair hu hv, ih, pyString, if_pos (by simp [hu, hv])]

/-- What both languages write alike: numbers below 10^21, strings without a lone surrogate, and keys
that stand in one order by code unit and by code point. -/
def portable : Condition where
  number x := x.exponent ≤ 21
  infinity := True
  string := WellFormed
  keys ks := (∀ k ∈ ks, WellFormed k) ∧ ∀ a ∈ ks, ∀ b ∈ ks, le a b →
    Python.le (codePoints a) (codePoints b)

/-- Keys in order are in Python's order if and only if the two orders agree on them. -/
theorem pairwise_pyString_iff {ks : List JsString} (hsorted : ks.Pairwise (· < ·))
    (hwell : ∀ k ∈ ks, WellFormed k) :
    (ks.Pairwise fun a b => Python.le (pyString a) (pyString b)) ↔
      ∀ a ∈ ks, ∀ b ∈ ks, le a b → Python.le (codePoints a) (codePoints b) := by
  have hcode : ∀ k ∈ ks, codePoints k = pyString k :=
    fun k hk => codePoints_eq_pyString (hwell k hk)
  constructor
  · intro h
    have hforward : ks.Pairwise fun a b => le a b → Python.le (pyString a) (pyString b) := by
      refine h.imp ?_
      intro a b hle _
      exact hle
    have hback : ks.Pairwise (flip fun a b => le a b → Python.le (pyString a) (pyString b)) := by
      refine hsorted.imp ?_
      intro a b hlt hba
      exact absurd hlt (List.not_lt.2 (of_decide_eq_true hba))
    intro a ha b hb
    rw [hcode a ha, hcode b hb]
    exact hforward.forall_of_forall_of_flip (fun a _ _ => Python.le_refl (pyString a)) hback ha hb
  · intro h
    refine hsorted.imp_of_mem ?_
    intro a b ha hb hab
    rw [← hcode a ha, ← hcode b hb]
    exact h a ha b hb (decide_eq_true (List.le_of_lt hab))

/-- Quoted strings that are the same in both languages. -/
theorem eq_map_pyString {ks : List Python.PyString} {ss : List JsString}
    (h : ks.map (List.map Python.glyphOf) = ss.map points) :
    (∀ s ∈ ss, WellFormed s) ∧ ks = ss.map pyString := by
  induction ss generalizing ks with
  | nil => exact ⟨fun s hs => absurd hs List.not_mem_nil, List.map_eq_nil_iff.1 h⟩
  | cons s ss ih =>
    cases ks with
    | nil => exact absurd h (by simp)
    | cons k ks =>
      rw [List.map_cons, List.map_cons, List.cons.injEq] at h
      obtain ⟨hs, rfl⟩ := points_eq_iff.1 h.1.symm
      obtain ⟨hss, rfl⟩ := ih h.2
      exact ⟨List.forall_mem_cons.2 ⟨hs, hss⟩, rfl⟩

/-- The members of an object as they are written, before they are sorted. -/
def writtenMembers (es : List (JsString × Json)) : List (Python.PyString × Tree) :=
  es.map fun e => (pyString e.1, Python.writtenTree (pyValue e.2))

theorem keys_writtenMembers (es : List (JsString × Json)) :
    (writtenMembers es).map Prod.fst = (es.map Prod.fst).map pyString := by
  unfold writtenMembers
  rw [List.map_map, List.map_map]
  rfl

/-- The members that are written are those that were read exactly when the keys and the values
agree. -/
theorem writtenMembers_iff {es : List (JsString × Json)}
    (hsorted : (es.map Prod.fst).Pairwise (· < ·)) :
    (sortByKey Python.le (writtenMembers es)).map (fun e => (e.1.map Python.glyphOf, e.2)) =
        es.map (fun e => (points e.1, treeOf points e.2)) ↔
      portable.keys (es.map Prod.fst) ∧ ∀ e ∈ es,
        Python.writtenTree (pyValue e.2) = treeOf points e.2 := by
  have hpairwise : (writtenMembers es).Pairwise (fun a b => Python.le a.1 b.1) ↔
      (es.map Prod.fst).Pairwise fun a b => Python.le (pyString a) (pyString b) := by
    unfold writtenMembers
    rw [List.pairwise_map, List.pairwise_map]
  constructor
  · intro h
    have hglyphs :
        ((sortByKey Python.le (writtenMembers es)).map Prod.fst).map (List.map Python.glyphOf) =
        (es.map Prod.fst).map points := by
      have hfst := congrArg (List.map Prod.fst) h
      rw [List.map_map, List.map_map] at hfst
      rw [List.map_map, List.map_map]
      exact hfst
    obtain ⟨hwell, hsame⟩ := eq_map_pyString hglyphs
    have hnodup : ((writtenMembers es).map Prod.fst).Nodup := by
      rw [keys_writtenMembers]
      exact (canonical_implies_plain.keys _ hsorted).map pyString_injective
    -- the same keys in the same order: nothing was moved
    have hfix : writtenMembers es = sortByKey Python.le (writtenMembers es) := by
      apply eq_of_perm_of_keys (sortByKey_perm _).symm hnodup
      rw [keys_writtenMembers, hsame]
    have hordered := pairwise_sortByKey Python.le_total Python.le_trans (writtenMembers es)
    rw [← hfix] at hordered h
    refine ⟨⟨hwell, (pairwise_pyString_iff hsorted hwell).1 (hpairwise.1 hordered)⟩, ?_⟩
    intro e he
    unfold writtenMembers at h
    rw [List.map_map] at h
    exact congrArg Prod.snd (List.map_inj_left.1 h e he)
  · intro h
    obtain ⟨hkeys, hvalues⟩ := h
    rw [sortByKey_of_pairwise (hpairwise.2 ((pairwise_pyString_iff hsorted hkeys.1).2 hkeys.2))]
    unfold writtenMembers
    rw [List.map_map]
    apply List.map_congr_left
    intro e he
    exact Prod.ext (points_of_wellFormed (hkeys.1 _ (List.mem_map_of_mem he))).symm (hvalues e he)

theorem writtenTree_object {es : List (JsString × Json)} (hkeys : (es.map Prod.fst).Nodup) :
    Python.writtenTree (pyValue (.object es)) =
      .object ((sortByKey Python.le (writtenMembers es)).map
        fun e => (e.1.map Python.glyphOf, e.2)) := by
  rw [pyValue_object hkeys, Python.writtenTree, Python.writtenEntries_eq_map, List.map_map]
  rfl

mutual

/-- The tree that Python writes for a canonical text is the tree of the text exactly when the value
is portable. -/
theorem writtenTree_iff {j : Json} (hj : j.Meets canonical) :
    Python.writtenTree (pyValue j) = treeOf points j ↔ j.Meets portable := by
  cases j with
  | null | bool => exact iff_of_true rfl trivial
  | infinity => exact absurd hj not_false
  | number x => exact written_number_iff hj
  | string s =>
    show Tree.string ((Python.decodeGlyphs (points s)).map Python.glyphOf) = .string (points s) ↔
      WellFormed s
    rw [decodeGlyphs_points, Tree.string.injEq, eq_comm, points_eq_iff, and_iff_left rfl]
  | array items =>
    show Tree.array (Python.writtenItems (Python.ofItems (treesOf points items))) =
      .array (treesOf points items) ↔ _
    rw [Tree.array.injEq]
    exact writtenItems_iff hj
  | object es =>
    obtain ⟨hsorted, hes⟩ := hj
    rw [writtenTree_object (canonical_implies_plain.keys _ hsorted), treeOf, Tree.object.injEq,
      membersOf_eq_map, writtenMembers_iff hsorted]
    exact and_congr_right fun _ => writtenEntries_iff hes

theorem writtenItems_iff {js : List Json} (hjs : MeetsItems canonical js) :
    Python.writtenItems (Python.ofItems (treesOf points js)) = treesOf points js ↔
      MeetsItems portable js := by
  cases js with
  | nil => exact iff_of_true rfl trivial
  | cons j js =>
    show Python.writtenTree (pyValue j) ::
      Python.writtenItems (Python.ofItems (treesOf points js)) =
      treeOf points j :: treesOf points js ↔ _
    rw [List.cons.injEq]
    exact and_congr (writtenTree_iff hjs.1) (writtenItems_iff hjs.2)

theorem writtenEntries_iff {es : List (JsString × Json)} (hes : MeetsEntries canonical es) :
    (∀ e ∈ es, Python.writtenTree (pyValue e.2) = treeOf points e.2) ↔
      MeetsEntries portable es := by
  cases es with
  | nil => exact iff_of_true (fun e he => absurd he List.not_mem_nil) trivial
  | cons e es =>
    rw [List.forall_mem_cons]
    exact and_congr (writtenTree_iff hes.1) (writtenEntries_iff hes.2)

end

/-! ### Python does not raise -/

mutual

theorem serializeCanonical_pyValue {j : Json} (hj : j.Meets canonical)
    (hportable : j.Meets portable) :
    ∃ s, Python.serializeCanonical (pyValue j) = .ok s := by
  cases j with
  | null | bool | string => exact ⟨_, rfl⟩
  | infinity => exact absurd hj not_false
  | number x =>
    obtain ⟨n, hnumber, -⟩ := numberOf_literal hj hportable
    show ∃ s, Python.serializeCanonical (Python.numberOf x.literal) = .ok s
    rw [hnumber]
    exact ⟨_, rfl⟩
  | array items =>
    obtain ⟨ss, hss⟩ := serializeItems_pyValue hj hportable
    show ∃ s, Python.serializeCanonical (.list (Python.ofItems (treesOf points items))) = .ok s
    unfold Python.serializeCanonical
    rw [hss]
    exact ⟨_, rfl⟩
  | object es =>
    rw [pyValue_object (canonical_implies_plain.keys _ hj.1)]
    apply Python.serializeCanonical_dict
    rw [List.forall_mem_map]
    exact serializeEntries_pyValue hj.2 hportable.2

theorem serializeItems_pyValue {js : List Json} (hjs : MeetsItems canonical js)
    (hportable : MeetsItems portable js) :
    ∃ ss, Python.serializeItems (Python.ofItems (treesOf points js)) = .ok ss := by
  cases js with
  | nil => exact ⟨_, rfl⟩
  | cons j js =>
    obtain ⟨s, hs⟩ := serializeCanonical_pyValue hjs.1 hportable.1
    obtain ⟨ss, hss⟩ := serializeItems_pyValue hjs.2 hportable.2
    show ∃ ss, Python.serializeItems (pyValue j :: Python.ofItems (treesOf points js)) = .ok ss
    unfold Python.serializeItems
    rw [hs, hss]
    exact ⟨_, rfl⟩

theorem serializeEntries_pyValue {es : List (JsString × Json)} (hes : MeetsEntries canonical es)
    (hportable : MeetsEntries portable es) :
    ∀ e ∈ es, ∃ s, Python.serializeCanonical (pyValue e.2) = .ok s := by
  cases es with
  | nil => exact fun e he => absurd he List.not_mem_nil
  | cons e es =>
    exact List.forall_mem_cons.2
      ⟨serializeCanonical_pyValue hes.1 hportable.1, serializeEntries_pyValue hes.2 hportable.2⟩

end

/-- Python writes a canonical text back exactly when its value is portable. -/
theorem canonical_stringify_iff {j : Json} (hj : j.Meets canonical) :
    Python.canonical (codePoints (JSON.stringify j)) = .ok (codePoints (JSON.stringify j)) ↔
      j.Meets portable := by
  have htext : codePoints (JSON.stringify j) = (treeOf points j).print :=
    reading_codePoints.stringify j
  have hvalid : (treeOf points j).Valid := treeOf_valid points_valid j
  have hcanonical : Python.canonical (codePoints (JSON.stringify j)) =
      Python.serializeCanonical (pyValue j) := by
    unfold Python.canonical Python.loads
    rw [htext, parse_print hvalid]
    rfl
  rw [hcanonical, ← writtenTree_iff hj]
  constructor
  · intro h
    apply print_injective (Python.writtenTree_valid _) hvalid
    rw [← Python.serializeCanonical_eq_ok h, htext]
  · intro h
    obtain ⟨s, hs⟩ := serializeCanonical_pyValue hj ((writtenTree_iff hj).1 h)
    rw [hs, Python.serializeCanonical_eq_ok hs, h, htext]

end IntentGuard.Trace
