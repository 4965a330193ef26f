import IntentGuard.Infra.JsonParse

/-!
# Values up to the order of their keys

A value reorders another one if they differ in nothing but the order of the keys of their objects,
at any depth. `Json.ordered` is the reordering whose keys are in order; the canonical text of a
value is the text of that one.

`canonicalize_eq_iff`: two values have the same canonical text exactly when one reorders the other.
`parse_canonicalize`: reading the canonical text of a value gives a reordering of it.
-/

namespace IntentGuard.Infra

open Js SortedEntries

/-- `x === y` of two finite numbers. -/
def sameNumber (x y : Decimal) : Prop := x = y ∨ x.digits = 0 ∧ y.digits = 0

mutual

/-- Equal up to the order of the keys of each object. -/
def Json.Reorders : Json → Json → Prop
  | .null, .null => True
  | .bool b, .bool b' => b = b'
  | .number x, .number y => sameNumber x y
  | .infinity negative, .infinity negative' => negative = negative'
  | .string s, .string s' => s = s'
  | .array vs, .array ws => ReordersItems vs ws
  | .object es, .object es' => ∃ fs, fs.Perm es' ∧ ReordersEntries es fs
  | _, _ => False

/-- Item by item. -/
def ReordersItems : List Json → List Json → Prop
  | [], [] => True
  | v :: vs, w :: ws => v.Reorders w ∧ ReordersItems vs ws
  | _, _ => False

/-- Entry by entry. -/
def ReordersEntries : List (JsString × Json) → List (JsString × Json) → Prop
  | [], [] => True
  | (k, v) :: es, (k', v') :: es' => k = k' ∧ v.Reorders v' ∧ ReordersEntries es es'
  | _, _ => False

end

/-- What a program holds: doubles, `-0` among them, and objects with distinct keys. -/
def finite : Condition where
  number x := x.round = some x
  infinity := False
  string _ := True
  keys ks := ks.Nodup

abbrev Json.Finite (v : Json) : Prop := v.Meets finite

/-! ### The value in order -/

/-- `-0` is written as `0`. -/
def writtenNumber (x : Decimal) : Decimal := if x.digits = 0 then ⟨false, 0, 0⟩ else x

mutual

/-- The value with the keys of each object in order. -/
def Json.ordered : Json → Json
  | .null => .null
  | .bool b => .bool b
  | .number x => .number (writtenNumber x)
  | .infinity negative => .infinity negative
  | .string s => .string s
  | .array vs => .array (orderedItems vs)
  | .object es => .object (sortByKey le (orderedEntries es))

def orderedItems : List Json → List Json
  | [] => []
  | v :: vs => v.ordered :: orderedItems vs

def orderedEntries : List (JsString × Json) → List (JsString × Json)
  | [] => []
  | (k, v) :: es => (k, v.ordered) :: orderedEntries es

end

theorem orderedEntries_eq_map (es : List (JsString × Json)) :
    orderedEntries es = es.map fun e => (e.1, e.2.ordered) := by
  induction es with
  | nil => rfl
  | cons e es ih =>
    unfold orderedEntries
    rw [ih]
    rfl

theorem keys_orderedEntries (es : List (JsString × Json)) :
    (orderedEntries es).map Prod.fst = es.map Prod.fst := by
  rw [orderedEntries_eq_map, List.map_map]
  rfl

theorem writtenNumber_eq_iff (x y : Decimal) :
    writtenNumber x = writtenNumber y ↔ sameNumber x y := by
  unfold writtenNumber sameNumber
  split_ifs with hx hy hy
  · exact iff_of_true rfl (.inr ⟨hx, hy⟩)
  · refine iff_of_false ?_ ?_
    · intro h
      exact hy (congrArg Decimal.digits h).symm
    · rintro (rfl | ⟨-, hzero⟩)
      · exact hy hx
      · exact hy hzero
  · refine iff_of_false ?_ ?_
    · intro h
      exact hx (congrArg Decimal.digits h)
    · rintro (rfl | ⟨hzero, -⟩)
      · exact hx hy
      · exact hx hzero
  · constructor
    · exact .inl
    · rintro (h | ⟨hzero, -⟩)
      · exact h
      · exact absurd hzero hx

theorem writtenNumber_writtenNumber (x : Decimal) :
    writtenNumber (writtenNumber x) = writtenNumber x := by
  unfold writtenNumber
  split_ifs <;> rfl

theorem toString_writtenNumber (x : Decimal) : (writtenNumber x).toString = x.toString := by
  unfold writtenNumber
  split_ifs with hzero
  · unfold Decimal.toString
    rw [if_pos rfl, if_pos hzero]
  · rfl

theorem writtenNumber_plain {x : Decimal} (hx : x.round = some x) :
    (writtenNumber x).round = some (writtenNumber x) ∧
    ((writtenNumber x).digits = 0 → (writtenNumber x).negative = false) := by
  unfold writtenNumber
  split_ifs with hzero
  · exact ⟨rfl, fun _ => rfl⟩
  · exact ⟨hx, fun h => absurd h hzero⟩

mutual

theorem ordered_ordered (v : Json) : v.ordered.ordered = v.ordered := by
  cases v with
  | null | bool | infinity | string => rfl
  | number x => exact congrArg Json.number (writtenNumber_writtenNumber x)
  | array vs => exact congrArg Json.array (orderedItems_orderedItems vs)
  | object es =>
    have hsorted := pairwise_sortByKey le.total le.trans (orderedEntries es)
    show Json.object (sortByKey le (orderedEntries (sortByKey le (orderedEntries es)))) = _
    rw [orderedEntries_eq_map (sortByKey le _), ← sortByKey_map, ← orderedEntries_eq_map,
      orderedEntries_orderedEntries es, sortByKey_of_pairwise hsorted]
    rfl

theorem orderedItems_orderedItems (vs : List Json) :
    orderedItems (orderedItems vs) = orderedItems vs := by
  cases vs with
  | nil => rfl
  | cons v vs => exact congrArg₂ List.cons (ordered_ordered v) (orderedItems_orderedItems vs)

theorem orderedEntries_orderedEntries (es : List (JsString × Json)) :
    orderedEntries (orderedEntries es) = orderedEntries es := by
  cases es with
  | nil => rfl
  | cons e es =>
    exact congrArg₂ List.cons (congrArg (Prod.mk e.1) (ordered_ordered e.2))
      (orderedEntries_orderedEntries es)

end

mutual

/-- The order in which a value's properties are enumerated does not matter. -/
theorem ordered_enumerated {v : Json} (hv : v.Plain) : v.enumerated.ordered = v.ordered := by
  cases v with
  | null | bool | infinity | number | string => rfl
  | array vs => exact congrArg Json.array (orderedItems_enumeratedItems hv)
  | object es =>
    obtain ⟨hkeys, hes⟩ := hv
    show Json.object (sortByKey le (orderedEntries (enumerate (enumeratedEntries es)))) = _
    rw [orderedEntries_eq_map (enumerate _), ← enumerate_map, ← orderedEntries_eq_map,
      orderedEntries_enumeratedEntries hes]
    exact congrArg Json.object
      (sortByKey_eq_of_perm le.total le.trans le.antisymm (enumerate_perm _).symm
      (by rwa [keys_orderedEntries])).symm

theorem orderedItems_enumeratedItems {vs : List Json} (hvs : MeetsItems plain vs) :
    orderedItems (enumeratedItems vs) = orderedItems vs := by
  cases vs with
  | nil => rfl
  | cons v vs =>
    exact congrArg₂ List.cons (ordered_enumerated hvs.1) (orderedItems_enumeratedItems hvs.2)

theorem orderedEntries_enumeratedEntries {es : List (JsString × Json)}
    (hes : MeetsEntries plain es) :
    orderedEntries (enumeratedEntries es) = orderedEntries es := by
  cases es with
  | nil => rfl
  | cons e es =>
    exact congrArg₂ List.cons (congrArg (Prod.mk e.1) (ordered_enumerated hes.1))
      (orderedEntries_enumeratedEntries hes.2)

end

mutual

theorem Json.Finite.ordered {v : Json} (hv : v.Finite) : v.ordered.Plain := by
  cases v with
  | null | bool | string => trivial
  | infinity => exact hv
  | number x => exact writtenNumber_plain hv
  | array vs => exact plain_orderedItems hv
  | object es =>
    refine ⟨((sortByKey_perm _).map Prod.fst).nodup_iff.2 ?_, (meetsEntries_iff _ _).2 ?_⟩
    · rw [keys_orderedEntries]
      exact hv.1
    · exact fun e he => plain_orderedEntries hv.2 e (mem_sortByKey.1 he)

theorem plain_orderedItems {vs : List Json} (hvs : MeetsItems finite vs) :
    MeetsItems plain (orderedItems vs) := by
  cases vs with
  | nil => trivial
  | cons v vs => exact ⟨Json.Finite.ordered hvs.1, plain_orderedItems hvs.2⟩

theorem plain_orderedEntries {es : List (JsString × Json)} (hes : MeetsEntries finite es) :
    ∀ e ∈ orderedEntries es, e.2.Plain := by
  cases es with
  | nil => exact fun e he => absurd he List.not_mem_nil
  | cons e es =>
    exact List.forall_mem_cons.2 ⟨Json.Finite.ordered hes.1, plain_orderedEntries hes.2⟩

end

/-! ### The canonical text -/

mutual

/-- The canonical text of a value is the text of the value in order. -/
theorem encode_eq {v : Json} (hv : v.Finite) : encode v = .ok (JSON.stringify v.ordered) := by
  cases v with
  | null | bool | string => rfl
  | infinity => exact absurd hv not_false
  | number x => exact congrArg Except.ok (toString_writtenNumber x).symm
  | array vs =>
    unfold encode
    rw [encodeItems_eq hv]
    rfl
  | object es =>
    rw [encode_object (encodeEntries_eq hv.2), sortByKey_map]
    show _ =
      Except.ok (123 :: (joinComma (stringifyEntries (sortByKey le (orderedEntries es))) ++ [125]))
    rw [stringifyEntries_eq_map, orderedEntries_eq_map, sortByKey_map, List.map_map, List.map_map]
    rfl

theorem encodeItems_eq {vs : List Json} (hvs : MeetsItems finite vs) :
    encodeItems vs = .ok (stringifyItems (orderedItems vs)) := by
  cases vs with
  | nil => rfl
  | cons v vs =>
    unfold encodeItems
    rw [encode_eq hvs.1, encodeItems_eq hvs.2]
    rfl

theorem encodeEntries_eq {es : List (JsString × Json)} (hes : MeetsEntries finite es) :
    es.map (fun e => (e.1, encode e.2)) =
      (es.map fun e => (e.1, JSON.stringify e.2.ordered)).map fun p => (p.1, .ok p.2) := by
  cases es with
  | nil => rfl
  | cons e es =>
    rw [List.map_cons, List.map_cons, List.map_cons, encode_eq hes.1, encodeEntries_eq hes.2]

end

/-! ### Reorderings -/

mutual

/-- Values reorder each other exactly when they are the same in order. -/
theorem ordered_eq_iff {v w : Json} (hv : v.Finite) (hw : w.Finite) :
    v.ordered = w.ordered ↔ v.Reorders w := by
  cases v with
  | null => cases w <;> simp [Json.ordered, Json.Reorders]
  | bool => cases w <;> simp [Json.ordered, Json.Reorders]
  | infinity => cases w <;> simp [Json.ordered, Json.Reorders]
  | string => cases w <;> simp [Json.ordered, Json.Reorders]
  | number x =>
    cases w with
    | number y => exact Json.number.injEq _ _ ▸ writtenNumber_eq_iff x y
    | _ => simp [Json.ordered, Json.Reorders]
  | array vs =>
    cases w with
    | array ws => exact Json.array.injEq _ _ ▸ orderedItems_eq_iff hv hw
    | _ => simp [Json.ordered, Json.Reorders]
  | object es =>
    cases w with
    | object es' =>
      have hkeys : ((orderedEntries es).map Prod.fst).Nodup := by
        rw [keys_orderedEntries]
        exact hv.1
      show Json.object _ = Json.object _ ↔ ∃ fs, fs.Perm es' ∧ ReordersEntries es fs
      rw [Json.object.injEq]
      constructor
      · intro h
        have hperm : (orderedEntries es).Perm (es'.map fun e => (e.1, e.2.ordered)) := by
          have hsorted := sortByKey_perm (r := le) (orderedEntries es)
          rw [h] at hsorted
          exact orderedEntries_eq_map es' ▸ hsorted.symm.trans (sortByKey_perm _)
        -- an arrangement of the one object's entries follows the other's entry by entry
        obtain ⟨fs, hfs, hes'⟩ := (congrFun₂ (List.eq_map_comp_perm _) _ _).mpr hperm
        refine ⟨fs, hes', (orderedEntries_eq_iff hv.2 ?_).1 ?_⟩
        · exact (meetsEntries_iff _ _).2 fun e he =>
            (meetsEntries_iff _ _).1 hw.2 e (hes'.mem_iff.1 he)
        · rw [orderedEntries_eq_map fs]
          exact hfs
      · rintro ⟨fs, hes', hreorders⟩
        have hfs : MeetsEntries finite fs :=
          (meetsEntries_iff _ _).2 fun e he => (meetsEntries_iff _ _).1 hw.2 e (hes'.mem_iff.1 he)
        have heq := (orderedEntries_eq_iff hv.2 hfs).2 hreorders
        apply sortByKey_eq_of_perm le.total le.trans le.antisymm _ hkeys
        rw [heq, orderedEntries_eq_map, orderedEntries_eq_map]
        exact hes'.map _
    | _ => simp [Json.ordered, Json.Reorders]

theorem orderedItems_eq_iff {vs ws : List Json} (hvs : MeetsItems finite vs)
    (hws : MeetsItems finite ws) :
    orderedItems vs = orderedItems ws ↔ ReordersItems vs ws := by
  cases vs with
  | nil => cases ws <;> simp [orderedItems, ReordersItems]
  | cons v vs =>
    cases ws with
    | nil => simp [orderedItems, ReordersItems]
    | cons w ws =>
      show v.ordered :: _ = w.ordered :: _ ↔ v.Reorders w ∧ ReordersItems vs ws
      rw [List.cons.injEq, ordered_eq_iff hvs.1 hws.1, orderedItems_eq_iff hvs.2 hws.2]

theorem orderedEntries_eq_iff {es fs : List (JsString × Json)} (hes : MeetsEntries finite es)
    (hfs : MeetsEntries finite fs) : orderedEntries es = orderedEntries fs ↔
      ReordersEntries es fs := by
  cases es with
  | nil => cases fs <;> simp [orderedEntries, ReordersEntries]
  | cons e es =>
    cases fs with
    | nil => simp [orderedEntries, ReordersEntries]
    | cons f fs =>
      show (e.1, e.2.ordered) :: _ = (f.1, f.2.ordered) :: _ ↔
        e.1 = f.1 ∧ e.2.Reorders f.2 ∧ ReordersEntries es fs
      rw [List.cons.injEq, Prod.mk.injEq, ordered_eq_iff hes.1 hfs.1,
        orderedEntries_eq_iff hes.2 hfs.2, and_assoc]

end

theorem keys_of_reorders {es fs : List (JsString × Json)} (h : ReordersEntries es fs) :
    es.map Prod.fst = fs.map Prod.fst := by
  induction es generalizing fs with
  | nil =>
    cases fs with
    | nil => rfl
    | cons => exact absurd h not_false
  | cons e es ih =>
    cases fs with
    | nil => exact absurd h not_false
    | cons f fs => rw [List.map_cons, List.map_cons, h.1, ih h.2.2]

/-- Objects with their keys in the same order are compared entry by entry. -/
theorem reorders_object_iff {es es' : List (JsString × Json)}
    (hkeys : es.map Prod.fst = es'.map Prod.fst) (hnodup : (es.map Prod.fst).Nodup) :
    (Json.object es).Reorders (.object es') ↔ ReordersEntries es es' := by
  constructor
  · rintro ⟨fs, hperm, h⟩
    have hfs := keys_of_reorders h
    rwa [eq_of_perm_of_keys hperm (hfs ▸ hnodup) (hfs.symm.trans hkeys)] at h
  · exact fun h => ⟨es', List.Perm.refl _, h⟩

theorem reordersItems_strings {ss ts : List JsString} :
    ReordersItems (ss.map .string) (ts.map .string) ↔ ss = ts := by
  induction ss generalizing ts with
  | nil => cases ts <;> simp [ReordersItems]
  | cons s ss ih =>
    cases ts with
    | nil => simp [ReordersItems]
    | cons t ts =>
      show s = t ∧ ReordersItems (ss.map .string) (ts.map .string) ↔ _
      rw [ih, List.cons.injEq]

/-- The text of a value in order determines it. -/
theorem stringify_ordered_inj {v w : Json} (hv : v.Finite) (hw : w.Finite) :
    JSON.stringify v.ordered = JSON.stringify w.ordered ↔ v.ordered = w.ordered := by
  constructor
  · intro h
    have hparse := parse_stringify hv.ordered
    rw [h, parse_stringify hw.ordered] at hparse
    have hordered := congrArg Json.ordered (Option.some.inj hparse)
    rw [ordered_enumerated hw.ordered, ordered_enumerated hv.ordered, ordered_ordered,
      ordered_ordered] at hordered
    exact hordered.symm
  · exact congrArg JSON.stringify

theorem canonicalize_eq_iff {v w : Json} (hv : v.Finite) (hw : w.Finite) :
    canonicalize v = canonicalize w ↔ v.Reorders w := by
  unfold canonicalize
  rw [encode_eq hv, encode_eq hw, Except.ok.injEq, stringify_ordered_inj hv hw,
    ordered_eq_iff hv hw]

theorem plain_implies_finite : plain.Implies finite where
  number _ h := h.1
  infinity h := h
  string _ h := h
  keys _ h := h

/-- Reading the canonical text gives back the value. -/
theorem parse_canonicalize {v : Json} (hv : v.Finite) :
    ∃ s w, canonicalize v = .ok s ∧ JSON.parse s = some w ∧ w.Reorders v := by
  refine ⟨_, _, encode_eq hv, parse_stringify hv.ordered, ?_⟩
  rw [← ordered_eq_iff (hv.ordered.enumerated.mono plain_implies_finite) hv,
    ordered_enumerated hv.ordered, ordered_ordered]

/-! ### What `JSON.parse` produces -/

/-- Doubles, the infinities that literals overflow to, and objects with distinct keys. -/
def parsed : Condition where
  number x := x.round = some x
  infinity := True
  string _ := True
  keys ks := ks.Nodup

theorem ofLiteral_parsed (x : JsonText.Literal) : (ofLiteral x).Meets parsed := by
  unfold ofLiteral
  cases h : (decimalOf x).round with
  | none => trivial
  | some d => exact round_round h

/-- The properties of an object literal: one for each key, its value one of those written for it. -/
theorem foldl_setProperty_parsed {es es' : List (JsString × Json)} (hes : MeetsEntries parsed es)
    (hes' : (es'.map Prod.fst).Nodup ∧ MeetsEntries parsed es') :
    ((es.foldl setProperty es').map Prod.fst).Nodup ∧
    MeetsEntries parsed (es.foldl setProperty es') := by
  induction es generalizing es' with
  | nil => exact hes'
  | cons e es ih =>
    obtain ⟨hkeys, hvalues⟩ := hes'
    refine ih hes.2 ⟨Table.UniqueKeys.upsert (fun _ _ => rfl) hkeys, ?_⟩
    rw [meetsEntries_iff] at hvalues ⊢
    intro e' he'
    rcases Table.mem_upsert he' with rfl | hold | ⟨-, -, -, rfl⟩
    · exact hes.1
    · exact hvalues e' hold
    · exact hes.1

mutual

theorem ofTree_parsed (t : JsonText.Tree) : (ofTree t).Meets parsed := by
  cases t with
  | null | bool | string => trivial
  | number x => exact ofLiteral_parsed x
  | array ts => exact ofItems_parsed ts
  | object ms =>
    have hempty : (([] : List (JsString × Json)).map Prod.fst).Nodup ∧ MeetsEntries parsed [] :=
      ⟨List.nodup_nil, trivial⟩
    obtain ⟨hkeys, hvalues⟩ := foldl_setProperty_parsed (ofMembers_parsed ms) hempty
    have hperm := enumerate_perm ((ofMembers ms).foldl setProperty [])
    refine ⟨((hperm.map Prod.fst).nodup_iff).2 hkeys, ?_⟩
    rw [meetsEntries_iff] at hvalues ⊢
    exact fun e he => hvalues e (hperm.mem_iff.1 he)

theorem ofItems_parsed (ts : List JsonText.Tree) : MeetsItems parsed (ofItems ts) := by
  cases ts with
  | nil => trivial
  | cons t ts => exact ⟨ofTree_parsed t, ofItems_parsed ts⟩

theorem ofMembers_parsed (ms : List (List JsonText.Glyph × JsonText.Tree)) :
    MeetsEntries parsed (ofMembers ms) := by
  cases ms with
  | nil => trivial
  | cons m ms => exact ⟨ofTree_parsed m.2, ofMembers_parsed ms⟩

end

theorem parsed_of_parse {s : JsString} {v : Json} (h : JSON.parse s = some v) : v.Meets parsed := by
  obtain ⟨t, -, rfl⟩ := Option.map_eq_some_iff.1 h
  exact ofTree_parsed t

mutual

/-- A value that can be written has no infinity. -/
theorem finite_of_encode {v : Json} (hv : v.Meets parsed) {s : JsString} (h : encode v = .ok s) :
    v.Finite := by
  cases v with
  | null | bool | string => trivial
  | number x => exact hv
  | infinity => exact absurd h nofun
  | array items =>
    unfold encode at h
    cases hitems : encodeItems items with
    | error e => exact absurd (hitems ▸ h) nofun
    | ok ss => exact finite_of_encodeItems hv hitems
  | object es =>
    unfold encode at h
    cases hes : encodeEntries es with
    | error e => exact absurd (hes ▸ h) nofun
    | ok ps => exact ⟨hv.1, finite_of_encodeEntries hv.2 hes⟩

theorem finite_of_encodeItems {vs : List Json} (hvs : MeetsItems parsed vs) {ss : List JsString}
    (h : encodeItems vs = .ok ss) : MeetsItems finite vs := by
  cases vs with
  | nil => trivial
  | cons v vs =>
    unfold encodeItems at h
    cases hv : encode v with
    | error e => exact absurd (hv ▸ h) nofun
    | ok s =>
      cases hrest : encodeItems vs with
      | error e => exact absurd (hv ▸ hrest ▸ h) nofun
      | ok ss' => exact ⟨finite_of_encode hvs.1 hv, finite_of_encodeItems hvs.2 hrest⟩

theorem finite_of_encodeEntries {es : List (JsString × Json)} (hes : MeetsEntries parsed es)
    {ps : List (JsString × JsString)} (h : encodeEntries es = .ok ps) : MeetsEntries finite es := by
  cases es with
  | nil => trivial
  | cons e es =>
    unfold encodeEntries at h
    cases hv : encode e.2 with
    | error e => exact absurd (hv ▸ h) nofun
    | ok s =>
      cases hrest : encodeEntries es with
      | error e => exact absurd (hv ▸ hrest ▸ h) nofun
      | ok ps' => exact ⟨finite_of_encode hes.1 hv, finite_of_encodeEntries hes.2 hrest⟩

end

/-- A canonical text is read as a value that it is the canonical text of. -/
theorem canonicalize_parse {v : Json} (hv : v.Finite) {s : JsString} (h : canonicalize v = .ok s) :
    ∃ w, JSON.parse s = some w ∧ canonicalize w = .ok s := by
  obtain rfl : JSON.stringify v.ordered = s := Except.ok.inj ((encode_eq hv).symm.trans h)
  have hordered : encode v.ordered = .ok (JSON.stringify v.ordered) := by
    rw [encode_eq (hv.ordered.mono plain_implies_finite), ordered_ordered]
  exact ⟨_, parse_stringify hv.ordered, encode_enumerated hv.ordered hordered⟩

end IntentGuard.Infra
