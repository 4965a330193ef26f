import IntentGuard.Js.BigInt
import IntentGuard.Trace.NormalForm

/-!
# The canonical manifest

`canonical/manifest.ts`: a manifest with its addresses in the letter case of their checksum and its
integers as `bigint`s, its canonical text, and the digest of the text. `encodeValue` is `encode` of
`canonical/json.ts` on a value that a program builds, with `bigint`s and `undefined`.

`intentHash_binds`: two manifests have the same digest exactly when all their fields are the same,
reading the text gives back the fields, and a field spelled in another way never changes the digest.
-/

namespace IntentGuard.Infra

open Js SortedEntries Trace

/-! ### Encoding -/

mutual

/-- The entries are sorted before an error among them is thrown. -/
def encodeValue : JsValue → Except String JsString
  | .undefined => throw "canonicalize: unsupported value type undefined"
  | .null => pure (text "null")
  | .bool b => pure (text (if b then "true" else "false"))
  | .bigint n => pure (quote (intToString n))
  | .number x => pure x.1.toString
  | .nan | .infinity _ => throw "canonicalize: non-finite number not allowed"
  | .string s => pure (quote s)
  | .array vs => do
    let items ← encodeValueItems vs
    pure (91 :: (joinComma items ++ [93]))
  | .object es => do
    let entries ← collect (sortByKey le (encodeValueEntries es))
    pure (123 :: (joinComma (entries.map fun e => quote e.1 ++ 58 :: e.2) ++ [125]))

def encodeValueItems : List JsValue → Except String (List JsString)
  | [] => pure []
  | v :: vs => do
    let s ← if v.isNullish then pure (text "null") else encodeValue v
    let ss ← encodeValueItems vs
    pure (s :: ss)

/-- What each property is written as; one that is `undefined` is dropped. -/
def encodeValueEntries : List (JsString × JsValue) → List (JsString × Except String JsString)
  | [] => []
  | (k, v) :: es =>
    match v with
    | .undefined => encodeValueEntries es
    | v => (k, encodeValue v) :: encodeValueEntries es

end

/-! ### The manifest -/

/-- `getAddress` of `viem`: it takes `0x` and forty hexadecimal digits in any letter case, and
answers with the address in the letter case of its checksum. -/
structure AddressChecksum where
  getAddress : JsString → Option JsString
  spells : ∀ {s c}, getAddress s = some c → hexLiteral 40 c = hexLiteral 40 s
  blind : ∀ {s s'}, hexLiteral 40 s = hexLiteral 40 s' → getAddress s = getAddress s'

/-- `allowedCounterparties` is `none` where it is not an array. -/
structure ManifestInput where
  owner : JsString
  token : JsString
  maxSpendPerTx : JsValue
  maxSpendPerDay : JsValue
  allowedCounterparties : Option (List JsString)
  expiry : JsValue
  nonce : JsValue
  metadata : JsValue
  distinctKeys : metadata.DistinctKeys

structure CanonicalManifest where
  schemaVersion : JsString
  owner : JsString
  token : JsString
  maxSpendPerTx : ℕ
  maxSpendPerDay : ℕ
  allowedCounterparties : List JsString
  expiry : ℕ
  nonce : ℕ
  metadata : JsValue

structure CanonicalManifestResult where
  manifest : CanonicalManifest
  json : JsString
  intentHash : JsString

inductive ManifestError
  /-- `viem`'s error. -/
  | invalidAddress (address : JsString)
  | error (message : JsString)
  deriving DecidableEq

def MAX_ALLOWED_COUNTERPARTIES : ℕ := 8

def toUint (value : JsValue) (label : String) : Except ManifestError ℕ :=
  let failure (message : String) : ManifestError := .error (text label ++ text ": " ++ text message)
  match value with
  | .bigint n => if n < 0 then throw (failure "negative") else pure n.toNat
  | .number x =>
    if isInteger x.1 = false ∨ (x.1.negative = true ∧ x.1.digits ≠ 0) then
      throw (failure "not a non-negative integer")
    else pure (numberToBigInt x.1)
  | .nan | .infinity _ => throw (failure "not a non-negative integer")
  | .string s =>
    if isDecimalString (trim s) = false then throw (failure "not a base-10 integer string")
    else
      match stringToBigInt (trim s) with
      | some n => pure n.toNat
      | none =>
        throw (.error (text label ++ text ": Cannot convert " ++ trim s ++ text " to a BigInt"))
  | .undefined => throw (failure "unsupported type undefined")
  | .bool _ => throw (failure "unsupported type boolean")
  | .null | .array _ | .object _ => throw (failure "unsupported type object")

variable (A : AddressChecksum) (K : Keccak)

/-- The addresses of the counterparties from the `index`-th on. -/
def toCounterparties : ℕ → List JsString → Except ManifestError (List JsString)
  | _, [] => pure []
  | index, a :: rest => do
    let address ← orThrow
      (.error (text "allowedCounterparties[" ++ natToString index ++
        text "] is not a valid EVM address"))
      (A.getAddress a)
    let addresses ← toCounterparties (index + 1) rest
    pure (address :: addresses)

def CanonicalManifest.canonicalValue (manifest : CanonicalManifest) : JsValue :=
  record
    [("schemaVersion", .string manifest.schemaVersion), ("owner", .string manifest.owner),
      ("token", .string manifest.token), ("maxSpendPerTx", .bigint manifest.maxSpendPerTx),
      ("maxSpendPerDay", .bigint manifest.maxSpendPerDay),
      ("allowedCounterparties", .array (manifest.allowedCounterparties.map .string)),
      ("expiry", .bigint manifest.expiry), ("nonce", .bigint manifest.nonce),
        ("metadata", manifest.metadata)]

def buildCanonicalManifest (input : ManifestInput) : Except ManifestError CanonicalManifestResult :=
  do
  let owner ← orThrow (.invalidAddress input.owner) (A.getAddress input.owner)
  let token ← orThrow (.invalidAddress input.token) (A.getAddress input.token)
  let counterparties ← orThrow (.error (text "allowedCounterparties must be an array"))
    input.allowedCounterparties
  throwIf (counterparties.length = 0)
    (.error (text "allowedCounterparties must contain at least one address"))
  throwIf (MAX_ALLOWED_COUNTERPARTIES < counterparties.length)
    (.error (text "allowedCounterparties length " ++ natToString counterparties.length ++
      text " exceeds cap of " ++
      natToString MAX_ALLOWED_COUNTERPARTIES))
  let allowedCounterparties ← toCounterparties A 0 counterparties
  let maxSpendPerTx ← toUint input.maxSpendPerTx "maxSpendPerTx"
  let maxSpendPerDay ← toUint input.maxSpendPerDay "maxSpendPerDay"
  let expiry ← toUint input.expiry "expiry"
  let nonce ← toUint input.nonce "nonce"
  let manifest : CanonicalManifest :=
    { schemaVersion := text "1.0.0"
      owner
      token
      maxSpendPerTx
      maxSpendPerDay
      allowedCounterparties
      expiry
      nonce
      metadata := if input.metadata.isNullish then .null else input.metadata }
  throwIf (manifest.maxSpendPerTx = 0) (.error (text "maxSpendPerTx must be > 0"))
  throwIf (manifest.maxSpendPerDay = 0) (.error (text "maxSpendPerDay must be > 0"))
  throwIf (manifest.expiry = 0) (.error (text "expiry must be > 0"))
  let canonical ← (encodeValue manifest.canonicalValue).mapError fun message =>
    .error (text message)
  pure
    { manifest
      json := ofCodePoints (codePoints canonical)
      intentHash := toHex 64 (K.bytes (Js.encode canonical)) }

/-! ### Integers -/

/-- The value is a way to spell the integer: a `bigint`, a number, or decimal digits after any zeros
and between any blanks. -/
inductive Spells : JsValue → ℕ → Prop
  | bigint (n : ℕ) : Spells (.bigint n) n
  | number {x : Double} (hinteger : isInteger x.1 = true)
      (hsign : x.1.negative = false ∨ x.1.digits = 0) :
    Spells (.number x) (numberToBigInt x.1)
  | string {before after : JsString} (hbefore : ∀ u ∈ before, isBlank u = true)
      (hafter : ∀ u ∈ after, isBlank u = true)
    (zeros n : ℕ) : Spells (.string (before ++ (List.replicate zeros 48 ++ natToString n) ++ after))
      n

theorem natToString_ne_nil (n : ℕ) : natToString n ≠ [] := by
  intro h
  exact digitCodes_ne_nil (congrArg (List.map UInt16.toNat) h)

theorem natToString_inj {n m : ℕ} : natToString n = natToString m ↔ n = m := by
  constructor
  · intro h
    rw [← ofDigits_digitCodes n, ← ofDigits_digitCodes m, digitCodes, digitCodes, h]
  · exact congrArg natToString

theorem intToString_natCast (n : ℕ) : intToString n = natToString n := by
  unfold intToString
  rw [if_neg (Int.not_lt.2 (Int.natCast_nonneg n)), Int.natAbs_natCast]

theorem toUint_of_spells {value : JsValue} {n : ℕ} (h : Spells value n) (label : String) :
    toUint value label = .ok n := by
  cases h with
  | bigint =>
    unfold toUint
    dsimp only
    rw [if_neg (Int.not_lt.2 (Int.natCast_nonneg n))]
    rfl
  | number hinteger hsign =>
    unfold toUint
    dsimp only
    rw [if_neg]
    · rfl
    · rintro (hfraction | ⟨hnegative, hdigits⟩)
      · exact absurd (hfraction.symm.trans hinteger) Bool.false_ne_true
      · rcases hsign with hsign | hzero
        · exact absurd (hsign.symm.trans hnegative) Bool.false_ne_true
        · exact hdigits hzero
  | @string before after hbefore hafter zeros n =>
    have hdigits : ∀ u ∈ List.replicate zeros 48 ++ natToString n, 48 ≤ u.toNat ∧ u.toNat ≤ 57 := by
      intro u hu
      rcases List.mem_append.1 hu with hu | hu
      · obtain ⟨-, rfl⟩ := List.mem_replicate.1 hu
        decide
      · exact mem_natToString hu
    have hne : List.replicate zeros 48 ++ natToString n ≠ [] :=
      fun h => natToString_ne_nil n (List.append_eq_nil_iff.1 h).2
    have hcodes :
        ofDigits ((List.replicate zeros (48 : UInt16) ++ natToString n).map UInt16.toNat) = n := by
      rw [List.map_append, List.map_replicate]
      exact (ofDigits_zeros_append zeros _).trans (ofDigits_digitCodes n)
    have hdecimal : isDecimalString (List.replicate zeros 48 ++ natToString n) = true := by
      unfold isDecimalString
      rw [Bool.and_eq_true, decide_eq_true_eq]
      refine ⟨hne, List.all_eq_true.2 ?_⟩
      intro u hu
      rw [Bool.and_eq_true, decide_eq_true_eq, decide_eq_true_eq]
      exact hdigits u hu
    unfold toUint
    dsimp only
    rw [trim_blanks hbefore (not_blank_of_digits hdigits) hafter hne, hdecimal,
      stringToBigInt_digits hdigits hne, hcodes]
    rfl

theorem spells_of_toUint {value : JsValue} {label : String} {n : ℕ}
    (h : toUint value label = .ok n) : Spells value n := by
  unfold toUint at h
  cases value with
  | bigint k =>
    dsimp only at h
    split_ifs at h with hnegative
    obtain rfl := Except.ok.inj h
    have hspells : Spells (.bigint (k.toNat : ℤ)) k.toNat := .bigint k.toNat
    rwa [Int.toNat_of_nonneg (Int.not_lt.1 hnegative)] at hspells
  | number x =>
    dsimp only at h
    split_ifs at h with hrefused
    obtain rfl := Except.ok.inj h
    rw [not_or, Bool.not_eq_false, not_and_or, Bool.not_eq_true, not_not] at hrefused
    exact .number hrefused.1 hrefused.2
  | string s =>
    dsimp only at h
    split_ifs at h with hdecimal
    rw [Bool.not_eq_false, isDecimalString, Bool.and_eq_true, decide_eq_true_eq] at hdecimal
    obtain ⟨hne, hall⟩ := hdecimal
    have hdigits : ∀ u ∈ trim s, 48 ≤ u.toNat ∧ u.toNat ≤ 57 := by
      intro u hu
      simpa using List.all_eq_true.1 hall u hu
    obtain ⟨before, after, hs, hbefore, hafter⟩ := exists_trim s
    obtain ⟨zeros, htrim⟩ := exists_zeros_append hdigits hne
    rw [stringToBigInt_digits hdigits hne] at h
    obtain rfl := Except.ok.inj h
    have hspells := Spells.string hbefore hafter zeros (ofDigits ((trim s).map UInt16.toNat))
    rwa [← htrim, ← hs] at hspells
  | undefined | null | bool | nan | infinity | array | object =>
    exact absurd h (by simp [throw, throwThe, MonadExceptOf.throw])

theorem toUint_eq_ok_iff {value : JsValue} {label : String} {n : ℕ} :
    toUint value label = .ok n ↔ Spells value n :=
  ⟨spells_of_toUint, fun h => toUint_of_spells h label⟩

/-! ### The text of a manifest -/

theorem encodeValue_object {es : List (JsString × JsValue)} {entries : List (JsString × Json)}
    {ps : List (JsString × JsString)} (h : encodeValueEntries es = ps.map fun p => (p.1, .ok p.2))
    (h' : entries.map (fun e => (e.1, encode e.2)) = ps.map fun p => (p.1, .ok p.2)) :
    encodeValue (.object es) = encode (.object entries) := by
  rw [encode_object h']
  unfold encodeValue
  rw [h, sortByKey_map, collect_map_ok]
  simp only [bind, Except.bind, List.map_id']
  rfl

theorem isNullish_of_json? {v : JsValue} {j : Json} (h : v.json? = some j)
    (hnullish : v.isNullish = true) :
    j = .null := by
  cases v with
  | null => exact (Option.some.inj h).symm
  | undefined => exact absurd h (by simp [JsValue.json?])
  | _ => exact absurd hnullish Bool.false_ne_true

mutual

/-- A JSON value is encoded as one that `JSON.parse` has produced. -/
theorem encodeValue_of_json? {v : JsValue} {j : Json} (h : v.json? = some j) (hj : j.Finite) :
    encodeValue v = encode j := by
  cases v with
  | undefined | nan | infinity | bigint => exact absurd h (by simp [JsValue.json?])
  | null | bool | string | number =>
    obtain rfl := Option.some.inj h
    rfl
  | array vs =>
    obtain ⟨items, hitems, h⟩ := Option.bind_eq_some_iff.1 h
    obtain rfl := Option.some.inj h
    unfold encodeValue encode
    rw [encodeValueItems_of_json? hitems hj]
  | object es =>
    obtain ⟨entries, hentries, h⟩ := Option.bind_eq_some_iff.1 h
    obtain rfl := Option.some.inj h
    refine encodeValue_object ?_ (encodeEntries_eq hj.2)
    rw [encodeValueEntries_of_json? hentries hj.2, encodeEntries_eq hj.2]

theorem encodeValueItems_of_json? {vs : List JsValue} {items : List Json}
    (h : jsonItems? vs = some items) (hitems : MeetsItems finite items) :
    encodeValueItems vs = encodeItems items := by
  cases vs with
  | nil =>
    obtain rfl := Option.some.inj h
    rfl
  | cons v vs =>
    obtain ⟨item, hitem, h⟩ := Option.bind_eq_some_iff.1 h
    obtain ⟨items, hrest, h⟩ := Option.bind_eq_some_iff.1 h
    obtain rfl := Option.some.inj h
    unfold encodeValueItems encodeItems
    rw [encodeValueItems_of_json? hrest hitems.2]
    split_ifs with hnullish
    · rw [isNullish_of_json? hitem hnullish]
      rfl
    · rw [encodeValue_of_json? hitem hitems.1]

theorem encodeValueEntries_of_json? {es : List (JsString × JsValue)}
    {entries : List (JsString × Json)} (h : jsonEntries? es = some entries)
    (hentries : MeetsEntries finite entries) :
    encodeValueEntries es = entries.map fun e => (e.1, encode e.2) := by
  cases es with
  | nil =>
    obtain rfl := Option.some.inj h
    rfl
  | cons e es =>
    obtain ⟨k, v⟩ := e
    obtain ⟨value, hvalue, h⟩ := Option.bind_eq_some_iff.1 h
    obtain ⟨entries, hrest, h⟩ := Option.bind_eq_some_iff.1 h
    obtain rfl := Option.some.inj h
    rw [List.map_cons, ← encodeValueEntries_of_json? hrest hentries.2,
      ← encodeValue_of_json? hvalue hentries.1]
    cases v with
    | undefined => exact absurd hvalue (by simp [JsValue.json?])
    | _ => rfl

end

/-- The fields of a manifest whose metadata is `m`; integers are strings. -/
def CanonicalManifest.toJson (manifest : CanonicalManifest) (m : Json) : Json :=
  .object
    [(text "schemaVersion", .string manifest.schemaVersion), (text "owner", .string manifest.owner),
      (text "token", .string manifest.token),
      (text "maxSpendPerTx", .string (natToString manifest.maxSpendPerTx)),
      (text "maxSpendPerDay", .string (natToString manifest.maxSpendPerDay)),
      (text "allowedCounterparties", .array (manifest.allowedCounterparties.map .string)),
      (text "expiry", .string (natToString manifest.expiry)),
      (text "nonce", .string (natToString manifest.nonce)),
      (text "metadata", m)]

def manifestKeys : List JsString :=
  [text "schemaVersion", text "owner", text "token", text "maxSpendPerTx", text "maxSpendPerDay",
    text "allowedCounterparties", text "expiry", text "nonce", text "metadata"]

theorem manifestKeys_nodup : manifestKeys.Nodup := by decide

theorem meetsItems_strings (ss : List JsString) : MeetsItems finite (ss.map .string) := by
  induction ss with
  | nil => trivial
  | cons s ss ih => exact ⟨trivial, ih⟩

theorem jsonItems?_strings (ss : List JsString) :
    jsonItems? (ss.map .string) = some (ss.map .string) := by
  induction ss with
  | nil => rfl
  | cons s ss ih =>
    rw [List.map_cons, List.map_cons, jsonItems?, ih]
    rfl

theorem CanonicalManifest.toJson_finite (manifest : CanonicalManifest) {m : Json} (hm : m.Finite) :
    (manifest.toJson m).Finite :=
  ⟨manifestKeys_nodup, trivial, trivial, trivial, trivial, trivial, meetsItems_strings _, trivial,
    trivial, hm, trivial⟩

/-- Entries that are encoded one like the other. -/
theorem encodeValueEntries_eq {es : List (JsString × JsValue)} {entries : List (JsString × Json)}
    (h : List.Forall₂ (fun e e' => e.1 = e'.1 ∧ e.2 ≠ .undefined ∧ encodeValue e.2 = encode e'.2) es
      entries) :
    encodeValueEntries es = entries.map fun e => (e.1, encode e.2) := by
  induction h with
  | nil => rfl
  | @cons e e' es entries he hes ih =>
    obtain ⟨k, v⟩ := e
    obtain ⟨hkey, hne, hvalue⟩ := he
    rw [List.map_cons, ← ih, ← hkey, ← hvalue]
    cases v with
    | undefined => exact absurd rfl hne
    | _ => rfl

/-- The text of a manifest whose metadata is written as `m`. -/
theorem encodeValue_canonicalValue_eq (manifest : CanonicalManifest)
    (hne : manifest.metadata ≠ .undefined) {m : Json}
    (hm : encodeValue manifest.metadata = encode m) (hfinite : m.Finite) :
    encodeValue manifest.canonicalValue = .ok (JSON.stringify (manifest.toJson m).ordered) := by
  have hinteger : ∀ n : ℕ, encodeValue (.bigint n) = encode (.string (natToString n)) := by
    intro n
    unfold encodeValue encode
    rw [intToString_natCast]
  have hcounterparties : encodeValue (.array (manifest.allowedCounterparties.map .string)) =
      encode (.array (manifest.allowedCounterparties.map .string)) := by
    refine encodeValue_of_json? ?_ (meetsItems_strings _)
    rw [JsValue.json?, jsonItems?_strings]
    rfl
  have htext := manifest.toJson_finite hfinite
  rw [← encode_eq htext]
  refine encodeValue_object ?_ (encodeEntries_eq htext.2)
  rw [← encodeEntries_eq htext.2]
  refine encodeValueEntries_eq
    (.cons ⟨rfl, nofun, rfl⟩ (.cons ⟨rfl, nofun, rfl⟩ (.cons ⟨rfl, nofun, rfl⟩ ?_)))
  refine .cons ⟨rfl, nofun, hinteger _⟩
    (.cons ⟨rfl, nofun, hinteger _⟩ (.cons ⟨rfl, nofun, hcounterparties⟩ ?_))
  exact .cons ⟨rfl, nofun, hinteger _⟩ (.cons ⟨rfl, nofun, hinteger _⟩ (.cons ⟨rfl, hne, hm⟩ .nil))

/-! ### What a value is written as -/

/-- The properties of an object that could be written could be written. -/
theorem ok_of_encodeValue_object {es : List (JsString × JsValue)} {s : JsString}
    (h : encodeValue (.object es) = .ok s) :
    ∀ e ∈ encodeValueEntries es, ∃ t, e.2 = .ok t := by
  unfold encodeValue at h
  cases hcollect : collect (sortByKey le (encodeValueEntries es)) with
  | error e => exact absurd (hcollect ▸ h) (by simp [bind, Except.bind])
  | ok ps => exact ok_of_collect_sortByKey hcollect

theorem mem_encodeValueEntries {es : List (JsString × JsValue)}
    {e : JsString × JsValue} (he : e ∈ es) (hne : e.2 ≠ .undefined) :
    (e.1, encodeValue e.2) ∈ encodeValueEntries es := by
  induction es with
  | nil => exact absurd he List.not_mem_nil
  | cons e' es ih =>
    obtain ⟨k, v⟩ := e'
    rw [List.mem_cons] at he
    rcases he with rfl | hes
    · cases v with
      | undefined => exact absurd rfl hne
      | _ => exact List.mem_cons_self
    · cases v with
      | undefined => exact ih hes
      | _ => exact List.mem_cons_of_mem _ (ih hes)

/-- Entries that could all be written, and JSON values for what each is written as. -/
theorem exists_entries {es : List (JsString × JsValue)} {ps : List (JsString × JsString)}
    (hes : encodeValueEntries es = ps.map fun p => (p.1, .ok p.2))
    (hvalues : ∀ e ∈ es, ∀ s, encodeValue e.2 = .ok s → ∃ j : Json, j.Finite ∧ encode j = .ok s) :
    ∃ entries : List (JsString × Json), MeetsEntries finite entries ∧
      entries.map (fun e => (e.1, encode e.2)) = ps.map (fun p => (p.1, .ok p.2)) ∧
        (entries.map Prod.fst).Sublist (es.map Prod.fst) := by
  induction es generalizing ps with
  | nil =>
    rw [encodeValueEntries, eq_comm, List.map_eq_nil_iff] at hes
    subst hes
    exact ⟨[], trivial, rfl, List.Sublist.refl _⟩
  | cons e es ih =>
    obtain ⟨k, v⟩ := e
    rw [List.forall_mem_cons] at hvalues
    have hcons : encodeValueEntries es = ps.map (fun p => (p.1, .ok p.2)) ∨
        (k, encodeValue v) :: encodeValueEntries es = ps.map fun p => (p.1, .ok p.2) := by
      cases v with
      | undefined => exact .inl hes
      | _ => exact .inr hes
    rcases hcons with hrest | hcons
    · obtain ⟨entries, hfinite, hentries, hkeys⟩ := ih hrest hvalues.2
      exact ⟨entries, hfinite, hentries, hkeys.trans (List.sublist_cons_self _ _)⟩
    · cases ps with
      | nil => exact absurd hcons (List.cons_ne_nil _ _)
      | cons p ps =>
        obtain ⟨hhead, hrest⟩ := List.cons.inj hcons
        obtain ⟨rfl, hvalue⟩ := Prod.mk.inj hhead
        obtain ⟨entries, hfinite, hentries, hkeys⟩ := ih hrest hvalues.2
        obtain ⟨j, hj, hencode⟩ := hvalues.1 _ hvalue
        refine ⟨(p.1, j) :: entries, ⟨hj, hfinite⟩, ?_, hkeys.cons_cons _⟩
        rw [List.map_cons, List.map_cons, hencode, hentries]

mutual

/-- A value that can be written is written as a JSON value is: as one with strings for the `bigint`s
and without the properties that are `undefined`. -/
theorem exists_json_of_encodeValue {v : JsValue} (hv : v.DistinctKeys) {s : JsString}
    (h : encodeValue v = .ok s) :
    ∃ j : Json, j.Finite ∧ encode j = .ok s := by
  cases v with
  | undefined | nan | infinity =>
    exact absurd h (by simp [encodeValue, throw, throwThe, MonadExceptOf.throw])
  | null => exact ⟨.null, trivial, h⟩
  | bool b => exact ⟨.bool b, trivial, h⟩
  | bigint n => exact ⟨.string (intToString n), trivial, h⟩
  | number x => exact ⟨.number x.1, x.2, h⟩
  | string t => exact ⟨.string t, trivial, h⟩
  | array vs =>
    unfold encodeValue at h
    cases hitems : encodeValueItems vs with
    | error e => exact absurd (hitems ▸ h) (by simp [bind, Except.bind])
    | ok ss =>
      obtain ⟨items, hfinite, hencode⟩ := exists_json_of_encodeValueItems hv hitems
      refine ⟨.array items, hfinite, ?_⟩
      unfold encode
      rw [hencode, ← h, hitems]
  | object es =>
    have hes : ∀ e ∈ es, ∀ s, encodeValue e.2 = .ok s → ∃ j : Json, j.Finite ∧ encode j = .ok s :=
      exists_json_of_encodeValueEntries hv.2
    obtain ⟨ps, hps⟩ := exists_map_ok (ok_of_encodeValue_object h)
    obtain ⟨entries, hfinite, hentries, hkeys⟩ := exists_entries hps hes
    exact ⟨.object entries, ⟨hv.1.sublist hkeys, hfinite⟩,
      (encodeValue_object hps hentries).symm.trans h⟩

theorem exists_json_of_encodeValueItems {vs : List JsValue}
    (hvs : JsValue.MeetsItems JsValue.distinct vs) {ss : List JsString}
    (h : encodeValueItems vs = .ok ss) :
    ∃ items : List Json, MeetsItems finite items ∧ encodeItems items = .ok ss := by
  cases vs with
  | nil => exact ⟨[], trivial, h⟩
  | cons v vs =>
    obtain ⟨s, hs, ss', hss, h⟩ : ∃ s,
      (if v.isNullish then pure (text "null") else encodeValue v) = .ok s ∧
        ∃ ss', encodeValueItems vs = .ok ss' ∧ pure (s :: ss') = Except.ok (ε := String) ss := by
      unfold encodeValueItems at h
      split_ifs at h ⊢ with hnullish
      · exact ⟨_, rfl, bind_eq_ok.1 h⟩
      · obtain ⟨s, hs, h⟩ := bind_eq_ok.1 h
        exact ⟨s, hs, bind_eq_ok.1 h⟩
    obtain rfl := Except.ok.inj h
    obtain ⟨items, hitems, hencode⟩ := exists_json_of_encodeValueItems hvs.2 hss
    obtain ⟨j, hj, hencodej⟩ : ∃ j : Json, j.Finite ∧ encode j = .ok s := by
      split_ifs at hs
      · exact ⟨.null, trivial, hs⟩
      · exact exists_json_of_encodeValue hvs.1 hs
    refine ⟨j :: items, ⟨hj, hitems⟩, ?_⟩
    unfold encodeItems
    rw [hencodej, hencode]
    rfl

theorem exists_json_of_encodeValueEntries {es : List (JsString × JsValue)}
    (hes : JsValue.MeetsEntries JsValue.distinct es) :
    ∀ e ∈ es, ∀ s, encodeValue e.2 = .ok s → ∃ j : Json, j.Finite ∧ encode j = .ok s := by
  cases es with
  | nil => exact fun e he => absurd he List.not_mem_nil
  | cons e es =>
    rw [List.forall_mem_cons]
    exact ⟨fun s hs => exists_json_of_encodeValue hes.1 hs, exists_json_of_encodeValueEntries hes.2⟩

end

/-! ### The manifest of an input -/

/-- What the manifest of an accepted input is. -/
structure Canonicalizes (A : AddressChecksum) (input : ManifestInput)
    (manifest : CanonicalManifest) : Prop where
  schemaVersion : manifest.schemaVersion = text "1.0.0"
  owner : A.getAddress input.owner = some manifest.owner
  token : A.getAddress input.token = some manifest.token
  allowedCounterparties : ∃ counterparties, input.allowedCounterparties = some counterparties ∧
    counterparties.length ≠ 0 ∧ counterparties.length ≤ MAX_ALLOWED_COUNTERPARTIES ∧
      counterparties.map A.getAddress = manifest.allowedCounterparties.map some
  maxSpendPerTx : toUint input.maxSpendPerTx "maxSpendPerTx" = .ok manifest.maxSpendPerTx
  maxSpendPerDay : toUint input.maxSpendPerDay "maxSpendPerDay" = .ok manifest.maxSpendPerDay
  expiry : toUint input.expiry "expiry" = .ok manifest.expiry
  nonce : toUint input.nonce "nonce" = .ok manifest.nonce
  maxSpendPerTx_ne_zero : manifest.maxSpendPerTx ≠ 0
  maxSpendPerDay_ne_zero : manifest.maxSpendPerDay ≠ 0
  expiry_ne_zero : manifest.expiry ≠ 0
  metadata : manifest.metadata = if input.metadata.isNullish then .null else input.metadata

variable {A K}

theorem toCounterparties_eq_ok {counterparties addresses : List JsString} {index : ℕ} :
    toCounterparties A index counterparties = .ok addresses ↔
      counterparties.map A.getAddress = addresses.map some := by
  induction counterparties generalizing index addresses with
  | nil =>
    show Except.ok [] = Except.ok addresses ↔ [] = addresses.map some
    rw [Except.ok.injEq, eq_comm (a := []), eq_comm (a := []), List.map_eq_nil_iff]
  | cons a rest ih =>
    unfold toCounterparties
    simp only [bind_eq_ok, orThrow_eq_ok, ih]
    rw [List.map_cons]
    constructor
    · rintro ⟨address, haddress, addresses', hrest, heq⟩
      obtain rfl := Except.ok.inj heq
      rw [haddress, hrest, List.map_cons]
    · intro h
      cases addresses with
      | nil => exact absurd h (by simp)
      | cons address addresses =>
        obtain ⟨haddress, hrest⟩ := List.cons.inj h
        exact ⟨address, haddress, addresses, hrest, rfl⟩

theorem buildCanonicalManifest_eq_ok {input : ManifestInput} {r : CanonicalManifestResult} :
    buildCanonicalManifest A K input = .ok r ↔
      Canonicalizes A input r.manifest ∧ ∃ canonical,
        encodeValue r.manifest.canonicalValue = .ok canonical ∧
        r.json = ofCodePoints (codePoints canonical) ∧
        r.intentHash = toHex 64 (K.bytes (Js.encode canonical)) := by
  have hmapError : ∀ {x : Except String JsString} {s : JsString},
      x.mapError (fun message => ManifestError.error (text message)) = .ok s ↔ x = .ok s := by
    intro x s
    cases x <;> simp [Except.mapError]
  unfold buildCanonicalManifest
  simp only [bind_eq_ok, orThrow_eq_ok, throwIf_eq_ok, toCounterparties_eq_ok, hmapError,
    pure, Except.pure]
  constructor
  · rintro ⟨owner, howner, token, htoken, counterparties, hcounterparties, -, hempty, -, hcap,
      addresses, haddresses, maxSpendPerTx, hmaxSpendPerTx, maxSpendPerDay, hmaxSpendPerDay, expiry,
      hexpiry, nonce, hnonce, -, htx, -, hday, -,
      hexpires, canonical, hcanonical, h⟩
    obtain rfl := Except.ok.inj h
    exact ⟨⟨rfl, howner, htoken,
      ⟨counterparties, hcounterparties, hempty, Nat.not_lt.1 hcap, haddresses⟩, hmaxSpendPerTx,
        hmaxSpendPerDay, hexpiry, hnonce, htx, hday, hexpires, rfl⟩, canonical,
          hcanonical, rfl, rfl⟩
  · obtain ⟨⟨schemaVersion, owner, token, maxSpendPerTx, maxSpendPerDay, allowedCounterparties,
      expiry, nonce, metadata⟩,
      json, intentHash⟩ := r
    rintro ⟨h, canonical, hcanonical, hjson, hintentHash⟩
    obtain ⟨counterparties, hcounterparties, hempty, hcap, haddresses⟩ := h.allowedCounterparties
    obtain rfl := h.schemaVersion
    obtain rfl := h.metadata
    obtain rfl := hjson
    obtain rfl := hintentHash
    exact ⟨owner, h.owner, token, h.token, counterparties, hcounterparties, (), hempty, (),
      Nat.not_lt.2 hcap, allowedCounterparties, haddresses, maxSpendPerTx, h.maxSpendPerTx,
      maxSpendPerDay, h.maxSpendPerDay, expiry, h.expiry,
      nonce, h.nonce, (), h.maxSpendPerTx_ne_zero, (), h.maxSpendPerDay_ne_zero, (),
      h.expiry_ne_zero, canonical,
      hcanonical, rfl⟩

/-! ### The digest -/

/-- The manifests name the same addresses, in the same order, and the same integers; their metadata
are the same up to key order. -/
structure SameManifest (M M' : CanonicalManifest) (m m' : Json) : Prop where
  owner : hexLiteral 40 M.owner = hexLiteral 40 M'.owner
  token : hexLiteral 40 M.token = hexLiteral 40 M'.token
  maxSpendPerTx : M.maxSpendPerTx = M'.maxSpendPerTx
  maxSpendPerDay : M.maxSpendPerDay = M'.maxSpendPerDay
  allowedCounterparties : M.allowedCounterparties.map (hexLiteral 40) =
    M'.allowedCounterparties.map (hexLiteral 40)
  expiry : M.expiry = M'.expiry
  nonce : M.nonce = M'.nonce
  metadata : m.Reorders m'

/-- The integer has two spellings. -/
def SpelledAlike (value value' : JsValue) : Prop := ∃ n, Spells value n ∧ Spells value' n

/-- Nothing but the letter case of addresses and the spelling of integers differs. -/
structure Respells (input input' : ManifestInput) : Prop where
  owner : hexLiteral 40 input.owner = hexLiteral 40 input'.owner
  token : hexLiteral 40 input.token = hexLiteral 40 input'.token
  maxSpendPerTx : SpelledAlike input.maxSpendPerTx input'.maxSpendPerTx
  maxSpendPerDay : SpelledAlike input.maxSpendPerDay input'.maxSpendPerDay
  allowedCounterparties : input.allowedCounterparties.map (List.map (hexLiteral 40)) =
    input'.allowedCounterparties.map (List.map (hexLiteral 40))
  expiry : SpelledAlike input.expiry input'.expiry
  nonce : SpelledAlike input.nonce input'.nonce
  metadata : input.metadata = input'.metadata

theorem SpelledAlike.toUint_eq {value value' : JsValue} (h : SpelledAlike value value')
    (label : String) :
    toUint value label = toUint value' label := by
  obtain ⟨n, hvalue, hvalue'⟩ := h
  rw [toUint_of_spells hvalue, toUint_of_spells hvalue']

theorem getAddress_map_eq {ss ts : List JsString}
    (h : ss.map (hexLiteral 40) = ts.map (hexLiteral 40)) :
    ss.map A.getAddress = ts.map A.getAddress := by
  induction ss generalizing ts with
  | nil =>
    rw [List.map_eq_nil_iff.1 h.symm]
  | cons s ss ih =>
    cases ts with
    | nil => exact absurd h (List.cons_ne_nil _ _)
    | cons t ts =>
      obtain ⟨hhead, htail⟩ := List.cons.inj h
      rw [List.map_cons, List.map_cons, A.blind hhead, ih htail]

/-- A respelled input has the same manifest. -/
theorem Canonicalizes.respell {input input' : ManifestInput} {manifest : CanonicalManifest}
    (h : Canonicalizes A input manifest) (hsame : Respells input input') :
    Canonicalizes A input' manifest := by
  obtain ⟨counterparties, hcounterparties, hempty, hcap, haddresses⟩ := h.allowedCounterparties
  obtain ⟨counterparties', hcounterparties', hmap⟩ : ∃ counterparties',
    input'.allowedCounterparties = some counterparties' ∧
      counterparties.map (hexLiteral 40) = counterparties'.map (hexLiteral 40) := by
    have hsome := hsame.allowedCounterparties
    rw [hcounterparties] at hsome
    obtain ⟨counterparties', hcounterparties', hmap⟩ := Option.map_eq_some_iff.1 hsome.symm
    exact ⟨counterparties', hcounterparties', hmap.symm⟩
  have hlength : counterparties.length = counterparties'.length := by
    have hlength := congrArg List.length hmap
    rwa [List.length_map, List.length_map] at hlength
  exact
    { schemaVersion := h.schemaVersion
      owner := A.blind hsame.owner ▸ h.owner
      token := A.blind hsame.token ▸ h.token
      allowedCounterparties := ⟨counterparties', hcounterparties', hlength ▸ hempty, hlength ▸ hcap,
        (getAddress_map_eq hmap).symm.trans haddresses⟩
      maxSpendPerTx := hsame.maxSpendPerTx.toUint_eq _ ▸ h.maxSpendPerTx
      maxSpendPerDay := hsame.maxSpendPerDay.toUint_eq _ ▸ h.maxSpendPerDay
      expiry := hsame.expiry.toUint_eq _ ▸ h.expiry
      nonce := hsame.nonce.toUint_eq _ ▸ h.nonce
      maxSpendPerTx_ne_zero := h.maxSpendPerTx_ne_zero
      maxSpendPerDay_ne_zero := h.maxSpendPerDay_ne_zero
      expiry_ne_zero := h.expiry_ne_zero
      metadata := hsame.metadata ▸ h.metadata }

theorem Canonicalizes.metadata_ne_undefined {input : ManifestInput} {manifest : CanonicalManifest}
    (h : Canonicalizes A input manifest) : manifest.metadata ≠ .undefined := by
  rw [h.metadata]
  split_ifs with hnullish
  · nofun
  · exact fun hundefined => hnullish (hundefined ▸ rfl)

/-! ### What the text determines -/

theorem hexLiteral_map_getAddress {ss cs : List JsString} (h : ss.map A.getAddress = cs.map some) :
    cs.map (hexLiteral 40) = ss.map (hexLiteral 40) := by
  induction ss generalizing cs with
  | nil => rw [List.map_eq_nil_iff.1 h.symm]
  | cons s ss ih =>
    cases cs with
    | nil => exact absurd h (List.cons_ne_nil _ _)
    | cons c cs =>
      obtain ⟨hhead, htail⟩ := List.cons.inj h
      rw [List.map_cons, List.map_cons, A.spells hhead, ih htail]

/-- The checksummed addresses are the same when the addresses are. -/
theorem checksum_map_inj {ss ss' cs cs' : List JsString} (h : ss.map A.getAddress = cs.map some)
    (h' : ss'.map A.getAddress = cs'.map some) : cs.map (hexLiteral 40) = cs'.map (hexLiteral 40) ↔
      cs = cs' := by
  constructor
  · intro heq
    rw [hexLiteral_map_getAddress h, hexLiteral_map_getAddress h'] at heq
    exact List.map_injective_iff.2 (Option.some_injective _)
      (h.symm.trans ((getAddress_map_eq heq).trans h'))
  · exact congrArg _

theorem checksum_inj {s s' c c' : JsString} (h : A.getAddress s = some c)
    (h' : A.getAddress s' = some c') :
    hexLiteral 40 c = hexLiteral 40 c' ↔ c = c' := by
  constructor
  · intro heq
    rw [A.spells h, A.spells h'] at heq
    exact Option.some.inj (h.symm.trans ((A.blind heq).trans h'))
  · exact congrArg _

theorem reorders_toJson_iff {input input' : ManifestInput} {M M' : CanonicalManifest}
    (h : Canonicalizes A input M) (h' : Canonicalizes A input' M') (m m' : Json) :
    (M.toJson m).Reorders (M'.toJson m') ↔ SameManifest M M' m m' := by
  obtain ⟨counterparties, -, -, -, haddresses⟩ := h.allowedCounterparties
  obtain ⟨counterparties', -, -, -, haddresses'⟩ := h'.allowedCounterparties
  unfold CanonicalManifest.toJson
  refine Iff.trans (reorders_object_iff rfl ?_) ?_
  · exact manifestKeys_nodup
  simp only [ReordersEntries, Json.Reorders, reordersItems_strings, true_and, and_true,
    natToString_inj]
  constructor
  · rintro ⟨-, howner, htoken, htx, hday, hcounterparties, hexpiry, hnonce, hm⟩
    exact ⟨congrArg _ howner, congrArg _ htoken, htx, hday, congrArg _ hcounterparties,
      hexpiry, hnonce, hm⟩
  · intro hsame
    exact ⟨h.schemaVersion.trans h'.schemaVersion.symm,
      (checksum_inj h.owner h'.owner).1 hsame.owner, (checksum_inj h.token h'.token).1 hsame.token,
      hsame.maxSpendPerTx, hsame.maxSpendPerDay,
      (checksum_map_inj haddresses haddresses').1 hsame.allowedCounterparties, hsame.expiry,
        hsame.nonce, hsame.metadata⟩

section
variable {input : ManifestInput} {r : CanonicalManifestResult}
  (h : buildCanonicalManifest A K input = .ok r)

include h

theorem metadata_distinctKeys : r.manifest.metadata.DistinctKeys := by
  rw [(buildCanonicalManifest_eq_ok.1 h).1.metadata]
  split_ifs
  · trivial
  · exact input.distinctKeys

theorem json_of_metadata {m : Json} (hm : encodeValue r.manifest.metadata = encode m)
    (hfinite : m.Finite) :
    r.json = JSON.stringify (r.manifest.toJson m).ordered ∧
    r.intentHash = toHex 64 (K.bytes (Js.encode r.json)) := by
  obtain ⟨hcanonicalizes, canonical, hcanonical, hjson, hintentHash⟩ :=
    buildCanonicalManifest_eq_ok.1 h
  rw [encodeValue_canonicalValue_eq _ hcanonicalizes.metadata_ne_undefined hm hfinite] at hcanonical
  obtain rfl := Except.ok.inj hcanonical
  rw [ofCodePoints_codePoints (wellFormed_stringify _)] at hjson
  rw [hjson]
  exact ⟨rfl, hintentHash⟩

/-- The text of the manifest and its digest. -/
theorem json_of_buildCanonicalManifest {m : Json} (hm : r.manifest.metadata.json? = some m) :
    r.json = JSON.stringify (r.manifest.toJson m).ordered ∧
    r.intentHash = toHex 64 (K.bytes (Js.encode r.json)) := by
  have hfinite := finite_of_json? (metadata_distinctKeys h) hm
  exact json_of_metadata h (encodeValue_of_json? hm hfinite) hfinite

/-- The metadata that a manifest is written with. -/
theorem exists_metadata :
    ∃ m : Json, m.Finite ∧ r.json = JSON.stringify (r.manifest.toJson m).ordered ∧
      r.intentHash = toHex 64 (K.bytes (Js.encode r.json)) := by
  obtain ⟨hcanonicalizes, canonical, hcanonical, -⟩ := buildCanonicalManifest_eq_ok.1 h
  have hne := hcanonicalizes.metadata_ne_undefined
  have hentries := ok_of_encodeValue_object hcanonical
  -- the last of the entries
  obtain ⟨s, hs⟩ := hentries (text "metadata", encodeValue r.manifest.metadata)
    (mem_encodeValueEntries (e := (text "metadata", r.manifest.metadata))
      (List.mem_of_getLast? rfl) hne)
  obtain ⟨m, hfinite, hm⟩ := exists_json_of_encodeValue (metadata_distinctKeys h) hs
  exact ⟨m, hfinite, json_of_metadata h (hs.trans hm.symm) hfinite⟩

end

/-- The digest determines the manifest and the manifest the digest, if the hash does not collide on
the two texts; the text is read back as the manifest; and no other spelling of an input changes the
digest. -/
theorem intentHash_binds (A : AddressChecksum) {K : Keccak} (hK : ∀ b, K.bytes b < 2 ^ 256)
    {input input' : ManifestInput} {r r' : CanonicalManifestResult}
    (h : buildCanonicalManifest A K input = .ok r) (h' : buildCanonicalManifest A K input' = .ok r')
    {m m' : Json} (hm : r.manifest.metadata.json? = some m)
    (hm' : r'.manifest.metadata.json? = some m')
    (hcollision : K.bytes (Js.encode r.json) = K.bytes (Js.encode r'.json) →
      Js.encode r.json = Js.encode r'.json) :
    (r.intentHash = r'.intentHash ↔ SameManifest r.manifest r'.manifest m m') ∧
      (∃ v, JSON.parse r.json = some v ∧ v.Reorders (r.manifest.toJson m)) ∧
        ∀ respelled, Respells input respelled →
          ∃ r'', buildCanonicalManifest A K respelled = .ok r'' ∧
            r''.intentHash = r.intentHash := by
  obtain ⟨hjson, hhash⟩ := json_of_buildCanonicalManifest h hm
  obtain ⟨hjson', hhash'⟩ := json_of_buildCanonicalManifest h' hm'
  obtain ⟨hcanonicalizes, canonical, hcanonical, hdecoded, hdigest⟩ :=
    buildCanonicalManifest_eq_ok.1 h
  have hfinite := r.manifest.toJson_finite (finite_of_json? (metadata_distinctKeys h) hm)
  have hfinite' := r'.manifest.toJson_finite (finite_of_json? (metadata_distinctKeys h') hm')
  refine ⟨?_, ?_, ?_⟩
  · have hwell : WellFormed r.json := hjson ▸ wellFormed_stringify _
    have hwell' : WellFormed r'.json := hjson' ▸ wellFormed_stringify _
    calc r.intentHash = r'.intentHash
        ↔ r.json = r'.json := by rw [hhash, hhash', digest_inj hK hwell hwell' hcollision]
      _ ↔ (r.manifest.toJson m).Reorders (r'.manifest.toJson m') := by
        rw [hjson, hjson', stringify_ordered_inj hfinite hfinite', ordered_eq_iff hfinite hfinite']
      _ ↔ SameManifest r.manifest r'.manifest m m' :=
        reorders_toJson_iff hcanonicalizes (buildCanonicalManifest_eq_ok.1 h').1 m m'
  · obtain ⟨s, v, hs, hparse, hreorders⟩ := parse_canonicalize hfinite
    obtain rfl : s = r.json := by
      rw [hjson]
      exact (Except.ok.inj ((encode_eq hfinite).symm.trans hs)).symm
    exact ⟨v, hparse, hreorders⟩
  · intro respelled hrespelled
    exact ⟨r, buildCanonicalManifest_eq_ok.2 ⟨hcanonicalizes.respell hrespelled, canonical,
      hcanonical, hdecoded, hdigest⟩, rfl⟩

end IntentGuard.Infra

namespace IntentGuard.Localnet

open Js Infra Trace

/-- The checksum of an address without a letter. -/
def lowerCase : AddressChecksum where
  getAddress s := (hexLiteral 40 s).map (toHex 40)
  spells := by
    intro s c h
    obtain ⟨a, ha, rfl⟩ := Option.map_eq_some_iff.1 h
    rw [ha, hexLiteral_toHex (hexLiteral_lt ha)]
  blind h := congrArg _ h

def one : JsValue := .number ⟨⟨false, 1, 1⟩, by decide +kernel⟩

def manifestInput (maxSpendPerTx maxSpendPerDay nonce : JsValue) : ManifestInput where
  owner := text "0x1111111111111111111111111111111111111111"
  token := text "0x2222222222222222222222222222222222222222"
  maxSpendPerTx := maxSpendPerTx
  maxSpendPerDay := maxSpendPerDay
  allowedCounterparties :=
    some [text "0x0000000000000000000000000000000000000111",
      text "0x0000000000000000000000000000000000000222"]
  expiry := .bigint 2000000000
  nonce := nonce
  metadata := .object [(text "tags", .array [.string (text "food"), .null]), (text "level", one)]
  distinctKeys := ⟨show List.Nodup [text "tags", text "level"] by decide,
    ⟨trivial, trivial, trivial⟩, trivial, trivial⟩

/-- Blanks and zeros around the digits, and a number. -/
def spelledInput : ManifestInput :=
  manifestInput (.string (text " 010000000\n")) (.string (text "50000000")) one

def bigintInput : ManifestInput :=
  manifestInput (.bigint 10000000) (.bigint 50000000) (.string (text "1"))

theorem bigintInput_respells : Respells spelledInput bigintInput where
  owner := rfl
  token := rfl
  maxSpendPerTx := by
    have hblank : ∀ u ∈ ([32] : JsString), isBlank u = true := List.forall_mem_singleton.2 rfl
    have hline : ∀ u ∈ ([10] : JsString), isBlank u = true := List.forall_mem_singleton.2 rfl
    have htext : [32] ++ (List.replicate 1 48 ++ natToString 10000000) ++
        [10] = text " 010000000\n" := by decide +kernel
    have hspells : Spells (.string (text " 010000000\n")) 10000000 :=
      htext ▸ .string hblank hline 1 10000000
    exact ⟨10000000, hspells, .bigint 10000000⟩
  maxSpendPerDay := by
    have hnone : ∀ u ∈ ([] : JsString), isBlank u = true := List.forall_mem_nil _
    have htext : [] ++ (List.replicate 0 48 ++ natToString 50000000) ++ [] = text "50000000" := by
      decide +kernel
    have hspells : Spells (.string (text "50000000")) 50000000 :=
      htext ▸ .string hnone hnone 0 50000000
    exact ⟨50000000, hspells, .bigint 50000000⟩
  allowedCounterparties := rfl
  expiry := ⟨2000000000, .bigint 2000000000, .bigint 2000000000⟩
  nonce := by
    have hnone : ∀ u ∈ ([] : JsString), isBlank u = true := List.forall_mem_nil _
    have hvalue : numberToBigInt ⟨false, 1, 1⟩ = 1 := by decide +kernel
    have htext : [] ++ (List.replicate 0 48 ++ natToString 1) ++ [] = text "1" := by decide +kernel
    have hnumber : Spells one (numberToBigInt ⟨false, 1, 1⟩) := .number rfl (.inl rfl)
    have hspells : Spells (.string (text "1")) 1 := htext ▸ .string hnone hnone 0 1
    exact ⟨1, hvalue ▸ hnumber, hspells⟩
  metadata := rfl

end IntentGuard.Localnet

namespace IntentGuard.Infra

open Js Trace Localnet

/-- Two spellings of one manifest. -/
theorem intentHash_binds_respelled :
    ∃ r r', buildCanonicalManifest lowerCase keccak256 spelledInput = .ok r ∧
      buildCanonicalManifest lowerCase keccak256 bigintInput = .ok r' ∧
      r.intentHash = r'.intentHash ∧
        ∃ m v, r.manifest.metadata.json? = some m ∧ JSON.parse r.json = some v ∧
          v.Reorders (r.manifest.toJson m) := by
  have hbuilt : (buildCanonicalManifest lowerCase keccak256 spelledInput).isOk ∧
      spelledInput.metadata.json?.isSome := by
    decide +kernel
  obtain ⟨hbuilt, hjson⟩ := hbuilt
  obtain ⟨m, hm⟩ := Option.isSome_iff_exists.1 hjson
  cases h : buildCanonicalManifest lowerCase keccak256 spelledInput with
  | error e =>
    rw [h] at hbuilt
    exact absurd hbuilt Bool.false_ne_true
  | ok r =>
    have hK : ∀ b, keccak256.bytes b < 2 ^ 256 := Keccak256.word_lt
    have hm : r.manifest.metadata.json? = some m :=
      (buildCanonicalManifest_eq_ok.1 h).1.metadata ▸ hm
    obtain ⟨-, ⟨v, hparse, hreorders⟩, hrespelled⟩ :=
      intentHash_binds lowerCase hK h h hm hm fun _ => rfl
    obtain ⟨r', h', hsame⟩ := hrespelled bigintInput bigintInput_respells
    exact ⟨r, r', rfl, h', hsame.symm, m, v, hm, hparse, hreorders⟩

end IntentGuard.Infra
