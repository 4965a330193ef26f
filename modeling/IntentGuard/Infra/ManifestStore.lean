import IntentGuard.Infra.ManifestConfig
import IntentGuard.Infra.Store

/-!
# The manifest store

`insertManifest`, `getManifestByHash` and `rowToManifest` of `store/manifests.ts` under SQLite, with
the columns as they are stored: hexadecimal in lower case, the caps and the nonce as decimal text,
the counterparties as JSON text, and the expiry as the number that it rounds to. `TEXT` gives back
the text and `INTEGER` the number; an expiry that fits `uint64` rounds to a finite number.
`createdAt` is left out.

`manifest_returned_iff`: after any inserts, a manifest is read back with its own fields exactly when
its expiry is a double.
-/

namespace IntentGuard.Infra.ManifestStore

open Js Trace

structure InsertManifestInput where
  intentHash : JsString
  manifestUri : JsString
  manifestJson : JsString
  owner : JsString
  token : JsString
  maxSpendPerTx : ℕ
  maxSpendPerDay : ℕ
  expiry : ℕ
  nonce : ℕ
  allowedCounterparties : List JsString

/-- The columns of `manifests`. -/
structure Columns where
  intentHash : JsString
  manifestUri : JsString
  manifestJson : JsString
  owner : JsString
  token : JsString
  maxSpendPerTx : JsString
  maxSpendPerDay : JsString
  expiry : ℕ
  nonce : JsString
  allowedCounterpartiesJson : JsString

/-- `allowedCounterparties` is whatever the column spells. -/
structure ManifestRow where
  intentHash : JsString
  manifestUri : JsString
  manifestJson : JsString
  owner : JsString
  token : JsString
  maxSpendPerTx : ℤ
  maxSpendPerDay : ℤ
  expiry : ℤ
  nonce : ℤ
  allowedCounterparties : Json

inductive SyntaxError
  | syntaxError
  deriving DecidableEq

/-- The values of the `INSERT`. -/
def InsertManifestInput.columns (input : InsertManifestInput) : Columns where
  intentHash := toLowerCase input.intentHash
  manifestUri := input.manifestUri
  manifestJson := input.manifestJson
  owner := toLowerCase input.owner
  token := toLowerCase input.token
  maxSpendPerTx := natToString input.maxSpendPerTx
  maxSpendPerDay := natToString input.maxSpendPerDay
  expiry := toNumber input.expiry
  nonce := natToString input.nonce
  allowedCounterpartiesJson :=
  JSON.stringify (.array ((input.allowedCounterparties.map toLowerCase).map .string))

/-- `ON CONFLICT(intent_hash) DO UPDATE SET …`. -/
def InsertManifestInput.update (input : InsertManifestInput) (row : Columns) : Columns :=
  { row with manifestUri := input.manifestUri, manifestJson := input.manifestJson }

def insertManifest (input : InsertManifestInput) (rows : List Columns) : List Columns :=
  Table.upsert Columns.intentHash input.update input.columns rows

def rowToManifest (row : Columns) : Except SyntaxError ManifestRow := do
  let maxSpendPerTx ← orThrow .syntaxError (stringToBigInt row.maxSpendPerTx)
  let maxSpendPerDay ← orThrow .syntaxError (stringToBigInt row.maxSpendPerDay)
  let nonce ← orThrow .syntaxError (stringToBigInt row.nonce)
  let allowedCounterparties ← orThrow .syntaxError (JSON.parse row.allowedCounterpartiesJson)
  pure
    { intentHash := row.intentHash
      manifestUri := row.manifestUri
      manifestJson := row.manifestJson
      owner := row.owner
      token := row.token
      maxSpendPerTx
      maxSpendPerDay
      expiry := row.expiry
      nonce
      allowedCounterparties }

def getManifestByHash (intentHash : JsString) (rows : List Columns) :
    Except SyntaxError (Option ManifestRow) :=
  match Table.find Columns.intentHash (toLowerCase intentHash) rows with
  | some row => some <$> rowToManifest row
  | none => pure none

/-- A built manifest, and where its text was pinned. -/
structure Pinned where
  result : CanonicalManifestResult
  manifestUri : JsString

/-- What the router inserts. -/
def Pinned.input (pinned : Pinned) : InsertManifestInput where
  intentHash := pinned.result.intentHash
  manifestUri := pinned.manifestUri
  manifestJson := pinned.result.json
  owner := pinned.result.manifest.owner
  token := pinned.result.manifest.token
  maxSpendPerTx := pinned.result.manifest.maxSpendPerTx
  maxSpendPerDay := pinned.result.manifest.maxSpendPerDay
  expiry := pinned.result.manifest.expiry
  nonce := pinned.result.manifest.nonce
  allowedCounterparties := pinned.result.manifest.allowedCounterparties

/-- The table after the inserts, from an empty one. -/
def inserted (inserts : List Pinned) : List Columns :=
  inserts.foldl (fun rows pinned => insertManifest pinned.input rows) []

/-! ### Reading a row -/

/-- The columns of a row that no later insert writes. -/
def Columns.kept (row : Columns) : Columns := { row with manifestUri := [], manifestJson := [] }

/-- The row has the fields of the manifest, addresses up to letter case. -/
structure Carries (row : ManifestRow) (manifest : CanonicalManifest) : Prop where
  owner : toLowerCase row.owner = toLowerCase manifest.owner
  token : toLowerCase row.token = toLowerCase manifest.token
  maxSpendPerTx : row.maxSpendPerTx = manifest.maxSpendPerTx
  maxSpendPerDay : row.maxSpendPerDay = manifest.maxSpendPerDay
  expiry : row.expiry = manifest.expiry
  nonce : row.nonce = manifest.nonce
  allowedCounterparties : ∃ addresses : List JsString,
    row.allowedCounterparties = .array (addresses.map .string) ∧
    addresses.map toLowerCase = manifest.allowedCounterparties.map toLowerCase

theorem stringToBigInt_natToString (n : ℕ) : stringToBigInt (natToString n) = some (n : ℤ) := by
  rw [stringToBigInt_digits (fun u hu => mem_natToString hu) (natToString_ne_nil n)]
  exact congrArg (fun k : ℕ => some (k : ℤ)) (ofDigits_digitCodes n)

theorem parse_addresses (addresses : List JsString) :
    JSON.parse (JSON.stringify (.array (addresses.map .string))) =
      some (.array (addresses.map .string)) := by
  have hplain : ∀ ss : List JsString, MeetsItems plain (ss.map .string) := by
    intro ss
    induction ss with
    | nil => trivial
    | cons s ss ih => exact ⟨trivial, ih⟩
  have henumerated : ∀ ss : List JsString, enumeratedItems (ss.map .string) = ss.map .string := by
    intro ss
    induction ss with
    | nil => rfl
    | cons s ss ih =>
      rw [List.map_cons, enumeratedItems, ih]
      rfl
  have harray : (Json.array (addresses.map .string)).Plain := hplain addresses
  rw [parse_stringify harray, Json.enumerated, henumerated]

/-- A row that was inserted for an input is read as its fields, the expiry rounded. -/
theorem rowToManifest_of_kept {row : Columns} {input : InsertManifestInput}
    (h : row.kept = input.columns.kept) :
    rowToManifest row = .ok
      { intentHash := toLowerCase input.intentHash
        manifestUri := row.manifestUri
        manifestJson := row.manifestJson
        owner := toLowerCase input.owner
        token := toLowerCase input.token
        maxSpendPerTx := input.maxSpendPerTx
        maxSpendPerDay := input.maxSpendPerDay
        expiry := (toNumber input.expiry : ℕ)
        nonce := input.nonce
        allowedCounterparties :=
          .array ((input.allowedCounterparties.map toLowerCase).map .string) } := by
  obtain ⟨intentHash, manifestUri, manifestJson, owner, token, maxSpendPerTx, maxSpendPerDay,
    expiry, nonce, json⟩ := row
  simp only [Columns.kept, InsertManifestInput.columns, Columns.mk.injEq, true_and] at h
  obtain ⟨rfl, rfl, rfl, rfl, rfl, rfl, rfl, rfl⟩ := h
  unfold rowToManifest
  dsimp only
  rw [stringToBigInt_natToString, stringToBigInt_natToString, stringToBigInt_natToString,
    parse_addresses]
  rfl

/-- A row that is read back from an insert carries the manifest exactly when its expiry is a
double. -/
theorem carries_iff {row : Columns} {pinned : Pinned} (h : row.kept = pinned.input.columns.kept) :
    (∃ manifest, rowToManifest row = .ok manifest ∧ Carries manifest pinned.result.manifest) ↔
      IsDouble pinned.result.manifest.expiry := by
  rw [rowToManifest_of_kept h, ← toNumber_eq_self_iff]
  constructor
  · rintro ⟨manifest, hrow, hcarries⟩
    obtain rfl := Except.ok.inj hrow
    exact Int.ofNat_inj.1 hcarries.expiry
  · intro hexpiry
    refine ⟨_, rfl, toLowerCase_toLowerCase _, toLowerCase_toLowerCase _, rfl, rfl,
      congrArg Nat.cast hexpiry, rfl, _, rfl, ?_⟩
    rw [List.map_map]
    exact List.map_congr_left fun s _ => toLowerCase_toLowerCase s

/-! ### One hash, one manifest -/

variable {A : AddressChecksum} {K : Keccak}

/-- The fields of a manifest that its hash is made of determine the columns that are kept. -/
theorem kept_eq_of_intentHash (hK : ∀ b, K.bytes b < 2 ^ 256) {input input' : ManifestInput}
    {pinned pinned' : Pinned} (h : buildCanonicalManifest A K input = .ok pinned.result)
    (h' : buildCanonicalManifest A K input' = .ok pinned'.result)
    (hcollision : K.bytes (Js.encode pinned.result.json) = K.bytes (Js.encode pinned'.result.json) →
      Js.encode pinned.result.json = Js.encode pinned'.result.json)
    (heq : pinned.input.columns.intentHash = pinned'.input.columns.intentHash) :
    pinned.input.columns.kept = pinned'.input.columns.kept := by
  obtain ⟨m, hm, hjson, hhash⟩ := exists_metadata h
  obtain ⟨m', hm', hjson', hhash'⟩ := exists_metadata h'
  have hcanonical := (buildCanonicalManifest_eq_ok.1 h).1
  have hcanonical' := (buildCanonicalManifest_eq_ok.1 h').1
  have hhashes : pinned.result.intentHash = pinned'.result.intentHash := by
    have heq : toLowerCase pinned.result.intentHash = toLowerCase pinned'.result.intentHash := heq
    rwa [hhash, hhash', toLowerCase_toHex, toLowerCase_toHex, ← hhash, ← hhash'] at heq
  have hsame : SameManifest pinned.result.manifest pinned'.result.manifest m m' := by
    have hwell : WellFormed pinned.result.json := hjson ▸ wellFormed_stringify _
    have hwell' : WellFormed pinned'.result.json := hjson' ▸ wellFormed_stringify _
    have htexts : pinned.result.json = pinned'.result.json :=
      (digest_inj hK hwell hwell' hcollision).1 (hhash ▸ hhash' ▸ hhashes)
    have hfinite := pinned.result.manifest.toJson_finite hm
    have hfinite' := pinned'.result.manifest.toJson_finite hm'
    rw [hjson, hjson', stringify_ordered_inj hfinite hfinite', ordered_eq_iff hfinite hfinite']
      at htexts
    exact (reorders_toJson_iff hcanonical hcanonical' m m').1 htexts
  obtain ⟨_, -, -, -, haddresses⟩ := hcanonical.allowedCounterparties
  obtain ⟨_, -, -, -, haddresses'⟩ := hcanonical'.allowedCounterparties
  simp only [Pinned.input, InsertManifestInput.columns, Columns.kept, hhashes,
    (checksum_inj hcanonical.owner hcanonical'.owner).1 hsame.owner,
    (checksum_inj hcanonical.token hcanonical'.token).1 hsame.token, hsame.maxSpendPerTx,
    hsame.maxSpendPerDay,
    (checksum_map_inj haddresses haddresses').1 hsame.allowedCounterparties,
      hsame.expiry, hsame.nonce]

/-! ### Reading back an insert -/

/-- An insert of a manifest that was built from an input whose integers fit their types. -/
def Built (A : AddressChecksum) (K : Keccak) (pinned : Pinned) : Prop :=
  ∃ input, buildCanonicalManifest A K input = .ok pinned.result ∧ Fits input

theorem exists_row (hK : ∀ b, K.bytes b < 2 ^ 256) {inserts : List Pinned}
    (hbuilt : ∀ p ∈ inserts, Built A K p) (hcollision : ∀ p ∈ inserts, ∀ q ∈ inserts,
      K.bytes (Js.encode p.result.json) = K.bytes (Js.encode q.result.json) →
        Js.encode p.result.json = Js.encode q.result.json)
    {pinned : Pinned} (hpinned : pinned ∈ inserts) :
    ∃ row, Table.find Columns.intentHash (toLowerCase pinned.result.intentHash) (inserted inserts) =
      some row ∧
      row.kept = pinned.input.columns.kept := by
  have hfound : Table.find Columns.intentHash pinned.input.columns.intentHash (inserted inserts) ≠
      none :=
    @Table.find_upserts_ne_none _ _ Columns.intentHash _ Pinned (fun p => p.input.update)
      (fun p => p.input.columns)
      (fun _ _ => rfl) _ _ hpinned
  obtain ⟨row, hrow⟩ := Option.ne_none_iff_exists'.1 hfound
  obtain ⟨first, hfirst, hkey, hkept⟩ :=
    @Table.exists_of_find_upserts _ _ Columns.intentHash _ Pinned _ (fun p => p.input.update)
      (fun p => p.input.columns)
      (fun _ _ => rfl) Columns.kept (fun _ _ => rfl) _ _ _ hrow
  obtain ⟨input, hinput, -⟩ := hbuilt pinned hpinned
  obtain ⟨input', hinput', -⟩ := hbuilt first hfirst
  exact ⟨row, hrow, hkept.trans
    (kept_eq_of_intentHash hK hinput' hinput (hcollision first hfirst pinned hpinned) hkey)⟩

theorem getManifestByHash_eq_ok {intentHash : JsString} {rows : List Columns} {row : Columns}
    (h : Table.find Columns.intentHash (toLowerCase intentHash) rows = some row)
    {manifest : ManifestRow} :
    getManifestByHash intentHash rows = .ok (some manifest) ↔ rowToManifest row = .ok manifest := by
  unfold getManifestByHash
  rw [h]
  simp only [map_eq_ok, Option.some.injEq, exists_eq_right]

/-- Looking a manifest up by its hash, in any letter case, answers with its fields exactly when its
expiry is a double, if the hash does not collide on the texts of the inserted manifests. -/
theorem manifest_returned_iff (hK : ∀ b, K.bytes b < 2 ^ 256) {inserts : List Pinned}
    (hbuilt : ∀ p ∈ inserts, Built A K p)
    (hcollision : ∀ p ∈ inserts, ∀ q ∈ inserts,
      K.bytes (Js.encode p.result.json) = K.bytes (Js.encode q.result.json) →
        Js.encode p.result.json = Js.encode q.result.json)
    {pinned : Pinned} (hpinned : pinned ∈ inserts) {intentHash : JsString}
    (hhash : toLowerCase intentHash = toLowerCase pinned.result.intentHash) :
    (∃ manifest, getManifestByHash intentHash (inserted inserts) = .ok (some manifest) ∧
        Carries manifest pinned.result.manifest) ↔
      IsDouble pinned.result.manifest.expiry := by
  obtain ⟨row, hrow, hkept⟩ := exists_row hK hbuilt hcollision hpinned
  rw [← carries_iff hkept]
  simp only [getManifestByHash_eq_ok (hhash ▸ hrow)]

end IntentGuard.Infra.ManifestStore

namespace IntentGuard.Localnet

open Js Infra

def expiringInput (expiry : ℕ) : ManifestInput :=
  { manifestInput (.bigint 10000000) (.bigint 50000000) (.bigint 1) with expiry := .bigint expiry }

theorem expiringInput_fits {expiry : ℕ} (h : expiry < 2 ^ 64) : Fits (expiringInput expiry) := by
  have hfits : ∀ {k : ℕ} {bound : ℕ}, k < bound → ∀ n, Spells (.bigint k) n → n < bound :=
    fun hk n hn => hn.unique (.bigint _) ▸ hk
  exact ⟨hfits (k := 10000000) (by decide), hfits (k := 50000000) (by decide), hfits h,
    hfits (k := 1) (by decide)⟩

theorem expiringInput_expiry {A : AddressChecksum} {K : Keccak} {expiry : ℕ}
    {r : CanonicalManifestResult} (h : buildCanonicalManifest A K (expiringInput expiry) = .ok r) :
    r.manifest.expiry = expiry := by
  have hspells : Spells (expiringInput expiry).expiry expiry := .bigint expiry
  exact (spells_of_toUint (buildCanonicalManifest_eq_ok.1 h).1.expiry).unique hspells

end IntentGuard.Localnet

namespace IntentGuard.Infra.ManifestStore

open Js Trace Localnet

/-- The least expiry that is no double. -/
theorem long_expiry_rounded :
    ¬ ∀ (A : AddressChecksum) (K : Keccak), (∀ b, K.bytes b < 2 ^ 256) → ∀ inserts : List Pinned,
      (∀ p ∈ inserts, Built A K p) →
      (∀ p ∈ inserts, ∀ q ∈ inserts,
        K.bytes (Js.encode p.result.json) = K.bytes (Js.encode q.result.json) →
        Js.encode p.result.json = Js.encode q.result.json) →
      ∀ pinned ∈ inserts, ∀ intentHash,
        toLowerCase intentHash = toLowerCase pinned.result.intentHash →
        ∃ manifest, getManifestByHash intentHash (inserted inserts) = .ok (some manifest) ∧
          Carries manifest pinned.result.manifest := by
  intro h
  have hbuilt : (buildCanonicalManifest lowerCase keccak256 (expiringInput (2 ^ 53 + 1))).isOk := by
    decide +kernel
  cases hr : buildCanonicalManifest lowerCase keccak256 (expiringInput (2 ^ 53 + 1)) with
  | error e =>
    rw [hr] at hbuilt
    exact absurd hbuilt Bool.false_ne_true
  | ok r =>
    have hK : ∀ b, keccak256.bytes b < 2 ^ 256 := Keccak256.word_lt
    have hinserts : ∀ p ∈ [Pinned.mk r []], Built lowerCase keccak256 p :=
      List.forall_mem_singleton.2 ⟨_, hr, expiringInput_fits (by decide)⟩
    have hcollision : ∀ p ∈ [Pinned.mk r []], ∀ q ∈ [Pinned.mk r []],
        keccak256.bytes (Js.encode p.result.json) = keccak256.bytes (Js.encode q.result.json) →
          Js.encode p.result.json = Js.encode q.result.json :=
      List.forall_mem_singleton.2 (List.forall_mem_singleton.2 fun _ => rfl)
    obtain ⟨row, hrow, hkept⟩ := exists_row hK hinserts hcollision List.mem_cons_self
    obtain ⟨manifest, hfound, hcarries⟩ :=
      h lowerCase keccak256 hK _ hinserts hcollision _ List.mem_cons_self r.intentHash rfl
    obtain ⟨m, e, hm, hexpiry⟩ :=
      (carries_iff hkept).1 ⟨manifest, (getManifestByHash_eq_ok hrow).1 hfound, hcarries⟩
    rw [expiringInput_expiry hr] at hexpiry
    -- an odd number has no factor two to give up
    cases e with
    | zero =>
      rw [Nat.pow_zero, Nat.mul_one] at hexpiry
      omega
    | succ e =>
      rw [pow_succ 2 e, ← Nat.mul_assoc] at hexpiry
      omega

/-- A manifest that is inserted twice. -/
theorem manifest_returned_iff_twice :
    ∃ r manifest, buildCanonicalManifest lowerCase keccak256 (expiringInput 2000000000) = .ok r ∧
      getManifestByHash r.intentHash (inserted [⟨r, text "ipfs://a"⟩, ⟨r, text "ipfs://b"⟩]) =
        .ok (some manifest) ∧
        Carries manifest r.manifest := by
  have hbuilt : (buildCanonicalManifest lowerCase keccak256 (expiringInput 2000000000)).isOk := by
    decide +kernel
  cases hr : buildCanonicalManifest lowerCase keccak256 (expiringInput 2000000000) with
  | error e =>
    rw [hr] at hbuilt
    exact absurd hbuilt Bool.false_ne_true
  | ok r =>
    have hK : ∀ b, keccak256.bytes b < 2 ^ 256 := Keccak256.word_lt
    have hpinned : ∀ uri, Built lowerCase keccak256 ⟨r, uri⟩ :=
      fun uri => ⟨_, hr, expiringInput_fits (by decide)⟩
    have hinserts : ∀ p ∈ [Pinned.mk r (text "ipfs://a"), Pinned.mk r (text "ipfs://b")],
        p.result = r :=
      List.forall_mem_cons.2 ⟨rfl, List.forall_mem_singleton.2 rfl⟩
    have hexpiry : IsDouble r.manifest.expiry :=
      expiringInput_expiry hr ▸ (⟨2000000000, 0, by decide, rfl⟩ : IsDouble 2000000000)
    obtain ⟨manifest, hfound, hcarries⟩ := (manifest_returned_iff hK
      (fun p hp => (hinserts p hp ▸ hpinned p.manifestUri : Built lowerCase keccak256
        ⟨p.result, p.manifestUri⟩))
      (fun p hp q hq _ => by rw [hinserts p hp, hinserts q hq]) (List.mem_cons_self) rfl).2 hexpiry
    exact ⟨r, manifest, rfl, hfound, hcarries⟩

end IntentGuard.Infra.ManifestStore
