import IntentGuard.Infra.LocalCas
import IntentGuard.Infra.ManifestStore

/-!
# The manifest route

`api/manifests.ts`: the two handlers around `buildCanonicalManifest`, with the SQLite store and the
local content store. A request of `POST /v1/manifests` waits after each of its calls, so any others
run in between; other pins go to the same content store, and the process may stop at any point, in
the middle of a write too.

`answered` says what every answer of a run is worth in every later state: it names the digest and
the place of the text of the request's own manifest, the `GET` route answers the digest in any
letter case with the same place and with a value whose canonical text has that digest, and the place
serves the bytes exactly when no write of them was torn.
-/

namespace IntentGuard.Infra.ManifestRoute

open Function Js Trace Runs LocalCas ManifestStore

/-! ### The request -/

mutual

/-- A value that `JSON.parse` has produced. -/
def ofJson : Json → JsValue
  | .null => .null
  | .bool b => .bool b
  | .number x =>
    match h : x.round with
    | some y => .number ⟨y, round_round h⟩
    | none => .infinity x.negative
  | .infinity negative => .infinity negative
  | .string s => .string s
  | .array vs => .array (ofJsonItems vs)
  | .object es => .object (ofJsonEntries es)

def ofJsonItems : List Json → List JsValue
  | [] => []
  | v :: vs => ofJson v :: ofJsonItems vs

def ofJsonEntries : List (JsString × Json) → List (JsString × JsValue)
  | [] => []
  | (k, v) :: es => (k, ofJson v) :: ofJsonEntries es

end

theorem keys_ofJsonEntries (es : List (JsString × Json)) :
    (ofJsonEntries es).map Prod.fst = es.map Prod.fst := by
  induction es with
  | nil => rfl
  | cons e es ih =>
    unfold ofJsonEntries
    rw [List.map_cons, List.map_cons, ih]

mutual

theorem distinctKeys_ofJson {v : Json} (hv : v.Meets parsed) : (ofJson v).DistinctKeys := by
  cases v with
  | null | bool | infinity | string => trivial
  | number x =>
    unfold ofJson
    split <;> trivial
  | array vs => exact distinctKeys_ofJsonItems hv
  | object es =>
    refine ⟨?_, distinctKeys_ofJsonEntries hv.2⟩
    rw [keys_ofJsonEntries]
    exact hv.1

theorem distinctKeys_ofJsonItems {vs : List Json} (hvs : MeetsItems parsed vs) :
    JsValue.MeetsItems JsValue.distinct (ofJsonItems vs) := by
  cases vs with
  | nil => trivial
  | cons v vs => exact ⟨distinctKeys_ofJson hvs.1, distinctKeys_ofJsonItems hvs.2⟩

theorem distinctKeys_ofJsonEntries {es : List (JsString × Json)} (hes : MeetsEntries parsed es) :
    JsValue.MeetsEntries JsValue.distinct (ofJsonEntries es) := by
  cases es with
  | nil => trivial
  | cons e es => exact ⟨distinctKeys_ofJson hes.1, distinctKeys_ofJsonEntries hes.2⟩

end

/-- What `express.json()` makes of a request's text. -/
structure Body where
  value : Json
  parsed : value.Meets parsed

/-- `z.string().regex(/^0x[0-9a-fA-F]{40}$/)` -/
def address : Json → Option JsString
  | .string s => if hexLiteral 40 s = none then none else some s
  | _ => none

/-- `z.union([z.string(), z.number(), z.bigint()])` -/
def integer : Json → Option JsValue
  | .string s => some (.string s)
  | .number x => some (ofJson (.number x))
  | .infinity negative => some (.infinity negative)
  | _ => none

/-- `z.array(…).min(1)` -/
def addresses : Json → Option (List JsString)
  | .array vs => do
    let ss ← vs.mapM address
    if ss.length = 0 then none else some ss
  | _ => none

/-- `z.record(z.unknown()).nullable().optional()`, then `?? null`; a record is rebuilt without an
own key `__proto__`. -/
def metadata : Option Json → Option Json
  | none | some .null => some .null
  | some (.object es) => some (.object (es.filter fun e => e.1 ≠ text "__proto__"))
  | _ => none

theorem parsed_of_get? {v : Json} (hv : v.Meets parsed) {key : String} {w : Json}
    (h : v.get? key = some w) :
    w.Meets parsed := by
  cases v with
  | object es =>
    obtain ⟨e, he, rfl⟩ := Option.map_eq_some_iff.1 h
    exact (meetsEntries_iff _ _).1 hv.2 e (List.mem_of_find?_eq_some he)
  | _ => exact absurd h nofun

theorem distinctKeys_metadata (body : Body) {m : Json}
    (h : metadata (body.value.get? "metadata") = some m) :
    (ofJson m).DistinctKeys := by
  apply distinctKeys_ofJson
  unfold metadata at h
  split at h
  · obtain rfl := Option.some.inj h
    trivial
  · obtain rfl := Option.some.inj h
    trivial
  · obtain rfl := Option.some.inj h
    obtain ⟨hkeys, hvalues⟩ := parsed_of_get? body.parsed ‹_›
    refine ⟨List.Nodup.sublist (List.filter_sublist.map _) hkeys, (meetsEntries_iff _ _).2 ?_⟩
    exact fun e he => (meetsEntries_iff _ _).1 hvalues e (List.mem_of_mem_filter he)
  · exact absurd h nofun

def ManifestBody.safeParse (body : Body) : Option ManifestInput := do
  let owner ← (body.value.get? "owner").bind address
  let token ← (body.value.get? "token").bind address
  let maxSpendPerTx ← (body.value.get? "maxSpendPerTx").bind integer
  let maxSpendPerDay ← (body.value.get? "maxSpendPerDay").bind integer
  let allowedCounterparties ← (body.value.get? "allowedCounterparties").bind addresses
  let expiry ← (body.value.get? "expiry").bind integer
  let nonce ← (body.value.get? "nonce").bind integer
  match h : metadata (body.value.get? "metadata") with
  | none => none
  | some metadata =>
    some
      { owner
        token
        maxSpendPerTx
        maxSpendPerDay
        allowedCounterparties := some allowedCounterparties
        expiry
        nonce
        metadata := ofJson metadata
        distinctKeys := distinctKeys_metadata body h }

/-- A request whose integers fit the types of an intent's config; a larger expiry may be stored as
an infinity. -/
structure Request extends Body where
  fits : ∀ input ∈ ManifestBody.safeParse toBody, Fits input

/-! ### The handlers -/

structure PostResponse where
  manifestURI : JsString
  intentHash : JsString
  deriving DecidableEq

structure GetResponse where
  intentHash : JsString
  manifestURI : JsString
  manifest : Json

/-- `GET /v1/manifests/:intentHash`. -/
def getManifest (intentHash : JsString) (rows : List Columns) : Except HttpError GetResponse := do
  throwIf (hexLiteral 64 intentHash = none)
    (badRequest "intentHash must be a 0x-prefixed 32-byte hex string")
  let found ← (ManifestStore.getManifestByHash intentHash rows).mapError fun _ => unhandled
  let row ← orThrow (notFound "not_found") found
  let manifest ← orThrow unhandled (JSON.parse row.manifestJson)
  pure { intentHash := row.intentHash, manifestURI := row.manifestUri, manifest }

/-- The call that a request of the `POST` route waits for: `getManifestByHash`, `pinner.pin` or
`insertManifest`. -/
inductive Stage
  | built (result : CanonicalManifestResult)
  | missed (result : CanonicalManifestResult)
  | pinned (pinned : Pinned)

structure Post where
  request : Request
  stage : Stage

structure Answer where
  request : Request
  response : Except HttpError PostResponse

/-- The table, the files, the requests that are being served, and every answer given so far. -/
structure State where
  rows : List Columns
  files : Files
  posts : ℕ → Option Post
  answers : List Answer

inductive Action
  | post (id : ℕ) (request : Request)
  /-- The call that the request waits for returns, and the handler runs up to the next one. -/
  | next (id : ℕ)
  /-- Another route pins something. -/
  | pin (content : Content)
  /-- The process stops, maybe when it has written a part of a file, and is started again. -/
  | stop (torn : Option (Content × ℕ))

namespace State

def respond (w : State) (id : ℕ) (request : Request) (response : Except HttpError PostResponse) :
    State :=
  { w with
    posts := update w.posts id none
    answers := w.answers ++ [{ request, response }] }

def await (w : State) (id : ℕ) (request : Request) (stage : Stage) : State :=
  { w with posts := update w.posts id (some { request, stage }) }

end State

variable (A : AddressChecksum) (K : Keccak) (S : Sha256) (publicBaseUrl : JsString)

/-- The handler of the `POST` route up to its first call. -/
def receive (w : State) (id : ℕ) (request : Request) : State :=
  match ManifestBody.safeParse request.toBody with
  | none => w.respond id request (.error (badRequest "invalid manifest body"))
  | some input =>
    match buildCanonicalManifest A K input with
    | .error _ => w.respond id request (.error unhandled)
    | .ok result => w.await id request (.built result)

/-- Its next call, and what it does with the result. -/
def proceed (w : State) (id : ℕ) (request : Request) : Stage → State
  | .built result =>
    match ManifestStore.getManifestByHash result.intentHash w.rows with
    | .error _ => w.respond id request (.error unhandled)
    | .ok (some cached) =>
      w.respond id request
        (.ok { manifestURI := cached.manifestUri, intentHash := result.intentHash })
    | .ok none => w.await id request (.missed result)
  | .missed result =>
    let (files, pin) := LocalCas.pin S publicBaseUrl w.files (.string result.json)
    { w with files }.await id request (.pinned { result, manifestUri := pin.uri })
  | .pinned pinned =>
    { w with rows := insertManifest pinned.input w.rows }.respond id request
      (.ok { manifestURI := pinned.manifestUri, intentHash := pinned.result.intentHash })

def step (w : State) : Action → State
  | .post id request => if (w.posts id).isSome then w else receive A K w id request
  | .next id =>
    match w.posts id with
    | none => w
    | some post => proceed S publicBaseUrl w id post.request post.stage
  | .pin content => { w with files := (LocalCas.pin S publicBaseUrl w.files content).1 }
  | .stop torn =>
    { w with
      files := torn.elim w.files fun t => writeOnce S w.files t.1.toBytes t.2
      posts := fun _ => none }

def init : State where
  rows := []
  files := LocalCas.empty
  posts := fun _ => none
  answers := []

/-! ### Results and events -/

/-- The manifest that the handler builds of a request. -/
def Builds (request : Request) (result : CanonicalManifestResult) : Prop :=
  ∃ input, ManifestBody.safeParse request.toBody = some input ∧
    buildCanonicalManifest A K input = .ok result

/-- One of the requests of the run has this result. -/
def Posted (as : List Action) (result : CanonicalManifestResult) : Prop :=
  ∃ id request, .post id request ∈ as ∧ Builds A K request result

/-- The result with the place of its text. -/
def pinnedAt (result : CanonicalManifestResult) : Pinned where
  result
  manifestUri := pinnedUri publicBaseUrl (S.hex (Js.encode result.json))

/-- What an action does to the content store. -/
def event : State × Action → Option LocalCas.Event
  | (w, .next id) =>
    match w.posts id with
    | some ⟨_, .missed result⟩ => some (.pin (.string result.json))
    | _ => none
  | (_, .pin content) => some (.pin content)
  | (_, .stop (some (content, written))) => some (.stopped content written)
  | _ => none

def events (as : List Action) : List LocalCas.Event :=
  (visits (step A K S publicBaseUrl) init as).filterMap event

variable {A K S publicBaseUrl}

@[simp] theorem files_respond (w : State) (id : ℕ) (request : Request)
    (response : Except HttpError PostResponse) :
    (w.respond id request response).files = w.files := rfl

@[simp] theorem files_await (w : State) (id : ℕ) (request : Request) (stage : Stage) :
    (w.await id request stage).files = w.files := rfl

theorem posts_await (w : State) (id : ℕ) (request : Request) (stage : Stage) :
    (w.await id request stage).posts = update w.posts id (some ⟨request, stage⟩) := rfl

theorem files_receive (w : State) (id : ℕ) (request : Request) :
    (receive A K w id request).files = w.files := by
  unfold receive
  split
  · rfl
  · split <;> rfl

theorem files_step (w : State) (a : Action) :
    (step A K S publicBaseUrl w a).files =
      (event (w, a)).elim w.files (LocalCas.step S publicBaseUrl w.files) := by
  cases a with
  | post id request =>
    unfold step
    dsimp only
    split_ifs
    · rfl
    · exact files_receive w id request
  | next id =>
    unfold step event
    dsimp only
    cases hpost : w.posts id with
    | none => rfl
    | some post =>
      obtain ⟨request, stage⟩ := post
      cases stage with
      | built result =>
        unfold proceed
        dsimp only
        split <;> rfl
      | missed result => rfl
      | pinned pinned => rfl
  | pin content => rfl
  | stop torn => cases torn <;> rfl

theorem files_run (as : List Action) :
    (run (step A K S publicBaseUrl) init as).files =
      run (LocalCas.step S publicBaseUrl) LocalCas.empty (events A K S publicBaseUrl as) := by
  refine project_run State.files event (LocalCas.step S publicBaseUrl) init ?_ ?_ as
  · intro w a hquiet
    rw [files_step, hquiet]
    rfl
  · intro w a e hseen
    rw [files_step, hseen]
    rfl

/-! ### The invariant -/

section
variable (hK : ∀ b, K.bytes b < 2 ^ 256) {R : CanonicalManifestResult → Prop}
  (hR : ∀ r, R r → ∃ request, Builds A K request r)
  (hcollision : ∀ r r', R r → R r' → K.bytes (Js.encode r.json) = K.bytes (Js.encode r'.json) →
    Js.encode r.json = Js.encode r'.json)

theorem Builds.text {request : Request} {r : CanonicalManifestResult} (h : Builds A K request r) :
    ∃ v : Json, v.Finite ∧ canonicalize v = .ok r.json ∧ WellFormed r.json ∧
      r.intentHash = toHex 64 (K.bytes (Js.encode r.json)) := by
  obtain ⟨input, -, hbuilt⟩ := h
  obtain ⟨m, hm, hjson, hhash⟩ := exists_metadata hbuilt
  have hfinite := r.manifest.toJson_finite hm
  exact ⟨_, hfinite, hjson ▸ encode_eq hfinite, hjson ▸ wellFormed_stringify _, hhash⟩

include hK hR hcollision in
/-- Results under one digest are inserted as one row. -/
theorem columns_eq {r r' : CanonicalManifestResult} (hr : R r) (hr' : R r')
    (h : toLowerCase r.intentHash = toLowerCase r'.intentHash) :
    (pinnedAt S publicBaseUrl r).input.columns = (pinnedAt S publicBaseUrl r').input.columns := by
  obtain ⟨request, hbuilds⟩ := hR r hr
  obtain ⟨request', hbuilds'⟩ := hR r' hr'
  obtain ⟨-, -, -, hwell, hhash⟩ := hbuilds.text
  obtain ⟨-, -, -, hwell', hhash'⟩ := hbuilds'.text
  have hjson : r.json = r'.json := by
    rw [hhash, hhash', toLowerCase_toHex, toLowerCase_toHex] at h
    exact (digest_inj hK hwell hwell' (hcollision r r' hr hr')).1 h
  obtain ⟨_, -, hbuilt⟩ := hbuilds
  obtain ⟨_, -, hbuilt'⟩ := hbuilds'
  have hkept : (pinnedAt S publicBaseUrl r).input.columns.kept =
      (pinnedAt S publicBaseUrl r').input.columns.kept :=
    kept_eq_of_intentHash hK hbuilt hbuilt' (hcollision r r' hr hr') h
  have huri : (pinnedAt S publicBaseUrl r).manifestUri =
      (pinnedAt S publicBaseUrl r').manifestUri := by
    unfold pinnedAt
    rw [hjson]
  simp only [Columns.kept, Columns.mk.injEq, true_and] at hkept
  obtain ⟨hintentHash, hrest⟩ := hkept
  exact Columns.mk.injEq .. ▸ ⟨hintentHash, huri, hjson, hrest⟩

theorem find_insertManifest (input : InsertManifestInput) (rows : List Columns) (key : JsString) :
    Table.find Columns.intentHash key (insertManifest input rows) =
      if input.columns.intentHash = key then
        some ((Table.find Columns.intentHash key rows).elim input.columns input.update)
      else Table.find Columns.intentHash key rows :=
  @Table.find_upsert _ _ Columns.intentHash _ input.update input.columns
    (fun _ hkey => hkey) key rows

theorem getManifestByHash_row {rows : List Columns} {intentHash : JsString}
    {r : CanonicalManifestResult}
    (h : Table.find Columns.intentHash (toLowerCase intentHash) rows =
      some (pinnedAt S publicBaseUrl r).input.columns) :
    ∃ m, ManifestStore.getManifestByHash intentHash rows = .ok (some m) ∧
      m.intentHash = toLowerCase r.intentHash ∧
      m.manifestUri = (pinnedAt S publicBaseUrl r).manifestUri ∧ m.manifestJson = r.json :=
  ⟨_, (getManifestByHash_eq_ok h).2 (rowToManifest_of_kept rfl), rfl, rfl, rfl⟩

variable (A K S publicBaseUrl) in
/-- What is known of a request at each of its calls. -/
def Stage.Sound (R : CanonicalManifestResult → Prop) (es : List LocalCas.Event)
    (request : Request) : Stage → Prop
  | .built r | .missed r => R r ∧ Builds A K request r
  | .pinned p =>
    ∃ r, p = pinnedAt S publicBaseUrl r ∧ R r ∧ Builds A K request r ∧ .pin (.string r.json) ∈ es

variable (A K S publicBaseUrl) in
/-- What an answer says, and the row that it says it of. -/
def Answer.Sound (R : CanonicalManifestResult → Prop) (rows : List Columns) (answer : Answer) :
    Prop :=
  match answer.response with
  | .error e =>
    (ManifestBody.safeParse answer.request.toBody = none ∧ e = badRequest "invalid manifest body") ∨
      ∃ input err, ManifestBody.safeParse answer.request.toBody = some input ∧
        buildCanonicalManifest A K input = .error err ∧ e = unhandled
  | .ok response =>
    ∃ r, R r ∧ Builds A K answer.request r ∧ response = ⟨(pinnedAt S publicBaseUrl r).manifestUri,
      r.intentHash⟩ ∧
      Table.find Columns.intentHash (toLowerCase r.intentHash) rows =
        some (pinnedAt S publicBaseUrl r).input.columns

variable (A K S publicBaseUrl R) in
/-- Every row is that of a result whose text a pin has gone to the content store with. -/
structure Inv (es : List LocalCas.Event) (w : State) : Prop where
  posts : ∀ id post, w.posts id = some post → post.stage.Sound A K S publicBaseUrl R es post.request
  rows : ∀ row ∈ w.rows, ∃ r, R r ∧ row = (pinnedAt S publicBaseUrl r).input.columns ∧
    .pin (.string r.json) ∈ es
  answers : ∀ answer ∈ w.answers, answer.Sound A K S publicBaseUrl R w.rows

theorem Stage.Sound.mono {es es' : List LocalCas.Event} (hes : es ⊆ es') {request : Request}
    {stage : Stage} (h : stage.Sound A K S publicBaseUrl R es request) :
    stage.Sound A K S publicBaseUrl R es' request := by
  cases stage with
  | built r => exact h
  | missed r => exact h
  | pinned p =>
    obtain ⟨r, hp, hr, hbuilds, hpin⟩ := h
    exact ⟨r, hp, hr, hbuilds, hes hpin⟩

theorem Inv.mono {es es' : List LocalCas.Event} (hes : es ⊆ es') {w : State}
    (h : Inv A K S publicBaseUrl R es w) :
    Inv A K S publicBaseUrl R es' w where
  posts id post hpost := (h.posts id post hpost).mono hes
  rows row hrow := by
    obtain ⟨r, hr, hcolumns, hpin⟩ := h.rows row hrow
    exact ⟨r, hr, hcolumns, hes hpin⟩
  answers := h.answers

theorem Inv.respond {es : List LocalCas.Event} {w : State} (h : Inv A K S publicBaseUrl R es w)
    {id : ℕ} {request : Request} {response : Except HttpError PostResponse}
    (hanswer : Answer.Sound A K S publicBaseUrl R w.rows ⟨request, response⟩) :
    Inv A K S publicBaseUrl R es (w.respond id request response) where
  posts id' post hpost := by
    refine h.posts id' post ?_
    by_cases hid : id' = id
    · subst hid
      exact absurd ((update_self ..).symm.trans hpost) nofun
    · exact (update_of_ne hid ..).symm.trans hpost
  rows := h.rows
  answers answer hmem := by
    rcases List.mem_append.1 hmem with hmem | hmem
    · exact h.answers answer hmem
    · obtain rfl := List.mem_singleton.1 hmem
      exact hanswer

theorem Inv.await {es : List LocalCas.Event} {w : State} (h : Inv A K S publicBaseUrl R es w)
    {id : ℕ} {request : Request} {stage : Stage}
    (hstage : stage.Sound A K S publicBaseUrl R es request) :
    Inv A K S publicBaseUrl R es (w.await id request stage) where
  posts id' post hpost := by
    by_cases hid : id' = id
    · subst hid
      rw [posts_await, update_self] at hpost
      obtain rfl := Option.some.inj hpost
      exact hstage
    · exact h.posts id' post ((update_of_ne hid ..).symm.trans hpost)
  rows := h.rows
  answers := h.answers

include hK hR hcollision

theorem update_columns {r r' : CanonicalManifestResult} (hr : R r) (hr' : R r')
    (h : (pinnedAt S publicBaseUrl r').input.columns.intentHash =
      (pinnedAt S publicBaseUrl r).input.columns.intentHash) :
    (pinnedAt S publicBaseUrl r).input.update (pinnedAt S publicBaseUrl r').input.columns =
      (pinnedAt S publicBaseUrl r').input.columns := by
  rw [columns_eq hK hR hcollision hr' hr h]
  rfl

/-- A row is found under a digest exactly as the digest's own result is inserted. -/
theorem Inv.find_eq {es : List LocalCas.Event} {w : State} (h : Inv A K S publicBaseUrl R es w)
    {r : CanonicalManifestResult} (hr : R r) {row : Columns}
    (hrow : Table.find Columns.intentHash (toLowerCase r.intentHash) w.rows = some row) :
    row = (pinnedAt S publicBaseUrl r).input.columns := by
  obtain ⟨r', hr', rfl, -⟩ := h.rows row (Table.mem_of_find Columns.intentHash hrow)
  exact columns_eq hK hR hcollision hr' hr (Table.key_of_find Columns.intentHash hrow)

theorem Inv.insert {es : List LocalCas.Event} {w : State} (h : Inv A K S publicBaseUrl R es w)
    {r : CanonicalManifestResult} (hr : R r) (hpin : .pin (.string r.json) ∈ es) :
    Inv A K S publicBaseUrl R es
      { w with rows := insertManifest (pinnedAt S publicBaseUrl r).input w.rows } where
  posts := h.posts
  rows row hrow := by
    rcases Table.mem_upsert hrow with rfl | hold | ⟨row', hrow', hkey, rfl⟩
    · exact ⟨r, hr, rfl, hpin⟩
    · exact h.rows row hold
    · obtain ⟨r', hr', rfl, hpin'⟩ := h.rows row' hrow'
      exact ⟨r', hr', update_columns hK hR hcollision hr hr' hkey, hpin'⟩
  answers answer hmem := by
    have hanswer := h.answers answer hmem
    unfold Answer.Sound at hanswer ⊢
    split at hanswer
    · exact hanswer
    · obtain ⟨r', hr', hbuilds, hresponse, hfind⟩ := hanswer
      refine ⟨r', hr', hbuilds, hresponse, ?_⟩
      show Table.find Columns.intentHash _ (insertManifest _ _) = _
      rw [find_insertManifest, hfind]
      split_ifs with hkey
      · exact congrArg some (update_columns hK hR hcollision hr hr' hkey.symm)
      · rfl

theorem Inv.find_insert {es : List LocalCas.Event} {w : State} (h : Inv A K S publicBaseUrl R es w)
    {r : CanonicalManifestResult} (hr : R r) :
    Table.find Columns.intentHash (toLowerCase r.intentHash)
      (insertManifest (pinnedAt S publicBaseUrl r).input w.rows) =
      some (pinnedAt S publicBaseUrl r).input.columns := by
  have hkey : (pinnedAt S publicBaseUrl r).input.columns.intentHash = toLowerCase r.intentHash :=
    rfl
  rw [find_insertManifest, if_pos hkey]
  cases hfind : Table.find Columns.intentHash (toLowerCase r.intentHash) w.rows with
  | none => rfl
  | some row =>
    obtain rfl := h.find_eq hK hR hcollision hr hfind
    rfl

theorem inv_proceed {es : List LocalCas.Event} {w : State} (h : Inv A K S publicBaseUrl R es w)
    {id : ℕ} {post : Post} (hpost : w.posts id = some post) :
    Inv A K S publicBaseUrl R (es ++ (event (w, .next id)).toList)
      (proceed S publicBaseUrl w id post.request post.stage) := by
  obtain ⟨request, stage⟩ := post
  have hstage := h.posts id _ hpost
  cases stage with
  | built r =>
    obtain ⟨hr, hbuilds⟩ := hstage
    refine Inv.mono (List.subset_append_left _ _) ?_
    unfold proceed
    dsimp only
    cases hfind : Table.find Columns.intentHash (toLowerCase r.intentHash) w.rows with
    | none =>
      have hmiss : ManifestStore.getManifestByHash r.intentHash w.rows = .ok none := by
        unfold ManifestStore.getManifestByHash
        rw [hfind]
        rfl
      rw [hmiss]
      exact h.await ⟨hr, hbuilds⟩
    | some row =>
      obtain rfl := h.find_eq hK hR hcollision hr hfind
      obtain ⟨m, hm, -, huri, -⟩ := getManifestByHash_row hfind
      rw [hm]
      exact h.respond ⟨r, hr, hbuilds, by rw [huri], hfind⟩
  | missed r =>
    obtain ⟨hr, hbuilds⟩ := hstage
    have hevent : event (w, .next id) = some (.pin (.string r.json)) := by
      unfold event
      dsimp only
      rw [hpost]
    rw [hevent]
    have hmono := h.mono (List.subset_append_left es [.pin (.string r.json)])
    have hpinned : Inv A K S publicBaseUrl R (es ++ [.pin (.string r.json)])
        { w with files := (LocalCas.pin S publicBaseUrl w.files (.string r.json)).1 } :=
      ⟨hmono.posts, hmono.rows, hmono.answers⟩
    exact hpinned.await ⟨r, rfl, hr, hbuilds, List.mem_append_right _ (List.mem_singleton_self _)⟩
  | pinned p =>
    obtain ⟨r, rfl, hr, hbuilds, hpin⟩ := hstage
    refine Inv.mono (List.subset_append_left _ _) ?_
    exact (h.insert hK hR hcollision hr hpin).respond ⟨r, hr, hbuilds, rfl,
      h.find_insert hK hR hcollision hr⟩

theorem inv_step {es : List LocalCas.Event} {w : State} (h : Inv A K S publicBaseUrl R es w)
    {a : Action} (ha : ∀ id request, a = .post id request → ∀ r, Builds A K request r → R r) :
    Inv A K S publicBaseUrl R (es ++ (event (w, a)).toList) (step A K S publicBaseUrl w a) := by
  cases a with
  | post id request =>
    refine Inv.mono (List.subset_append_left _ _) ?_
    unfold step receive
    dsimp only
    split_ifs
    · exact h
    · cases hparse : ManifestBody.safeParse request.toBody with
      | none => exact h.respond (.inl ⟨hparse, rfl⟩)
      | some input =>
        dsimp only
        cases hbuilt : buildCanonicalManifest A K input with
        | error err => exact h.respond (.inr ⟨input, err, hparse, hbuilt, rfl⟩)
        | ok r => exact h.await ⟨ha id request rfl r ⟨input, hparse, hbuilt⟩, input, hparse, hbuilt⟩
  | next id =>
    unfold step
    dsimp only
    cases hpost : w.posts id with
    | none => exact h.mono (List.subset_append_left _ _)
    | some post => exact inv_proceed hK hR hcollision h hpost
  | pin content =>
    have hmono := h.mono (List.subset_append_left es (event (w, .pin content)).toList)
    exact ⟨hmono.posts, hmono.rows, hmono.answers⟩
  | stop torn =>
    have hmono := h.mono (List.subset_append_left es (event (w, .stop torn)).toList)
    exact ⟨fun id post hpost => absurd hpost nofun, hmono.rows, hmono.answers⟩

end

variable (hK : ∀ b, K.bytes b < 2 ^ 256)

include hK in
theorem inv_run {as : List Action}
    (hcollision : ∀ r r', Posted A K as r → Posted A K as r' →
      K.bytes (Js.encode r.json) = K.bytes (Js.encode r'.json) →
        Js.encode r.json = Js.encode r'.json) :
    Inv A K S publicBaseUrl (Posted A K as) (events A K S publicBaseUrl as)
      (run (step A K S publicBaseUrl) init as) := by
  refine Runs.history_induction
    (C := fun _ a => ∀ id request, a = Action.post id request → ∀ r, Builds A K request r →
      Posted A K as r)
    (J := fun h w => Inv A K S publicBaseUrl (Posted A K as) (h.filterMap event) w) ?_ ?_ as ?_
  · exact ⟨fun _ _ hpost => absurd hpost nofun, fun _ hrow => absurd hrow List.not_mem_nil,
      fun _ hanswer => absurd hanswer List.not_mem_nil⟩
  · intro h w a _ hinv ha
    rw [List.filterMap_append, List.filterMap_eq_flatMap_toList event [(w, a)],
      List.flatMap_singleton]
    exact inv_step hK (fun r hr => hr.elim fun _ hr => hr.elim fun request hr => ⟨request, hr.2⟩)
      hcollision hinv ha
  · intro v hv id request ha r hbuilds
    exact ⟨id, request, ha ▸ snd_mem_of_mem_visits hv, hbuilds⟩

/-! ### Answers -/

variable (A K S publicBaseUrl)

/-- What the response to a request with this result is worth, when these events have made the
files. -/
structure Kept (es : List LocalCas.Event) (w : State) (r : CanonicalManifestResult)
    (response : PostResponse) : Prop where
  intentHash : response.intentHash = toHex 64 (K.bytes (Js.encode r.json))
  manifestURI : response.manifestURI = pinnedUri publicBaseUrl (S.hex (Js.encode r.json))
  got : ∀ s, hexLiteral 64 s = some (K.bytes (Js.encode r.json)) →
    ∃ v, getManifest s w.rows = .ok ⟨response.intentHash, response.manifestURI, v⟩ ∧
      canonicalize v = .ok r.json
  served : Served S publicBaseUrl w.files (.string r.json) ↔
    ∀ e ∈ es.find? (fun e => e.bytes = Js.encode r.json), e.Whole

/-- A request is refused for its body or for its manifest, and any other answer is kept. -/
def Answer.Holds (es : List LocalCas.Event) (w : State) (answer : Answer) : Prop :=
  match answer.response with
  | .error e =>
    (ManifestBody.safeParse answer.request.toBody = none ∧ e = badRequest "invalid manifest body") ∨
      ∃ input err, ManifestBody.safeParse answer.request.toBody = some input ∧
        buildCanonicalManifest A K input = .error err ∧ e = unhandled
  | .ok response => ∃ r, Builds A K answer.request r ∧ Kept K S publicBaseUrl es w r response

variable {A K S publicBaseUrl}

theorem getManifest_row {rows : List Columns} {s : JsString} {r : CanonicalManifestResult}
    {request : Request} (hbuilds : Builds A K request r)
    (hs : hexLiteral 64 s = some (K.bytes (Js.encode r.json)))
    (hfind : Table.find Columns.intentHash (toLowerCase r.intentHash) rows =
      some (pinnedAt S publicBaseUrl r).input.columns) :
    ∃ v, getManifest s rows = .ok ⟨r.intentHash, (pinnedAt S publicBaseUrl r).manifestUri, v⟩ ∧
      canonicalize v = .ok r.json := by
  obtain ⟨_, hfinite, hcanonical, -, hhash⟩ := hbuilds.text
  obtain ⟨v, hparse, hv⟩ := canonicalize_parse hfinite hcanonical
  have hlower : toLowerCase s = toLowerCase r.intentHash := by
    rw [toLowerCase_of_hexLiteral hs, hhash, toLowerCase_toHex]
  obtain ⟨m, hm, hhashm, hurim, hjsonm⟩ := getManifestByHash_row (hlower ▸ hfind)
  have hvalid : ¬ hexLiteral 64 s = none := hs ▸ Option.some_ne_none _
  refine ⟨v, ?_, hv⟩
  unfold getManifest
  simp only [throwIf, if_neg hvalid, hm, Except.mapError, orThrow, bind, Except.bind, hjsonm,
    hparse, hhashm, hurim]
  rw [hhash, toLowerCase_toHex]
  rfl

theorem step_next_respond (w : State) (id : ℕ) (request : Request)
    (response : Except HttpError PostResponse) :
    step A K S publicBaseUrl (w.respond id request response) (.next id) =
      w.respond id request response := by
  unfold step State.respond
  dsimp only
  rw [update_self]

theorem step_next_await (w : State) (id : ℕ) (request : Request) (stage : Stage) :
    step A K S publicBaseUrl (w.await id request stage) (.next id) =
      proceed S publicBaseUrl (w.await id request stage) id request stage := by
  unfold step State.await
  dsimp only
  rw [update_self]

/-- A request that nothing comes between is answered within its three calls. -/
theorem post_returns {w : State} {id : ℕ} (hidle : w.posts id = none) (request : Request) :
    ∃ response,
      (run (step A K S publicBaseUrl) w [.post id request, .next id, .next id, .next id]).answers =
      w.answers ++ [⟨request, response⟩] := by
  have hreceive : step A K S publicBaseUrl w (.post id request) = receive A K w id request := by
    unfold step
    dsimp only
    rw [hidle]
    rfl
  simp only [run_cons, run_nil, hreceive]
  unfold receive
  split
  · simp only [step_next_respond]
    exact ⟨_, rfl⟩
  · split
    · simp only [step_next_respond]
      exact ⟨_, rfl⟩
    · rw [step_next_await]
      unfold proceed
      dsimp only
      split
      · simp only [step_next_respond]
        exact ⟨_, rfl⟩
      · simp only [step_next_respond]
        exact ⟨_, rfl⟩
      · rw [step_next_await]
        unfold proceed
        dsimp only
        rw [step_next_await]
        exact ⟨_, rfl⟩

/-- Every answer of a run holds in its last state, and a request that nothing comes between is
answered. -/
theorem answered (hK : ∀ b, K.bytes b < 2 ^ 256) {as : List Action}
    (hcollision : ∀ r r', Posted A K as r → Posted A K as r' →
      K.bytes (Js.encode r.json) = K.bytes (Js.encode r'.json) →
        Js.encode r.json = Js.encode r'.json)
    (hS : ∀ e ∈ events A K S publicBaseUrl as, ∀ e' ∈ events A K S publicBaseUrl as,
      S.hex e.bytes = S.hex e'.bytes → e.bytes = e'.bytes) :
    (∀ answer ∈ (run (step A K S publicBaseUrl) init as).answers,
      answer.Holds A K S publicBaseUrl (events A K S publicBaseUrl as)
        (run (step A K S publicBaseUrl) init as)) ∧
    ∀ id request, (run (step A K S publicBaseUrl) init as).posts id = none →
      ∃ response,
        (run (step A K S publicBaseUrl) init
          (as ++ [.post id request, .next id, .next id, .next id])).answers =
        (run (step A K S publicBaseUrl) init as).answers ++ [⟨request, response⟩] := by
  have hinv : Inv A K S publicBaseUrl (Posted A K as) (events A K S publicBaseUrl as)
      (run (step A K S publicBaseUrl) init as) := inv_run hK hcollision
  constructor
  · intro answer hmem
    have hanswer := hinv.answers answer hmem
    unfold Answer.Sound at hanswer
    unfold Answer.Holds
    split at hanswer
    · exact hanswer
    · obtain ⟨r, hr, hbuilds, rfl, hfind⟩ := hanswer
      obtain ⟨r', -, hcolumns, hpin⟩ := hinv.rows _ (Table.mem_of_find Columns.intentHash hfind)
      have hjson : r.json = r'.json := congrArg Columns.manifestJson hcolumns
      obtain ⟨-, -, -, -, hhash⟩ := hbuilds.text
      refine ⟨r, hbuilds, hhash, rfl, fun s hs => getManifest_row hbuilds hs hfind, ?_⟩
      rw [files_run]
      exact served_iff_whole hS (hjson ▸ hpin)
  · intro id request hidle
    rw [run_append]
    exact post_returns hidle request

end IntentGuard.Infra.ManifestRoute

namespace IntentGuard.Localnet

open Js Infra LocalCas ManifestRoute Trace

def postedText : JsString :=
  text "\x7b\"allowedCounterparties\":[\"0x0000000000000000000000000000000000000111\"]," ++
    text "\"expiry\":\"2000000000\",\"maxSpendPerDay\":\"50000000\"," ++
    text "\"maxSpendPerTx\":\"10000000\"," ++
    text "\"metadata\":\x7b\"tags\":[\"food\"]\x7d,\"nonce\":\"1\"," ++
    text "\"owner\":\"0x1111111111111111111111111111111111111111\",\"schemaVersion\":\"1.0.0\"," ++
    text "\"token\":\"0x2222222222222222222222222222222222222222\"\x7d"

/-- SHA-256 of that text too. -/
def postedSha256 : Sha256 where
  hex b :=
    if b = Js.encode postedText then
      text "bbab03a59e045114ca0736055f61fd03c6089cf9f8e36402578e3375c92cedf1"
    else sha256.hex b
  spelled := by
    intro b
    split_ifs
    · decide +kernel
    · exact sha256.spelled b

def postedBody : Body where
  value := .object
    [(text "owner", .string (text "0x1111111111111111111111111111111111111111")),
      (text "token", .string (text "0x2222222222222222222222222222222222222222")),
      (text "maxSpendPerTx", .string (text "10000000")),
      (text "maxSpendPerDay", .string (text "50000000")),
      (text "allowedCounterparties",
        .array [.string (text "0x0000000000000000000000000000000000000111")]),
      (text "expiry", .string (text "2000000000")), (text "nonce", .string (text "1")),
      (text "metadata", .object [(text "tags", .array [.string (text "food")])])]
  parsed := by
    have htags : Json.Meets parsed (.object [(text "tags", .array [.string (text "food")])]) :=
      ⟨List.nodup_singleton _, ⟨trivial, trivial⟩, trivial⟩
    refine ⟨?_, trivial, trivial, trivial, trivial, ⟨trivial, trivial⟩, trivial, trivial,
      htags, trivial⟩
    show List.Nodup _
    decide +kernel

def postedRequest : Request where
  toBody := postedBody
  fits := by
    have hfits : ∀ {v : JsValue} {k bound : ℕ}, toUint v "" = .ok k → k < bound →
        ∀ n, Spells v n → n < bound :=
      fun hv hk n hn => (spells_of_toUint hv).unique hn ▸ hk
    intro input hinput
    obtain rfl := Option.some.inj hinput
    exact ⟨hfits (k := 10000000) (by decide +kernel) (by decide),
      hfits (k := 50000000) (by decide +kernel) (by decide),
      hfits (k := 2000000000) (by decide +kernel) (by decide),
        hfits (k := 1) (by decide +kernel) (by decide)⟩

/-- The process stops while it writes another file; then two requests with one manifest race. -/
def racedPosts : List ManifestRoute.Action :=
  [.stop (some (.bytes [123], 0)), .post 0 postedRequest, .post 1 postedRequest, .next 0, .next 1,
    .next 0, .next 1, .next 0, .next 1]

end IntentGuard.Localnet

namespace IntentGuard.Infra.ManifestRoute

open Js Runs Localnet

/-- Both requests of a race are answered, with the digest and the place of their text. -/
theorem answered_raced :
    (run (step lowerCase keccak256 postedSha256 (text "http://localhost:8787")) init
      racedPosts).answers.length = 2 ∧
      ∀ answer ∈ (run (step lowerCase keccak256 postedSha256 (text "http://localhost:8787")) init
        racedPosts).answers,
        answer.response.isOk = true ∧
          answer.Holds lowerCase keccak256 postedSha256 (text "http://localhost:8787")
            (events lowerCase keccak256 postedSha256 (text "http://localhost:8787") racedPosts)
            (run (step lowerCase keccak256 postedSha256 (text "http://localhost:8787")) init
              racedPosts) := by
  have hK : ∀ b, keccak256.bytes b < 2 ^ 256 := Keccak256.word_lt
  have hposted : ∀ r, Posted lowerCase keccak256 racedPosts r →
      Builds lowerCase keccak256 postedRequest r := by
    rintro r ⟨id, request, hmem, hbuilds⟩
    simp only [racedPosts, List.mem_cons, List.not_mem_nil, reduceCtorEq, Action.post.injEq,
      or_false, false_or] at hmem
    rcases hmem with ⟨-, rfl⟩ | ⟨-, rfl⟩ <;> exact hbuilds
  have hsame : ∀ r r', Builds lowerCase keccak256 postedRequest r →
      Builds lowerCase keccak256 postedRequest r' →
      r = r' := by
    rintro r r' ⟨input, hinput, hr⟩ ⟨input', hinput', hr'⟩
    obtain rfl := Option.some.inj (hinput.symm.trans hinput')
    exact Except.ok.inj (hr.symm.trans hr')
  have hcollision : ∀ r r', Posted lowerCase keccak256 racedPosts r →
      Posted lowerCase keccak256 racedPosts r' →
      keccak256.bytes (Js.encode r.json) = keccak256.bytes (Js.encode r'.json) →
        Js.encode r.json = Js.encode r'.json :=
    fun r r' hr hr' _ => hsame r r' (hposted r hr) (hposted r' hr') ▸ rfl
  have hrun :
      (run (step lowerCase keccak256 postedSha256 (text "http://localhost:8787")) init
        racedPosts).answers.map
      (fun answer => answer.response.isOk) = [true, true] := by decide +kernel
  have hS : ∀ e ∈ events lowerCase keccak256 postedSha256 (text "http://localhost:8787") racedPosts,
      ∀ e' ∈ events lowerCase keccak256 postedSha256 (text "http://localhost:8787") racedPosts,
        postedSha256.hex e.bytes = postedSha256.hex e'.bytes → e.bytes = e'.bytes := by
    decide +kernel
  obtain ⟨hholds, -⟩ := answered hK hcollision hS
  refine ⟨by rw [← List.length_map, hrun]; rfl, fun answer hmem => ⟨?_, hholds answer hmem⟩⟩
  have hok := List.mem_map_of_mem (f := fun answer : Answer => answer.response.isOk) hmem
  rw [hrun] at hok
  simpa using hok

end IntentGuard.Infra.ManifestRoute
