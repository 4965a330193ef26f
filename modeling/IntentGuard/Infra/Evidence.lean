import IntentGuard.Contracts.Lifecycle
import IntentGuard.Infra.LocalCas
import IntentGuard.Infra.ReplayRoute
import IntentGuard.Infra.TraceRecords

/-!
# The evidence behind a payment

The chain and the trace service side by side. A request of `POST /v1/traces` waits after each of its
calls, so any others run in between. With the local content store a write may fail or the process
stop at any point, in the middle of a file too. The only thing that goes from the service to the
chain is a signature.

`evidence`: if nobody has a signature under the service's key that it has not given out, then behind
every payment that the executor makes under this key there is a trace that was posted for that agent
and that owner, its text has the digest of the receipt, the URI in the logs names its place in the
content store, the replay route leads from the digest to it in every later state when it is
canonical, and the place serves its bytes exactly when no write of them was torn.
-/

namespace IntentGuard.Infra.Evidence

open Function Js Runs LocalCas TraceService

variable {D : Deployment}

/-! ### The system -/

/-- The call that a request waits for: `getTraceByDigest`, `pinner.pin`, `signTraceAck` or
`insertTrace`. -/
inductive Stage
  | validated (req : TraceRequest) (ctx : Signer.TraceAckSignContext)
  | missed (req : TraceRequest) (ctx : Signer.TraceAckSignContext)
  | pinned (req : TraceRequest) (ctx : Signer.TraceAckSignContext) (uri : JsString) (expiresAt : ℕ)
  | signed (req : TraceRequest) (ctx : Signer.TraceAckSignContext) (row : TraceRow)

/-- The chain, the table, the files, the requests that are being served, and every answer given so
far. -/
structure State (D : Deployment) where
  world : World D
  rows : List TraceRow
  files : Files
  posts : ℕ → Option Stage
  answers : List (Except HttpError TraceResponse)

/-- A call returns or fails. A pin that fails may leave the first `written` bytes of its file. -/
inductive Result
  | returns
  | fails (written : Option ℕ)

namespace Result

def failed : Result → Bool
  | .returns => false
  | .fails _ => true

/-- What a pin with this result does to the content store. -/
def event (content : Content) : Result → Option LocalCas.Event
  | .returns => some (.pin content)
  | .fails written => written.map (.stopped content)

end Result

inductive Action (D : Deployment)
  | chain (a : IntentGuard.Action D)
  | post (id : ℕ) (body : Json)
  /-- The call that the request waits for returns or fails, and the handler runs up to the next one,
  at `now`. -/
  | next (id : ℕ) (now : Time) (result : Result)
  /-- Another route pins something. -/
  | pin (content : Content) (result : Result)
  /-- The process stops, maybe when it has written a part of a file, and is started again. -/
  | stop (torn : Option (Content × ℕ))

namespace State

def respond (s : State D) (id : ℕ) (answer : Except HttpError TraceResponse) : State D :=
  { s with
    posts := update s.posts id none
    answers := s.answers ++ [answer] }

def await (s : State D) (id : ℕ) (stage : Stage) : State D :=
  { s with posts := update s.posts id (some stage) }

end State

variable (S : TraceService D.keccak D.tryRecover) (sha : Sha256) (publicBaseUrl : JsString)

/-- The handler up to its first call. -/
def receive (s : State D) (id : ℕ) (body : Json) : State D :=
  match validateTrace D.keccak body with
  | .error e => s.respond id (.error e)
  | .ok req =>
    match S.resolveTraceAckContext with
    | .error e => s.respond id (.error e)
    | .ok ctx => s.await id (.validated req ctx)

/-- A write that ends early leaves what it has written, if it has got to its file. -/
def cutShort (files : Files) (content : Content) (written : Option ℕ) : Files :=
  written.elim files (writeOnce sha files content.toBytes)

/-- Its next call, and what it does with the result. -/
def proceed (s : State D) (id : ℕ) (now : Time) (result : Result) : Stage → State D
  | .validated req ctx =>
    match getTraceByDigest S.DATABASE_PROVIDER s.rows req.contextDigest result.failed with
    | .error e => s.respond id (.error e)
    | .ok cached =>
      match unexpired cached now with
      | some row => s.respond id (.ok (fromRow row ctx req))
      | none => s.await id (.missed req ctx)
  | .missed req ctx =>
    match result with
    | .returns =>
      let (files, pin) := LocalCas.pin sha publicBaseUrl s.files (.string req.canonicalJson)
      { s with files }.await id
        (.pinned req ctx pin.uri (toNumber (now.seconds + S.TRACE_ACK_TTL_SECONDS)))
    | .fails written =>
      { s with files := cutShort sha s.files (.string req.canonicalJson) written }.respond id
        (.error unhandled)
  | .pinned req ctx uri expiresAt =>
    let payload : Signer.TraceAckPayload :=
      { contextDigest := req.contextDigest
        uriHash := D.keccak.bytes (Js.encode uri)
        expiresAt
        agentId := req.agentId
        owner := req.owner }
    match Signer.signTraceAck D.keccak payload ctx S.traceAck with
    | none => s.respond id (.error unhandled)
    | some signature =>
      s.await id
        (.signed req ctx
          { contextDigest := req.contextDigest
            traceUri := uri
            uriHash := payload.uriHash
            agentId := some req.agentId
            owner := some req.owner
            traceJson := req.canonicalJson
            expiresAt
            signer := S.traceAck.address
            signature })
  | .signed req ctx row =>
    match insertTrace S.DATABASE_PROVIDER s.rows row result.failed with
    | .error e => s.respond id (.error e)
    | .ok rows => { s with rows }.respond id (.ok (fromRow row ctx req))

def step (s : State D) : Action D → State D
  | .chain a => { s with world := IntentGuard.step s.world a }
  | .post id body => if (s.posts id).isSome then s else receive S s id body
  | .next id now result =>
    match s.posts id with
    | none => s
    | some stage => proceed S sha publicBaseUrl s id now result stage
  | .pin content .returns => { s with files := (LocalCas.pin sha publicBaseUrl s.files content).1 }
  | .pin content (.fails written) => { s with files := cutShort sha s.files content written }
  | .stop torn =>
    { s with
      files := torn.elim s.files fun t => writeOnce sha s.files t.1.toBytes t.2
      posts := fun _ => none }

def start (g : Genesis D) : State D where
  world := init g
  rows := []
  files := LocalCas.empty
  posts := fun _ => none
  answers := []

/-! ### Events, payments and signatures -/

/-- What an action does to the content store. -/
def event : State D × Action D → Option LocalCas.Event
  | (s, .next id _ result) =>
    match s.posts id with
    | some (.missed req _) => result.event (.string req.canonicalJson)
    | _ => none
  | (_, .pin content result) => result.event content
  | (_, .stop (some (content, written))) => some (.stopped content written)
  | _ => none

/-- A payment that the executor makes under the service's key. -/
def paid : State D × Action D → Option ExecutionRequest
  | (s, .chain (.send tx)) =>
    match tx.call, exec s.world tx.sender tx.call with
    | .executeWithGuard req, .ok _ =>
      if s.world.executor.traceAckSigner = S.traceAck.address then some req else none
    | _, _ => none
  | _ => none

def onChain : Action D → Option (IntentGuard.Action D)
  | .chain a => some a
  | _ => none

/-- The digest that the guard recovers the signer of a request's acknowledgement from. -/
def ackDigest (req : ExecutionRequest) : Bytes32 :=
  GuardedExecutor.traceAckDigest D.keccak D.guardedExecutor D.chainid req.traceAck.contextDigest
    req.traceAck.uriHash
    req.traceAck.expiresAt req.agentId req.owner

/-- Whoever has an acknowledgement that is good under the service's key has it from an answer of the
service. -/
def Unforged (s : State D) (a : Action D) : Prop :=
  ∀ req, paid S (s, a) = some req → ∃ r, .ok r ∈ s.answers ∧
    r.signature = S.traceAck.sign (ackDigest (D := D) req)

/-- Where the content store has the text of a trace. -/
def place (req : TraceRequest) : JsString :=
  pinnedUri publicBaseUrl (sha.hex (Js.encode req.canonicalJson))

/-- The digest that the service signs for a request. -/
def signedDigest (req : TraceRequest) (ctx : Signer.TraceAckSignContext)
    (expiresAt : ℕ) : Bytes32 :=
  GuardedExecutor.traceAckDigest D.keccak ctx.guardedExecutor ctx.chainId req.contextDigest
    (D.keccak.bytes (Js.encode (place sha publicBaseUrl req)))
      (UInt64.ofNat expiresAt) req.agentId req.owner

/-! ### The invariant -/

/-- A trace that was posted, and that a pin has gone to the content store with. -/
structure Known (R : TraceRequest → Prop) (es : List LocalCas.Event) (req : TraceRequest) :
    Prop where
  posted : R req
  digest : D.keccak.bytes (Js.encode req.canonicalJson) = req.contextDigest
  pinned : .pin (.string req.canonicalJson) ∈ es

/-- The row is an acknowledgement of the request. -/
structure Acknowledges (req : TraceRequest) (row : TraceRow) : Prop where
  contextDigest : row.contextDigest = req.contextDigest
  traceUri : row.traceUri = place sha publicBaseUrl req
  traceJson : Js.encode row.traceJson = Js.encode req.canonicalJson
  signature : ∃ ctx, row.expiresAt < 2 ^ 64 ∧
    row.signature = S.traceAck.sign (signedDigest (D := D) sha publicBaseUrl req ctx row.expiresAt)

/-- The replay route finds the bytes of the trace. -/
def Kept (rows : List TraceRow) (req : TraceRequest) : Prop :=
  ∃ row, Table.find TraceRow.contextDigest req.contextDigest rows = some row ∧
    Js.encode row.traceJson = Js.encode req.canonicalJson

def Stage.Sound (R : TraceRequest → Prop) (es : List LocalCas.Event) : Stage → Prop
  | .validated req _ | .missed req _ =>
    R req ∧ D.keccak.bytes (Js.encode req.canonicalJson) = req.contextDigest
  | .pinned req _ uri _ => Known (D := D) R es req ∧ uri = place sha publicBaseUrl req
  | .signed req _ row => Known (D := D) R es req ∧ Acknowledges S sha publicBaseUrl req row

/-- What an answer has been signed for. -/
def Given (R : TraceRequest → Prop) (es : List LocalCas.Event) (rows : List TraceRow)
    (r : TraceResponse) : Prop :=
  ∃ req ctx, Known (D := D) R es req ∧ r.expiresAt < 2 ^ 64 ∧
    r.signature = S.traceAck.sign (signedDigest (D := D) sha publicBaseUrl req ctx r.expiresAt) ∧
      (S.DATABASE_PROVIDER = .sqlite → Kept rows req)

structure Inv (R : TraceRequest → Prop) (es : List LocalCas.Event) (s : State D) : Prop where
  posts : ∀ id stage, s.posts id = some stage → stage.Sound S sha publicBaseUrl R es
  rows : ∀ row ∈ s.rows, ∃ req, Known (D := D) R es req ∧ Acknowledges S sha publicBaseUrl req row
  answers : ∀ r, .ok r ∈ s.answers → Given S sha publicBaseUrl R es s.rows r

/-- The trace that a payment has been acknowledged for. -/
structure AcknowledgedFor (R : TraceRequest → Prop) (es : List LocalCas.Event)
    (rows : List TraceRow) (req : ExecutionRequest) (t : TraceRequest) : Prop where
  known : Known (D := D) R es t
  agentId : t.agentId = req.agentId
  owner : t.owner = req.owner
  contextDigest : t.contextDigest = req.traceAck.contextDigest
  traceURI : req.traceURI = Js.encode (place sha publicBaseUrl t)
  kept : S.DATABASE_PROVIDER = .sqlite → Kept rows t

section
variable {S sha publicBaseUrl} {R : TraceRequest → Prop} {es es' : List LocalCas.Event}
  {s : State D}

theorem Known.mono (hes : es ⊆ es') {req : TraceRequest} (h : Known (D := D) R es req) :
    Known (D := D) R es' req :=
  ⟨h.posted, h.digest, hes h.pinned⟩

theorem AcknowledgedFor.mono (hes : es ⊆ es') {rows rows' : List TraceRow} {req : ExecutionRequest}
    {t : TraceRequest} (h : AcknowledgedFor S sha publicBaseUrl R es rows req t)
    (hrows : Kept rows t → Kept rows' t) :
    AcknowledgedFor S sha publicBaseUrl R es' rows' req t :=
  ⟨h.known.mono hes, h.agentId, h.owner, h.contextDigest, h.traceURI,
    fun hsqlite => hrows (h.kept hsqlite)⟩

theorem Stage.Sound.mono (hes : es ⊆ es') {stage : Stage}
    (h : stage.Sound S sha publicBaseUrl R es) :
    stage.Sound S sha publicBaseUrl R es' := by
  cases stage with
  | validated => exact h
  | missed => exact h
  | pinned => exact ⟨h.1.mono hes, h.2⟩
  | signed => exact ⟨h.1.mono hes, h.2⟩

theorem Inv.mono (hes : es ⊆ es') (h : Inv S sha publicBaseUrl R es s) :
    Inv S sha publicBaseUrl R es' s where
  posts id stage hstage := (h.posts id stage hstage).mono hes
  rows row hrow := by
    obtain ⟨req, hknown, hack⟩ := h.rows row hrow
    exact ⟨req, hknown.mono hes, hack⟩
  answers r hr := by
    obtain ⟨req, ctx, hknown, hrest⟩ := h.answers r hr
    exact ⟨req, ctx, hknown.mono hes, hrest⟩

theorem Inv.await (h : Inv S sha publicBaseUrl R es s) {id : ℕ} {stage : Stage}
    (hstage : stage.Sound S sha publicBaseUrl R es) :
    Inv S sha publicBaseUrl R es (s.await id stage) where
  posts id' stage' hstage' := by
    simp only [State.await, update_apply] at hstage'
    split_ifs at hstage' with hid
    · obtain rfl := Option.some.inj hstage'
      exact hstage
    · exact h.posts id' stage' hstage'
  rows := h.rows
  answers := h.answers

theorem Inv.respond (h : Inv S sha publicBaseUrl R es s) {id : ℕ}
    {answer : Except HttpError TraceResponse}
    (hanswer : ∀ r, answer = .ok r → Given S sha publicBaseUrl R es s.rows r) :
    Inv S sha publicBaseUrl R es (s.respond id answer) where
  posts id' stage hstage := by
    simp only [State.respond, update_apply] at hstage
    split_ifs at hstage
    exact h.posts id' stage hstage
  rows := h.rows
  answers r hr := by
    rcases List.mem_append.1 hr with hr | hr
    · exact h.answers r hr
    · exact hanswer r (List.mem_singleton.1 hr).symm

theorem Known.text_eq (hK : Injective D.keccak.bytes) {req req' : TraceRequest}
    (h : Known (D := D) R es req)
    (h' : Known (D := D) R es req') (hdigest : req.contextDigest = req'.contextDigest) :
    Js.encode req.canonicalJson = Js.encode req'.canonicalJson :=
  hK (h.digest.trans (hdigest.trans h'.digest.symm))

/-- An insert writes its row, over one of the same digest only in part, or fails unnoticed. -/
theorem insertTrace_cases {provider : Provider} {rows rows' : List TraceRow} {row : TraceRow}
    {fails : Bool} (h : insertTrace provider rows row fails = .ok rows') :
    (provider = .supabase ∧ rows' = rows) ∨
      ∃ update : TraceRow → TraceRow, (∀ old, update old = row ∨ update old = refreshed row old) ∧
        rows' = Table.upsert TraceRow.contextDigest update row rows := by
  cases provider with
  | sqlite =>
    cases fails with
    | true => exact absurd h (by simp [insertTrace])
    | false => exact .inr ⟨refreshed row, fun _ => .inr rfl, (Except.ok.inj h).symm⟩
  | supabase =>
    cases fails with
    | true => exact .inl ⟨rfl, (Except.ok.inj h).symm⟩
    | false => exact .inr ⟨fun _ => row, fun _ => .inl rfl, (Except.ok.inj h).symm⟩

/-- Over a row of the same digest an acknowledgement is written with the same text. -/
theorem acknowledges_update (hK : Injective D.keccak.bytes) (h : Inv S sha publicBaseUrl R es s)
    {req : TraceRequest} {row old : TraceRow} (hknown : Known (D := D) R es req)
    (hack : Acknowledges S sha publicBaseUrl req row) (hold : old ∈ s.rows)
    (hkey : old.contextDigest = row.contextDigest) {update : TraceRow → TraceRow}
    (hupdate : update old = row ∨ update old = refreshed row old) :
    Acknowledges S sha publicBaseUrl req (update old) := by
  rcases hupdate with hupdate | hupdate
  · rw [hupdate]
    exact hack
  · obtain ⟨req', hknown', hack'⟩ := h.rows old hold
    have hdigest : req'.contextDigest = req.contextDigest :=
      hack'.contextDigest.symm.trans (hkey.trans hack.contextDigest)
    have htext := hack'.traceJson.trans (hknown'.text_eq hK hknown hdigest)
    rw [hupdate]
    exact ⟨hkey.trans hack.contextDigest, hack.traceUri, htext, hack.signature⟩

theorem update_contextDigest {row : TraceRow} {update : TraceRow → TraceRow}
    (hupdate : ∀ old, update old = row ∨ update old = refreshed row old) (old : TraceRow)
    (hkey : old.contextDigest = row.contextDigest) :
    (update old).contextDigest = row.contextDigest := by
  rcases hupdate old with heq | heq
  · rw [heq]
  · rw [heq]
    exact hkey

section
variable (hK : Injective D.keccak.bytes) (h : Inv S sha publicBaseUrl R es s) {req : TraceRequest}
  {row : TraceRow}
variable (hknown : Known (D := D) R es req) (hack : Acknowledges S sha publicBaseUrl req row)
include hK h hknown hack

/-- An insert leaves the text of its digest in the table. -/
theorem kept_upsert {update : TraceRow → TraceRow}
    (hupdate : ∀ old, update old = row ∨ update old = refreshed row old) :
    Kept (Table.upsert TraceRow.contextDigest update row s.rows) req := by
  have hfind := Table.find_upsert (update_contextDigest hupdate) req.contextDigest s.rows
  refine ⟨_, hfind.trans (if_pos hack.contextDigest), ?_⟩
  cases hold : Table.find TraceRow.contextDigest req.contextDigest s.rows with
  | none => exact hack.traceJson
  | some old =>
    have hkey := (Table.key_of_find _ hold).trans hack.contextDigest.symm
    exact (acknowledges_update hK h hknown hack (Table.mem_of_find _ hold) hkey
      (hupdate old)).traceJson

/-- And every text that was there. -/
theorem Kept.upsert {update : TraceRow → TraceRow}
    (hupdate : ∀ old, update old = row ∨ update old = refreshed row old) {t : TraceRequest}
    (ht : Known (D := D) R es t) (hkept : Kept s.rows t) :
    Kept (Table.upsert TraceRow.contextDigest update row s.rows) t := by
  by_cases hkey : row.contextDigest = t.contextDigest
  · have hdigest : req.contextDigest = t.contextDigest := hack.contextDigest.symm.trans hkey
    obtain ⟨row', hfind, htext⟩ := kept_upsert hK h hknown hack hupdate
    exact ⟨row', hdigest ▸ hfind, htext.trans (hknown.text_eq hK ht hdigest)⟩
  · obtain ⟨row', hrow, htext⟩ := hkept
    have hfind := Table.find_upsert (update_contextDigest hupdate) t.contextDigest s.rows
    exact ⟨row', hfind.trans ((if_neg hkey).trans hrow), htext⟩

/-- A row is written by the service only, and keeps the text of its digest. -/
theorem Inv.insert {fails : Bool} {rows : List TraceRow}
    (hinsert : insertTrace S.DATABASE_PROVIDER s.rows row fails = .ok rows) :
    (∀ t, Known (D := D) R es t → Kept s.rows t → Kept rows t) ∧
      Inv S sha publicBaseUrl R es { s with rows } ∧
      (S.DATABASE_PROVIDER = .sqlite → Kept rows req) := by
  rcases insertTrace_cases hinsert with ⟨hprovider, rfl⟩ | ⟨update, hupdate, rfl⟩
  · exact ⟨fun _ _ hkept => hkept, h, fun hsqlite => absurd (hprovider.symm.trans hsqlite) nofun⟩
  refine ⟨fun t ht hkept => hkept.upsert hK h hknown hack hupdate ht, ⟨h.posts, ?_, ?_⟩,
    fun _ => kept_upsert hK h hknown hack hupdate⟩
  · intro row' hrow'
    rcases Table.mem_upsert hrow' with rfl | hold | ⟨old, hold, hkey, rfl⟩
    · exact ⟨req, hknown, hack⟩
    · exact h.rows row' hold
    · exact ⟨req, hknown, acknowledges_update hK h hknown hack hold hkey (hupdate old)⟩
  · intro r hr
    obtain ⟨t, ctx, ht, hlt, hsignature, hrow⟩ := h.answers r hr
    exact ⟨t, ctx, ht, hlt, hsignature,
      fun hsqlite => (hrow hsqlite).upsert hK h hknown hack hupdate ht⟩

end

/-! ### One action -/

theorem rows_receive (s : State D) (id : ℕ) (body : Json) :
    (receive S s id body).rows = s.rows := by
  unfold receive
  split
  · rfl
  · split <;> rfl

theorem inv_receive (h : Inv S sha publicBaseUrl R es s) (id : ℕ) (body : Json)
    (hbody : ∀ req, validateTrace D.keccak body = .ok req → R req) :
    Inv S sha publicBaseUrl R es (receive S s id body) := by
  unfold receive
  cases hvalid : validateTrace D.keccak body with
  | error e => exact h.respond nofun
  | ok req =>
    cases S.resolveTraceAckContext with
    | error e => exact h.respond nofun
    | ok ctx => exact h.await ⟨hbody req hvalid, (contextDigest_of_validateTrace hvalid).symm⟩

theorem find_of_getTraceByDigest {provider : Provider} {rows : List TraceRow} {k : Bytes32}
    {fails : Bool} {row : TraceRow} (h : getTraceByDigest provider rows k fails = .ok (some row)) :
    Table.find TraceRow.contextDigest k rows = some row := by
  unfold getTraceByDigest at h
  split_ifs at h
  · cases provider <;> simp at h
  · exact Except.ok.inj h

/-- The next call of a request. -/
theorem inv_proceed (hK : Injective D.keccak.bytes) (h : Inv S sha publicBaseUrl R es s) {id : ℕ}
    {stage : Stage} (hstage : s.posts id = some stage) (now : Time) (result : Result) :
    (∀ t, Known (D := D) R es t → Kept s.rows t →
      Kept (proceed S sha publicBaseUrl s id now result stage).rows t) ∧
      Inv S sha publicBaseUrl R (es ++ (event (s, .next id now result)).toList)
        (proceed S sha publicBaseUrl s id now result stage) := by
  have hsound := h.posts id stage hstage
  have hmono := h.mono (List.subset_append_left es (event (s, .next id now result)).toList)
  cases stage with
  | validated req ctx =>
    simp only [proceed]
    cases hget : getTraceByDigest S.DATABASE_PROVIDER s.rows req.contextDigest result.failed with
    | error e => exact ⟨fun _ _ hkept => hkept, hmono.respond nofun⟩
    | ok cached =>
      dsimp only
      cases hrow : unexpired cached now with
      | none => exact ⟨fun _ _ hkept => hkept, hmono.await hsound⟩
      | some row =>
        refine ⟨fun _ _ hkept => hkept, hmono.respond ?_⟩
        rintro r hr
        obtain rfl := Except.ok.inj hr
        obtain ⟨rfl, -⟩ := Option.filter_eq_some_iff.1 hrow
        have hfind := find_of_getTraceByDigest hget
        obtain ⟨t, hknown, hack⟩ := hmono.rows row (Table.mem_of_find _ hfind)
        obtain ⟨ctx', hlt, hsignature⟩ := hack.signature
        have hdigest : req.contextDigest = t.contextDigest :=
          (Table.key_of_find _ hfind).symm.trans hack.contextDigest
        exact ⟨t, ctx', hknown, hlt, hsignature, fun _ => ⟨row, hdigest ▸ hfind, hack.traceJson⟩⟩
  | missed req ctx =>
    have hevent : event (s, .next id now result) = result.event (.string req.canonicalJson) := by
      simp only [event, hstage]
    rw [hevent] at hmono ⊢
    cases result with
    | fails written =>
      have htorn : Inv S sha publicBaseUrl R
          (es ++ (written.map (.stopped (.string req.canonicalJson))).toList)
          { s with files := cutShort sha s.files (.string req.canonicalJson) written } :=
        ⟨hmono.posts, hmono.rows, hmono.answers⟩
      exact ⟨fun _ _ hkept => hkept, htorn.respond nofun⟩
    | returns =>
      have hpinned : Inv S sha publicBaseUrl R (es ++ [.pin (.string req.canonicalJson)])
          { s with
            files := (LocalCas.pin sha publicBaseUrl s.files (.string req.canonicalJson)).1 } :=
        ⟨hmono.posts, hmono.rows, hmono.answers⟩
      refine ⟨fun _ _ hkept => hkept, hpinned.await ⟨⟨hsound.1, hsound.2, ?_⟩, rfl⟩⟩
      exact List.mem_append_right _ (List.mem_singleton_self _)
  | pinned req ctx uri expiresAt =>
    obtain ⟨hknown, rfl⟩ := hsound
    simp only [proceed, Signer.signTraceAck]
    split_ifs with hlt
    · refine ⟨fun _ _ hkept => hkept, hmono.await ⟨hknown.mono (List.subset_append_left _ _), rfl,
        rfl, rfl, ctx, hlt, ?_⟩⟩
      rw [Signer.traceAckDigest_eq _ _ _ hlt]
      rfl
    · exact ⟨fun _ _ hkept => hkept, hmono.respond nofun⟩
  | signed req ctx row =>
    obtain ⟨hknown, hack⟩ := hsound
    simp only [proceed]
    cases hinsert : insertTrace S.DATABASE_PROVIDER s.rows row result.failed with
    | error e => exact ⟨fun _ _ hkept => hkept, hmono.respond nofun⟩
    | ok rows =>
      obtain ⟨hkept, hinv, hwritten⟩ := h.insert hK hknown hack hinsert
      obtain ⟨ctx', hlt, hsignature⟩ := hack.signature
      refine ⟨hkept, (hinv.mono (List.subset_append_left _ _)).respond ?_⟩
      rintro r hr
      obtain rfl := Except.ok.inj hr
      exact ⟨req, ctx', hknown.mono (List.subset_append_left _ _), hlt, hsignature, hwritten⟩

theorem inv_step (hK : Injective D.keccak.bytes) (h : Inv S sha publicBaseUrl R es s) (a : Action D)
    (ha : ∀ id body, a = .post id body → ∀ req, validateTrace D.keccak body = .ok req → R req) :
    (∀ t, Known (D := D) R es t → Kept s.rows t → Kept (step S sha publicBaseUrl s a).rows t) ∧
      Inv S sha publicBaseUrl R (es ++ (event (s, a)).toList) (step S sha publicBaseUrl s a) := by
  have hmono := h.mono (List.subset_append_left es (event (s, a)).toList)
  cases a with
  | chain a => exact ⟨fun _ _ hkept => hkept, hmono.posts, hmono.rows, hmono.answers⟩
  | post id body =>
    simp only [step]
    split_ifs
    · exact ⟨fun _ _ hkept => hkept, hmono⟩
    · refine ⟨?_, inv_receive hmono id body (ha id body rfl)⟩
      intro t _ hkept
      rwa [rows_receive]
  | next id now result =>
    simp only [step]
    cases hstage : s.posts id with
    | none => exact ⟨fun _ _ hkept => hkept, hmono⟩
    | some stage => exact inv_proceed hK h hstage now result
  | pin content result =>
    cases result <;> exact ⟨fun _ _ hkept => hkept, hmono.posts, hmono.rows, hmono.answers⟩
  | stop torn =>
    exact ⟨fun _ _ hkept => hkept, fun _ _ hstage => absurd hstage nofun, hmono.rows, hmono.answers⟩

/-! ### What the guard accepts -/

theorem paid_cases {a : Action D} {req : ExecutionRequest} (h : paid S (s, a) = some req) :
    ∃ tx w', a = .chain (.send tx) ∧ tx.call = .executeWithGuard req ∧
      exec s.world tx.sender tx.call = .ok w' := by
  unfold paid at h
  split at h
  · rename_i heq
    obtain ⟨rfl, rfl⟩ := Prod.mk.inj heq
    split at h
    · rename_i hcall hexec
      split_ifs at h
      obtain rfl := Option.some.inj h
      exact ⟨_, _, rfl, hcall, hexec⟩
    · exact absurd h nofun
  · exact absurd h nofun

/-- The guard has compared the hash of the URI. -/
theorem uriHash_of_ack {w : World D} {req : ExecutionRequest}
    (h : GuardedExecutor.checkTraceAck w req = (.GREEN, 0)) :
    D.keccak.bytes req.traceURI = req.traceAck.uriHash := by
  unfold GuardedExecutor.checkTraceAck at h
  dsimp only at h
  split_ifs at h with hexpired huri
  · simp at h
  · simp at h
  · simp at h
  · exact not_not.1 huri

/-- A payment under the service's key goes with an acknowledgement that the service has signed. -/
theorem paid_acknowledged (hcf : D.keccak.CollisionFree) (h : Inv S sha publicBaseUrl R es s)
    {a : Action D} (hunforged : Unforged S s a) {req : ExecutionRequest}
    (hpaid : paid S (s, a) = some req) :
    ∃ t, AcknowledgedFor S sha publicBaseUrl R es s.rows req t := by
  obtain ⟨tx, w', rfl, hcall, hexec⟩ := paid_cases hpaid
  rw [hcall] at hexec
  cases effect_of_exec hexec with
  | executeWithGuard hguard =>
    obtain ⟨r, hr, hsignature⟩ := hunforged req hpaid
    obtain ⟨t, ctx, hknown, hlt, hsignature', hkept⟩ := h.answers r hr
    have hdigest := S.traceAck.sign_injective (hsignature'.symm.trans hsignature)
    let asked : Signer.TraceAckPayload :=
      ⟨t.contextDigest, D.keccak.bytes (Js.encode (place sha publicBaseUrl t)), r.expiresAt,
        t.agentId, t.owner⟩
    let checked : Signer.TraceAckPayload :=
      ⟨req.traceAck.contextDigest, req.traceAck.uriHash, req.traceAck.expiresAt.toNat,
        req.agentId, req.owner⟩
    have hbound :=
      Signer.guardDigest_injective hcf asked checked ctx ⟨D.guardedExecutor, D.chainid⟩ hlt
      req.traceAck.expiresAt.toNat_lt (by rw [UInt64.ofNat_toNat]; exact hdigest)
    simp only [asked, checked, Signer.TraceAckPayload.mk.injEq] at hbound
    obtain ⟨⟨hcontext, huri, -, hagent, howner⟩, -⟩ := hbound
    exact ⟨t, hknown, hagent, howner, hcontext,
      hcf.bytes ((uriHash_of_ack hguard.ack).trans huri.symm), hkept⟩

/-! ### Along a run -/

/-- A request touches neither the chain nor, but for its pin, the content store. -/
theorem parts_receive (s : State D) (id : ℕ) (body : Json) :
    (receive S s id body).files = s.files ∧ (receive S s id body).world = s.world := by
  unfold receive
  split
  · exact ⟨rfl, rfl⟩
  · split <;> exact ⟨rfl, rfl⟩

theorem parts_step (s : State D) (a : Action D) :
    (step S sha publicBaseUrl s a).files =
      (event (s, a)).elim s.files (LocalCas.step sha publicBaseUrl s.files) ∧
      (step S sha publicBaseUrl s a).world =
        (onChain a).elim s.world (IntentGuard.step s.world) := by
  cases a with
  | chain a => exact ⟨rfl, rfl⟩
  | post id body =>
    simp only [step]
    split_ifs
    · exact ⟨rfl, rfl⟩
    · exact parts_receive s id body
  | next id now result =>
    simp only [step, event]
    cases hstage : s.posts id with
    | none => exact ⟨rfl, rfl⟩
    | some stage =>
      cases stage with
      | validated req ctx =>
        simp only [proceed]
        split
        · exact ⟨rfl, rfl⟩
        · split <;> exact ⟨rfl, rfl⟩
      | missed req ctx =>
        cases result with
        | returns => exact ⟨rfl, rfl⟩
        | fails written => cases written <;> exact ⟨rfl, rfl⟩
      | pinned req ctx uri expiresAt =>
        simp only [proceed]
        split <;> exact ⟨rfl, rfl⟩
      | signed req ctx row =>
        simp only [proceed]
        split <;> exact ⟨rfl, rfl⟩
  | pin content result =>
    cases result with
    | returns => exact ⟨rfl, rfl⟩
    | fails written => cases written <;> exact ⟨rfl, rfl⟩
  | stop torn => cases torn <;> exact ⟨rfl, rfl⟩

theorem files_run (g : Genesis D) (as : List (Action D)) :
    (run (step S sha publicBaseUrl) (start g) as).files =
      run (LocalCas.step sha publicBaseUrl) LocalCas.empty
        ((visits (step S sha publicBaseUrl) (start g) as).filterMap event) := by
  refine project_run State.files event (LocalCas.step sha publicBaseUrl) (start g) ?_ ?_ as
  · intro s a hquiet
    rw [(parts_step s a).1, hquiet]
    rfl
  · intro s a e hseen
    rw [(parts_step s a).1, hseen]
    rfl

/-- The chain of a run is a run of the chain. -/
theorem world_run (s : State D) (as : List (Action D)) :
    (run (step S sha publicBaseUrl) s as).world =
      run IntentGuard.step s.world (as.filterMap onChain) :=
  component_run State.world onChain IntentGuard.step (fun s a => (parts_step s a).2) s as

/-! ### A request that nothing interrupts -/

theorem step_respond (s : State D) (id : ℕ) (answer : Except HttpError TraceResponse) (now : Time)
    (result : Result) :
    step S sha publicBaseUrl (s.respond id answer) (.next id now result) = s.respond id answer := by
  simp only [step, State.respond, update_self]

theorem step_await (s : State D) (id : ℕ) (stage : Stage) (now : Time) (result : Result) :
    step S sha publicBaseUrl (s.await id stage) (.next id now result) =
      proceed S sha publicBaseUrl (s.await id stage) id now result stage := by
  simp only [step, State.await, update_self]

@[simp] theorem await_await (s : State D) (id : ℕ) (stage stage' : Stage) :
    (s.await id stage).await id stage' = s.await id stage' := by
  simp only [State.await, update_idem]

@[simp] theorem await_respond (s : State D) (id : ℕ) (stage : Stage)
    (answer : Except HttpError TraceResponse) :
    (s.await id stage).respond id answer = s.respond id answer := by
  simp only [State.await, State.respond, update_idem]

/-- The table and the answer that a request ends with. -/
def Ends (s : State D) (rows : List TraceRow) (answers : List (Except HttpError TraceResponse))
    (out : Except HttpError (List TraceRow × TraceResponse)) : Prop :=
  s.rows = (out.toOption.map Prod.fst).getD rows ∧ s.answers = answers ++ [out.map Prod.snd]

theorem ends_signed (s : State D) (id : ℕ) (req : TraceRequest) (ctx : Signer.TraceAckSignContext)
    (row : TraceRow) (now : Time) (inserted : Result) :
    Ends (step S sha publicBaseUrl (s.await id (.signed req ctx row)) (.next id now inserted))
      s.rows s.answers
      (do let rows ← insertTrace S.DATABASE_PROVIDER s.rows row inserted.failed
          pure (rows, fromRow row ctx req)) := by
  rw [step_await]
  simp only [proceed]
  have hrows : (s.await id (.signed req ctx row)).rows = s.rows := rfl
  rw [hrows]
  cases insertTrace S.DATABASE_PROVIDER s.rows row inserted.failed with
  | error e => exact ⟨rfl, rfl⟩
  | ok rows => exact ⟨rfl, rfl⟩

theorem ends_pinned (s : State D) (id : ℕ) (req : TraceRequest) (ctx : Signer.TraceAckSignContext)
    (uri : JsString) (expiresAt : ℕ) (now : Time) (signed inserted : Result) :
    Ends
      (step S sha publicBaseUrl
        (step S sha publicBaseUrl (s.await id (.pinned req ctx uri expiresAt))
          (.next id now signed)) (.next id now inserted))
      s.rows s.answers
      (do let signature ← orThrow unhandled (Signer.signTraceAck D.keccak
            ⟨req.contextDigest, D.keccak.bytes (Js.encode uri), expiresAt, req.agentId,
              req.owner⟩ ctx S.traceAck)
          let row : TraceRow :=
            ⟨req.contextDigest, uri, D.keccak.bytes (Js.encode uri), some req.agentId,
              some req.owner, req.canonicalJson, expiresAt, S.traceAck.address, signature⟩
          let rows ← insertTrace S.DATABASE_PROVIDER s.rows row inserted.failed
          pure (rows, fromRow row ctx req)) := by
  rw [step_await]
  simp only [proceed]
  cases Signer.signTraceAck D.keccak
    ⟨req.contextDigest, D.keccak.bytes (Js.encode uri), expiresAt, req.agentId,
      req.owner⟩ ctx S.traceAck with
  | none =>
    simp only [step_respond]
    exact ⟨rfl, rfl⟩
  | some signature =>
    simp only [await_await]
    exact ends_signed s id req ctx _ now inserted

theorem ends_missed (s : State D) (id : ℕ) (req : TraceRequest) (ctx : Signer.TraceAckSignContext)
    (now : Time) (pinned signed inserted : Result) :
    Ends
      (step S sha publicBaseUrl
        (step S sha publicBaseUrl
          (step S sha publicBaseUrl (s.await id (.missed req ctx)) (.next id now pinned))
            (.next id now signed))
        (.next id now inserted))
      s.rows s.answers
      (do let uri ← orThrow unhandled
            (if pinned.failed then none else some (place sha publicBaseUrl req))
          let expiresAt := toNumber (now.seconds + S.TRACE_ACK_TTL_SECONDS)
          let signature ← orThrow unhandled (Signer.signTraceAck D.keccak
            ⟨req.contextDigest, D.keccak.bytes (Js.encode uri), expiresAt, req.agentId,
              req.owner⟩ ctx S.traceAck)
          let row : TraceRow :=
            ⟨req.contextDigest, uri, D.keccak.bytes (Js.encode uri), some req.agentId,
              some req.owner, req.canonicalJson, expiresAt, S.traceAck.address, signature⟩
          let rows ← insertTrace S.DATABASE_PROVIDER s.rows row inserted.failed
          pure (rows, fromRow row ctx req)) := by
  rw [step_await]
  cases pinned with
  | fails written =>
    simp only [proceed, step_respond]
    exact ⟨rfl, rfl⟩
  | returns =>
    have hpinned :
        proceed S sha publicBaseUrl (s.await id (.missed req ctx)) id now .returns
            (.missed req ctx) =
          State.await
            { s with
              files := (LocalCas.pin sha publicBaseUrl s.files (.string req.canonicalJson)).1 }
            id
            (.pinned req ctx (place sha publicBaseUrl req)
              (toNumber (now.seconds + S.TRACE_ACK_TTL_SECONDS))) := by
      simp only [proceed, State.await, update_idem]
      rfl
    rw [hpinned]
    exact ends_pinned _ id req ctx _ _ now signed inserted

def Result.ofFails (fails : Bool) : Result := if fails then .fails none else .returns

@[simp] theorem Result.failed_ofFails (fails : Bool) : (Result.ofFails fails).failed = fails := by
  cases fails <;> rfl

/-- The calls of one request. -/
def uninterrupted (id : ℕ) (c : TraceCall) : List (Action D) :=
  [.post id c.body, .next id c.lookupTime (.ofFails c.lookupFails),
    .next id c.signTime (.ofFails c.pin.isNone), .next id c.signTime .returns,
    .next id c.signTime (.ofFails c.insertFails)]

/-- A request that nothing interrupts is one of the service's. -/
theorem ends_uninterrupted {id : ℕ} (hidle : s.posts id = none) (c : TraceCall)
    (hpin : ∀ req uri, validateTrace D.keccak c.body = .ok req → c.pin = some uri →
      uri = place sha publicBaseUrl req) :
    Ends (run (step S sha publicBaseUrl) s (uninterrupted id c)) s.rows s.answers
      (S.post s.rows c) := by
  have hpost : step S sha publicBaseUrl s (.post id c.body) = receive S s id c.body := by
    simp [step, hidle]
  simp only [uninterrupted, run_cons, run_nil, hpost]
  unfold receive TraceService.post
  cases hvalid : validateTrace D.keccak c.body with
  | error e =>
    simp only [step_respond]
    exact ⟨rfl, rfl⟩
  | ok req =>
    cases hctx : S.resolveTraceAckContext with
    | error e =>
      simp only [step_respond]
      exact ⟨rfl, rfl⟩
    | ok ctx =>
      dsimp only
      rw [step_await]
      simp only [proceed, await_respond, await_await, Result.failed_ofFails]
      have hrows : (s.await id (.validated req ctx)).rows = s.rows := rfl
      rw [hrows]
      cases hget : getTraceByDigest S.DATABASE_PROVIDER s.rows req.contextDigest c.lookupFails with
      | error e =>
        simp only [step_respond, bind, Except.bind, hget]
        exact ⟨rfl, rfl⟩
      | ok cached =>
        cases hcached : unexpired cached c.lookupTime with
        | some row =>
          simp only [step_respond, bind, Except.bind, hget, hcached]
          exact ⟨rfl, rfl⟩
        | none =>
          have huri : c.pin = if c.pin.isNone then none
              else some (place sha publicBaseUrl req) := by
            cases huri : c.pin with
            | none => rfl
            | some uri =>
              rw [hpin req uri hvalid huri]
              rfl
          have hends := @ends_missed D S sha publicBaseUrl s id req ctx c.signTime
            (.ofFails c.pin.isNone) .returns
            (.ofFails c.insertFails)
          rw [Result.failed_ofFails, Result.failed_ofFails, ← huri] at hends
          simp only [bind, Except.bind, hget, hcached] at hends ⊢
          exact hends

/-- One of the requests of a run was for this trace. -/
def Posted (as : List (Action D)) (req : TraceRequest) : Prop :=
  ∃ id body, .post id body ∈ as ∧ validateTrace D.keccak body = .ok req

theorem paid_run (hcf : D.keccak.CollisionFree) (g : Genesis D) (as : List (Action D))
    (hunforged : ∀ v ∈ visits (step S sha publicBaseUrl) (start g) as, Unforged S v.1 v.2) :
    ∀ v ∈ visits (step S sha publicBaseUrl) (start g) as, ∀ req, paid S v = some req →
      ∃ t, AcknowledgedFor S sha publicBaseUrl (Posted as)
        ((visits (step S sha publicBaseUrl) (start g) as).filterMap event)
        (run (step S sha publicBaseUrl) (start g) as).rows req t := by
  refine (Runs.history_induction
    (C := fun s a => Unforged S s a ∧
      ∀ id body, a = .post id body → ∀ req, validateTrace D.keccak body = .ok req → Posted as req)
    (J := fun h s => Inv S sha publicBaseUrl (Posted as) (h.filterMap event) s ∧
      ∀ v ∈ h, ∀ req, paid S v = some req →
        ∃ t, AcknowledgedFor S sha publicBaseUrl (Posted as) (h.filterMap event) s.rows req t)
    ?_ ?_ as ?_).2
  · exact ⟨⟨fun _ _ hstage => absurd hstage nofun, fun _ hrow => absurd hrow List.not_mem_nil,
      fun _ hr => absurd hr List.not_mem_nil⟩, fun _ hv => absurd hv List.not_mem_nil⟩
  · rintro h s a - ⟨hI, hpaid⟩ ⟨hunforged, hposted⟩
    have hevents : (h ++ [(s, a)]).filterMap event = h.filterMap event ++
        (event (s, a)).toList := by
      rw [List.filterMap_append, List.filterMap_eq_flatMap_toList event [(s, a)],
        List.flatMap_singleton]
    obtain ⟨hkept, hnext⟩ := inv_step hcf.bytes hI a hposted
    rw [hevents]
    refine ⟨hnext, ?_⟩
    intro v hv req hreq
    have hbefore :
        ∃ t, AcknowledgedFor S sha publicBaseUrl (Posted as) (h.filterMap event) s.rows req t := by
      rcases List.mem_append.1 hv with hv | hv
      · exact hpaid v hv req hreq
      · obtain rfl := List.mem_singleton.1 hv
        exact paid_acknowledged hcf hI hunforged hreq
    obtain ⟨t, ht⟩ := hbefore
    exact ⟨t, ht.mono (List.subset_append_left _ _) (hkept t ht.known)⟩
  · intro v hv
    refine ⟨hunforged v hv, ?_⟩
    rintro id body ha req hvalid
    exact ⟨id, body, ha ▸ snd_mem_of_mem_visits hv, hvalid⟩

/-- What a payment leaves on the chain stays there. -/
theorem paid_later {g : Genesis D} {w w' : World D} (hwords : Injective D.keccak.words)
    (hr : IntentGuard.Reachable g w) {tx : Tx D} {req : ExecutionRequest}
    (hcall : tx.call = .executeWithGuard req) (hexec : exec w tx.sender tx.call = .ok w')
    (as : List (IntentGuard.Action D)) :
    (run IntentGuard.step w' as).executor.receipts (nextReceiptId w req) = receiptOf w req ∧
      .TraceURIStored (nextReceiptId w req) req.traceURI ∈ (run IntentGuard.step w' as).logs := by
  have hr' : IntentGuard.Reachable g w' := by
    have hnext := hr.next (.send tx)
    rwa [IntentGuard.step, apply_of_ok hexec] at hnext
  rw [hcall] at hexec
  cases effect_of_exec hexec with
  | executeWithGuard hguard =>
    constructor
    · have hself : (executed w req).receipts (nextReceiptId w req) = receiptOf w req :=
        executed_receipts_self
      refine (receipts_later hwords hr' as ?_).trans hself
      exact (congrArg ReceiptSummary.timestamp hself).trans_ne
        (hguard.timestamp_ne_zero (basics hr).now_pos)
    · exact (logs_later hr' as).subset (by simp)

variable (S sha publicBaseUrl) in
/-- What is there of a payment that was made in `w`, when these events have made the files. -/
structure Behind (es : List LocalCas.Event) (s : State D) (w : World D) (req : ExecutionRequest)
    (t : TraceRequest) :
    Prop where
  agentId : t.agentId = req.agentId
  owner : t.owner = req.owner
  receipt : s.world.executor.receipts (nextReceiptId w req) = receiptOf w req
  digest : (receiptOf w req).contextDigest = D.keccak.bytes (Js.encode t.canonicalJson)
  logged : .TraceURIStored (nextReceiptId w req) (Js.encode (place sha publicBaseUrl t)) ∈
    s.world.logs
  stored : S.DATABASE_PROVIDER = .sqlite → ∃ row,
    getTraceByDigest .sqlite s.rows (receiptOf w req).contextDigest false = .ok (some row) ∧
      Js.encode row.traceJson = Js.encode t.canonicalJson
  replayed : S.DATABASE_PROVIDER = .sqlite →
    ∀ param, hexLiteral 64 param = some (receiptOf w req).contextDigest →
    (Rederivable D.keccak .sqlite s.rows param (receiptOf w req).contextDigest ↔
      Canonical t.canonicalJson)
  served : Served sha publicBaseUrl s.files (.string t.canonicalJson) ↔
    ∀ e ∈ es.find? (fun e => e.bytes = Js.encode t.canonicalJson), e.Whole

/-- Behind every payment under the service's key there is a trace that was posted for it, from then
on and for good. -/
theorem evidence (hcf : D.keccak.CollisionFree) (g : Genesis D) (as : List (Action D))
    {es : List LocalCas.Event}
    (hes : (visits (step S sha publicBaseUrl) (start g) as).filterMap event = es)
    (hsha : ∀ e ∈ es, ∀ e' ∈ es, sha.hex e.bytes = sha.hex e'.bytes → e.bytes = e'.bytes)
    (hunforged : ∀ v ∈ visits (step S sha publicBaseUrl) (start g) as, Unforged S v.1 v.2)
    {s : State D} {a : Action D} (hv : (s, a) ∈ visits (step S sha publicBaseUrl) (start g) as)
    {req : ExecutionRequest} (hpaid : paid S (s, a) = some req) :
    ∃ t, Posted as t ∧
      Behind S sha publicBaseUrl es (run (step S sha publicBaseUrl) (start g) as)
        s.world req t := by
  subst hes
  obtain ⟨t, ht⟩ := paid_run hcf g as hunforged _ hv req hpaid
  obtain ⟨tx, w', rfl, hcall, hexec⟩ := paid_cases hpaid
  obtain ⟨as₁, as₂, has, hbefore⟩ := exists_split_of_mem_visits hv
  replace hbefore : run (step S sha publicBaseUrl) (start g) as₁ = s := hbefore
  have hworld : (run (step S sha publicBaseUrl) (start g) as).world =
      run IntentGuard.step w' (as₂.filterMap onChain) := by
    rw [has, run_append, run_cons, hbefore, world_run]
    exact congrArg (run IntentGuard.step · _) (apply_of_ok hexec)
  have hr : IntentGuard.Reachable g s.world := by
    rw [← hbefore, world_run]
    exact reachable_run _ _
  obtain ⟨hreceipt, hlogged⟩ := paid_later hcf.words hr hcall hexec (as₂.filterMap onChain)
  have hdigest := ht.contextDigest.symm.trans ht.known.digest.symm
  have hrow : S.DATABASE_PROVIDER = .sqlite → ∃ row,
      Table.find TraceRow.contextDigest (receiptOf s.world req).contextDigest
        (run (step S sha publicBaseUrl) (start g) as).rows = some row ∧
        Js.encode row.traceJson = Js.encode t.canonicalJson := by
    intro hsqlite
    obtain ⟨row, hfind, htext⟩ := ht.kept hsqlite
    rw [ht.contextDigest] at hfind
    exact ⟨row, hfind, htext⟩
  refine ⟨t, ht.known.posted, ht.agentId, ht.owner, ?_, hdigest, ?_, ?_, ?_, ?_⟩
  · rw [hworld]
    exact hreceipt
  · rw [hworld, ← ht.traceURI]
    exact hlogged
  · intro hsqlite
    obtain ⟨row, hfind, htext⟩ := hrow hsqlite
    exact ⟨row, congrArg Except.ok hfind, htext⟩
  · intro hsqlite param hparam
    obtain ⟨row, hfind, htext⟩ := hrow hsqlite
    have hkey : row.contextDigest = D.keccak.bytes (Js.encode row.traceJson) := by
      rw [Table.key_of_find _ hfind, htext]
      exact hdigest
    rw [rederivable_iff_canonical hcf hparam hfind hkey]
    unfold Canonical
    rw [htext]
  · rw [files_run]
    exact served_iff_whole hsha ht.known.pinned

end

end IntentGuard.Infra.Evidence

namespace IntentGuard.Localnet

open Js Infra LocalCas Evidence

theorem day10_bounded : 864000000 ≤ 8640000000000000 := by decide

def day10 : Time := ⟨864000000, day10_bounded⟩

def cas : JsString := text "http://localhost:8787"

/-- The trace `{}` is posted for alice and, while that request is served, for the merchant. -/
def racedTraces : List (Evidence.Action localnet) :=
  (setUp 50000000).map .chain ++
    [.post 0 (postTrace alice).body, .post 1 (postTrace merchant).body, .next 0 day10 .returns,
      .next 1 day10 .returns, .next 1 day10 .returns, .next 0 day10 .returns,
      .next 0 day10 .returns,
      .next 0 day10 .returns, .chain (.elapse 60)]

/-- A payment with the acknowledgement that the service has given alice's agent. -/
def acknowledgedPayment : ExecutionRequest where
  owner := alice
  agentId := agent
  target := merchant
  token := 1
  amount := 15000000
  data := []
  traceURI := Js.encode (pinnedUri cas (sha256.hex (utf8 "{}")))
  traceAck :=
    { contextDigest := localnet.keccak.bytes (utf8 "{}")
      uriHash := localnet.keccak.bytes (Js.encode (pinnedUri cas (sha256.hex (utf8 "{}"))))
      expiresAt := 864600
      signature :=
        traceKey.sign
          (GuardedExecutor.traceAckDigest localnet.keccak localnet.guardedExecutor localnet.chainid
            (localnet.keccak.bytes (utf8 "{}"))
              (localnet.keccak.bytes (Js.encode (pinnedUri cas (sha256.hex (utf8 "{}")))))
            864600 agent alice) }

/-- The delegate pays with it. -/
def pays : Evidence.Action localnet :=
  .chain (send delegate (.executeWithGuard acknowledgedPayment) delegate_external)

end IntentGuard.Localnet

namespace IntentGuard.Infra.Evidence

open Function Js Runs LocalCas Localnet

theorem paid_pays :
    paid traceService (run (step traceService sha256 cas) (start genesis) racedTraces, pays) =
      some acknowledgedPayment := by
  decide +kernel

/-- The only payment of the run is the last action, with a signature that has been given out. -/
theorem unforged_racedTraces :
    ∀ v ∈ visits (step traceService sha256 cas) (start genesis) (racedTraces ++ [pays]),
      Unforged traceService v.1 v.2 := by
  have hunpaid : (visits (step traceService sha256 cas) (start genesis) racedTraces).all
      fun v => (paid traceService v).isNone := by
    decide +kernel
  have hgiven : (run (step traceService sha256 cas) (start genesis) racedTraces).answers.any
      fun answer => (answer.toOption.map TraceResponse.signature) =
        some acknowledgedPayment.traceAck.signature := by
    decide +kernel
  intro v hv req hpaid
  rw [visits_concat] at hv
  rcases List.mem_append.1 hv with hv | hv
  · have hnone := Option.isNone_iff_eq_none.1 (List.all_eq_true.1 hunpaid v hv)
    exact absurd (hnone.symm.trans hpaid) (by simp)
  · rw [List.mem_singleton.1 hv] at hpaid ⊢
    obtain rfl := Option.some.inj (paid_pays.symm.trans hpaid)
    obtain ⟨answer, hmem, hsignature⟩ := List.any_eq_true.1 hgiven
    obtain ⟨r, hr, hsignature⟩ := Option.map_eq_some_iff.1 (of_decide_eq_true hsignature)
    refine ⟨r, ?_, hsignature⟩
    cases answer with
    | error e => exact absurd hr (by simp [Except.toOption])
    | ok r' =>
      obtain rfl := Option.some.inj hr
      exact hmem

/-- The two requests write the same file, and no write of it is torn. -/
theorem evidence_racedTraces :
    ∃ es s t, (∀ e ∈ es, e.Whole) ∧ Posted (racedTraces ++ [pays]) t ∧
      Behind traceService sha256 cas es
        (run (step traceService sha256 cas) (start genesis) (racedTraces ++ [pays])) s
          acknowledgedPayment t := by
  have hevents :
      ((visits (step traceService sha256 cas) (start genesis) (racedTraces ++ [pays])).filterMap
        event).all
      fun e => e.bytes = utf8 "{}" ∧ e.bytes.length ≤ e.written := by
    decide +kernel
  have hall := fun e he => of_decide_eq_true (List.all_eq_true.1 hevents e he)
  obtain ⟨t, hposted, hbehind⟩ :=
    evidence Keccak.numbering_collisionFree genesis (racedTraces ++ [pays]) rfl
    (fun e he e' he' _ => (hall e he).1.trans (hall e' he').1.symm) unforged_racedTraces
    (by rw [visits_concat]; exact List.mem_append_right _ List.mem_cons_self) paid_pays
  exact ⟨_, _, t, fun e he => (hall e he).2, hposted, hbehind⟩

end IntentGuard.Infra.Evidence
