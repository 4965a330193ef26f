import IntentGuard.Infra.Decoder
import IntentGuard.Infra.Executions
import IntentGuard.Infra.Manifest

/-!
# Live events

`GET /v1/events?owner=…` of `sse.ts`, and `emitEvent`, which writes an event to the connected
clients. `LiveService.step` is the service as far as the events go: the indexer handles a log, a
request for an execution is handled, a client connects, a connection closes. A handler stands where
it emits its event: what it waits for before that is in the action. The heartbeats are comments of
the stream and are left out; a restart closes every connection.

What an action announces does not depend on what the service has stored: a log's event is its
`announcement` (`emitted_handleLog`), and so is that of a request whose id is free
(`exists_emitted_post`).
-/

namespace IntentGuard.Infra

open Js

/-! ### Messages -/

/-- The argument of `emitEvent`. -/
structure SSEMessage where
  type : JsString
  data : List (JsString × Json)

/-- A number whose value is a natural number. -/
def jsonNumber (n : ℕ) : Json :=
  match (Decimal.ofScaled false n 0).round with
  | some x => .number x
  | none => .infinity false

/-- The client's decoding of an `address` argument. -/
def checksumAddress (A : AddressChecksum) (a : Address) : JsString :=
  (A.getAddress (toHex 40 a)).getD (toHex 40 a)

def SSEEvent.message (A : AddressChecksum) : SSEEvent → SSEMessage
  | .receiptCreated receiptId owner agentId amount timestamp =>
    { type := text "receipt.created"
      data :=
        [(text "receiptId", .string (toHex 64 receiptId)),
          (text "owner", .string (checksumAddress A owner)),
          (text "agentId", .string (toHex 64 agentId)),
          (text "amount", .string (natToString amount)),
          (text "timestamp", jsonNumber timestamp)] }
  | .challengeFiled challengeId receiptId challenger timestamp =>
    { type := text "challenge.filed"
      data :=
        [(text "challengeId", .string (natToString challengeId)),
          (text "receiptId", .string (toHex 64 receiptId)),
            (text "challenger", .string (checksumAddress A challenger)),
              (text "timestamp", jsonNumber timestamp)] }
  | .challengeResolved challengeId uphold payout timestamp =>
    { type := text "challenge.resolved"
      data :=
        [(text "challengeId", .string (natToString challengeId)), (text "uphold", .bool uphold),
          (text "payout", .string (natToString payout)), (text "timestamp", jsonNumber timestamp)] }

def BlockedEvent.message (e : BlockedEvent) : SSEMessage where
  type := text "attempt.blocked"
  data :=
    [(text "executionId", .string e.executionId), (text "owner", .string e.owner),
      (text "agentId", .string e.agentId), (text "reasons", .array (e.reasons.map .string)),
        (text "timestamp", jsonNumber e.timestamp)]

/-- `(event.data.owner as string | undefined)?.toLowerCase()`. -/
def SSEMessage.owner (event : SSEMessage) : Option JsString :=
  ((Json.object event.data).get? "owner" >>= Json.string?).map toLowerCase

/-- The two lines that are written for an event. -/
def SSEMessage.frame (event : SSEMessage) : JsString :=
  (text "event: " ++ event.type ++ text "\n") ++
    (text "data: " ++ JSON.stringify (.object event.data) ++ text "\n\n")

/-! ### Clients -/

/-- `res` tells the responses apart. -/
structure SSEClient where
  res : ℕ
  owner : Option JsString

/-- `!s`. -/
def Falsy (s : Option JsString) : Prop := s = none ∨ s = some []

def SSEClient.IsMatch (client : SSEClient) (eventOwner : Option JsString) : Prop :=
  Falsy client.owner ∨ Falsy eventOwner ∨ client.owner = eventOwner

instance (s : Option JsString) : Decidable (Falsy s) := inferInstanceAs (Decidable (_ ∨ _))

instance (client : SSEClient) (eventOwner : Option JsString) :
    Decidable (client.IsMatch eventOwner) :=
  inferInstanceAs (Decidable (_ ∨ _))

/-- `written` is what has been written, and to which response. -/
structure LiveState where
  store : Store
  executions : List ExecutionRow
  clients : List SSEClient
  written : List (ℕ × JsString)

namespace LiveState

def init : LiveState := ⟨.empty, [], [], []⟩

def emitEvent (s : LiveState) (event : SSEMessage) : LiveState :=
  { s with
    written := s.written ++
      (s.clients.filter fun client => client.IsMatch event.owner).map
        fun client => (client.res, event.frame) }

def connectedFrame (owner : Option JsString) : JsString :=
  SSEMessage.frame
    { type := text "connected"
      data := [(text "message", .string (text "SSE connected")),
        (text "owner", owner.elim .null .string)] }

/-- `owner` is the query parameter, where it is a string. -/
def connect (s : LiveState) (res : ℕ) (owner : Option JsString) : LiveState :=
  let owner := owner.map toLowerCase
  { s with
    clients := s.clients ++ [⟨res, owner⟩]
    written := s.written ++ [(res, connectedFrame owner)] }

def close (s : LiveState) (res : ℕ) : LiveState :=
  { s with clients := s.clients.eraseP fun client => client.res = res }

end LiveState

/-! ### The service -/

/-- `toText` is the client's decoding of a `string` argument. -/
structure LiveService extends ExecutionService where
  K : Keccak
  A : AddressChecksum
  toText : Bytes → JsString

/-- A log comes with the timestamp of its block, and a request with the manifests that its checks
find. -/
inductive LiveAction
  | log (timestamp : ℕ) (l : Log)
  | execution (manifests : List ManifestRow) (call : ExecutionCall)
  | connect (res : ℕ) (owner : Option JsString)
  | close (res : ℕ)

/-- A handler that throws has changed nothing and emitted nothing. -/
def LiveService.step (L : LiveService) (s : LiveState) : LiveAction → LiveState
  | .log timestamp l =>
    match handleLog ⟨fun _ => timestamp, L.toText⟩ L.DATABASE_PROVIDER s.store l with
    | .ok r =>
      (r.emitted.map (SSEEvent.message L.A)).foldl LiveState.emitEvent { s with store := r.store }
    | .error _ => s
  | .execution manifests call =>
    let outcome := L.post L.K manifests call s.executions
    (outcome.emitted.map BlockedEvent.message).foldl LiveState.emitEvent
      { s with executions := outcome.rows }
  | .connect res owner => s.connect res owner
  | .close res => s.close res

/-- What has been written to a response, in order. -/
def LiveState.framesTo (c : ℕ) (s : LiveState) : List JsString :=
  (s.written.filter fun w => w.1 = c).map Prod.snd

/-! ### What an action announces -/

/-- The event of a log. -/
def announcement (timestamp : ℕ) (l : Log) : Option SSEEvent :=
  match l.event, l.provenance with
  | some (.ActionReceipt receiptId r), some _ =>
    some (.receiptCreated receiptId r.owner r.agentId r.amount (toNumber timestamp))
  | some (.ChallengeFiled challengeId receiptId challenger), some _ =>
    some (.challengeFiled challengeId receiptId challenger (toNumber timestamp))
  | some (.ChallengeResolved challengeId uphold payout), some _ =>
    some (.challengeResolved challengeId uphold payout (toNumber timestamp))
  | _, _ => none

section
variable {timestamp : ℕ} {toText : Bytes → JsString} {provider : Provider} {s : Store} {l : Log}

/-- A log is passed over, or its event is handled. -/
theorem handleLog_cases (ctx : DecodeContext) (provider : Provider) (s : Store) (l : Log) :
    (handleLog ctx provider s l = .ok ⟨s, false, []⟩ ∧ ∀ timestamp,
      announcement timestamp l = none) ∨
      ∃ event p, l.event = some event ∧ l.provenance = some p ∧
        handleLog ctx provider s l = handleEvent ctx p provider s event := by
  unfold handleLog announcement
  cases l.event with
  | none => exact .inl ⟨rfl, fun _ => rfl⟩
  | some event =>
    cases l.provenance with
    | none =>
      refine .inl ⟨rfl, ?_⟩
      intro timestamp
      cases event <;> rfl
    | some p => exact .inr ⟨event, p, rfl, rfl, rfl⟩

theorem emitted_handleLog {r : Handled}
    (h : handleLog ⟨fun _ => timestamp, toText⟩ provider s l = .ok r) :
    r.emitted = (announcement timestamp l).toList := by
  rcases handleLog_cases ⟨fun _ => timestamp, toText⟩ provider s l with
    ⟨hpassed, hnone⟩ | ⟨event, p, hevent, hplace, hhandled⟩
  · obtain rfl := Except.ok.inj (hpassed.symm.trans h)
    rw [hnone]
    rfl
  · rw [hhandled] at h
    unfold announcement
    rw [hevent, hplace]
    cases event
    case ActionReceipt =>
      obtain ⟨s', -, h⟩ := bind_eq_ok.1 h
      obtain rfl := Except.ok.inj h
      rfl
    case IntentCommitted =>
      obtain ⟨s', -, h⟩ := bind_eq_ok.1 h
      obtain rfl := Except.ok.inj h
      rfl
    all_goals
      obtain rfl := Except.ok.inj h
      rfl

/-- The place of a log is free for the row of its receipt, or is that row's. -/
def PlaceFree (s : Store) (l : Log) : Prop :=
  ∀ receiptId r p, l.event = some (.ActionReceipt receiptId r) → l.provenance = some p →
    ∀ row ∈ s.receipts, row.txHash = p.transactionHash → row.logIndex = p.logIndex →
      row.receiptId = receiptId

/-- A log whose handling throws announces nothing. -/
theorem announcement_of_error (hfree : PlaceFree s l) {e : StoreError}
    (h : handleLog ⟨fun _ => timestamp, toText⟩ provider s l = .error e) :
    announcement timestamp l = none := by
  rcases handleLog_cases ⟨fun _ => timestamp, toText⟩ provider s l with
    ⟨hpassed, -⟩ | ⟨event, p, hevent, hplace, hhandled⟩
  · cases hpassed.symm.trans h
  · rw [hhandled] at h
    unfold announcement
    rw [hevent, hplace]
    cases event
    case ActionReceipt receiptId r =>
      have hno : ¬ ∃ row ∈ s.receipts, row.receiptId ≠ (receiptRow p receiptId r).receiptId ∧
          row.txHash = (receiptRow p receiptId r).txHash ∧
          row.logIndex = (receiptRow p receiptId r).logIndex := by
        intro htaken
        obtain ⟨row, hrow, hne, htx, hindex⟩ := htaken
        exact hne (hfree receiptId r p hevent hplace row hrow htx hindex)
      obtain ⟨s', hs'⟩ : ∃ s', upsertReceipt provider (receiptRow p receiptId r) s = .ok s' :=
        ⟨_, if_neg hno⟩
      unfold handleEvent at h
      dsimp only at h
      rw [hs'] at h
      cases h
    case IntentCommitted => rfl
    all_goals cases h

/-- The receipt of a row, and its place in the chain. -/
def ReceiptRow.place (row : ReceiptRow) : Bytes32 × Bytes32 × ℕ :=
  (row.receiptId, row.txHash, row.logIndex)

/-- The receipt that a log creates, and its place in the chain. -/
def Log.receiptPlace (l : Log) : Option (Bytes32 × Bytes32 × ℕ) :=
  match l.event, l.provenance with
  | some (.ActionReceipt receiptId _), some p => some (receiptId, p.transactionHash, p.logIndex)
  | _, _ => none

theorem Log.receiptPlace_of_event {receiptId : Bytes32} {r : ReceiptSummary} {p : Provenance}
    (hevent : l.event = some (.ActionReceipt receiptId r)) (hplace : l.provenance = some p) :
    l.receiptPlace = some (receiptId, p.transactionHash, p.logIndex) := by
  unfold Log.receiptPlace
  rw [hevent, hplace]

theorem Log.exists_of_receiptPlace {x : Bytes32 × Bytes32 × ℕ} (h : l.receiptPlace = some x) :
    ∃ r p, l.event = some (.ActionReceipt x.1 r) ∧ l.provenance = some p ∧
      x.2 = (p.transactionHash, p.logIndex) := by
  unfold Log.receiptPlace at h
  split at h
  · next receiptId r p hevent hplace =>
    obtain rfl := Option.some.inj h
    exact ⟨r, p, hevent, hplace, rfl⟩
  · cases h

theorem receipts_insertIntentCommitted {input : IntentRow} {s' : Store}
    (h : insertIntentCommitted provider input s = .ok s') : s'.receipts = s.receipts := by
  unfold insertIntentCommitted at h
  cases provider <;> dsimp only at h <;> split_ifs at h <;> obtain rfl := Except.ok.inj h <;> rfl

theorem place_upsertReceipt {input : ReceiptRow} {s' : Store}
    (h : upsertReceipt provider input s = .ok s') {x : Bytes32 × Bytes32 × ℕ}
    (hx : x ∈ s'.receipts.map ReceiptRow.place) :
    x ∈ s.receipts.map ReceiptRow.place ∨ x = input.place := by
  unfold upsertReceipt at h
  split_ifs at h
  · cases provider with
    | sqlite => cases h
    | supabase =>
      obtain rfl := Except.ok.inj h
      exact .inl hx
  · obtain rfl := Except.ok.inj h
    obtain ⟨row, hrow, rfl⟩ := List.mem_map.1 hx
    rcases Table.mem_upsert hrow with rfl | hrow | ⟨row', -, -, rfl⟩
    · exact .inr rfl
    · exact .inl (List.mem_map_of_mem hrow)
    · exact .inr rfl

theorem place_setReceiptTraceUri (receiptId : Bytes32) (traceUri : JsString) (s : Store) :
    (setReceiptTraceUri receiptId traceUri s).receipts.map ReceiptRow.place =
      s.receipts.map ReceiptRow.place := by
  unfold setReceiptTraceUri
  apply Table.keys_updateWhere
  intro row
  rfl

/-- Every place of a row was taken before, or is the log's. -/
theorem place_handleLog {r : Handled}
    (h : handleLog ⟨fun _ => timestamp, toText⟩ provider s l = .ok r) {x : Bytes32 × Bytes32 × ℕ}
    (hx : x ∈ r.store.receipts.map ReceiptRow.place) :
    x ∈ s.receipts.map ReceiptRow.place ∨ l.receiptPlace = some x := by
  rcases handleLog_cases ⟨fun _ => timestamp, toText⟩ provider s l with
    ⟨hpassed, -⟩ | ⟨event, p, hevent, hplace, hhandled⟩
  · obtain rfl := Except.ok.inj (hpassed.symm.trans h)
    exact .inl hx
  · rw [hhandled] at h
    cases event
    case ActionReceipt receiptId receipt =>
      obtain ⟨s', hs', h⟩ := bind_eq_ok.1 h
      obtain rfl := Except.ok.inj h
      refine (place_upsertReceipt hs' hx).imp_right ?_
      rintro rfl
      exact Log.receiptPlace_of_event hevent hplace
    case IntentCommitted =>
      obtain ⟨s', hs', h⟩ := bind_eq_ok.1 h
      obtain rfl := Except.ok.inj h
      exact .inl (receipts_insertIntentCommitted hs' ▸ hx)
    all_goals obtain rfl := Except.ok.inj h
    case TraceURIStored receiptId traceUri =>
      exact .inl (place_setReceiptTraceUri receiptId _ s ▸ hx)
    all_goals exact .inl hx

end

/-! ### Executions -/

section
variable {S : ExecutionService} {K : Keccak} {manifests : List ManifestRow} {call : ExecutionCall}

/-- The event of a request does not depend on the rows that the insert finds, as long as they leave
the id free. -/
theorem exists_emitted_post (S : ExecutionService) (K : Keccak) (manifests : List ManifestRow)
    (call : ExecutionCall) :
    ∃ blocked : Option BlockedEvent,
      (∀ e ∈ blocked, ∃ body, ExecutionBody.safeParse call.body = some body ∧
        e.owner = body.owner.text) ∧
        ∀ rows, call.id ∉ rows.map ExecutionRow.id →
          (S.post K manifests call rows).emitted = blocked.toList := by
  unfold ExecutionService.post
  cases hbody : ExecutionBody.safeParse call.body with
  | none => exact ⟨none, by simp, fun _ _ => rfl⟩
  | some body =>
    dsimp only
    cases toCanonicalJson S.engine body.trace with
    | error e => exact ⟨none, by simp, fun _ _ => rfl⟩
    | ok canonicalJson =>
      dsimp only
      have hchecked : ∃ blocked : Option BlockedEvent, (∀ e ∈ blocked, e.owner = body.owner.text) ∧
          ∀ rows, (S.checked manifests call body (K.bytes (Js.encode canonicalJson)) rows).emitted =
            blocked.toList := by
        unfold ExecutionService.checked
        cases runDeterministicChecks manifests call.checkTime body.checkInput with
        | error e => exact ⟨none, by simp, fun _ => rfl⟩
        | ok checks =>
          dsimp only
          split_ifs
          · unfold ExecutionService.screened
            cases S.screenTrace call body with
            | error e => exact ⟨none, by simp, fun _ => rfl⟩
            | ok screen =>
              dsimp only
              split_ifs
              · exact ⟨some _, fun e he => Option.mem_some.1 he ▸ rfl, fun _ => rfl⟩
              · exact ⟨none, by simp, fun _ => rfl⟩
          · exact ⟨some _, fun e he => Option.mem_some.1 he ▸ rfl, fun _ => rfl⟩
      obtain ⟨blocked, howner, hemitted⟩ := hchecked
      refine ⟨blocked, fun e he => ⟨body, rfl, howner e he⟩, ?_⟩
      intro rows hfresh
      unfold insertExecution
      rw [if_neg (mt List.mem_map.2 hfresh)]
      exact hemitted _

theorem ids_updateExecution (id : JsString) (now : Time) (updates : ExecutionUpdates)
    (rows : List ExecutionRow) :
    (updateExecution id now updates rows).map ExecutionRow.id = rows.map ExecutionRow.id := by
  unfold updateExecution
  apply Table.keys_updateWhere
  intro row
  rfl

theorem ids_checked (body : ExecutionBody) (contextDigest : Bytes32) (rows : List ExecutionRow) :
    (S.checked manifests call body contextDigest rows).rows.map ExecutionRow.id =
      rows.map ExecutionRow.id := by
  rcases checked_cases S manifests call body contextDigest rows with ⟨hverdict, -⟩ | ⟨⟨e, he⟩, -⟩
  · obtain ⟨updates, -, hrows⟩ := hverdict.rows_eq
    rw [hrows, ids_updateExecution]
  · rw [he]

/-- A request inserts at most one row, with its id. -/
theorem ids_post (rows : List ExecutionRow) :
    (S.post K manifests call rows).rows.map ExecutionRow.id = rows.map ExecutionRow.id ∨
      (S.post K manifests call rows).rows.map ExecutionRow.id = rows.map ExecutionRow.id ++
      [call.id] := by
  unfold ExecutionService.post
  cases ExecutionBody.safeParse call.body with
  | none => exact .inl rfl
  | some body =>
    dsimp only
    cases toCanonicalJson S.engine body.trace with
    | error e => exact .inl rfl
    | ok canonicalJson =>
      dsimp only
      unfold insertExecution
      split_ifs with htaken
      · cases S.DATABASE_PROVIDER with
        | sqlite => exact .inl rfl
        | supabase => exact .inl (ids_checked body _ rows)
      · right
        dsimp only
        rw [ids_checked, List.map_append]
        rfl

end

end IntentGuard.Infra
