import IntentGuard.Infra.LiveIsolation
import IntentGuard.Js.Utf8
import IntentGuard.Lib.EventStream

/-!
# The stream of live events

The bytes of a response of `sse.ts`, the heartbeats of its timer among them, and their reader,
`subscribeToEvents` of the web client: an `EventSource` with a listener for each type of event.
`subscribeToEvents` is a function of the chunks that the network delivers; a connection that breaks
leaves a part of the bytes.

`live_events_delivered`: the client's callback is called with the events that were emitted to its
subscription, in their order, each once and with its data, wherever the bytes are cut, and with
nothing else: no text within an event, and no query parameter, makes a frame of its own.
-/

namespace IntentGuard.Infra

open Js Runs Machines EventStream

/-! ### Texts on the wire -/

/-- What follows begins no low surrogate. -/
theorem codePoints_append_cons (a : JsString) {u : UInt16} (hu : isLowSurrogate u = false)
    (b : JsString) :
    codePoints (a ++ u :: b) = codePoints a ++ codePoints (u :: b) := by
  fun_induction codePoints a with
  | case1 => rfl
  | case2 v =>
    show codePoints (v :: u :: b) = _
    rw [codePoints]
    by_cases hv : isHighSurrogate v = true
    · simp [hv, hu]
    · simp [hv]
  | case3 v w rest hv hw ih =>
    show codePoints (v :: w :: (rest ++ u :: b)) = _
    rw [codePoints, if_pos hv, if_pos hw, ih]
    rfl
  | case4 v w rest hv hw ih =>
    show codePoints (v :: w :: (rest ++ u :: b)) = _
    rw [codePoints, if_pos hv, if_neg hw]
    exact congrArg _ ih
  | case5 v w rest hv ih =>
    show codePoints (v :: w :: (rest ++ u :: b)) = _
    rw [codePoints, if_neg hv]
    exact congrArg _ ih

/-- A code point below the surrogates is a code unit. -/
theorem mem_of_mem_codePoints {s : JsString} {c : ℕ} (h : c ∈ codePoints s) (hc : c < 0xD800) :
    UInt16.ofNat c ∈ s := by
  fun_induction codePoints s with
  | case1 => exact absurd h List.not_mem_nil
  | case2 u =>
    rw [List.mem_singleton] at h
    split_ifs at h with hu
    · omega
    · rw [h, UInt16.ofNat_toNat]
      exact List.mem_singleton_self u
  | case3 u v rest hu hv ih =>
    rcases List.mem_cons.1 h with h | h
    · omega
    · exact List.mem_cons_of_mem _ (List.mem_cons_of_mem _ (ih h))
  | case4 u v rest hu hv ih =>
    rcases List.mem_cons.1 h with h | h
    · omega
    · exact List.mem_cons_of_mem _ (ih h)
  | case5 u v rest hu ih =>
    rcases List.mem_cons.1 h with h | h
    · split_ifs at h with hv
      · omega
      · rw [h, UInt16.ofNat_toNat]
        exact List.mem_cons_self
    · exact List.mem_cons_of_mem _ (ih h)

/-- A text without line ends is one line on the wire. -/
theorem oneLine_codePoints {s : JsString} (h : ∀ u ∈ s, u ≠ 10 ∧ u ≠ 13) :
    OneLine (codePoints s) := by
  intro c hc
  constructor
  · rintro rfl
    exact (h 10 (mem_of_mem_codePoints hc (by decide))).1 rfl
  · rintro rfl
    exact (h 13 (mem_of_mem_codePoints hc (by decide))).2 rfl

/-- `JSON.stringify` escapes the line ends of every string. -/
theorem oneLine_stringify (v : Json) : OneLine (codePoints (JSON.stringify v)) := by
  have hvisible : JsonText.Visible ((JSON.stringify v).map UInt16.toNat) := by
    rw [reading_units.stringify]
    exact JsonText.Tree.visible_print (treeOf_valid glyphs_valid v)
  apply oneLine_codePoints
  intro u hu
  have hle := hvisible u.toNat (List.mem_map_of_mem hu)
  constructor <;> (rintro rfl; exact absurd hle (by decide))

/-- A frame is an event of the stream. -/
theorem codePoints_frame (event : SSEMessage) :
    codePoints event.frame =
      EventStream.frame (codePoints event.type)
        (codePoints (JSON.stringify (.object event.data))) := by
  have hframe : event.frame = text "event: " ++ (event.type ++ 10 :: (text "data: " ++
      (JSON.stringify (.object event.data) ++ 10 :: [10]))) := by
    simp [SSEMessage.frame, text]
  have hlow : ∀ s : String, (text s).all (fun u => !isHighSurrogate u && !isLowSurrogate u) →
      ∀ rest,
      codePoints (text s ++ rest) = codePoints (text s) ++ codePoints rest := by
    intro s hs rest
    refine codePoints_append (.of_forall ?_) rest
    simpa using hs
  have hbreak : ∀ rest, codePoints (10 :: rest) = 10 :: codePoints rest :=
    fun rest => codePoints_unit (u := 10) (by decide) (by decide) rest
  have hcut : ∀ a rest : JsString, codePoints (a ++ 10 :: rest) = codePoints a ++
      codePoints (10 :: rest) :=
    fun a rest => codePoints_append_cons a (by decide) rest
  rw [hframe, hlow "event: " (by decide), hcut, hbreak, hlow "data: " (by decide), hcut, hbreak]
  have hevent : codePoints (text "event: ") = codes "event" ++ [58, 32] := by decide
  have hdata : codePoints (text "data: ") = codes "data" ++ [58, 32] := by decide
  have hlast : codePoints [10] = [10] := by decide
  rw [hevent, hdata, hlast]
  simp [EventStream.frame, fieldLine]

/-! ### The server -/

/-- What happens to the service, and the timer of a response. -/
inductive StreamAction
  | service (a : LiveAction)
  | heartbeat (res : ℕ)

def heartbeatComment : JsString := text ":heartbeat\n\n"

/-- The timer of a response stops when its request closes. -/
def LiveService.streamStep (L : LiveService) (s : LiveState) : StreamAction → LiveState
  | .service a => L.step s a
  | .heartbeat res =>
    if s.clients.any fun client => client.res = res then
      { s with written := s.written ++ [(res, heartbeatComment)] }
    else s

/-- The bytes that have been written to a response. -/
def LiveState.bytes (c : ℕ) (s : LiveState) : Bytes := (s.framesTo c).flatMap Js.encode

/-! ### The client -/

/-- `EventSource`: the bytes are decoded, a mark at the start is dropped, the lines are read. -/
def eventSource : (Utf8Decoder × Bool) × Reader → UInt8 →
    ((Utf8Decoder × Bool) × Reader) × List EventStream.Event :=
  pipe (pipe Utf8Decoder.read skipMark) Reader.read

def eventTypes : List JsString :=
  [text "receipt.created", text "attempt.blocked", text "challenge.filed",
    text "challenge.resolved", text "summary.ready"]

/-- The listener of the event's type, if there is one; an event that is no JSON is ignored. -/
def onEvent (e : EventStream.Event) : Option (JsString × Json) := do
  let type ← eventTypes.find? fun type => ofCodePoints e.type = type
  let data ← JSON.parse (ofCodePoints e.data)
  pure (type, data)

/-- What the callback is called with. -/
def subscribeToEvents (chunks : List Bytes) : List (JsString × Json) :=
  (feed (feed eventSource) ((.init, true), .init) chunks).2.filterMap onEvent

/-! ### What is announced -/

section
variable (L : LiveService)

/-- What `emitEvent` is called with. -/
def LiveService.emitted (s : LiveState) : StreamAction → List SSEMessage
  | .service (.log timestamp l) =>
    match handleLog ⟨fun _ => timestamp, L.toText⟩ L.DATABASE_PROVIDER s.store l with
    | .ok r => r.emitted.map (SSEEvent.message L.A)
    | .error _ => []
  | .service (.execution manifests call) =>
    (L.post L.K manifests call s.executions).emitted.map BlockedEvent.message
  | _ => []

/-- The events that go to a response. -/
def LiveService.sentTo (c : ℕ) (v : LiveState × StreamAction) : List SSEMessage :=
  (L.emitted v.1 v.2).flatMap fun event =>
    (v.1.clients.filter fun client => client.IsMatch event.owner ∧ client.res = c).map fun _ =>
      event

/-- JSON has no infinities. -/
def Json.written : Json → Json
  | .infinity _ => .null
  | v => v

/-- An event as the client is to get it. -/
def SSEMessage.received (event : SSEMessage) : JsString × Json :=
  (event.type, .object (event.data.map fun e => (e.1, e.2.written)))

/-- The events of a run that go to a response. -/
def LiveService.announced (c : ℕ) (as : List StreamAction) : List (JsString × Json) :=
  ((visits L.streamStep .init as).flatMap (L.sentTo c)).map SSEMessage.received

end

/-! ### What is written -/

def connectedMessage (owner : Option JsString) : SSEMessage where
  type := text "connected"
  data := [(text "message", .string (text "SSE connected")),
    (text "owner", owner.elim .null .string)]

inductive Packet
  | message (event : SSEMessage)
  | heartbeat

def Packet.text : Packet → JsString
  | .message event => event.frame
  | .heartbeat => heartbeatComment

section
variable {L : LiveService} {c : ℕ}

/-- What an action writes to a response. -/
def LiveService.packets (L : LiveService) (c : ℕ) (v : LiveState × StreamAction) : List Packet :=
  match v.2 with
  | .service (.connect res owner) =>
    if res = c then [.message (connectedMessage (owner.map toLowerCase))] else []
  | .service _ => (L.sentTo c v).map .message
  | .heartbeat res =>
    if res = c ∧ v.1.clients.any fun client => client.res = res then [.heartbeat] else []

theorem framesTo_append (s : LiveState) (written : List (ℕ × JsString)) :
    LiveState.framesTo c { s with written := s.written ++ written } =
      s.framesTo c ++ (written.filter fun w => w.1 = c).map Prod.snd := by
  simp [LiveState.framesTo]

theorem framesTo_single (s : LiveState) (res : ℕ) (frame : JsString) :
    LiveState.framesTo c { s with written := s.written ++ [(res, frame)] } =
      s.framesTo c ++ if res = c then [frame] else [] := by
  rw [framesTo_append]
  split_ifs with h <;> simp [h]

theorem framesTo_emit (events : List SSEMessage) (s : LiveState) :
    (events.foldl LiveState.emitEvent s).framesTo c =
      s.framesTo c ++ (events.flatMap fun event =>
        (s.clients.filter fun client => client.IsMatch event.owner ∧ client.res = c).map
          fun _ => event.frame) := by
  induction events generalizing s with
  | nil => simp
  | cons event events ih =>
    have hfirst : (s.emitEvent event).framesTo c = s.framesTo c ++
        (s.clients.filter fun client => client.IsMatch event.owner ∧ client.res = c).map fun _ =>
          event.frame := by
      unfold LiveState.emitEvent
      rw [framesTo_append, List.filter_map, List.map_map, List.filter_filter]
      congr 2
      apply List.filter_congr
      intro client _
      simp [and_comm]
    rw [List.foldl_cons, ih, hfirst, List.flatMap_cons, List.append_assoc]
    rfl

theorem map_sentTo (s : LiveState) (a : StreamAction) :
    ((L.sentTo c (s, a)).map Packet.message).map Packet.text = (L.emitted s a).flatMap fun event =>
      (s.clients.filter fun client => client.IsMatch event.owner ∧ client.res = c).map fun _ =>
        event.frame := by
  unfold LiveService.sentTo
  simp only [List.map_map, List.map_flatMap]
  rfl

theorem framesTo_streamStep (s : LiveState) (a : StreamAction) :
    (L.streamStep s a).framesTo c = s.framesTo c ++ (L.packets c (s, a)).map Packet.text := by
  cases a with
  | service a =>
    cases a with
    | log timestamp l =>
      show (L.step s (.log timestamp l)).framesTo c = _
      rw [show L.packets c (s, .service (.log timestamp l)) = (L.sentTo c _).map .message from rfl,
        map_sentTo]
      unfold LiveService.step LiveService.emitted
      dsimp only
      cases handleLog ⟨fun _ => timestamp, L.toText⟩ L.DATABASE_PROVIDER s.store l with
      | ok r => exact framesTo_emit _ _
      | error e => exact (List.append_nil _).symm
    | execution manifests call =>
      rw [show L.packets c (s, .service (.execution manifests call)) =
        (L.sentTo c _).map .message from rfl, map_sentTo]
      exact framesTo_emit _ _
    | connect res owner =>
      have hwritten :=
        framesTo_single (c := c) { s with clients := s.clients ++ [⟨res, owner.map toLowerCase⟩] }
          res
        (LiveState.connectedFrame (owner.map toLowerCase))
      refine hwritten.trans (congrArg _ ?_)
      unfold LiveService.packets
      dsimp only
      split_ifs <;> rfl
    | close res => exact (List.append_nil _).symm
  | heartbeat res =>
    unfold LiveService.streamStep LiveService.packets
    dsimp only
    by_cases hopen : (s.clients.any fun client => client.res = res) = true
    · rw [if_pos hopen, framesTo_single]
      by_cases hres : res = c
      · rw [if_pos hres, if_pos ⟨hres, hopen⟩]
        rfl
      · rw [if_neg hres, if_neg fun h => hres h.1]
        rfl
    · rw [if_neg hopen, if_neg fun h => hopen h.2]
      exact (List.append_nil _).symm

/-- The bytes of a response are its packets, in order. -/
theorem bytes_run (as : List StreamAction) :
    (run L.streamStep .init as).bytes c =
      (((visits L.streamStep .init as).flatMap (L.packets c)).map Packet.text).flatMap
        Js.encode := by
  unfold LiveState.bytes
  rw [output_run (LiveState.framesTo c) (fun v => (L.packets c v).map Packet.text)
    framesTo_streamStep, List.map_flatMap]
  rfl

end

/-! ### What is read -/

/-- The type of a message is there and is one line. -/
def Packet.Framed : Packet → Prop
  | .message event => event.type ≠ [] ∧ ∀ u ∈ event.type, u ≠ 10 ∧ u ≠ 13
  | .heartbeat => True

/-- The events that a packet dispatches. -/
def Packet.events : Packet → List EventStream.Event
  | .message event =>
    [⟨codePoints event.type, codePoints (JSON.stringify (.object event.data)), []⟩]
  | .heartbeat => []

theorem codePoints_ne_nil {s : JsString} (h : s ≠ []) : codePoints s ≠ [] := by
  fun_induction codePoints s with
  | case1 => exact absurd rfl h
  | _ => exact List.cons_ne_nil _ _

/-- A packet is read back from wherever the last one ended. -/
theorem feed_packet {p : Packet} (hp : p.Framed) (atStart : Bool) :
    feed eventSource ((.init, atStart), .init) (Js.encode p.text) =
      (((.init, false), .init), p.events) := by
  unfold eventSource
  cases p with
  | message event =>
    obtain ⟨hne, hline⟩ := hp
    have hcons : ∃ cs, codePoints event.frame = 101 :: cs := by
      rw [codePoints_frame]
      exact ⟨_, rfl⟩
    obtain ⟨cs, hcs⟩ := hcons
    have hread :=
      feed_frame ready_init (oneLine_codePoints hline) (oneLine_stringify (.object event.data))
    rw [if_neg (codePoints_ne_nil hne), ← codePoints_frame, hcs] at hread
    simp only [feed_pipe, Packet.text, feed_encode, hcs,
      feed_skipMark (show 101 ≠ 0xFEFF by decide), hread]
    rfl
  | heartbeat =>
    have hcs : codePoints heartbeatComment = commentLine (codes "heartbeat") ++ [10] := by decide
    have hread := feed_comment ready_init (show ∀ c ∈ codes "heartbeat", c ≠ 10 ∧ c ≠ 13 by decide)
    have hskip := feed_skipMark (show 58 ≠ 0xFEFF by decide) atStart (codes "heartbeat" ++ [10, 10])
    have hcons : commentLine (codes "heartbeat") ++
        [10] = 58 :: (codes "heartbeat" ++ [10, 10]) := by simp [commentLine]
    rw [hcons] at hcs hread
    simp only [feed_pipe, Packet.text, feed_encode, hcs, hskip, hread]
    rfl

theorem feed_packets {ps : List Packet} (hps : ∀ p ∈ ps, p.Framed) (atStart : Bool) :
    (feed eventSource ((.init, atStart), .init) ((ps.map Packet.text).flatMap Js.encode)).2 =
      ps.flatMap Packet.events := by
  induction ps generalizing atStart with
  | nil => rfl
  | cons p ps ih =>
    rw [List.forall_mem_cons] at hps
    rw [List.map_cons, List.flatMap_cons, feed_append_of_eq (feed_packet hps.1 atStart),
      List.flatMap_cons, ih hps.2]

/-! ### Events -/

/-- The event has a listener, and data that survive their text. -/
structure SSEMessage.Sound (event : SSEMessage) : Prop where
  type : event.type ∈ eventTypes
  data : JSON.parse (JSON.stringify (.object event.data)) = some event.received.2

/-- What `JSON.parse` gives for the text of the value. -/
def Json.Simple (v : Json) : Prop := v.written.Plain ∧ v.written.enumerated = v.written

theorem stringify_written (v : Json) : JSON.stringify v.written = JSON.stringify v := by
  cases v <;> rfl

theorem stringifyEntries_written (es : List (JsString × Json)) :
    stringifyEntries (es.map fun e => (e.1, e.2.written)) = stringifyEntries es := by
  induction es with
  | nil => rfl
  | cons e es ih =>
    obtain ⟨k, v⟩ := e
    simp only [List.map_cons, stringifyEntries, stringify_written, ih]

/-- The data of an event survive their text. -/
theorem parse_stringify_object {data : List (JsString × Json)} (hkeys : (data.map Prod.fst).Nodup)
    (hindex : ∀ k ∈ data.map Prod.fst, arrayIndex k = none)
    (hvalues : ∀ v ∈ data.map Prod.snd, v.Simple) :
    JSON.parse (JSON.stringify (.object data)) =
      some (.object (data.map fun e => (e.1, e.2.written))) := by
  have hentries : ∀ es : List (JsString × Json), (∀ v ∈ es.map Prod.snd, v.Simple) →
      MeetsEntries plain (es.map fun e => (e.1, e.2.written)) ∧
        enumeratedEntries (es.map fun e => (e.1, e.2.written)) = es.map fun e =>
          (e.1, e.2.written) := by
    intro es hes
    induction es with
    | nil => exact ⟨trivial, rfl⟩
    | cons e es ih =>
      rw [List.map_cons, List.forall_mem_cons] at hes
      obtain ⟨hplain, hsame⟩ := ih hes.2
      exact ⟨⟨hes.1.1, hplain⟩, congrArg₂ List.cons (congrArg (Prod.mk e.1) hes.1.2) hsame⟩
  obtain ⟨hplain, hsame⟩ := hentries data hvalues
  have hkeys' : (data.map fun e => (e.1, e.2.written)).map Prod.fst = data.map Prod.fst := by
    rw [List.map_map]
    rfl
  have hobject : (Json.object (data.map fun e => (e.1, e.2.written))).Plain :=
    ⟨hkeys' ▸ hkeys, hplain⟩
  have htext : JSON.stringify (.object data) =
      JSON.stringify (.object (data.map fun e => (e.1, e.2.written))) := by
    simp only [JSON.stringify, stringifyEntries_written]
  have hnone : ∀ e ∈ data.map (fun e => (e.1, e.2.written)), arrayIndex e.1 = none := by
    intro e he
    exact hindex e.1 (hkeys' ▸ List.mem_map_of_mem he)
  rw [htext, parse_stringify hobject]
  simp only [Json.enumerated, hsame, enumerate_of_forall hnone]

theorem simple_string (s : JsString) : (Json.string s).Simple := ⟨trivial, rfl⟩

theorem simple_bool (b : Bool) : (Json.bool b).Simple := ⟨trivial, rfl⟩

theorem simple_strings (ss : List JsString) : (Json.array (ss.map .string)).Simple := by
  have hitems : MeetsItems plain (ss.map .string) ∧
      enumeratedItems (ss.map .string) = ss.map .string := by
    induction ss with
    | nil => exact ⟨trivial, rfl⟩
    | cons s ss ih => exact ⟨⟨trivial, ih.1⟩, congrArg (List.cons _) ih.2⟩
  exact ⟨hitems.1, congrArg Json.array hitems.2⟩

theorem negative_ofScaled (negative : Bool) (s : ℕ) (scale : ℤ) :
    (Decimal.ofScaled negative s scale).negative = negative := by
  unfold Decimal.ofScaled
  split_ifs <;> rfl

theorem negative_round {x y : Decimal} (h : x.round = some y) : y.negative = x.negative := by
  unfold Decimal.round at h
  dsimp only at h
  split_ifs at h
  · exact Option.some.inj h ▸ rfl
  · exact Option.some.inj h ▸ rfl
  · obtain ⟨r, -, rfl⟩ := Option.map_eq_some_iff.1 h
    exact negative_ofScaled _ _ _

theorem simple_jsonNumber (n : ℕ) : (jsonNumber n).Simple := by
  unfold jsonNumber
  split
  · next x hx =>
      exact ⟨⟨round_round hx, fun _ => (negative_round hx).trans (negative_ofScaled _ _ _)⟩, rfl⟩
  · exact ⟨trivial, rfl⟩

theorem SSEMessage.Sound.of {event : SSEMessage} (type : JsString) (keys : List JsString)
    (htype : event.type = type) (hkeys : event.data.map Prod.fst = keys)
    (hchecks : type ∈ eventTypes ∧ keys.Nodup ∧ ∀ k ∈ keys, arrayIndex k = none)
    (hvalues : ∀ v ∈ event.data.map Prod.snd, v.Simple) : event.Sound := by
  obtain ⟨hmem, hnodup, hindex⟩ := hchecks
  exact ⟨htype ▸ hmem, parse_stringify_object (hkeys ▸ hnodup) (hkeys ▸ hindex) hvalues⟩

theorem sound_message (A : AddressChecksum) (e : SSEEvent) : (e.message A).Sound := by
  cases e with
  | receiptCreated receiptId owner agentId amount timestamp =>
    refine .of (text "receipt.created")
      [text "receiptId", text "owner", text "agentId", text "amount", text "timestamp"] rfl rfl
        (by decide) ?_
    simp [SSEEvent.message, simple_string, simple_jsonNumber]
  | challengeFiled challengeId receiptId challenger timestamp =>
    refine .of (text "challenge.filed")
      [text "challengeId", text "receiptId", text "challenger", text "timestamp"] rfl rfl
        (by decide) ?_
    simp [SSEEvent.message, simple_string, simple_jsonNumber]
  | challengeResolved challengeId uphold payout timestamp =>
    refine .of (text "challenge.resolved")
      [text "challengeId", text "uphold", text "payout", text "timestamp"] rfl rfl (by decide) ?_
    simp [SSEEvent.message, simple_string, simple_bool, simple_jsonNumber]

theorem sound_blocked (e : BlockedEvent) : e.message.Sound := by
  refine .of (text "attempt.blocked")
    [text "executionId", text "owner", text "agentId", text "reasons", text "timestamp"] rfl rfl
      (by decide) ?_
  simp [BlockedEvent.message, simple_string, simple_strings, simple_jsonNumber]

/-- What the service emits is sound. -/
theorem sound_emitted {L : LiveService} {s : LiveState} {a : StreamAction} :
    ∀ event ∈ L.emitted s a, event.Sound := by
  intro event hevent
  cases a with
  | service a =>
    cases a with
    | log timestamp l =>
      simp only [LiveService.emitted] at hevent
      split at hevent
      · obtain ⟨e, -, rfl⟩ := List.mem_map.1 hevent
        exact sound_message L.A e
      · exact absurd hevent List.not_mem_nil
    | execution manifests call =>
      obtain ⟨e, -, rfl⟩ := List.mem_map.1 hevent
      exact sound_blocked e
    | connect | close => exact absurd hevent List.not_mem_nil
  | heartbeat => exact absurd hevent List.not_mem_nil

theorem sound_sentTo {L : LiveService} {c : ℕ} {v : LiveState × StreamAction} :
    ∀ event ∈ L.sentTo c v, event.Sound := by
  intro event hevent
  obtain ⟨event', hemitted, hsent⟩ := List.mem_flatMap.1 hevent
  obtain ⟨client, -, rfl⟩ := List.mem_map.1 hsent
  exact sound_emitted _ hemitted

/-- The types with a listener. -/
theorem eventTypes_spec :
    ∀ type ∈ eventTypes, (type ≠ [] ∧ ∀ u ∈ type, u ≠ 10 ∧ u ≠ 13) ∧
      (∀ u ∈ type, u.toNat < 0xD800) ∧ eventTypes.find? (fun t => type = t) = some type := by
  have hall : eventTypes.all fun type => type ≠ [] && type.all (fun u => u ≠ 10 && u ≠ 13) &&
      type.all (fun u => u.toNat < 0xD800) && eventTypes.find? (fun t => type = t) = some type := by
    decide
  intro type htype
  simpa [and_assoc] using List.all_eq_true.1 hall type htype

/-- The callback is called with a sound event. -/
theorem onEvent_events {event : SSEMessage} (h : event.Sound) :
    (Packet.message event).events.filterMap onEvent = [event.received] := by
  obtain ⟨-, hlow, hfind⟩ := eventTypes_spec _ h.type
  have htype : ofCodePoints (codePoints event.type) = event.type :=
    ofCodePoints_codePoints (.of_forall_low hlow)
  have hdata := ofCodePoints_codePoints (wellFormed_stringify (.object event.data))
  have hcall : onEvent ⟨codePoints event.type, codePoints (JSON.stringify (.object event.data)),
      []⟩ =
      some event.received := by
    unfold onEvent
    simp only [htype, hdata, hfind, h.data, Option.bind_eq_bind, Option.bind_some]
    rfl
  simp [Packet.events, hcall]

theorem onEvent_connected (owner : Option JsString) :
    (Packet.message (connectedMessage owner)).events.filterMap onEvent = [] := by
  have hcall : ∀ data, onEvent ⟨codePoints (text "connected"), data, []⟩ = none := by
    intro data
    have hfind :
        eventTypes.find? (fun type => ofCodePoints (codePoints (text "connected")) = type) =
          none := by decide
    simp only [onEvent, hfind]
    rfl
  simp [Packet.events, connectedMessage, hcall]

section
variable {L : LiveService} {c : ℕ}

/-- The packets of an action are framed, and the callback is called with the events that are
sent. -/
theorem packets_spec (v : LiveState × StreamAction) :
    (∀ p ∈ L.packets c v, p.Framed) ∧
      (L.packets c v).flatMap (fun p => p.events.filterMap onEvent) =
        (L.sentTo c v).map SSEMessage.received := by
  have hsent : (∀ p ∈ (L.sentTo c v).map Packet.message, p.Framed) ∧
      ((L.sentTo c v).map Packet.message).flatMap (fun p => p.events.filterMap onEvent) =
        (L.sentTo c v).map SSEMessage.received := by
    constructor
    · intro p hp
      obtain ⟨event, hevent, rfl⟩ := List.mem_map.1 hp
      exact (eventTypes_spec _ (sound_sentTo event hevent).type).1
    · rw [List.flatMap_map, List.map_eq_flatMap]
      exact List.flatMap_congr fun event hevent => onEvent_events (sound_sentTo event hevent)
  obtain ⟨s, a⟩ := v
  cases a with
  | service a =>
    cases a with
    | log | execution | close => exact hsent
    | connect res owner =>
      unfold LiveService.packets
      dsimp only
      split_ifs
      · have htype : text "connected" ≠ [] ∧ ∀ u ∈ text "connected", u ≠ 10 ∧ u ≠ 13 := by
          simp [text]
        refine ⟨List.forall_mem_singleton.2 htype, ?_⟩
        rw [List.flatMap_singleton]
        exact onEvent_connected _
      · exact ⟨fun p hp => absurd hp List.not_mem_nil, rfl⟩
  | heartbeat res =>
    unfold LiveService.packets
    dsimp only
    split_ifs
    · exact ⟨List.forall_mem_singleton.2 trivial, rfl⟩
    · exact ⟨fun p hp => absurd hp List.not_mem_nil, rfl⟩

/-- A client that has got all bytes has been called with all events. -/
theorem received_all (as : List StreamAction) :
    (feed eventSource ((.init, true), .init) ((run L.streamStep .init as).bytes c)).2.filterMap
      onEvent =
      L.announced c as := by
  have hframed : ∀ p ∈ (visits L.streamStep .init as).flatMap (L.packets c), p.Framed := by
    intro p hp
    obtain ⟨v, -, hp⟩ := List.mem_flatMap.1 hp
    exact (packets_spec v).1 p hp
  rw [bytes_run, feed_packets hframed, List.flatMap_assoc, List.filterMap_flatMap,
    LiveService.announced, List.map_flatMap]
  apply List.flatMap_congr
  intro v _
  rw [List.filterMap_flatMap]
  exact (packets_spec v).2

theorem isPrefix_bytes {as₁ as : List StreamAction} (h : as₁ <+: as) :
    (run L.streamStep .init as₁).bytes c <+: (run L.streamStep .init as).bytes c := by
  obtain ⟨as₂, rfl⟩ := h
  rw [bytes_run, bytes_run, visits_append, List.flatMap_append, List.map_append,
    List.flatMap_append]
  exact List.prefix_append _ _

/-- Whatever part of a response has arrived, in whatever chunks: the callback has been called with
the first of the announced events, in order, and with all that were written by then. -/
theorem live_events_delivered (L : LiveService) (c : ℕ) (as : List StreamAction)
    (chunks : List Bytes) (harrived : chunks.flatten <+: (run L.streamStep .init as).bytes c) :
    subscribeToEvents chunks <+: L.announced c as ∧
      ∀ as₁, (run L.streamStep .init as₁).bytes c <+: chunks.flatten →
        L.announced c as₁ <+: subscribeToEvents chunks := by
  unfold subscribeToEvents
  rw [feed_feed, ← received_all]
  refine ⟨(isPrefix_feed harrived).filterMap _, fun as₁ hwritten => ?_⟩
  rw [← received_all]
  exact (isPrefix_feed hwritten).filterMap _

end

namespace TwoOwners

/-- The owner connects, and gets a heartbeat and an event. -/
def delivered : List StreamAction :=
  [.service (.connect 0 (some (toHex 40 5))), .heartbeat 0,
    .service (log 1 (.ActionReceipt 1 (receipt 5)))]

def announcedTwice : List StreamAction :=
  delivered ++ [.service (log 2 (.ActionReceipt 2 (receipt 5)))]

/-- The connection breaks within the second event. -/
def arrived : List Bytes :=
  let bytes := (run service.streamStep .init announcedTwice).bytes 0
  [bytes.take 100, (bytes.drop 100).take 400]

end TwoOwners

open TwoOwners in
theorem live_events_delivered_brokenConnection :
    subscribeToEvents arrived <+: service.announced 0 announcedTwice ∧
      service.announced 0 delivered <+: subscribeToEvents arrived ∧
        ((service.announced 0 delivered).map Prod.fst = [text "receipt.created"]) ∧
          (service.announced 0 announcedTwice).length = 2 := by
  have hflatten :
      arrived.flatten = ((run service.streamStep .init announcedTwice).bytes 0).take 500 := by
    show _ ++ (_ ++ []) = _
    rw [List.append_nil, ← List.take_add]
  have harrived : arrived.flatten <+: (run service.streamStep .init announcedTwice).bytes 0 := by
    rw [hflatten]
    exact List.take_prefix _ _
  obtain ⟨hfirst, hall⟩ := live_events_delivered service 0 announcedTwice arrived harrived
  have hlengths : ((run service.streamStep .init delivered).bytes 0).length = 392 ∧
      ((run service.streamStep .init announcedTwice).bytes 0).length = 667 := by decide +kernel
  refine ⟨hfirst, hall delivered ?_, by decide +kernel, by decide +kernel⟩
  apply List.prefix_of_prefix_length_le (isPrefix_bytes (List.prefix_append _ _)) harrived
  rw [hflatten, List.length_take, hlengths.1, hlengths.2]
  decide

end IntentGuard.Infra
