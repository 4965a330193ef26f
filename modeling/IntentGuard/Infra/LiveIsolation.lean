import IntentGuard.Infra.LiveEvents
import IntentGuard.Lib.Broadcast

/-!
# Live events by owner

`LiveService.visits_channel`: on a `Promised` run the service is a broadcast whose topics are the
owners and whose messages depend on the actions alone.

`live_events_isolated_iff`: a client subscribed to an owner gets the same frames in two runs that
agree on what concerns the owner, and all the owner's events, exactly when no challenge event of
somebody else's receipt is handled while it is connected. The challenge events name no owner, and
`emitEvent` takes that for a match.
-/

namespace IntentGuard.Infra

open Js Runs

/-! ### The channel -/

/-- The owner, if there is one to compare with. -/
def topic (owner : Option JsString) : Option JsString := owner.filter fun s => !s.isEmpty

def LiveState.channel (s : LiveState) : Broadcast.Channel ℕ JsString JsString where
  subscribers := s.clients.map fun client => ⟨client.res, topic client.owner⟩
  delivered := s.written

theorem topic_eq_none {owner : Option JsString} : topic owner = none ↔ Falsy owner := by
  unfold topic Falsy
  cases owner with
  | none => simp
  | some s => cases s <;> simp

theorem topic_of_not_falsy {owner : Option JsString} (h : ¬ Falsy owner) : topic owner = owner := by
  unfold topic Falsy at *
  cases owner with
  | none => rfl
  | some s =>
    cases s with
    | nil => exact absurd (.inr rfl) h
    | cons u s => rfl

theorem isMatch_iff {client : SSEClient} {eventOwner : Option JsString} :
    client.IsMatch eventOwner ↔
      (⟨client.res, topic client.owner⟩ : Broadcast.Subscriber ℕ JsString).Accepts
        (topic eventOwner) := by
  unfold SSEClient.IsMatch Broadcast.Subscriber.Accepts
  dsimp only
  rw [topic_eq_none, topic_eq_none]
  by_cases hclient : Falsy client.owner
  · simp [hclient]
  · by_cases hevent : Falsy eventOwner
    · simp [hevent]
    · rw [topic_of_not_falsy hclient, topic_of_not_falsy hevent]

theorem channel_emitEvent (s : LiveState) (event : SSEMessage) :
    (s.emitEvent event).channel = s.channel.apply (.publish (topic event.owner) event.frame) := by
  unfold LiveState.emitEvent LiveState.channel Broadcast.Channel.apply
  dsimp only
  rw [List.filter_map, List.map_map]
  congr 3
  apply List.filter_congr
  intro client _
  exact decide_eq_decide.2 isMatch_iff

section
variable (L : LiveService)

/-- The event of a request whose id is free. -/
def LiveService.attempt (manifests : List ManifestRow) (call : ExecutionCall) :
    Option BlockedEvent :=
  (L.post L.K manifests call []).emitted.head?

def LiveService.message : LiveAction → Option SSEMessage
  | .log timestamp l => (announcement timestamp l).map (SSEEvent.message L.A)
  | .execution manifests call => (L.attempt manifests call).map BlockedEvent.message
  | .connect .. => none
  | .close .. => none

/-- What an action does to the channel. -/
def LiveService.op : LiveAction → Option (Broadcast.Op ℕ JsString JsString)
  | .connect res owner =>
    some (.subscribe res (topic (owner.map toLowerCase))
      (LiveState.connectedFrame (owner.map toLowerCase)))
  | .close res => some (.unsubscribe res)
  | a => (L.message a).map fun event => .publish (topic event.owner) event.frame

variable {L} {manifests : List ManifestRow} {call : ExecutionCall}

theorem emitted_post {rows : List ExecutionRow} (hfresh : call.id ∉ rows.map ExecutionRow.id) :
    (L.post L.K manifests call rows).emitted = (L.attempt manifests call).toList := by
  obtain ⟨blocked, -, hemitted⟩ := exists_emitted_post L.toExecutionService L.K manifests call
  have hattempt : L.attempt manifests call = blocked := by
    unfold LiveService.attempt
    rw [hemitted [] List.not_mem_nil]
    cases blocked <;> rfl
  rw [hemitted rows hfresh, hattempt]

theorem owner_attempt {e : BlockedEvent} (h : L.attempt manifests call = some e) :
    ∃ body, ExecutionBody.safeParse call.body = some body ∧ e.owner = body.owner.text := by
  obtain ⟨blocked, howner, hemitted⟩ := exists_emitted_post L.toExecutionService L.K manifests call
  apply howner
  unfold LiveService.attempt at h
  rw [hemitted [] List.not_mem_nil] at h
  cases blocked with
  | none => cases h
  | some e' => exact h

/-- Nothing in the way of the action's event: the place of its log and the id of its request are
free. -/
def Ready (s : LiveState) : LiveAction → Prop
  | .log _ l => PlaceFree s.store l
  | .execution _ call => call.id ∉ s.executions.map ExecutionRow.id
  | .connect .. => True
  | .close .. => True

theorem channel_emit {α : Type} (s : LiveState) (event : Option α) (message : α → SSEMessage) :
    ((event.toList.map message).foldl LiveState.emitEvent s).channel =
      ((event.map message).map fun e => Broadcast.Op.publish (topic e.owner) e.frame).elim s.channel
        s.channel.apply := by
  cases event with
  | none => rfl
  | some e => exact channel_emitEvent s (message e)

/-- The service moves the channel as its actions say. -/
theorem channel_step {s : LiveState} {a : LiveAction} (hready : Ready s a) :
    (L.step s a).channel = Broadcast.Channel.step L.op s.channel a := by
  cases a with
  | log timestamp l =>
    unfold LiveService.step
    dsimp only
    cases h : handleLog ⟨fun _ => timestamp, L.toText⟩ L.DATABASE_PROVIDER s.store l with
    | ok r =>
      dsimp only
      rw [emitted_handleLog h]
      exact channel_emit { s with store := r.store } (announcement timestamp l)
        (SSEEvent.message L.A)
    | error e =>
      have hnone := announcement_of_error hready h
      show s.channel = (((announcement timestamp l).map (SSEEvent.message L.A)).map _).elim
        s.channel s.channel.apply
      rw [hnone]
      rfl
  | execution manifests call =>
    unfold LiveService.step
    dsimp only
    rw [emitted_post hready]
    exact channel_emit { s with executions := _ } (L.attempt manifests call) BlockedEvent.message
  | connect res owner =>
    show Broadcast.Channel.mk _ _ = Broadcast.Channel.mk _ _
    rw [Broadcast.Channel.mk.injEq]
    exact ⟨List.map_append, rfl⟩
  | close res =>
    show Broadcast.Channel.mk _ _ = Broadcast.Channel.mk _ _
    rw [Broadcast.Channel.mk.injEq]
    refine ⟨?_, rfl⟩
    show List.map _ (s.clients.eraseP _) = (s.clients.map _).eraseP _
    rw [List.eraseP_map]
    rfl

/-! ### Runs -/

def LiveAction.executionId : LiveAction → Option JsString
  | .execution _ call => some call.id
  | _ => none

/-- What the chain, the random UUIDs and the client of response `c` promise. -/
structure Promised (A : Address) (c : ℕ) (as : List LiveAction) : Prop where
  /-- The client subscribes to the owner, in whatever letter case. -/
  subscribed : ∀ owner, .connect c owner ∈ as → ∃ s, owner = some s ∧ hexLiteral 40 s = some A
  /-- An address has 20 bytes. -/
  addresses : ∀ timestamp l receiptId r, .log timestamp l ∈ as →
    l.event = some (.ActionReceipt receiptId r) →
    r.owner < 16 ^ 40
  /-- A place in the chain has one event. -/
  places : ∀ timestamp l p timestamp' l' p', .log timestamp l ∈ as → .log timestamp' l' ∈ as →
    l.provenance = some p →
    l'.provenance = some p' → p.transactionHash = p'.transactionHash → p.logIndex = p'.logIndex →
      l.event = l'.event
  ids : (as.filterMap LiveAction.executionId).Nodup

/-- The owner of the action's receipt is an address. -/
def LiveAction.Addressed (a : LiveAction) : Prop :=
  ∀ timestamp l receiptId r, a = .log timestamp l → l.event = some (.ActionReceipt receiptId r) →
    r.owner < 16 ^ 40

theorem Promised.address {A : Address} {c : ℕ} {as : List LiveAction} (h : Promised A c as)
    {a : LiveAction} (ha : a ∈ as) : a.Addressed :=
  fun timestamp l receiptId r hl => h.addresses timestamp l receiptId r (hl ▸ ha)

/-- Emitting changes what has been written and nothing else. -/
theorem emit_frame {α : Type} (events : List α) (message : α → SSEMessage) (s : LiveState) :
    ((events.map message).foldl LiveState.emitEvent s).store = s.store ∧
      ((events.map message).foldl LiveState.emitEvent s).executions = s.executions ∧
        ((events.map message).foldl LiveState.emitEvent s).clients = s.clients := by
  induction events generalizing s with
  | nil => exact ⟨rfl, rfl, rfl⟩
  | cons e events ih =>
    rw [List.map_cons, List.foldl_cons]
    exact ih (s.emitEvent (message e))

/-- A log that is handled moves the store alone, as its handler says. -/
theorem step_log (s : LiveState) (timestamp : ℕ) (l : Log) :
    (L.step s (.log timestamp l)).executions = s.executions ∧
    (L.step s (.log timestamp l)).clients = s.clients ∧
      ((L.step s (.log timestamp l)).store = s.store ∨
        ∃ r, handleLog ⟨fun _ => timestamp, L.toText⟩ L.DATABASE_PROVIDER s.store l = .ok r ∧
          (L.step s (.log timestamp l)).store = r.store) := by
  unfold LiveService.step
  dsimp only
  cases handleLog ⟨fun _ => timestamp, L.toText⟩ L.DATABASE_PROVIDER s.store l with
  | ok r =>
    obtain ⟨hstore, hexecutions, hclients⟩ :=
      emit_frame r.emitted (SSEEvent.message L.A) { s with store := r.store }
    exact ⟨hexecutions, hclients, .inr ⟨r, rfl, hstore⟩⟩
  | error e => exact ⟨rfl, rfl, .inl rfl⟩

/-- A request moves the executions alone. -/
theorem step_execution (s : LiveState) (manifests : List ManifestRow) (call : ExecutionCall) :
    (L.step s (.execution manifests call)).store = s.store ∧
      (L.step s (.execution manifests call)).executions =
        (L.post L.K manifests call s.executions).rows ∧
        (L.step s (.execution manifests call)).clients = s.clients :=
  emit_frame _ _ _

/-- The receipt that an action creates, and its place in the chain. -/
def LiveAction.receiptPlace : LiveAction → Option (Bytes32 × Bytes32 × ℕ)
  | .log _ l => l.receiptPlace
  | _ => none

def LiveAction.subscription : LiveAction → Option SSEClient
  | .connect res owner => some ⟨res, owner.map toLowerCase⟩
  | _ => none

theorem places_run (L : LiveService) (as : List LiveAction) :
    (run L.step .init as).store.receipts.map ReceiptRow.place ⊆
      as.filterMap LiveAction.receiptPlace := by
  refine held_run_subset (f := fun s : LiveState => s.store.receipts.map ReceiptRow.place) rfl ?_ as
  intro s a x hx
  cases a with
  | log timestamp l =>
    rcases (step_log s timestamp l).2.2 with hstore | ⟨r, hhandled, hstore⟩
    · exact .inl (hstore ▸ hx)
    · exact place_handleLog hhandled (hstore ▸ hx)
  | execution manifests call => exact .inl ((step_execution s manifests call).1 ▸ hx)
  | connect res owner => exact .inl hx
  | close res => exact .inl hx

theorem ids_run (L : LiveService) (as : List LiveAction) :
    (run L.step .init as).executions.map ExecutionRow.id ⊆ as.filterMap LiveAction.executionId := by
  refine held_run_subset (f := fun s : LiveState => s.executions.map ExecutionRow.id) rfl ?_ as
  intro s a x hx
  cases a with
  | log timestamp l => exact .inl ((step_log s timestamp l).1 ▸ hx)
  | execution manifests call =>
    rw [(step_execution s manifests call).2.1] at hx
    rcases ids_post s.executions with hids | hids
    · exact .inl (hids ▸ hx)
    · rw [hids] at hx
      refine (List.mem_append.1 hx).imp_right ?_
      intro hx
      exact congrArg some (List.mem_singleton.1 hx).symm
  | connect res owner => exact .inl hx
  | close res => exact .inl hx

theorem clients_run (L : LiveService) (as : List LiveAction) :
    (run L.step .init as).clients ⊆ as.filterMap LiveAction.subscription := by
  refine held_run_subset (f := LiveState.clients) rfl ?_ as
  intro s a client hclient
  cases a with
  | log timestamp l => exact .inl ((step_log s timestamp l).2.1 ▸ hclient)
  | execution manifests call => exact .inl ((step_execution s manifests call).2.2 ▸ hclient)
  | connect res owner =>
    refine (List.mem_append.1 hclient).imp_right ?_
    intro hclient
    exact congrArg some (List.mem_singleton.1 hclient).symm
  | close res => exact .inl (List.mem_of_mem_eraseP hclient)

variable {A : Address} {c : ℕ} {as : List LiveAction}

/-- The client's subscriptions are to the owner. -/
structure Subscribed (A : Address) (c : ℕ) (s : LiveState) : Prop where
  owner : ∀ client ∈ s.clients, client.res = c → client.owner = some (toHex 40 A)
  bounded : ∀ client ∈ s.clients, client.res = c → A < 16 ^ 40

/-- What holds at every visit of such a run. -/
theorem Promised.visit (h : Promised A c as) {v : LiveState × LiveAction}
    (hv : v ∈ visits L.step .init as) :
    Ready v.1 v.2 ∧ Subscribed A c v.1 ∧ v.2 ∈ as := by
  obtain ⟨as₁, as₂, rfl, hrun⟩ := exists_split_of_mem_visits hv
  have hmem : v.2 ∈ as₁ ++ v.2 :: as₂ := List.mem_append_right _ List.mem_cons_self
  have hclients : ∀ client ∈ v.1.clients, client.res = c →
      ∃ s, client.owner = some (toLowerCase s) ∧
      hexLiteral 40 s = some A := by
    intro client hclient hres
    obtain ⟨a, ha, hsubscription⟩ := List.mem_filterMap.1 (clients_run L as₁ (hrun ▸ hclient))
    cases a with
    | connect res owner =>
      obtain rfl := Option.some.inj hsubscription
      obtain rfl : res = c := hres
      obtain ⟨s, rfl, hs⟩ := h.subscribed owner (List.mem_append_left _ ha)
      exact ⟨s, rfl, hs⟩
    | log | execution | close => cases hsubscription
  refine ⟨?_, ⟨?_, ?_⟩, hmem⟩
  · cases hv : v.2 with
    | log timestamp l =>
      intro receiptId r p hevent hplace row hrow htx hindex
      have hrow' : row.place ∈ (run L.step .init as₁).store.receipts.map ReceiptRow.place :=
        List.mem_map_of_mem (hrun ▸ hrow)
      obtain ⟨a, ha, hreceipt⟩ := List.mem_filterMap.1 (places_run L as₁ hrow')
      cases a with
      | log timestamp' l' =>
        obtain ⟨r', p', hevent', hplace', hsame⟩ := Log.exists_of_receiptPlace hreceipt
        obtain ⟨htx', hindex'⟩ := Prod.mk.inj hsame
        have hsame := h.places timestamp l p timestamp' l' p' (hv ▸ hmem)
          (List.mem_append_left _ ha) hplace hplace'
          (htx.symm.trans htx') (hindex.symm.trans hindex')
        rw [hevent, hevent'] at hsame
        exact (Event.ActionReceipt.inj (Option.some.inj hsame)).1.symm
      | execution | connect | close => cases hreceipt
    | execution manifests call =>
      intro htaken
      have hids := h.ids
      rw [List.filterMap_append, List.nodup_append] at hids
      refine hids.2.2 _ (ids_run L as₁ (hrun ▸ htaken)) call.id ?_ rfl
      rw [List.filterMap_cons_some (show v.2.executionId = some call.id by rw [hv]; rfl)]
      exact List.mem_cons_self
    | connect res owner => trivial
    | close res => trivial
  · intro client hclient hres
    obtain ⟨s, howner, hs⟩ := hclients client hclient hres
    rw [howner, toLowerCase_of_hexLiteral hs]
  · intro client hclient hres
    obtain ⟨s, -, hs⟩ := hclients client hclient hres
    exact hexLiteral_lt hs

/-- Such a run of the service is a run of the channel. -/
theorem LiveService.visits_channel (h : Promised A c as) :
    visits (Broadcast.Channel.step L.op) .empty as =
        (visits L.step .init as).map (fun v => (v.1.channel, v.2)) ∧
      run (Broadcast.Channel.step L.op) .empty as = (run L.step .init as).channel :=
  simulate_run LiveState.channel fun _ hv => channel_step (h.visit hv).1

end

/-! ### What concerns the owner -/

/-- Which receipts are the owner's, and which challenges are of one of these: the chain's to say. -/
structure Holdings where
  receipt : Bytes32 → Bool
  challenge : ℕ → Bool

def Log.concerns (own : Holdings) (A : Address) (l : Log) : Bool :=
  match l.event with
  | some (.ActionReceipt _ r) => r.owner = A
  | some (.ChallengeFiled _ receiptId _) => own.receipt receiptId
  | some (.ChallengeResolved challengeId _ _) => own.challenge challengeId
  | _ => false

/-- The actions that two runs have in common: the logs of the owner's receipts and of their
challenges, the owner's requests, and what the client of response `c` does. -/
def LiveAction.concerns (own : Holdings) (A : Address) (c : ℕ) : LiveAction → Bool
  | .log _ l => l.concerns own A
  | .execution _ call => (ExecutionBody.safeParse call.body).any fun body => body.owner.value = A
  | .connect res _ => res = c
  | .close res => res = c

/-- A challenge event of somebody else's receipt. -/
def Log.ForeignChallenge (own : Holdings) (l : Log) : Prop :=
  match l.event, l.provenance with
  | some (.ChallengeFiled _ receiptId _), some _ => own.receipt receiptId = false
  | some (.ChallengeResolved challengeId _ _), some _ => own.challenge challengeId = false
  | _, _ => False

def LiveAction.ForeignChallenge (own : Holdings) : LiveAction → Prop
  | .log _ l => l.ForeignChallenge own
  | _ => False

def Connected (c : ℕ) (s : LiveState) : Prop := ∃ client ∈ s.clients, client.res = c

instance (c : ℕ) (s : LiveState) : Decidable (Connected c s) :=
  inferInstanceAs (Decidable (∃ client ∈ s.clients, _))

/-- A challenge event of somebody else's receipt is handled while the client is connected. -/
def Overhears (own : Holdings) (c : ℕ) (v : LiveState × LiveAction) : Prop :=
  v.2.ForeignChallenge own ∧ Connected c v.1

/-- The frame of an event that concerns the owner, while the client is connected. -/
def LiveService.announcedTo (L : LiveService) (own : Holdings) (A : Address) (c : ℕ)
    (v : LiveState × LiveAction) :
    List JsString :=
  if v.2.concerns own A c = true ∧ Connected c v.1 then
    (L.message v.2).toList.map SSEMessage.frame
  else []

/-- The client gets the same frames in both runs, and those of all the owner's events that are
handled while it is connected, in order. -/
structure Isolated (L : LiveService) (own : Holdings) (A : Address) (c : ℕ)
    (as bs : List LiveAction) : Prop where
  frames : (run L.step .init as).framesTo c = (run L.step .init bs).framesTo c
  complete : ((visits L.step .init as).flatMap (L.announcedTo own A c)).Sublist
    ((run L.step .init as).framesTo c)

theorem toLowerCase_checksumAddress (A : AddressChecksum) {a : Address} (ha : a < 16 ^ 40) :
    toLowerCase (checksumAddress A a) = toHex 40 a := by
  unfold checksumAddress
  cases h : A.getAddress (toHex 40 a) with
  | none => exact toLowerCase_toHex 40 a
  | some s => exact toLowerCase_of_hexLiteral ((A.spells h).trans (hexLiteral_toHex ha))

section
variable {L : LiveService} {own : Holdings} {A : Address} {c : ℕ} {a : LiveAction}
  {event : SSEMessage}

variable (own A c) in
/-- The receipts and the blocked attempts name their owner, the challenges name none. -/
theorem owner_of_message
    (haddress : a.Addressed) (h : L.message a = some event) :
    (∃ o, o < 16 ^ 40 ∧ event.owner = some (toHex 40 o) ∧ (a.concerns own A c = true ↔ o = A) ∧
        ¬ a.ForeignChallenge own) ∨
      event.owner = none ∧ (a.ForeignChallenge own ↔ a.concerns own A c = false) := by
  cases a with
  | log timestamp l =>
    obtain ⟨e, he, rfl⟩ := Option.map_eq_some_iff.1 h
    unfold announcement at he
    split at he
    · next receiptId r p hevent hplace =>
      obtain rfl := Option.some.inj he
      have howner := haddress timestamp l receiptId r rfl hevent
      refine .inl ⟨r.owner, howner, congrArg some (toLowerCase_checksumAddress L.A howner), ?_, ?_⟩
      · show l.concerns own A = true ↔ _
        unfold Log.concerns
        rw [hevent]
        exact decide_eq_true_iff
      · show ¬ l.ForeignChallenge own
        unfold Log.ForeignChallenge
        rw [hevent, hplace]
        exact id
    · next challengeId receiptId challenger p hevent hplace =>
      obtain rfl := Option.some.inj he
      refine .inr ⟨rfl, ?_⟩
      show l.ForeignChallenge own ↔ l.concerns own A = false
      unfold Log.ForeignChallenge Log.concerns
      rw [hevent, hplace]
    · next challengeId uphold payout p hevent hplace =>
      obtain rfl := Option.some.inj he
      refine .inr ⟨rfl, ?_⟩
      show l.ForeignChallenge own ↔ l.concerns own A = false
      unfold Log.ForeignChallenge Log.concerns
      rw [hevent, hplace]
    · cases he
  | execution manifests call =>
    obtain ⟨e, he, rfl⟩ := Option.map_eq_some_iff.1 h
    obtain ⟨body, hbody, howner⟩ := owner_attempt he
    refine .inl ⟨body.owner.value, hexLiteral_lt body.owner.spells, ?_, ?_, id⟩
    · show some (toLowerCase e.owner) = _
      rw [howner, toLowerCase_of_hexLiteral body.owner.spells]
    · show (ExecutionBody.safeParse call.body).any _ = true ↔ _
      rw [hbody]
      exact decide_eq_true_iff
  | connect res owner => cases h
  | close res => cases h

theorem concerns_of_foreignChallenge (h : a.ForeignChallenge own) : a.concerns own A c = false := by
  cases a with
  | log timestamp l =>
    show l.concerns own A = false
    replace h : l.ForeignChallenge own := h
    unfold Log.ForeignChallenge at h
    unfold Log.concerns
    split at h
    · next hevent _ =>
      rw [hevent]
      exact h
    · next hevent _ =>
      rw [hevent]
      exact h
    · exact h.elim
  | execution manifests call => exact h.elim
  | connect res owner => exact h.elim
  | close res => exact h.elim

theorem op_of_message (h : L.message a = some event) :
    L.op a = some (.publish (topic event.owner) event.frame) := by
  cases a with
  | log timestamp l => exact congrArg (Option.map _) h
  | execution manifests call => exact congrArg (Option.map _) h
  | connect res owner => cases h
  | close res => cases h

variable (own A c) in
/-- An action without a message is no challenge event, and only what the client does itself
subscribes it. -/
theorem quiet_of_no_message (h : L.message a = none) :
    ¬ a.ForeignChallenge own ∧
    (a.concerns own A c = false → ∀ s, Broadcast.heard L.op c (s, a) = []) := by
  cases a with
  | log timestamp l =>
    have hnone := Option.map_eq_none_iff.1 h
    refine ⟨?_, fun _ s => ?_⟩
    · show ¬ l.ForeignChallenge own
      unfold announcement at hnone
      unfold Log.ForeignChallenge
      split at hnone
      · cases hnone
      · cases hnone
      · cases hnone
      · next hreceipt hfiled hresolved =>
        split
        · next hevent hplace => exact (hfiled _ _ _ _ hevent hplace).elim
        · next hevent hplace => exact (hresolved _ _ _ _ hevent hplace).elim
        · exact id
    · show ((L.message (.log timestamp l)).map _).elim [] _ = []
      rw [h]
      rfl
  | execution manifests call =>
    refine ⟨id, fun _ s => ?_⟩
    show ((L.message (.execution manifests call)).map _).elim [] _ = []
    rw [h]
    rfl
  | connect res owner => exact ⟨id, fun hother s => if_neg (of_decide_eq_false hother)⟩
  | close res => exact ⟨id, fun _ _ => rfl⟩

variable {s : LiveState}

theorem heard_of_message (h : L.message a = some event) :
    Broadcast.heard L.op c (s.channel, a) =
      Broadcast.hears c s.channel (.publish (topic event.owner) event.frame) := by
  unfold Broadcast.heard
  dsimp only
  rw [op_of_message h]
  rfl

/-- Which messages the client accepts: its owner's, and those without an owner. -/
theorem accepts_iff (hsub : Subscribed A c s) {client : SSEClient} (hclient : client ∈ s.clients)
    (hres : client.res = c) {o : Option JsString} :
    (⟨client.res, topic client.owner⟩ : Broadcast.Subscriber ℕ JsString).Accepts (topic o) ↔
      topic o = none ∨ topic o = some (toHex 40 A) := by
  have htopic : topic (some (toHex 40 A)) = some (toHex 40 A) := rfl
  unfold Broadcast.Subscriber.Accepts
  dsimp only
  rw [hsub.owner client hclient hres, htopic]
  simp [eq_comm]

/-- An action that does not concern the owner is heard exactly when it is a challenge event and the
client is connected. -/
theorem heard_eq_nil_iff
    (haddress : a.Addressed) (hsub : Subscribed A c s) (ha : a.concerns own A c = false) :
    Broadcast.heard L.op c (s.channel, a) = [] ↔ ¬ Overhears own c (s, a) := by
  unfold Overhears
  cases hmessage : L.message a with
  | none =>
    have hquiet := quiet_of_no_message own A c hmessage
    exact iff_of_true (hquiet.2 ha s.channel) fun h => hquiet.1 h.1
  | some event =>
    rw [heard_of_message hmessage, Broadcast.hears_publish_eq_nil]
    rcases owner_of_message own A c haddress hmessage with
      ⟨o, ho, howner, hconcerns, hforeign⟩ | ⟨howner, hforeign⟩
    · have hne : o ≠ A := fun h => Bool.false_ne_true (ha.symm.trans (hconcerns.2 h))
      refine iff_of_true ?_ fun h => hforeign h.1
      intro x hx hres haccepts
      obtain ⟨client, hclient, rfl⟩ := List.mem_map.1 hx
      rw [howner, accepts_iff hsub hclient hres] at haccepts
      rcases haccepts with hnone | hsame
      · cases hnone
      · exact hne ((toHex_inj ho (hsub.bounded client hclient hres)).1 (Option.some.inj hsame))
    · have hhears : ∀ client ∈ s.clients, client.res = c →
          (⟨client.res, topic client.owner⟩ : Broadcast.Subscriber ℕ JsString).Accepts
            (topic event.owner) :=
        fun client hclient hres => (accepts_iff hsub hclient hres).2 (.inl (congrArg topic howner))
      constructor
      · intro h hover
        obtain ⟨-, client, hclient, hres⟩ := hover
        exact h _ (List.mem_map_of_mem hclient) hres (hhears client hclient hres)
      · intro h x hx hres _
        obtain ⟨client, hclient, rfl⟩ := List.mem_map.1 hx
        exact h ⟨hforeign.2 ha, client, hclient, hres⟩

/-- The client hears the owner's events. -/
theorem announcedTo_sublist
    (haddress : a.Addressed) (hsub : Subscribed A c s) :
    (L.announcedTo own A c (s, a)).Sublist (Broadcast.heard L.op c (s.channel, a)) := by
  unfold LiveService.announcedTo
  split_ifs with h
  · obtain ⟨hconcerns, client, hclient, hres⟩ := h
    cases hmessage : L.message a with
    | none => exact List.nil_sublist _
    | some event =>
      have haccepts : (⟨client.res, topic client.owner⟩ : Broadcast.Subscriber ℕ JsString).Accepts
          (topic event.owner) := by
        rw [accepts_iff hsub hclient hres]
        rcases owner_of_message own A c haddress hmessage with
          ⟨o, -, howner, hiff, -⟩ | ⟨howner, -⟩
        · obtain rfl := hiff.1 hconcerns
          exact .inr (congrArg topic howner)
        · exact .inl (congrArg topic howner)
      rw [heard_of_message hmessage]
      show [event.frame].Sublist _
      rw [List.singleton_sublist]
      apply List.mem_map.2
      refine ⟨⟨client.res, topic client.owner⟩, List.mem_filter.2 ⟨?_, decide_eq_true haccepts⟩,
        rfl⟩
      exact List.mem_filter.2 ⟨List.mem_map_of_mem hclient, decide_eq_true hres⟩
  · exact List.nil_sublist _

end

/-! ### Two runs -/

section
variable {L : LiveService} {own own' : Holdings} {A : Address} {c : ℕ} {as bs : List LiveAction}

theorem not_moves_of_not_concerns {a : LiveAction} (ha : a.concerns own A c = false) :
    ∀ o ∈ L.op a, ¬ o.Moves c := by
  have hpublish (event : Option SSEMessage) :
      ∀ o ∈ event.map fun e => Broadcast.Op.publish (topic e.owner) e.frame,
      ¬ o.Moves c := by
    intro o ho
    obtain ⟨e, -, rfl⟩ := Option.map_eq_some_iff.1 ho
    exact id
  cases a with
  | log timestamp l => exact hpublish _
  | execution manifests call => exact hpublish _
  | connect res owner =>
    intro o ho
    obtain rfl := Option.some.inj ho
    have hne : res ≠ c := of_decide_eq_false ha
    exact hne
  | close res =>
    intro o ho
    obtain rfl := Option.some.inj ho
    have hne : res ≠ c := of_decide_eq_false ha
    exact hne

/-- On the channel: what does not concern the owner is not heard. -/
theorem unheard_iff (h : Promised A c as) :
    (∀ v ∈ visits (Broadcast.Channel.step L.op) .empty as, v.2.concerns own A c = false →
        Broadcast.heard L.op c v = []) ↔
      ∀ v ∈ visits L.step .init as, ¬ Overhears own c v := by
  rw [(LiveService.visits_channel h).1, List.forall_mem_map]
  constructor
  · intro hunheard v hv hover
    obtain ⟨-, hsub, hmem⟩ := h.visit hv
    have ha := concerns_of_foreignChallenge (A := A) (c := c) hover.1
    exact (heard_eq_nil_iff (h.address hmem) hsub ha).1 (hunheard v hv ha) hover
  · intro hquiet v hv ha
    obtain ⟨-, hsub, hmem⟩ := h.visit hv
    exact (heard_eq_nil_iff (h.address hmem) hsub ha).2 (hquiet v hv)

/-- The owner's events are among the frames. -/
theorem complete_run (h : Promised A c as) :
    ((visits L.step .init as).flatMap (L.announcedTo own A c)).Sublist
      ((run L.step .init as).framesTo c) := by
  obtain ⟨hvisits, hrun⟩ := LiveService.visits_channel (L := L) h
  have hframes : (run L.step .init as).framesTo c =
      (visits L.step .init as).flatMap fun v => Broadcast.heard L.op c (v.1.channel, v.2) := by
    show Broadcast.received c (run L.step .init as).channel = _
    rw [← hrun, Broadcast.received_run, hvisits, List.flatMap_map]
    rfl
  rw [hframes]
  apply List.Sublist.flatMap_right
  intro v hv
  obtain ⟨-, hsub, hmem⟩ := h.visit hv
  exact announcedTo_sublist (h.address hmem) hsub

/-- Two runs that agree on what concerns the owner, and in one of which the client overhears no
challenge of somebody else's receipt, are the same for the client, and complete, exactly when it
overhears none in the other. -/
theorem live_events_isolated_iff (L : LiveService) (own own' : Holdings) (A : Address) (c : ℕ)
    (as bs : List LiveAction) (has : Promised A c as) (hbs : Promised A c bs)
    (hagree : as.filter (LiveAction.concerns own A c) = bs.filter (LiveAction.concerns own' A c))
    (hquiet : ∀ v ∈ visits L.step .init bs, ¬ Overhears own' c v) :
    Isolated L own A c as bs ↔ ∀ v ∈ visits L.step .init as, ¬ Overhears own c v := by
  have hframes : (run L.step .init as).framesTo c = (run L.step .init bs).framesTo c ↔
      ∀ v ∈ visits L.step .init as, ¬ Overhears own c v := by
    show Broadcast.received c (run L.step .init as).channel =
      Broadcast.received c (run L.step .init bs).channel ↔ _
    rw [← (LiveService.visits_channel has).2, ← (LiveService.visits_channel hbs).2,
      ← unheard_iff has]
    exact Broadcast.received_eq_iff (fun _ => not_moves_of_not_concerns)
      (fun _ => not_moves_of_not_concerns) hagree
      ((unheard_iff hbs).2 hquiet)
  rw [← hframes]
  constructor
  · intro h
    exact h.frames
  · intro h
    exact ⟨h, complete_run has⟩

/-- A part of such a run. -/
theorem Promised.sublist (h : Promised A c as) (hsub : bs.Sublist as) : Promised A c bs where
  subscribed := fun owner hconnect => h.subscribed owner (hsub.subset hconnect)
  addresses := fun timestamp l receiptId r hl =>
    h.addresses timestamp l receiptId r (hsub.subset hl)
  places := fun timestamp l p timestamp' l' p' hl hl' =>
    h.places timestamp l p timestamp' l' p' (hsub.subset hl) (hsub.subset hl')
  ids := (hsub.filterMap _).nodup h.ids

end

/-- The run's logs say the same of the holdings. -/
structure Holdings.Shown (own : Holdings) (A : Address) (as : List LiveAction) : Prop where
  receipts : ∀ timestamp l receiptId r, .log timestamp l ∈ as →
    l.event = some (.ActionReceipt receiptId r) →
    (own.receipt receiptId = true ↔ r.owner = A)
  challenges : ∀ timestamp l challengeId receiptId challenger, .log timestamp l ∈ as →
    l.event = some (.ChallengeFiled challengeId receiptId challenger) →
      own.challenge challengeId = own.receipt receiptId

namespace TwoOwners

def service : LiveService where
  toExecutionService := UnreadAmount.service
  K := Keccak.numbering
  A := Localnet.lowerCase
  toText := fun _ => []

def receipt (owner : Address) : ReceiptSummary := { (default : ReceiptSummary) with owner }

def log (place : ℕ) (event : Event) : LiveAction := .log 1000 ⟨some event, some ⟨place, place, 0⟩⟩

/-- A client of owner 5 connects, owner 5 pays, owner 6 pays, and a challenge of the second receipt
is filed. -/
def actions : List LiveAction :=
  [.connect 0 (some (toHex 40 5)), log 1 (.ActionReceipt 1 (receipt 5)),
    log 2 (.ActionReceipt 2 (receipt 6)), log 3 (.ChallengeFiled 1 2 9)]

def own : Holdings := ⟨fun receiptId => receiptId = 1, fun _ => false⟩

theorem log_mem {timestamp : ℕ} {l : Log} (h : .log timestamp l ∈ actions) :
    l = ⟨some (.ActionReceipt 1 (receipt 5)), some ⟨1, 1, 0⟩⟩ ∨
      l = ⟨some (.ActionReceipt 2 (receipt 6)), some ⟨2, 2, 0⟩⟩ ∨
        l = ⟨some (.ChallengeFiled 1 2 9), some ⟨3, 3, 0⟩⟩ := by
  simp only [actions, log, List.mem_cons, List.not_mem_nil, or_false, reduceCtorEq, false_or,
    LiveAction.log.injEq] at h
  exact h.imp And.right (Or.imp And.right And.right)

theorem promised : Promised 5 0 actions where
  subscribed := by
    intro owner h
    simp only [actions, log, List.mem_cons, List.not_mem_nil, or_false, reduceCtorEq] at h
    obtain ⟨-, rfl⟩ := LiveAction.connect.inj h
    exact ⟨_, rfl, hexLiteral_toHex (by decide)⟩
  addresses := by
    intro timestamp l receiptId r h hevent
    rcases log_mem h with rfl | rfl | rfl
    · cases hevent
      decide
    · cases hevent
      decide
    · cases hevent
  places := by
    intro timestamp l p timestamp' l' p' h h' hp hp' htx _
    -- The three logs are of three transactions.
    have htx' : l.provenance.map Provenance.transactionHash =
        l'.provenance.map Provenance.transactionHash := by
      rw [hp, hp', Option.map_some, Option.map_some, htx]
    rcases log_mem h with rfl | rfl | rfl <;> rcases log_mem h' with rfl | rfl | rfl <;>
      first | rfl | exact absurd htx' (by decide)
  ids := List.nodup_nil

theorem shown : own.Shown 5 actions where
  receipts := by
    intro timestamp l receiptId r h hevent
    rcases log_mem h with rfl | rfl | rfl
    · cases hevent
      decide
    · cases hevent
      decide
    · cases hevent
  challenges := by
    intro timestamp l challengeId receiptId challenger h hevent
    rcases log_mem h with rfl | rfl | rfl
    · cases hevent
    · cases hevent
    · cases hevent
      decide

end TwoOwners

open TwoOwners

/-- The client of owner 5 is sent the challenge of owner 6's receipt. -/
theorem challenge_overheard :
    ¬ ∀ (L : LiveService) (own own' : Holdings) (A : Address) (c : ℕ) (as bs : List LiveAction),
      Promised A c as →
      Promised A c bs → own.Shown A as → own'.Shown A bs →
        as.filter (LiveAction.concerns own A c) = bs.filter (LiveAction.concerns own' A c) →
          Isolated L own A c as bs := by
  intro h
  have hsub : (actions.take 2).Sublist actions := List.take_sublist _ _
  have hshown : own.Shown 5 (actions.take 2) :=
    ⟨fun timestamp l receiptId r hl => shown.receipts timestamp l receiptId r (hsub.subset hl),
      fun timestamp l challengeId receiptId challenger hl =>
        shown.challenges timestamp l challengeId receiptId challenger (hsub.subset hl)⟩
  have hframes :=
    (h service own own 5 0 actions (actions.take 2) promised (promised.sublist hsub) shown hshown
    rfl).frames
  have hlengths : ((run service.step .init actions).framesTo 0).length = 3 ∧
      ((run service.step .init (actions.take 2)).framesTo 0).length = 2 := by decide +kernel
  rw [hframes, hlengths.2] at hlengths
  exact absurd hlengths.1 (by decide)

/-- Of owner 6's payment it is sent nothing. -/
theorem live_events_isolated_beforeChallenge :
    Isolated service own 5 0 (actions.take 3) (actions.take 2) ↔
      ∀ v ∈ visits service.step .init (actions.take 3), ¬ Overhears own 0 v := by
  refine live_events_isolated_iff service own own 5 0 (actions.take 3) (actions.take 2)
    (promised.sublist (List.take_sublist _ _)) (promised.sublist (List.take_sublist _ _)) rfl ?_
  intro v hv hover
  have hnone : ∀ a ∈ actions.take 2, ¬ a.ForeignChallenge own := by
    intro a ha
    simp only [actions, log, List.take_succ_cons, List.take_zero, List.mem_cons, List.not_mem_nil,
      or_false] at ha
    rcases ha with rfl | rfl <;> exact id
  exact hnone v.2 (snd_mem_of_mem_visits hv) hover.1

end IntentGuard.Infra
