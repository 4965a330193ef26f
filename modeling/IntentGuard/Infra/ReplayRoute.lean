import IntentGuard.Infra.Acknowledgements
import IntentGuard.Infra.KeyOrder

/-!
# Replaying a trace

`GET /v1/replay/:contextDigest` of `api/replay.ts`. The stored text goes through UTF-8 and
`JSON.parse`, and a reader of the answer writes the trace in its canonical form again. A trace that
was posted as a value has been stored in that form; one that was posted as a string has been stored
as it was.

`replay_rederivable_iff`: for a trace that was answered with 200, a replay leads back to its digest
exactly when it finds the row and the trace is no string, or one with the bytes of a canonical text.
-/

namespace IntentGuard.Infra

open Js TraceService

structure ReplayBundle where
  contextDigest : Bytes32
  traceURI : JsString
  uriHash : Bytes32
  agentId : Option Bytes32
  owner : Option Address
  expiresAt : ℕ
  signer : Address
  signature : Bytes
  trace : Json

/-- What is read from a column that holds UTF-8. -/
def column (s : JsString) : JsString := ofCodePoints (codePoints s)

def getReplay (provider : Provider) (rows : List TraceRow) (contextDigest : JsString)
    (fails : Bool) :
    Except HttpError ReplayBundle := do
  let contextDigest ← orThrow (badRequest "invalid contextDigest") (hexLiteral 64 contextDigest)
  let found ← getTraceByDigest provider rows contextDigest fails
  let row ← orThrow (notFound "trace not found") found
  let trace ← orThrow unhandled (JSON.parse (column row.traceJson))
  pure
    { contextDigest := row.contextDigest
      traceURI := row.traceUri
      uriHash := row.uriHash
      agentId := row.agentId
      owner := row.owner
      expiresAt := row.expiresAt
      signer := row.signer
      signature := row.signature
      trace }

/-- A replay is answered with 200, and its trace hashes to the digest again. -/
def Rederivable (K : Keccak) (provider : Provider) (rows : List TraceRow) (param : JsString)
    (contextDigest : Bytes32) :
    Prop :=
  ∃ bundle canonical, getReplay provider rows param false = .ok bundle ∧
    canonicalize bundle.trace = .ok canonical ∧
    K.bytes (Js.encode canonical) = contextDigest

/-- The text has the bytes of the canonical text of a value. -/
def Canonical (s : JsString) : Prop :=
  ∃ v t, Json.Finite v ∧ canonicalize v = .ok t ∧ Js.encode s = Js.encode t

/-- A trace in the form of a string is canonical. -/
def CanonicalTrace (body : Json) : Prop := ∀ s, body.get? "trace" = some (.string s) → Canonical s

/-! ### Texts -/

/-- Reading a text and writing it in its canonical form gives back its bytes exactly when it is
canonical. -/
theorem canonical_iff {s : JsString} :
    Canonical s ↔ ∃ v t, JSON.parse (column s) = some v ∧ canonicalize v = .ok t ∧
    Js.encode t = Js.encode s := by
  constructor
  · rintro ⟨v, t, hv, ht, hbytes⟩
    have hwell : WellFormed t :=
      Except.ok.inj (ht.symm.trans (encode_eq hv)) ▸ wellFormed_stringify _
    obtain ⟨w, hparse, hw⟩ := canonicalize_parse hv ht
    have hcolumn : column s = t := by
      unfold column
      rw [encode_eq_iff.1 hbytes, ofCodePoints_codePoints hwell]
    exact ⟨w, t, hcolumn ▸ hparse, hw, hbytes.symm⟩
  · rintro ⟨v, t, hparse, ht, hbytes⟩
    exact ⟨v, t, finite_of_encode (parsed_of_parse hparse) ht, ht, hbytes.symm⟩

theorem get?_parsed {body v : Json} (hbody : body.Meets parsed) {key : String}
    (h : body.get? key = some v) :
    v.Meets parsed := by
  cases body with
  | object es =>
    obtain ⟨e, he, rfl⟩ := Option.map_eq_some_iff.1 h
    exact (meetsEntries_iff parsed es).1 hbody.2 e (List.mem_of_find?_eq_some he)
  | _ => exact absurd h nofun

/-- A trace is a string as it was posted, or a value that is no string. -/
theorem traceField_eq_some {body trace : Json} (h : traceField body = some trace) :
    (∃ s, body.get? "trace" = some (.string s) ∧ trace = .string s) ∨
      (∀ s, body.get? "trace" ≠ some (.string s)) ∧ (∀ s, trace ≠ .string s) ∧
        (body.Meets parsed → trace.Meets parsed) := by
  unfold traceField at h
  cases hfield : body.get? "trace" with
  | none => exact absurd (hfield ▸ h) nofun
  | some v =>
    rw [hfield] at h
    cases v with
    | string s => exact .inl ⟨s, rfl, (Option.some.inj h).symm⟩
    | array items =>
      obtain rfl := Option.some.inj h
      exact .inr ⟨nofun, nofun, fun hbody => get?_parsed hbody hfield⟩
    | object es =>
      obtain rfl := Option.some.inj h
      refine .inr ⟨nofun, nofun, fun hbody => ?_⟩
      obtain ⟨hkeys, hvalues⟩ : (Json.object es).Meets parsed := get?_parsed hbody hfield
      rw [meetsEntries_iff] at hvalues
      refine ⟨List.Nodup.sublist (List.filter_sublist.map Prod.fst) hkeys, ?_⟩
      rw [meetsEntries_iff]
      exact fun e he => hvalues e (List.mem_of_mem_filter he)
    | _ => exact absurd h nofun

/-- The text of an accepted request is canonical exactly when its trace is. -/
theorem canonicalJson_iff {K : Keccak} {body : Json} (hbody : body.Meets parsed)
    {req : TraceRequest} (h : validateTrace K body = .ok req) : Canonical req.canonicalJson ↔
      CanonicalTrace body := by
  unfold validateTrace at h
  obtain ⟨posted, hposted, h⟩ := bind_eq_ok.1 h
  obtain ⟨canonicalJson, hjson, h⟩ := bind_eq_ok.1 h
  obtain ⟨-, -, h⟩ := bind_eq_ok.1 h
  obtain rfl := Except.ok.inj h
  have htrace : traceField body = some posted.trace := by
    obtain ⟨agentId, -, hposted⟩ := Option.bind_eq_some_iff.1 (orThrow_eq_ok.1 hposted)
    obtain ⟨owner, -, hposted⟩ := Option.bind_eq_some_iff.1 hposted
    obtain ⟨contextDigest, -, hposted⟩ := Option.bind_eq_some_iff.1 hposted
    obtain ⟨trace, htrace, hposted⟩ := Option.bind_eq_some_iff.1 hposted
    obtain rfl := Option.some.inj hposted
    exact htrace
  rcases traceField_eq_some htrace with ⟨s, hfield, hs⟩ | ⟨hfield, hs, hmeets⟩
  · rw [hs] at hjson
    obtain rfl := Except.ok.inj hjson
    constructor
    · intro hcanonical s' hs'
      obtain rfl : s = s' := Json.string.inj (Option.some.inj (hfield.symm.trans hs'))
      exact hcanonical
    · exact fun hcanonical => hcanonical s hfield
  · have hcanonicalize : canonicalize posted.trace = .ok canonicalJson := by
      unfold toCanonicalBytes at hjson
      cases ht : posted.trace with
      | string s => exact absurd ht (hs s)
      | _ =>
        rw [ht] at hjson
        dsimp only at hjson
        split at hjson
        · next heq => exact Except.ok.inj hjson ▸ heq
        · exact absurd hjson nofun
    refine iff_of_true ?_ fun s hstring => absurd hstring (hfield s)
    exact ⟨posted.trace, canonicalJson, finite_of_encode (hmeets hbody) hcanonicalize,
      hcanonicalize, rfl⟩

/-! ### The stored text -/

variable {K : Keccak} {tryRecover : Bytes32 → Bytes → Option Address}
  {S : TraceService K tryRecover}
  {rows rows' : List TraceRow} {c : TraceCall} {r : TraceResponse}

/-- Every row is stored under the hash of its text. -/
def Digested (K : Keccak) (rows : List TraceRow) : Prop :=
  ∀ row ∈ rows, row.contextDigest = K.bytes (Js.encode row.traceJson)

/-- An insert that has an effect is an upsert under the digest, and keeps the text or writes the new
one. -/
theorem insertTrace_eq_ok {provider : Provider} {new : TraceRow} {fails : Bool}
    (h : insertTrace provider rows new fails = .ok rows') :
    (fails = true ∧ provider = .supabase ∧ rows' = rows) ∨
      fails = false ∧ ∃ update : TraceRow → TraceRow,
        rows' = Table.upsert TraceRow.contextDigest update new rows ∧
        ∀ row, row.contextDigest = new.contextDigest →
          (update row).contextDigest = new.contextDigest ∧
            ((update row).traceJson = row.traceJson ∨ (update row).traceJson = new.traceJson) := by
  cases provider with
  | sqlite =>
    cases fails with
    | true => exact absurd h nofun
    | false => exact .inr ⟨rfl, _, (Except.ok.inj h).symm, fun row hkey => ⟨hkey, .inl rfl⟩⟩
  | supabase =>
    cases fails with
    | true => exact .inl ⟨rfl, rfl, (Except.ok.inj h).symm⟩
    | false => exact .inr ⟨rfl, _, (Except.ok.inj h).symm, fun row _ => ⟨rfl, .inr rfl⟩⟩

/-- What a request does to the table. -/
theorem step_table (rows : List TraceRow) (c : TraceCall) :
    S.step rows c = rows ∨ ∃ (update : TraceRow → TraceRow) (new : TraceRow),
      S.step rows c = Table.upsert TraceRow.contextDigest update new rows ∧
        new.contextDigest = K.bytes (Js.encode new.traceJson) ∧
        ∀ row, row.contextDigest = new.contextDigest →
          (update row).contextDigest = new.contextDigest ∧
            ((update row).traceJson = row.traceJson ∨ (update row).traceJson = new.traceJson) := by
  unfold TraceService.step
  cases hpost : S.post rows c with
  | error e => exact .inl rfl
  | ok out =>
    obtain ⟨rows', r⟩ := out
    cases answered_of_post hpost with
    | cached => exact .inl rfl
    | @signed req _ _ _ hvalid _ _ _ _ _ hdigest _ _ hinsert =>
      rcases insertTrace_eq_ok hinsert with ⟨-, -, rfl⟩ | ⟨-, update, rfl, hupdate⟩
      · exact .inl rfl
      · exact .inr ⟨update, _, rfl, hdigest.trans (contextDigest_of_validateTrace hvalid), hupdate⟩

theorem digested_step (hrows : Digested K rows) (c : TraceCall) : Digested K (S.step rows c) := by
  rcases step_table rows c with hkept | ⟨update, new, hstep, hnew, hupdate⟩
  · rw [hkept]
    exact hrows
  · rw [hstep]
    intro row hrow
    rcases Table.mem_upsert hrow with rfl | hold | ⟨old, hold, hkey, rfl⟩
    · exact hnew
    · exact hrows row hold
    · obtain ⟨hkey', hjson | hjson⟩ := hupdate old hkey
      · rw [hkey', hjson, ← hkey, hrows old hold]
      · rw [hkey', hjson]
        exact hnew

theorem digested (cs : List TraceCall) : Digested K (S.traces cs) :=
  (Runs.reachable_run [] cs).induction (List.forall_mem_nil _) fun _ c h => digested_step h c

/-! ### The row of a digest stays -/

theorem find_step_ne_none {k : Bytes32} (h : Table.find TraceRow.contextDigest k rows ≠ none)
    (c : TraceCall) :
    Table.find TraceRow.contextDigest k (S.step rows c) ≠ none := by
  rcases step_table rows c with hkept | ⟨update, new, hstep, -, hupdate⟩
  · rwa [hkept]
  · rw [hstep]
    rw [← Table.mem_keys_iff] at h ⊢
    exact Table.keys_upsert _ _ _ (fun row hkey => (hupdate row hkey).1) _
      (List.mem_cons_of_mem _ h)

theorem find_run_ne_none {k : Bytes32} (h : Table.find TraceRow.contextDigest k rows ≠ none)
    (later : List TraceCall) :
    Table.find TraceRow.contextDigest k (Runs.run S.step rows later) ≠ none :=
  (Runs.reachable_run rows later).induction
    (I := fun rows => Table.find TraceRow.contextDigest k rows ≠ none) h
    fun _ c h => find_step_ne_none h c

/-- A request that is answered with 200 names the digest of its text; its row is there, unless a
write to Supabase was lost. -/
theorem stored_of_post (h : S.post rows c = .ok (rows', r)) :
    (∃ req, validateTrace K c.body = .ok req ∧ req.contextDigest = r.contextDigest) ∧
      (S.DATABASE_PROVIDER = .sqlite ∨ c.insertFails = false →
        Table.find TraceRow.contextDigest r.contextDigest rows' ≠ none) := by
  cases answered_of_post h with
  | @cached req _ row hvalid _ hfound =>
    have hfind := (cachedAck_find hvalid hfound).1
    have hkey : row.contextDigest = req.contextDigest := Table.key_of_find _ hfind
    refine ⟨⟨req, hvalid, hkey.symm⟩, fun _ => ?_⟩
    show Table.find TraceRow.contextDigest row.contextDigest rows ≠ none
    rw [hkey, hfind]
    exact Option.some_ne_none row
  | @signed req _ _ _ hvalid _ _ _ _ _ hdigest _ _ hinsert =>
    refine ⟨⟨req, hvalid, hdigest.symm⟩, fun hkept => ?_⟩
    rcases insertTrace_eq_ok hinsert with ⟨hfails, hprovider, -⟩ | ⟨-, update, rfl, hupdate⟩
    · rcases hkept with hsqlite | hinserted
      · exact absurd (hsqlite.symm.trans hprovider) nofun
      · exact absurd (hinserted.symm.trans hfails) nofun
    · rw [← Table.mem_keys_iff]
      exact Table.keys_upsert _ _ _ (fun row hkey => (hupdate row hkey).1) _ List.mem_cons_self

/-! ### A replay -/

theorem getReplay_of_find {provider : Provider} {param : JsString} {contextDigest : Bytes32}
    {row : TraceRow} (hparam : hexLiteral 64 param = some contextDigest)
    (h : Table.find TraceRow.contextDigest contextDigest rows = some row) :
    getReplay provider rows param false =
      (orThrow unhandled (JSON.parse (column row.traceJson))).map fun trace =>
        { contextDigest := row.contextDigest
          traceURI := row.traceUri
          uriHash := row.uriHash
          agentId := row.agentId
          owner := row.owner
          expiresAt := row.expiresAt
          signer := row.signer
          signature := row.signature
          trace } := by
  have hget : getTraceByDigest provider rows contextDigest false = .ok (some row) :=
    congrArg Except.ok h
  unfold getReplay
  rw [hparam]
  simp only [orThrow, bind, Except.bind, hget]
  cases JSON.parse (column row.traceJson) <;> rfl

/-- A row is replayed to its digest exactly when its text is canonical. -/
theorem rederivable_iff_canonical (hcf : K.CollisionFree) {provider : Provider} {param : JsString}
    {contextDigest : Bytes32} {row : TraceRow} (hparam : hexLiteral 64 param = some contextDigest)
    (h : Table.find TraceRow.contextDigest contextDigest rows = some row)
    (hdigest : row.contextDigest = K.bytes (Js.encode row.traceJson)) :
    Rederivable K provider rows param contextDigest ↔ Canonical row.traceJson := by
  have hkey : row.contextDigest = contextDigest := Table.key_of_find _ h
  unfold Rederivable
  rw [getReplay_of_find hparam h, canonical_iff]
  cases hparse : JSON.parse (column row.traceJson) with
  | none =>
    refine iff_of_false ?_ ?_
    · rintro ⟨_, _, hget, -⟩
      exact absurd hget nofun
    · rintro ⟨_, _, hnone, -⟩
      exact absurd hnone nofun
  | some v =>
    constructor
    · rintro ⟨bundle, t, hget, ht, hhash⟩
      obtain rfl := Except.ok.inj hget
      exact ⟨v, t, rfl, ht, hcf.bytes (hhash.trans (hkey.symm.trans hdigest))⟩
    · rintro ⟨w, t, hw, ht, hbytes⟩
      obtain rfl := Option.some.inj hw
      exact ⟨_, t, rfl, ht, by rw [hbytes, ← hdigest, hkey]⟩

/-- A stored trace is replayed to its digest at any later time exactly when it is canonical or no
string. -/
theorem rederivable_iff_canonicalTrace (hcf : K.CollisionFree) (cs : List TraceCall)
    (hbody : c.body.Meets parsed) (h : S.post (S.traces cs) c = .ok (rows', r))
    (later : List TraceCall) {param : JsString}
    (hparam : hexLiteral 64 param = some r.contextDigest)
    (hstored : Table.find TraceRow.contextDigest r.contextDigest (Runs.run S.step rows' later) ≠
      none) :
    Rederivable K S.DATABASE_PROVIDER (Runs.run S.step rows' later) param r.contextDigest ↔
      CanonicalTrace c.body := by
  obtain ⟨⟨req, hvalid, hreq⟩, -⟩ := stored_of_post h
  obtain ⟨row, hfind⟩ := Option.ne_none_iff_exists'.1 hstored
  have hrun : Runs.run S.step rows' later = S.traces (cs ++ c :: later) := by
    rw [TraceService.traces, Runs.run_append, Runs.run_cons, ← TraceService.traces,
      TraceService.step, h]
  have hdigest : row.contextDigest = K.bytes (Js.encode row.traceJson) :=
    digested (S := S) (cs ++ c :: later) row (hrun ▸ Table.mem_of_find _ hfind)
  have hkey : row.contextDigest = r.contextDigest := Table.key_of_find _ hfind
  have hbytes : Js.encode row.traceJson = Js.encode req.canonicalJson :=
    hcf.bytes
      (hdigest.symm.trans (hkey.trans (hreq.symm.trans (contextDigest_of_validateTrace hvalid))))
  rw [rederivable_iff_canonical hcf hparam hfind hdigest, ← canonicalJson_iff hbody hvalid]
  unfold Canonical
  rw [hbytes]

/-- A trace that was answered with 200 is replayed to its digest at any later time exactly when its
row is there and a trace in the form of a string is canonical. The row is there, unless a write to
Supabase was lost. -/
theorem replay_rederivable_iff (hcf : K.CollisionFree) (cs : List TraceCall)
    (hbody : c.body.Meets parsed) (h : S.post (S.traces cs) c = .ok (rows', r))
    (later : List TraceCall) {param : JsString}
    (hparam : hexLiteral 64 param = some r.contextDigest) :
    (Rederivable K S.DATABASE_PROVIDER (Runs.run S.step rows' later) param r.contextDigest ↔
        Table.find TraceRow.contextDigest r.contextDigest (Runs.run S.step rows' later) ≠ none ∧
          CanonicalTrace c.body) ∧
      (S.DATABASE_PROVIDER = .sqlite ∨ c.insertFails = false →
        Table.find TraceRow.contextDigest r.contextDigest (Runs.run S.step rows' later) ≠
          none) := by
  refine ⟨?_, fun hkept => find_run_ne_none ((stored_of_post h).2 hkept) later⟩
  by_cases hstored : Table.find TraceRow.contextDigest r.contextDigest
    (Runs.run S.step rows' later) = none
  · refine iff_of_false ?_ fun hrow => hrow.1 hstored
    rintro ⟨bundle, t, hget, -⟩
    unfold getReplay at hget
    rw [hparam] at hget
    have hnone : getTraceByDigest S.DATABASE_PROVIDER (Runs.run S.step rows' later) r.contextDigest
        false = .ok none :=
      congrArg Except.ok hstored
    simp only [orThrow, bind, Except.bind, hnone] at hget
    cases hget
  · rw [rederivable_iff_canonicalTrace hcf cs hbody h later hparam hstored, and_iff_right hstored]

end IntentGuard.Infra

/-! ### A text with a blank -/

namespace IntentGuard.Localnet

open Infra Js

/-- alice posts her trace in the form of a string. -/
def postText (s : String) : TraceCall :=
  { postTrace alice with
    body :=
      .object
        [(text "agentId", .string (toHex 64 agent)), (text "owner", .string (toHex 40 alice)),
          (text "contextDigest", .string (toHex 64 (localnet.keccak.bytes (Js.encode (text s))))),
          (text "trace", .string (text s))] }

theorem traceKeys_nodup :
    [text "agentId", text "owner", text "contextDigest", text "trace"].Nodup := by decide

end IntentGuard.Localnet

namespace IntentGuard.Infra

open Js Localnet

theorem postText_parsed (s : String) : (postText s).body.Meets parsed :=
  ⟨traceKeys_nodup, trivial, trivial, trivial, trivial, trivial⟩

theorem postTrace_parsed : (postTrace alice).body.Meets parsed :=
  ⟨traceKeys_nodup, trivial, trivial, trivial, ⟨List.nodup_nil, trivial⟩, trivial⟩

theorem not_canonical_blank : ¬ Canonical (text "\x7b \x7d") := by
  rw [canonical_iff]
  rintro ⟨v, t, hparse, ht, hbytes⟩
  have hread : JSON.parse (column (text "\x7b \x7d")) = some (.object []) := by rfl
  obtain rfl := Option.some.inj (hread.symm.trans hparse)
  have hwritten : canonicalize (.object []) = .ok (text "\x7b\x7d") := by rfl
  obtain rfl := Except.ok.inj (hwritten.symm.trans ht)
  exact absurd hbytes (by decide)

/-- The text reads as the empty object, whose canonical text has no blank. -/
theorem blank_not_rederivable :
    ¬ ∀ (K : Keccak) (tryRecover : Bytes32 → Bytes → Option Address)
      (S : TraceService K tryRecover), K.CollisionFree →
      ∀ cs c, c.body.Meets parsed → ∀ rows' r, S.post (S.traces cs) c = .ok (rows', r) →
        ∀ param, hexLiteral 64 param = some r.contextDigest →
          Rederivable K S.DATABASE_PROVIDER rows' param r.contextDigest := by
  intro h
  have hcf := Keccak.numbering_collisionFree
  have hanswered : ∃ rows' r, traceService.post (traceService.traces []) (postText "\x7b \x7d") =
      .ok (rows', r) ∧
      hexLiteral 64 (toHex 64 r.contextDigest) = some r.contextDigest := ⟨_, _, rfl, rfl⟩
  obtain ⟨rows', r, hpost, hparam⟩ := hanswered
  have hbody := postText_parsed "\x7b \x7d"
  have hrederivable := h _ _ traceService hcf [] _ hbody rows' r hpost _ hparam
  have hcanonical := (rederivable_iff_canonicalTrace hcf [] hbody hpost [] hparam
    ((stored_of_post hpost).2 (.inl rfl))).1 hrederivable
  exact not_canonical_blank (hcanonical _ rfl)

/-- The empty object, which was posted as a value. -/
theorem replay_rederivable_iff_empty :
    ∃ rows r, traceService.post (traceService.traces []) (postTrace alice) = .ok (rows, r) ∧
      Rederivable localnet.keccak traceService.DATABASE_PROVIDER rows
        (toHex 64 r.contextDigest) r.contextDigest := by
  have hanswered : ∃ rows r, traceService.post (traceService.traces []) (postTrace alice) =
      .ok (rows, r) ∧
      hexLiteral 64 (toHex 64 r.contextDigest) = some r.contextDigest := ⟨_, _, rfl, rfl⟩
  obtain ⟨rows, r, hpost, hparam⟩ := hanswered
  obtain ⟨hiff, hstored⟩ :=
    replay_rederivable_iff Keccak.numbering_collisionFree [] postTrace_parsed hpost [] hparam
  exact ⟨rows, r, hpost, hiff.2 ⟨hstored (.inl rfl), fun s hs => absurd hs nofun⟩⟩

end IntentGuard.Infra
