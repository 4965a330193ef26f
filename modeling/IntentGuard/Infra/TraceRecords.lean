import IntentGuard.Infra.Acknowledgements

/-!
# What the stored traces say of themselves

A row of `traces` names a digest, a URI and the parties of its acknowledgement, and `GET /v1/replay`
answers with these. `Consistent` is a row whose two hashes are those of its texts and whose
signature is over the row's own fields. Under SQLite a conflict writes the URI, its hash, the expiry
and the signature, and keeps the parties, so a row survives a second signature only when this one is
for the same parties.

`traces_consistent_iff`: all rows are consistent all along a run exactly when no expired row is
signed again for others.
-/

namespace IntentGuard.Infra

open Js TraceService

variable {K : Keccak} {tryRecover : Bytes32 → Bytes → Option Address}
  (S : TraceService K tryRecover)

/-- The fields of a row that go together. -/
structure Consistent (row : TraceRow) : Prop where
  contextDigest : row.contextDigest = K.bytes (Js.encode row.traceJson)
  uriHash : row.uriHash = K.bytes (Js.encode row.traceUri)
  signer : row.signer = S.traceAck.address
  signature : ∃ ctx agentId owner, S.resolveTraceAckContext = .ok ctx ∧ row.agentId = some agentId ∧
    row.owner = some owner ∧ row.expiresAt < 2 ^ 64 ∧
      row.signature = S.traceAck.sign
        (GuardedExecutor.traceAckDigest K ctx.guardedExecutor ctx.chainId
        row.contextDigest row.uriHash (UInt64.ofNat row.expiresAt) agentId owner)

/-- The request is signed and written: it is accepted, no acknowledgement of its trace is running,
and nothing fails. -/
structure Signs (rows : List TraceRow) (c : TraceCall) (req : TraceRequest)
    (ctx : Signer.TraceAckSignContext) (uri : JsString) : Prop where
  valid : validateTrace K c.body = .ok req
  deployed : S.resolveTraceAckContext = .ok ctx
  lookup : c.lookupFails = false
  missing : unexpired (Table.find TraceRow.contextDigest req.contextDigest rows) c.lookupTime = none
  pinned : c.pin = some uri
  expiresAt_lt : toNumber (c.signTime.seconds + S.TRACE_ACK_TTL_SECONDS) < 2 ^ 64
  insert : c.insertFails = false

/-- A request that is signed while an expired row is there for its trace names the parties of that
row. -/
def SameSigned (rows : List TraceRow) (c : TraceCall) : Prop :=
  ∀ req ctx uri row, Signs S rows c req ctx uri →
    Table.find TraceRow.contextDigest req.contextDigest rows = some row →
    row.agentId = some req.agentId ∧ row.owner = some req.owner

/-- The row of a signed request. -/
def signedRow (c : TraceCall) (req : TraceRequest) (ctx : Signer.TraceAckSignContext)
    (uri : JsString) : TraceRow where
  contextDigest := req.contextDigest
  traceUri := uri
  uriHash := K.bytes (Js.encode uri)
  agentId := some req.agentId
  owner := some req.owner
  traceJson := req.canonicalJson
  expiresAt := toNumber (c.signTime.seconds + S.TRACE_ACK_TTL_SECONDS)
  signer := S.traceAck.address
  signature :=
    S.traceAck.sign
      (GuardedExecutor.traceAckDigest K ctx.guardedExecutor ctx.chainId req.contextDigest
        (K.bytes (Js.encode uri))
        (UInt64.ofNat (toNumber (c.signTime.seconds + S.TRACE_ACK_TTL_SECONDS))) req.agentId
        req.owner)

/-- What the `UPDATE` of a conflict writes over a row. -/
def refreshed (new row : TraceRow) : TraceRow :=
  { row with
    traceUri := new.traceUri
    uriHash := new.uriHash
    expiresAt := new.expiresAt
    signer := new.signer
    signature := new.signature }

/-! ### What a request does to the table -/

variable {S} {rows : List TraceRow} {c : TraceCall} {req : TraceRequest}
  {ctx : Signer.TraceAckSignContext} {uri : JsString}

theorem step_of_signs (hsqlite : S.DATABASE_PROVIDER = .sqlite) (h : Signs S rows c req ctx uri) :
    S.step rows c =
      Table.upsert TraceRow.contextDigest (refreshed (signedRow S c req ctx uri))
        (signedRow S c req ctx uri) rows := by
  have hget : getTraceByDigest .sqlite rows req.contextDigest c.lookupFails =
      .ok (Table.find TraceRow.contextDigest req.contextDigest rows) := by
    rw [h.lookup]
    rfl
  have hsign : Signer.signTraceAck K ⟨req.contextDigest, K.bytes (Js.encode uri),
      toNumber (c.signTime.seconds + S.TRACE_ACK_TTL_SECONDS), req.agentId,
        req.owner⟩ ctx S.traceAck =
        some (signedRow S c req ctx uri).signature := by
    unfold Signer.signTraceAck
    rw [if_pos h.expiresAt_lt, Signer.traceAckDigest_eq _ _ _ h.expiresAt_lt]
    rfl
  unfold TraceService.step TraceService.post
  simp only [bind, Except.bind, h.valid, h.deployed, hsqlite, hget, h.missing, h.pinned, orThrow,
    hsign, h.insert]
  rfl

theorem getTraceByDigest_sqlite_eq_ok {k : Bytes32} {fails : Bool} {cached : Option TraceRow}
    (h : getTraceByDigest .sqlite rows k fails = .ok cached) :
    fails = false ∧ cached = Table.find TraceRow.contextDigest k rows := by
  cases fails with
  | false => exact ⟨rfl, (Except.ok.inj h).symm⟩
  | true => cases h

theorem not_fails_of_insertTrace_sqlite {new : TraceRow} {fails : Bool} {rows' : List TraceRow}
    (h : insertTrace .sqlite rows new fails = .ok rows') : fails = false := by
  cases fails with
  | false => rfl
  | true => cases h

/-- A request that is answered with 200 has left the table, or is signed. -/
theorem kept_or_signs (hsqlite : S.DATABASE_PROVIDER = .sqlite) {rows' : List TraceRow}
    {r : TraceResponse} (h : S.post rows c = .ok (rows', r)) :
    rows' = rows ∨ ∃ req ctx uri, Signs S rows c req ctx uri := by
  unfold TraceService.post at h
  rw [hsqlite] at h
  obtain ⟨req, hvalid, h⟩ := bind_eq_ok.1 h
  obtain ⟨ctx, hctx, h⟩ := bind_eq_ok.1 h
  obtain ⟨cached, hget, h⟩ := bind_eq_ok.1 h
  obtain ⟨hlookup, rfl⟩ := getTraceByDigest_sqlite_eq_ok hget
  cases hrow : unexpired (Table.find TraceRow.contextDigest req.contextDigest rows) c.lookupTime
    with
  | some row =>
    rw [hrow] at h
    obtain ⟨rfl, -⟩ := Prod.mk.inj (Except.ok.inj h)
    exact .inl rfl
  | none =>
    rw [hrow] at h
    obtain ⟨uri, huri, h⟩ := bind_eq_ok.1 h
    obtain ⟨signature, hsign, h⟩ := bind_eq_ok.1 h
    obtain ⟨rows'', hinsert, -⟩ := bind_eq_ok.1 h
    have hexpiresAt : toNumber (c.signTime.seconds + S.TRACE_ACK_TTL_SECONDS) < 2 ^ 64 := by
      rw [orThrow_eq_ok, Signer.signTraceAck] at hsign
      by_contra hlarge
      rw [if_neg hlarge] at hsign
      cases hsign
    have hwritten := not_fails_of_insertTrace_sqlite hinsert
    exact .inr ⟨req, ctx, uri, hvalid, hctx, hlookup, hrow, orThrow_eq_ok.1 huri,
      hexpiresAt, hwritten⟩

/-- A request that is not signed, or whose row is not written, leaves the table. -/
theorem step_of_not_signs (hsqlite : S.DATABASE_PROVIDER = .sqlite)
    (h : ∀ req ctx uri, ¬ Signs S rows c req ctx uri) :
    S.step rows c = rows := by
  unfold TraceService.step
  cases hpost : S.post rows c with
  | error e => rfl
  | ok out =>
    rcases kept_or_signs hsqlite hpost with hkept | ⟨req, ctx, uri, hsigns⟩
    · exact hkept
    · exact absurd hsigns (h req ctx uri)

/-! ### One request -/

theorem signedRow_consistent (h : Signs S rows c req ctx uri) :
    Consistent S (signedRow S c req ctx uri) where
  contextDigest := contextDigest_of_validateTrace h.valid
  uriHash := rfl
  signer := rfl
  signature := ⟨ctx, req.agentId, req.owner, h.deployed, rfl, rfl, h.expiresAt_lt, rfl⟩

/-- A consistent row that is signed again stays consistent exactly when the parties are its own. -/
theorem refreshed_consistent_iff (hcf : K.CollisionFree) (h : Signs S rows c req ctx uri)
    {row : TraceRow} (hrow : Consistent S row) (hdigest : row.contextDigest = req.contextDigest) :
    Consistent S (refreshed (signedRow S c req ctx uri) row) ↔
      row.agentId = some req.agentId ∧ row.owner = some req.owner := by
  constructor
  · intro hconsistent
    obtain ⟨ctx', agentId, owner, hctx', hagent, howner, hexpiresAt, hsignature⟩ :=
      hconsistent.signature
    obtain rfl : ctx' = ctx := Except.ok.inj (hctx'.symm.trans h.deployed)
    have hsigned : (signedRow S c req ctx' uri).signature = _ := hsignature
    have hdigests := S.traceAck.sign_injective hsigned
    let payload (contextDigest agentId : Bytes32) (owner : Address) : Signer.TraceAckPayload :=
      ⟨contextDigest, K.bytes (Js.encode uri),
        toNumber (c.signTime.seconds + S.TRACE_ACK_TTL_SECONDS), agentId, owner⟩
    have hpayload : payload req.contextDigest req.agentId req.owner =
        payload row.contextDigest agentId owner :=
      (Signer.guardDigest_injective hcf (payload _ _ _) (payload _ _ _) ctx' ctx' h.expiresAt_lt
        h.expiresAt_lt hdigests).1
    have hagents : req.agentId = agentId := congrArg Signer.TraceAckPayload.agentId hpayload
    have howners : req.owner = owner := congrArg Signer.TraceAckPayload.owner hpayload
    exact ⟨hagents ▸ hagent, howners ▸ howner⟩
  · rintro ⟨hagent, howner⟩
    refine ⟨hrow.contextDigest, rfl, rfl, ctx, req.agentId, req.owner, h.deployed, hagent, howner,
      h.expiresAt_lt, ?_⟩
    show (signedRow S c req ctx uri).signature =
      S.traceAck.sign (GuardedExecutor.traceAckDigest K ctx.guardedExecutor
      ctx.chainId row.contextDigest _ _ _ _)
    rw [hdigest]
    rfl

theorem unique_step (hsqlite : S.DATABASE_PROVIDER = .sqlite)
    (hrows : Table.UniqueKeys TraceRow.contextDigest rows) (c : TraceCall) :
    Table.UniqueKeys TraceRow.contextDigest (S.step rows c) := by
  by_cases hsigns : ∃ req ctx uri, Signs S rows c req ctx uri
  · obtain ⟨req, ctx, uri, h⟩ := hsigns
    have hkey : ∀ row : TraceRow, row.contextDigest = (signedRow S c req ctx uri).contextDigest →
        (refreshed (signedRow S c req ctx uri) row).contextDigest =
          (signedRow S c req ctx uri).contextDigest := fun _ hr => hr
    rw [step_of_signs hsqlite h]
    exact Table.UniqueKeys.upsert hkey hrows
  · rw [step_of_not_signs hsqlite fun req ctx uri h => hsigns ⟨req, ctx, uri, h⟩]
    exact hrows

theorem unique_traces (hsqlite : S.DATABASE_PROVIDER = .sqlite) (cs : List TraceCall) :
    Table.UniqueKeys TraceRow.contextDigest (S.traces cs) :=
  (Runs.reachable_run [] cs).induction List.nodup_nil fun _ c h => unique_step hsqlite h c

/-- One request keeps the rows consistent exactly when it does not sign an expired row again for
others. -/
theorem step_consistent_iff (hsqlite : S.DATABASE_PROVIDER = .sqlite) (hcf : K.CollisionFree)
    (hunique : Table.UniqueKeys TraceRow.contextDigest rows)
    (hrows : ∀ row ∈ rows, Consistent S row) (c : TraceCall) :
    (∀ row ∈ S.step rows c, Consistent S row) ↔ SameSigned S rows c := by
  by_cases hsigns : ∃ req ctx uri, Signs S rows c req ctx uri
  · obtain ⟨req, ctx, uri, h⟩ := hsigns
    rw [step_of_signs hsqlite h]
    constructor
    · intro hnext req' ctx' uri' row h' hfind
      obtain rfl : req' = req := Except.ok.inj (h'.valid.symm.trans h.valid)
      have hdigest : row.contextDigest = req'.contextDigest := Table.key_of_find _ hfind
      have hrefreshed :=
        Table.find_upsert_of_find TraceRow.contextDigest (refreshed (signedRow S c req' ctx uri))
        (signedRow S c req' ctx uri) (fun r hr => hr) hfind
      exact (refreshed_consistent_iff hcf h (hrows row (Table.mem_of_find _ hfind)) hdigest).1
        (hnext _ (Table.mem_of_find _ hrefreshed))
    · intro hsame row hrow
      rcases Table.mem_upsert hrow with rfl | hold | ⟨old, hold, hdigest, rfl⟩
      · exact signedRow_consistent h
      · exact hrows row hold
      · have hfind := (Table.find_eq_some_iff hunique).2 ⟨hold, hdigest⟩
        exact (refreshed_consistent_iff hcf h (hrows old hold) hdigest).2
          (hsame req ctx uri old h hfind)
  · rw [step_of_not_signs hsqlite fun req ctx uri h => hsigns ⟨req, ctx, uri, h⟩]
    exact iff_of_true hrows fun req ctx uri row h => absurd ⟨req, ctx, uri, h⟩ hsigns

/-! ### All along a run -/

/-- Every row is consistent after each request of a run exactly when every request meets
`SameSigned`. -/
theorem traces_consistent_iff (hsqlite : S.DATABASE_PROVIDER = .sqlite) (hcf : K.CollisionFree)
    (cs : List TraceCall) :
    (∀ pre, pre <+: cs → ∀ row ∈ S.traces pre, Consistent S row) ↔
      ∀ v ∈ Runs.visits S.step [] cs, SameSigned S v.1 v.2 := by
  have hstep : ∀ rows c,
      (Table.UniqueKeys TraceRow.contextDigest rows ∧ ∀ row ∈ rows, Consistent S row) →
      ((Table.UniqueKeys TraceRow.contextDigest (S.step rows c) ∧ ∀ row ∈ S.step rows c,
        Consistent S row) ↔
        SameSigned S rows c) := by
    intro rows c h
    rw [← step_consistent_iff hsqlite hcf h.1 h.2 c]
    exact and_iff_right (unique_step hsqlite h.1 c)
  have hprefix := Runs.forall_prefix_iff hstep (s := []) ⟨List.nodup_nil, List.forall_mem_nil _⟩ cs
  rw [← hprefix]
  exact forall₂_congr fun pre _ => (and_iff_right (unique_traces hsqlite pre)).symm

end IntentGuard.Infra

/-! ### A second owner after the expiry -/

namespace IntentGuard.Localnet

open Infra

/-- A request for alice's trace when her acknowledgement has expired. -/
def lateTrace (owner : Address) : TraceCall :=
  { postTrace owner with lookupTime := ⟨700000, by decide⟩, signTime := ⟨700000, by decide⟩,
                         advancing := le_rfl }

end IntentGuard.Localnet

namespace IntentGuard.Infra

open Localnet TraceService

theorem postedTrace_parties :
    (Table.find TraceRow.contextDigest (localnet.keccak.bytes (utf8 "{}"))
      (traceService.traces [postTrace alice])).map
      (fun row => (row.agentId, row.owner)) = some (some agent, some alice) := by
  decide +kernel

theorem lateTrace_valid (owner : Address) (h : owner = alice ∨ owner = merchant) :
    validateTrace localnet.keccak (lateTrace owner).body =
      .ok ⟨agent, owner, localnet.keccak.bytes (utf8 "{}"), Js.text "{}"⟩ := by
  rcases h with rfl | rfl <;> rfl

theorem lateTrace_signs :
    Signs traceService (traceService.traces [postTrace alice]) (lateTrace merchant)
      ⟨agent, merchant, localnet.keccak.bytes (utf8 "{}"),
        Js.text "{}"⟩ ⟨localnet.guardedExecutor, localnet.chainid⟩
      (Js.text "ipfs://trace") where
  valid := lateTrace_valid merchant (.inr rfl)
  deployed := rfl
  lookup := rfl
  missing := by decide +kernel
  pinned := rfl
  expiresAt_lt := by decide +kernel
  insert := rfl

/-- The row keeps alice as its owner and gets a signature for the merchant. -/
theorem lateTrace_inconsistent :
    ¬ ∀ (K : Keccak) (tryRecover : Bytes32 → Bytes → Option Address)
      (S : TraceService K tryRecover), K.CollisionFree →
      S.DATABASE_PROVIDER = .sqlite → ∀ cs, ∀ row ∈ S.traces cs, Consistent S row := by
  intro h
  have hcf := Keccak.numbering_collisionFree
  have hconsistent := h localnet.keccak localnet.tryRecover traceService hcf rfl
  obtain ⟨row, hrow, hparties⟩ := Option.map_eq_some_iff.1 postedTrace_parties
  have hunique : Table.UniqueKeys TraceRow.contextDigest (traceService.traces [postTrace alice]) :=
    unique_traces rfl [postTrace alice]
  have hnext := hconsistent ([postTrace alice] ++ [lateTrace merchant])
  rw [TraceService.traces, Runs.run_concat] at hnext
  have hsame :=
    (step_consistent_iff rfl hcf hunique (hconsistent [postTrace alice]) (lateTrace merchant)).1
      hnext
  have hother := (hsame _ _ _ row lateTrace_signs hrow).2
  rw [(Prod.mk.inj hparties).2] at hother
  exact absurd hother (by decide)

/-- alice posts her own trace again. -/
theorem traces_consistent_iff_alice :
    (∀ v ∈ Runs.visits traceService.step [] [postTrace alice, lateTrace alice],
      SameSigned traceService v.1 v.2) ∧
      ∀ pre, pre <+: [postTrace alice, lateTrace alice] → ∀ row ∈ traceService.traces pre,
        Consistent traceService row := by
  refine and_iff_left_of_imp (traces_consistent_iff rfl Keccak.numbering_collisionFree _).2 |>.2 ?_
  refine List.forall_mem_cons.2 ⟨?_, List.forall_mem_singleton.2 ?_⟩
  · exact fun req ctx uri row _ hfind => absurd hfind nofun
  · intro req ctx uri row h hfind
    obtain rfl := Except.ok.inj (h.valid.symm.trans (lateTrace_valid alice (.inl rfl)))
    obtain ⟨row', hrow', hparties⟩ := Option.map_eq_some_iff.1 postedTrace_parties
    obtain rfl : row' = row := Option.some.inj (hrow'.symm.trans hfind)
    exact Prod.mk.inj hparties

end IntentGuard.Infra
