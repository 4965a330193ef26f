import IntentGuard.Infra.Traces

/-!
# Which acknowledgements the guard accepts

Main results, about every sequence of requests to the trace service and every failure of its store
and pinner:

* `guard_accepts`: an acceptable response is one with which the guard's check of the acknowledgement
  passes;
* `signed_acceptable`: a freshly signed response is acceptable;
* `acceptable_iff`: a response from the store is acceptable exactly when the request names the agent
  and the owner that the stored acknowledgement was signed for;
* `acknowledgements_acceptable_iff`: the same for whole sequences. `secondOwner_not_acceptable` is a
  sequence of two requests, which share a trace, where the second response is not acceptable.

The table is keyed by the digest alone, and under SQLite a second signature does not even update the
columns `agent_id` and `owner`. Whom an acknowledgement was signed for is therefore read off the
history (`lastWritten`), and the invariant `Backed` ties every row of the table to it.
-/

namespace IntentGuard.Infra

open Js TraceService

variable {K : Keccak} {tryRecover : Bytes32 → Bytes → Option Address}
  (S : TraceService K tryRecover)

/-- The signature is the signer's, over the digest that `_checkGuard` computes from the response. -/
structure Genuine (r : TraceResponse) : Prop where
  expiresAt_lt : r.expiresAt < 2 ^ 64
  signature_eq : r.signature = S.traceAck.sign
    (GuardedExecutor.traceAckDigest K r.guardedExecutor r.chainId r.contextDigest r.uriHash
      (UInt64.ofNat r.expiresAt) r.agentId r.owner)
  uriHash_eq : r.uriHash = K.bytes (Js.encode r.traceURI)

/-- A response to a request whose handler first reads the clock at `c.lookupTime`. -/
structure Acceptable (c : TraceCall) (r : TraceResponse) : Prop extends Genuine S r where
  later : c.lookupTime.ms < 1000 * r.expiresAt

/-- The guard passes the acknowledgement of an acceptable response until it expires. -/
theorem guard_accepts {D : Deployment} {S : TraceService D.keccak D.tryRecover} {c : TraceCall}
    {r : TraceResponse} (h : Acceptable S c r) (hexecutor : r.guardedExecutor = D.guardedExecutor)
    (hchain : r.chainId = D.chainid) {w : World D}
    (hsigner : w.executor.traceAckSigner = S.traceAck.address) (hnow : w.now < r.expiresAt)
    {req : ExecutionRequest} (hagent : req.agentId = r.agentId) (howner : req.owner = r.owner)
    (huri : req.traceURI = Js.encode r.traceURI)
    (hack : req.traceAck = ⟨r.contextDigest, r.uriHash, UInt64.ofNat r.expiresAt, r.signature⟩) :
    GuardedExecutor.checkTraceAck w req = (.GREEN, 0) := by
  have hexp : (UInt64.ofNat r.expiresAt).toNat = r.expiresAt :=
    UInt64.toNat_ofNat_of_lt' h.expiresAt_lt
  unfold GuardedExecutor.checkTraceAck
  rw [hack, hagent, howner, huri, ← hexecutor, ← hchain]
  dsimp only
  have hvalid : ¬ (UInt64.ofNat r.expiresAt).toNat ≤ w.now := by omega
  have hhash : ¬ D.keccak.bytes (Js.encode r.traceURI) ≠ r.uriHash :=
    fun hne => hne h.uriHash_eq.symm
  rw [if_neg hvalid, if_neg hhash, h.signature_eq, S.traceAck.recover_sign, hsigner]
  exact if_neg fun hne => hne rfl

/-! ### The two ways to answer -/

/-- The response from a stored acknowledgement. -/
def fromRow (row : TraceRow) (ctx : Signer.TraceAckSignContext) (req : TraceRequest) :
    TraceResponse where
  traceURI := row.traceUri
  contextDigest := row.contextDigest
  uriHash := row.uriHash
  expiresAt := row.expiresAt
  signature := row.signature
  signer := row.signer
  guardedExecutor := ctx.guardedExecutor
  chainId := ctx.chainId
  agentId := req.agentId
  owner := req.owner

/-- The stored acknowledgement that an accepted request is answered with. -/
def cachedAck (rows : List TraceRow) (c : TraceCall) : Option TraceRow := do
  let req ← (validateTrace K c.body).toOption
  let cached ← (getTraceByDigest S.DATABASE_PROVIDER rows req.contextDigest c.lookupFails).toOption
  unexpired cached c.lookupTime

/-- The row that goes with a freshly signed response. -/
def toRow (r : TraceResponse) (canonicalJson : JsString) : TraceRow where
  contextDigest := r.contextDigest
  traceUri := r.traceURI
  uriHash := r.uriHash
  agentId := some r.agentId
  owner := some r.owner
  traceJson := canonicalJson
  expiresAt := r.expiresAt
  signer := r.signer
  signature := r.signature

/-- The outcomes of a request that is answered with 200. -/
inductive Answered (rows : List TraceRow) (c : TraceCall) : List TraceRow → TraceResponse → Prop
  | cached {req ctx row} (valid : validateTrace K c.body = .ok req)
      (deployed : S.resolveTraceAckContext = .ok ctx)
      (found : cachedAck S rows c = some row) : Answered rows c rows (fromRow row ctx req)
  | signed {req ctx rows' r} (valid : validateTrace K c.body = .ok req)
      (deployed : S.resolveTraceAckContext = .ok ctx) (missing : cachedAck S rows c = none)
        (genuine : Genuine S r)
      (agentId : r.agentId = req.agentId) (owner : r.owner = req.owner)
      (contextDigest : r.contextDigest = req.contextDigest)
        (context : ⟨r.guardedExecutor, r.chainId⟩ = ctx)
      (expiresAt : r.expiresAt = toNumber (c.signTime.seconds + S.TRACE_ACK_TTL_SECONDS))
      (insert : insertTrace S.DATABASE_PROVIDER rows (toRow r req.canonicalJson) c.insertFails =
        .ok rows') :
      Answered rows c rows' r

variable {S} {rows rows' : List TraceRow} {c : TraceCall} {r : TraceResponse}

theorem contextDigest_of_validateTrace {body : Json} {req : TraceRequest}
    (h : validateTrace K body = .ok req) :
    req.contextDigest = K.bytes (Js.encode req.canonicalJson) := by
  unfold validateTrace at h
  obtain ⟨parsed, -, h⟩ := bind_eq_ok.1 h
  obtain ⟨canonicalJson, -, h⟩ := bind_eq_ok.1 h
  obtain ⟨u, hdigest, h⟩ := bind_eq_ok.1 h
  obtain rfl := Except.ok.inj h
  rw [throwIf_eq_ok, ne_eq, not_not] at hdigest
  exact hdigest.symm

theorem cachedAck_eq {req : TraceRequest} (hvalid : validateTrace K c.body = .ok req) :
    cachedAck S rows c =
      (getTraceByDigest S.DATABASE_PROVIDER rows req.contextDigest c.lookupFails).toOption.bind
        fun cached => unexpired cached c.lookupTime := by
  unfold cachedAck
  rw [hvalid]
  rfl

/-- What a call answered with 200 has done. -/
theorem answered_of_post (h : S.post rows c = .ok (rows', r)) : Answered S rows c rows' r := by
  unfold TraceService.post at h
  obtain ⟨req, hvalid, h⟩ := bind_eq_ok.1 h
  obtain ⟨ctx, hctx, h⟩ := bind_eq_ok.1 h
  obtain ⟨cached, hget, h⟩ := bind_eq_ok.1 h
  have hack : cachedAck S rows c = unexpired cached c.lookupTime := by
    rw [cachedAck_eq hvalid, hget]
    rfl
  cases hrow : unexpired cached c.lookupTime with
  | some row =>
    rw [hrow] at h hack
    obtain ⟨rfl, rfl⟩ := Prod.mk.inj (Except.ok.inj h)
    exact .cached hvalid hctx hack
  | none =>
    rw [hrow] at h hack
    obtain ⟨uri, -, h⟩ := bind_eq_ok.1 h
    obtain ⟨signature, hsign, h⟩ := bind_eq_ok.1 h
    obtain ⟨rows'', hinsert, h⟩ := bind_eq_ok.1 h
    obtain ⟨rfl, rfl⟩ := Prod.mk.inj (Except.ok.inj h)
    rw [orThrow_eq_ok, Signer.signTraceAck] at hsign
    split_ifs at hsign with hexp
    refine .signed hvalid hctx hack ⟨hexp, ?_, rfl⟩ rfl rfl rfl rfl rfl hinsert
    rw [← Option.some.inj hsign, Signer.traceAckDigest_eq _ _ _ hexp]

/-- A request that finds an unexpired acknowledgement is answered with it. -/
theorem post_cached {req : TraceRequest} {ctx : Signer.TraceAckSignContext} {row : TraceRow}
    (hvalid : validateTrace K c.body = .ok req) (hctx : S.resolveTraceAckContext = .ok ctx)
    (hack : cachedAck S rows c = some row) : S.post rows c = .ok (rows, fromRow row ctx req) := by
  rw [cachedAck_eq hvalid] at hack
  cases hget : getTraceByDigest S.DATABASE_PROVIDER rows req.contextDigest c.lookupFails with
  | error e =>
    rw [hget] at hack
    exact absurd hack (by simp [Except.toOption])
  | ok cached =>
    rw [hget] at hack
    replace hack : unexpired cached c.lookupTime = some row := hack
    refine bind_eq_ok.2 ⟨req, hvalid, bind_eq_ok.2 ⟨ctx, hctx, bind_eq_ok.2 ⟨cached, hget, ?_⟩⟩⟩
    rw [hack]
    rfl

/-- The acknowledgement found is the row of the digest, read before it expires. -/
theorem cachedAck_find {req : TraceRequest} {row : TraceRow}
    (hvalid : validateTrace K c.body = .ok req) (hack : cachedAck S rows c = some row) :
    Table.find TraceRow.contextDigest req.contextDigest rows = some row ∧
    c.lookupTime.seconds < row.expiresAt := by
  rw [cachedAck_eq hvalid] at hack
  obtain ⟨cached, hget, hrow⟩ := Option.bind_eq_some_iff.1 hack
  unfold getTraceByDigest at hget
  obtain ⟨rfl, hlt⟩ := Option.filter_eq_some_iff.1 hrow
  have hlt := of_decide_eq_true hlt
  cases hfails : c.lookupFails with
  | true =>
    rw [hfails, if_pos rfl] at hget
    cases hp : S.DATABASE_PROVIDER <;> simp [hp, Except.toOption] at hget
  | false =>
    rw [hfails, if_neg (by simp)] at hget
    exact ⟨Option.some.inj hget, hlt⟩

/-- A freshly signed response is acceptable: it expires a whole number of seconds after it was
signed. -/
theorem signed_acceptable (hanswer : Answered S rows c rows' r)
    (hmissing : cachedAck S rows c = none) :
    Acceptable S c r := by
  cases hanswer with
  | cached _ _ hfound =>
    rw [hfound] at hmissing
    exact absurd hmissing (by simp)
  | signed _ _ _ hgenuine _ _ _ _ hexp _ =>
    refine ⟨hgenuine, lt_of_le_of_lt c.advancing ?_⟩
    apply Time.ms_lt
    rw [hexp]
    exact (lt_toNumber_iff c.signTime.seconds_lt).2 (Nat.lt_add_of_pos_right S.ttl_pos)

/-! ### Whom a stored acknowledgement was signed for -/

variable (S)

/-- The response whose acknowledgement the call has signed and written to the table. -/
def written (rows : List TraceRow) (c : TraceCall) : Option TraceResponse :=
  match S.post rows c with
  | .ok (_, r) => if (cachedAck S rows c).isSome ∨ c.insertFails then none else some r
  | .error _ => none

/-- The last response of a sequence whose acknowledgement was written under the digest. -/
def lastWritten (cs : List TraceCall) (contextDigest : Bytes32) : Option TraceResponse :=
  (((Runs.visits S.step [] cs).filterMap fun v => written S v.1 v.2).filter fun r =>
    r.contextDigest = contextDigest).getLast?

/-- A row holds what was signed in the response. -/
structure Holds (row : TraceRow) (r : TraceResponse) : Prop where
  traceUri : row.traceUri = r.traceURI
  uriHash : row.uriHash = r.uriHash
  expiresAt : row.expiresAt = r.expiresAt
  signature : row.signature = r.signature

/-- Every row holds the last acknowledgement written under its digest, and that one is genuine. -/
def Backed (cs : List TraceCall) (rows : List TraceRow) : Prop :=
  ∀ contextDigest row, Table.find TraceRow.contextDigest contextDigest rows = some row →
    ∃ r, lastWritten S cs contextDigest = some r ∧ Genuine S r ∧ r.contextDigest = contextDigest ∧
      S.resolveTraceAckContext = .ok ⟨r.guardedExecutor, r.chainId⟩ ∧ Holds row r

variable {S}

theorem lastWritten_concat (cs : List TraceCall) (c : TraceCall) (contextDigest : Bytes32) :
    lastWritten S (cs ++ [c]) contextDigest =
      match written S (S.traces cs) c with
      | some r => if r.contextDigest = contextDigest then some r else lastWritten S cs contextDigest
      | none => lastWritten S cs contextDigest := by
  unfold lastWritten
  rw [Runs.visits_concat, List.filterMap_append, List.filter_append]
  show _ = match written S (Runs.run S.step [] cs) c with | some r => _ | none => _
  cases hw : written S (Runs.run S.step [] cs) c with
  | none => simp [hw]
  | some r => by_cases hd : r.contextDigest = contextDigest <;> simp [hw, hd]

/-- What an insert does to the rows of each digest. -/
theorem find_insertTrace {provider : Provider} {json : JsString} {fails : Bool}
    (h : insertTrace provider rows (toRow r json) fails = .ok rows') :
    (fails = true ∧ rows' = rows) ∨
      (fails = false ∧ ∀ contextDigest row,
        Table.find TraceRow.contextDigest contextDigest rows' = some row →
        if r.contextDigest = contextDigest then Holds row r
        else Table.find TraceRow.contextDigest contextDigest rows = some row) := by
  have hold : ∀ update : TraceRow → TraceRow, (∀ row, Holds (update row) r) →
      ∀ found : Option TraceRow, Holds (found.elim (toRow r json) update) r := by
    intro update hupdate found
    cases found with
    | none => exact ⟨rfl, rfl, rfl, rfl⟩
    | some row => exact hupdate row
  have hfind : ∀ update : TraceRow → TraceRow,
      rows' = Table.upsert TraceRow.contextDigest update (toRow r json) rows →
        (∀ row, Holds (update row) r) →
      (∀ row, row.contextDigest = r.contextDigest → (update row).contextDigest = r.contextDigest) →
      ∀ contextDigest row, Table.find TraceRow.contextDigest contextDigest rows' = some row →
        if r.contextDigest = contextDigest then Holds row r
        else Table.find TraceRow.contextDigest contextDigest rows = some row := by
    intro update hrows hupdate hkey contextDigest row hrow
    rw [hrows, Table.find_upsert (by exact hkey)] at hrow
    change (if r.contextDigest = contextDigest then _ else _) = _ at hrow
    split_ifs at hrow ⊢ with hd
    · rw [← Option.some.inj hrow]
      exact hold update hupdate _
    · exact hrow
  unfold insertTrace at h
  cases provider <;> cases fails <;> simp only [if_true, reduceCtorEq, if_false, Bool.false_eq_true]
    at h
  · exact .inr ⟨rfl, hfind _ (Except.ok.inj h).symm (fun _ => ⟨rfl, rfl, rfl, rfl⟩) fun _ hk => hk⟩
  · exact .inr ⟨rfl, hfind _ (Except.ok.inj h).symm (fun _ => ⟨rfl, rfl, rfl, rfl⟩) fun _ _ => rfl⟩
  · exact .inl ⟨rfl, (Except.ok.inj h).symm⟩

/-- Step lemma of `backed`. -/
theorem backed_step {cs : List TraceCall} (hb : Backed S cs (S.traces cs)) (c : TraceCall) :
    Backed S (cs ++ [c]) (S.step (S.traces cs) c) := by
  intro contextDigest row hrow
  rw [lastWritten_concat]
  unfold TraceService.step at hrow
  unfold written
  cases hpost : S.post (S.traces cs) c with
  | error e =>
    rw [hpost] at hrow
    exact hb contextDigest row hrow
  | ok out =>
    obtain ⟨rows', r⟩ := out
    rw [hpost] at hrow
    dsimp only at hrow ⊢
    cases answered_of_post hpost with
    | cached _ _ hfound =>
      rw [hfound, if_pos (.inl rfl)]
      exact hb contextDigest row hrow
    | signed _ hctx hmissing hgenuine _ _ _ hcontext _ hinsert =>
      rw [hmissing]
      rcases find_insertTrace hinsert with ⟨hfails, rfl⟩ | ⟨hfails, hfind⟩
      · rw [if_pos (.inr hfails)]
        exact hb contextDigest row hrow
      · rw [if_neg (by simp [hfails])]
        have hfind := hfind contextDigest row hrow
        dsimp only
        split_ifs at hfind ⊢ with hd
        · exact ⟨r, rfl, hgenuine, hd, hcontext ▸ hctx, hfind⟩
        · exact hb contextDigest row hfind

theorem backed (cs : List TraceCall) : Backed S cs (S.traces cs) := by
  induction cs using List.reverseRecOn with
  | nil =>
    intro contextDigest row hrow
    exact absurd hrow (by simp [TraceService.traces])
  | append_singleton cs c ih =>
    rw [TraceService.traces, Runs.run_concat]
    exact backed_step ih c

/-! ### The exact condition -/

variable (S) in
/-- An acknowledgement that the request finds was signed for the agent and the owner that it
names. -/
def SameParties (cs : List TraceCall) (c : TraceCall) : Prop :=
  ∀ req row, validateTrace K c.body = .ok req → cachedAck S (S.traces cs) c = some row →
    (lastWritten S cs req.contextDigest).map (fun r => (r.agentId, r.owner)) =
      some (req.agentId, req.owner)

/-- The guard's digest binds the agent and the owner. -/
theorem parties_of_digest (hcf : K.CollisionFree) {r r' : TraceResponse} (hr : r.expiresAt < 2 ^ 64)
    (hr' : r'.expiresAt < 2 ^ 64)
    (h : GuardedExecutor.traceAckDigest K r.guardedExecutor r.chainId r.contextDigest r.uriHash
        (UInt64.ofNat r.expiresAt) r.agentId r.owner =
      GuardedExecutor.traceAckDigest K r'.guardedExecutor r'.chainId r'.contextDigest r'.uriHash
        (UInt64.ofNat r'.expiresAt) r'.agentId r'.owner) :
        r.agentId = r'.agentId ∧ r.owner = r'.owner := by
  let payload (r : TraceResponse) : Signer.TraceAckPayload :=
    ⟨r.contextDigest, r.uriHash, r.expiresAt, r.agentId, r.owner⟩
  have hpayload : payload r = payload r' :=
    (Signer.guardDigest_injective hcf (payload r) (payload r') ⟨r.guardedExecutor, r.chainId⟩
      ⟨r'.guardedExecutor, r'.chainId⟩ hr hr' h).1
  exact ⟨congrArg Signer.TraceAckPayload.agentId hpayload,
    congrArg Signer.TraceAckPayload.owner hpayload⟩

/-- A response from the store is acceptable for the parties of the stored acknowledgement only: the
digest binds them, and the response repeats the signature. -/
theorem acceptable_iff (hcf : K.CollisionFree) {cs : List TraceCall} {req : TraceRequest}
    {ctx : Signer.TraceAckSignContext} {row : TraceRow} (hvalid : validateTrace K c.body = .ok req)
    (hctx : S.resolveTraceAckContext = .ok ctx) (hack : cachedAck S (S.traces cs) c = some row) :
    Acceptable S c (fromRow row ctx req) ↔
      (lastWritten S cs req.contextDigest).map (fun r => (r.agentId, r.owner)) =
        some (req.agentId, req.owner) := by
  obtain ⟨hfind, hlt⟩ := cachedAck_find hvalid hack
  have hrow : row.contextDigest = req.contextDigest := Table.key_of_find _ hfind
  obtain ⟨r, hlast, hgenuine, hdigest, hcontext, hholds⟩ := backed cs _ _ hfind
  have hctx : ctx = ⟨r.guardedExecutor, r.chainId⟩ := Except.ok.inj (hctx.symm.trans hcontext)
  rw [hlast, Option.map_some, Option.some.injEq, Prod.mk.injEq]
  constructor
  · intro h
    have hsign := h.signature_eq
    change row.signature = _ at hsign
    rw [hholds.signature, hgenuine.signature_eq] at hsign
    exact parties_of_digest hcf hgenuine.expiresAt_lt h.expiresAt_lt
      (S.traceAck.sign_injective hsign)
  · intro h
    obtain ⟨hagent, howner⟩ := h
    refine ⟨⟨hholds.expiresAt.trans_lt hgenuine.expiresAt_lt, ?_, ?_⟩, Time.ms_lt _ hlt⟩
    · show row.signature = S.traceAck.sign
        (GuardedExecutor.traceAckDigest K ctx.guardedExecutor ctx.chainId
        row.contextDigest row.uriHash (UInt64.ofNat row.expiresAt) req.agentId req.owner)
      rw [hholds.signature, hgenuine.signature_eq, hctx, hrow, ← hdigest, hholds.uriHash,
        hholds.expiresAt, hagent, howner]
    · show row.uriHash = K.bytes (Js.encode row.traceUri)
      rw [hholds.uriHash, hholds.traceUri, hgenuine.uriHash_eq]

/-- The response to the next request is acceptable, whatever it is, exactly when the request meets
`SameParties`. -/
theorem next_acceptable_iff (hcf : K.CollisionFree) (cs : List TraceCall) (c : TraceCall) :
    (∀ rows' r, S.post (S.traces cs) c = .ok (rows', r) → Acceptable S c r) ↔
      SameParties S cs c := by
  constructor
  · intro h req row hvalid hack
    obtain ⟨r, -, -, -, hctx, -⟩ := backed cs _ _ (cachedAck_find hvalid hack).1
    exact (acceptable_iff hcf hvalid hctx hack).1 (h _ _ (post_cached hvalid hctx hack))
  · intro h rows' r hpost
    cases hanswer : cachedAck S (S.traces cs) c with
    | none => exact signed_acceptable (answered_of_post hpost) hanswer
    | some row =>
      cases answered_of_post hpost with
      | cached hvalid hctx hack => exact (acceptable_iff hcf hvalid hctx hack).2 (h _ _ hvalid hack)
      | signed _ _ hmissing => exact absurd (hanswer.symm.trans hmissing) (by simp)

/-- Every response of a sequence of requests is acceptable exactly when every request that is
answered from the store names the agent and the owner that the stored acknowledgement was signed
for. -/
theorem acknowledgements_acceptable_iff (hcf : K.CollisionFree) (cs : List TraceCall) :
    (∀ cs₁ c cs₂, cs = cs₁ ++ c :: cs₂ →
        ∀ rows' r, S.post (S.traces cs₁) c = .ok (rows', r) → Acceptable S c r) ↔
      ∀ cs₁ c cs₂, cs = cs₁ ++ c :: cs₂ → SameParties S cs₁ c := by
  constructor
  · intro h cs₁ c cs₂ hcs
    exact (next_acceptable_iff hcf cs₁ c).1 (h cs₁ c cs₂ hcs)
  · intro h cs₁ c cs₂ hcs
    exact (next_acceptable_iff hcf cs₁ c).2 (h cs₁ c cs₂ hcs)

end IntentGuard.Infra

/-! ### Two owners with one trace -/

namespace IntentGuard.Localnet

open Infra Js

def traceService : TraceService localnet.keccak localnet.tryRecover where
  DATABASE_PROVIDER := .sqlite
  CHAIN_ID := 84532
  TRACE_ACK_TTL_SECONDS := 600
  ttl_pos := by decide
  deployment := some manifest
  traceAck := traceKey

/-- A request for the trace `{}` of an owner's agent, one second after the epoch. -/
def postTrace (owner : Address) : TraceCall where
  body :=
    .object
      [(text "agentId", .string (toHex 64 agent)), (text "owner", .string (toHex 40 owner)),
        (text "contextDigest", .string (toHex 64 (localnet.keccak.bytes (utf8 "{}")))),
          (text "trace", .object [])]
  lookupTime := ⟨1000, by decide⟩
  signTime := ⟨1000, by decide⟩
  advancing := le_rfl
  lookupFails := false
  pin := some (text "ipfs://trace")
  insertFails := false

/-- The merchant asks for the acknowledgement of a trace that alice has had acknowledged. -/
def twoOwners : List TraceCall := [postTrace alice, postTrace merchant]

end IntentGuard.Localnet

namespace IntentGuard.Infra

open Localnet TraceService

/-- The merchant gets alice's acknowledgement, whose signature is not valid for the merchant. -/
theorem secondOwner_not_acceptable :
    ∃ rows r, traceService.post (traceService.traces [postTrace alice]) (postTrace merchant) =
      .ok (rows, r) ∧
      ¬ Acceptable traceService (postTrace merchant) r := by
  have hvalid : validateTrace localnet.keccak (postTrace merchant).body =
      .ok ⟨agent, merchant, localnet.keccak.bytes (utf8 "{}"), Js.text "{}"⟩ := by rfl
  have hctx : traceService.resolveTraceAckContext =
      .ok ⟨localnet.guardedExecutor, localnet.chainid⟩ := by rfl
  obtain ⟨row, hack⟩ := Option.isSome_iff_exists.1
    (show (cachedAck traceService (traceService.traces [postTrace alice])
      (postTrace merchant)).isSome by
      decide +kernel)
  have hother : (lastWritten traceService [postTrace alice] (localnet.keccak.bytes (utf8 "{}"))).map
      (fun r => (r.agentId, r.owner)) ≠ some (agent, merchant) := by
    decide +kernel
  refine ⟨_, _, post_cached hvalid hctx hack, ?_⟩
  intro h
  exact hother ((acceptable_iff Keccak.numbering_collisionFree hvalid hctx hack).1 h)

/-- The two requests, over a hash without collisions. -/
theorem acknowledgements_acceptable_iff_twoOwners :
    (∀ cs₁ c cs₂, twoOwners = cs₁ ++ c :: cs₂ →
        ∀ rows' r, traceService.post (traceService.traces cs₁) c = .ok (rows', r) →
          Acceptable traceService c r) ↔
      ∀ cs₁ c cs₂, twoOwners = cs₁ ++ c :: cs₂ → SameParties traceService cs₁ c :=
  acknowledgements_acceptable_iff Keccak.numbering_collisionFree twoOwners

end IntentGuard.Infra
