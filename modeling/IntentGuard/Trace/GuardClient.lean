import IntentGuard.Contracts.Stability
import IntentGuard.Contracts.Receipts
import IntentGuard.Trace.Runtime

/-!
# An agent on the chain

`guard-client.ts`, `reason-codes.ts` and the flows of `agents/shared.ts` from reading the active
intent to the mined transaction. Between any two awaits of a flow the chain moves on: a run
interleaves the steps of the flow with the actions of everybody else (`others`), a connection may be
lost at any await, and a transaction that the flow has given up waiting for may still be mined.

`flow_explained`: what a flow reports says what it did. The chain is where the others alone have
brought it, except after a reported success, or a connection lost after sending: then it is where
they have brought it with one payment in between, the one of the request.
-/

namespace IntentGuard.Agent

open Js Infra Trace Runs

variable {D : Deployment}

/-! ### Reason codes -/

/-- `Object.entries(REASON_CODE_HEX)`. -/
def reasonCodeEntries : List Reason :=
  [.COUNTERPARTY_NOT_ALLOWED, .TOKEN_NOT_USDC, .INTENT_EXPIRED, .DAY_CAP_EXCEEDED,
    .DELEGATE_NOT_APPROVED, .TRACE_ACK_INVALID, .TRACE_ACK_EXPIRED, .NO_ACTIVE_INTENT]

/-- The last entry of `HEX_TO_NAME` with the code counts. -/
def decodeReasonLabel (K : Keccak) (reasonCode : Bytes32) : JsString :=
  match (reasonCodeEntries.filter fun r => r.code K = reasonCode).getLast? with
  | some r => text r.text
  | none => toHex 64 reasonCode

theorem decodeReasonLabel_code {K : Keccak} (hK : K.CollisionFree) (r : Reason) :
    decodeReasonLabel K (r.code K) = text r.text := by
  have hfilter : (reasonCodeEntries.filter fun r' => r'.code K = r.code K) =
      reasonCodeEntries.filter (· = r) := by
    apply List.filter_congr
    intro r' _
    rw [decide_eq_decide]
    exact (Reason.code_injective hK).eq_iff
  have hlast : (reasonCodeEntries.filter (· = r)).getLast? = some r := by cases r <;> rfl
  rw [decodeReasonLabel, hfilter, hlast]

/-! ### The client -/

inductive ClientError
  /-- `viem`'s error for a call that reverts. -/
  | reverted (e : Revert)
  /-- `GuardRejectedError`. -/
  | guardRejected (reasonCode : Bytes32) (reasonLabel : JsString)
  | transactionReverted
  | receiptNotFound

structure PreflightResult where
  decision : GuardDecision
  reasonCode : Bytes32
  reasonLabel : JsString

section
variable (w : World D) (account : Address) (req : IntentGuard.ExecutionRequest)

def preflight : Except ClientError PreflightResult :=
  match GuardedExecutor.preflightCheck w account req with
  | .error e => .error (.reverted e)
  | .ok (decision, reasonCode) =>
    .ok { decision, reasonCode, reasonLabel := decodeReasonLabel D.keccak reasonCode }

/-- `execute` up to the simulation: what the simulation reverts with, as the `catch` rethrows it. -/
def simulate : Except ClientError Unit :=
  match GuardedExecutor.executeWithGuard w account req with
  | .error (.GuardRejected reasonCode) =>
    .error (.guardRejected reasonCode (decodeReasonLabel D.keccak reasonCode))
  | .error e => .error (.reverted e)
  | .ok _ => .ok ()

end

/-- `parseEventLogs` with `eventName: "ActionReceipt"`, and its first log. -/
def firstActionReceipt (logs : List Event) : Option Bytes32 :=
  logs.findSome? fun
    | .ActionReceipt receiptId _ => some receiptId
    | _ => none

/-- `execute` from the transaction's receipt on. -/
def readReceipt (w : World D) (tx : Tx D) : Except ClientError Bytes32 :=
  match exec w tx.sender tx.call with
  | .error _ => .error .transactionReverted
  | .ok w' =>
    match firstActionReceipt (w'.logs.drop w.logs.length) with
    | none => .error .receiptNotFound
    | some receiptId => .ok receiptId

/-! ### The flow -/

inductive Scenario
  | legit | blocked | overspend
  deriving DecidableEq

/-- `ScenarioResult`, by its `outcome`; `reasonCode` is the label. -/
inductive ScenarioResult
  | success (receiptId : Bytes32)
  | blocked (reasonCode : JsString) (reasonCodeHex : Bytes32)
  | failed (reasonCode : JsString) (reasonCodeHex : Bytes32) (error : JsString)
  deriving DecidableEq

/-- What a flow is started with; the account is the delegate's wallet. -/
structure Launch (D : Deployment) where
  checksum : AddressChecksum
  scenario : Scenario
  fixture : Fixture
  env : AgentEnv
  USDC : JsString
  account : Address
  account_ne_zero : account ≠ 0
  external : account ∉ D.contracts

inductive Failure
  | prepare (e : FlowError)
  /-- `viem` does not encode an argument. -/
  | encoding
  | client (e : ClientError)
  /-- An await that the network fails. -/
  | lost

/-- Where a flow stands: what it waits for next, or how it has ended. -/
inductive Flow
  | reading
  | uploading (intentHash : Bytes32)
  | checking (req : IntentGuard.ExecutionRequest)
  | simulating (req : IntentGuard.ExecutionRequest)
  | waiting (req : IntentGuard.ExecutionRequest)
  /-- The flow has failed, and its transaction is still pending. -/
  | abandoned (req : IntentGuard.ExecutionRequest)
  | done (result : ScenarioResult)
  | failed (e : Failure)

/-- What the caller of the flow gets. -/
def Flow.result : Flow → Option ScenarioResult
  | .done result => some result
  | _ => none

theorem Flow.result_eq_some {flow : Flow} {result : ScenarioResult} :
    flow.result = some result ↔ flow = .done result := by
  cases flow <;> simp [Flow.result]

inductive Step (D : Deployment)
  | chain (a : Action D)
  | read
  | upload (data : TraceUploadResponse)
  | preflight
  | simulate
  | mine
  | lose

structure State (D : Deployment) where
  world : World D
  flow : Flow

namespace Launch
variable (F : Launch D)

/-- The transaction of `writeContract`. -/
def tx (req : IntentGuard.ExecutionRequest) : Tx D :=
  ⟨F.account, .executeWithGuard req, F.account_ne_zero, F.external⟩

/-- `readActiveIntentHash`. -/
def afterRead (w : World D) : Flow :=
  match hexLiteral 40 F.env.ownerAddress with
  | none => .failed .encoding
  | some owner => .uploading (IntentRegistry.getActiveIntentHash w owner)

/-- From the answer to the upload to the argument of `preflight`. -/
def afterUpload (intentHash : Bytes32) (data : TraceUploadResponse) : Flow :=
  match runExecuteFlow F.checksum D.keccak F.fixture F.env F.USDC intentHash data with
  | .error e => .failed (.prepare e)
  | .ok (_, req) =>
    match req.encoded with
    | none => .failed .encoding
    | some req => .checking req

/-- The number of a decision in the contract's enumeration. -/
def decisionText : GuardDecision → String
  | .GREEN => "0"
  | .YELLOW => "1"
  | .RED => "2"

/-- `runPreflightOnlyFlow` for the blocked agent, `runExecuteFlow` for the others. -/
def afterPreflight (req : IntentGuard.ExecutionRequest) (r : PreflightResult) : Flow :=
  if F.scenario = .blocked then
    if r.decision ≠ .RED then
      .done (.failed r.reasonLabel r.reasonCode
        (text ("Blocked demo expects preflight RED (COUNTERPARTY_NOT_ALLOWED); got decision=" ++
          decisionText r.decision ++
          ". Check deployments, intent allowlist, and that expectedTarget in " ++
          "fixtures/blocked.json is not allowlisted.")))
    else .done (.blocked r.reasonLabel r.reasonCode)
  else if r.decision ≠ .GREEN then .done (.blocked r.reasonLabel r.reasonCode)
  else .simulating req

def flowStep (s : State D) (x : Step D) : State D :=
  match x, s.flow with
  | .chain a, _ => { s with world := step s.world a }
  | .read, .reading => { s with flow := F.afterRead s.world }
  | .upload data, .uploading intentHash => { s with flow := F.afterUpload intentHash data }
  | .preflight, .checking req =>
    match Agent.preflight s.world F.account req with
    | .error e => { s with flow := .failed (.client e) }
    | .ok r => { s with flow := F.afterPreflight req r }
  | .simulate, .simulating req =>
    match Agent.simulate s.world F.account req with
    | .error e => { s with flow := .failed (.client e) }
    | .ok _ => { s with flow := .waiting req }
  | .mine, .waiting req =>
    match readReceipt s.world (F.tx req) with
    | .error e => { world := apply s.world (F.tx req), flow := .failed (.client e) }
    | .ok receiptId => { world := apply s.world (F.tx req), flow := .done (.success receiptId) }
  | .mine, .abandoned req => { world := apply s.world (F.tx req), flow := .failed .lost }
  | .lose, .waiting req => { s with flow := .abandoned req }
  | .lose, .reading | .lose, .uploading _ | .lose, .checking _ | .lose, .simulating _ =>
    { s with flow := .failed .lost }
  | _, _ => s

end Launch

def launched (g : Genesis D) : State D := ⟨init g, .reading⟩

/-- The actions of everybody else. -/
def others (xs : List (Step D)) : List (Action D) :=
  xs.filterMap fun
    | .chain a => some a
    | _ => none

theorem others_concat (xs : List (Step D)) (x : Step D) :
    others (xs ++ [x]) = others xs ++ others [x] := List.filterMap_append

/-! ### What an outcome says -/

section
variable (F : Launch D) (g : Genesis D) (as : List (Action D))

/-- The request was built for an intent that was the owner's active one, from an answer of the trace
service. -/
def Prepared (req : IntentGuard.ExecutionRequest) : Prop :=
  ∃ as₁ owner data live sent, as₁ <+: as ∧ hexLiteral 40 F.env.ownerAddress = some owner ∧
    runExecuteFlow F.checksum D.keccak F.fixture F.env F.USDC
      (IntentRegistry.getActiveIntentHash (run step (init g) as₁) owner) data = .ok (live, sent) ∧
    sent.encoded = some req

/-- The guard rejected the request at some point for the reason that the label names. -/
def RejectedFor (req : IntentGuard.ExecutionRequest) (label : JsString) (code : Bytes32) : Prop :=
  ∃ as₁ r, as₁ <+: as ∧ Rejects (run step (init g) as₁) F.account req r ∧ code = r.code D.keccak ∧
    label = text r.text

/-- The chain is where the others have brought it with one execution of the request in between, and
it has the receipt. -/
structure Paid (w : World D) (req : IntentGuard.ExecutionRequest) (receiptId : Bytes32) : Prop where
  once : ∃ as₁ as₂ w', as = as₁ ++ as₂ ∧
    GuardedExecutor.executeWithGuard (run step (init g) as₁) F.account req = .ok (w', receiptId) ∧
    w = run step w' as₂ ∧
    w.executor.receipts receiptId = receiptOf (run step (init g) as₁) req

/-- What the state of a flow says about the chain. -/
def Explained (w : World D) : Flow → Prop
  | .reading => w = run step (init g) as
  | .uploading intentHash => w = run step (init g) as ∧ ∃ as₁ owner, as₁ <+: as ∧
      hexLiteral 40 F.env.ownerAddress = some owner ∧
      intentHash = IntentRegistry.getActiveIntentHash (run step (init g) as₁) owner
  | .checking req => w = run step (init g) as ∧ Prepared F g as req
  | .simulating req | .waiting req | .abandoned req =>
    w = run step (init g) as ∧ Prepared F g as req ∧ F.scenario ≠ .blocked
  | .done (.success receiptId) =>
    ∃ req, Prepared F g as req ∧ F.scenario ≠ .blocked ∧ Paid F g as w req receiptId
  | .done (.blocked label code) =>
    w = run step (init g) as ∧ ∃ req, Prepared F g as req ∧ RejectedFor F g as req label code
  | .done (.failed ..) =>
    w = run step (init g) as ∧ F.scenario = .blocked ∧
      ∃ req as₁, Prepared F g as req ∧ as₁ <+: as ∧
        GuardPasses (run step (init g) as₁) F.account req
  | .failed (.client (.guardRejected code label)) =>
    w = run step (init g) as ∧ ∃ req, Prepared F g as req ∧ RejectedFor F g as req label code
  | .failed .lost =>
    w = run step (init g) as ∨
      ∃ req receiptId, Prepared F g as req ∧ F.scenario ≠ .blocked ∧ Paid F g as w req receiptId
  | .failed _ => w = run step (init g) as

end

section
variable {F : Launch D} {g : Genesis D} {as bs : List (Action D)} {w : World D}
  {req : IntentGuard.ExecutionRequest}
  {receiptId : Bytes32} {label : JsString} {code : Bytes32}

theorem Prepared.mono (h : Prepared F g as req) (hbs : as <+: bs) : Prepared F g bs req := by
  obtain ⟨as₁, owner, data, live, sent, has, hrest⟩ := h
  exact ⟨as₁, owner, data, live, sent, has.trans hbs, hrest⟩

theorem RejectedFor.mono (h : RejectedFor F g as req label code) (hbs : as <+: bs) :
    RejectedFor F g bs req label code := by
  obtain ⟨as₁, r, has, hrest⟩ := h
  exact ⟨as₁, r, has.trans hbs, hrest⟩

/-- A stored receipt outlives whatever the others do next. -/
theorem Paid.chain (hK : Function.Injective D.keccak.words) (h : Paid F g as w req receiptId)
    (a : Action D) :
    Paid F g (as ++ [a]) (step w a) req receiptId := by
  obtain ⟨as₁, as₂, w', rfl, hexec, rfl, hreceipt⟩ := h.once
  refine ⟨⟨as₁, as₂ ++ [a], w', List.append_assoc .., hexec, (run_concat _ _ _ _).symm, ?_⟩⟩
  have hx : exec (run step (init g) as₁) F.account (.executeWithGuard req) = .ok w' :=
    map_eq_ok.2 ⟨_, hexec, rfl⟩
  have hr : Reachable g w' := by
    have hbefore : Reachable g (run step (init g) as₁) := reachable_run _ as₁
    have hmined : apply (run step (init g) as₁) (F.tx req) = w' := apply_of_ok hx
    exact hmined ▸ hbefore.next (.send (F.tx req))
  have hr' : Reachable g (run step w' as₂) := by
    obtain ⟨cs, rfl⟩ := hr
    exact ⟨cs ++ as₂, run_append _ _ _ _⟩
  have hg := (executeWithGuard_eq_ok.1 hexec).1
  have hstored : Stored (run step w' as₂) receiptId := by
    rw [Stored, hreceipt]
    exact hg.timestamp_ne_zero (basics (reachable_run _ as₁)).now_pos
  exact (receipts_later hK hr' [a] hstored).trans hreceipt

theorem Explained.chain (hK : Function.Injective D.keccak.words) {flow : Flow}
    (h : Explained F g as w flow) (a : Action D) :
    Explained F g (as ++ [a]) (step w a) flow := by
  have hpre : as <+: as ++ [a] := List.prefix_append _ _
  have hworld : w = run step (init g) as → step w a = run step (init g) (as ++ [a]) := by
    rintro rfl
    exact (run_concat _ _ _ _).symm
  match flow, h with
  | .reading, h => exact hworld h
  | .uploading _, ⟨h, as₁, owner, has, hread⟩ => exact ⟨hworld h, as₁, owner, has.trans hpre, hread⟩
  | .checking _, ⟨h, hreq⟩ => exact ⟨hworld h, hreq.mono hpre⟩
  | .simulating _, ⟨h, hreq, hsc⟩ => exact ⟨hworld h, hreq.mono hpre, hsc⟩
  | .waiting _, ⟨h, hreq, hsc⟩ => exact ⟨hworld h, hreq.mono hpre, hsc⟩
  | .abandoned _, ⟨h, hreq, hsc⟩ => exact ⟨hworld h, hreq.mono hpre, hsc⟩
  | .done (.success _), ⟨req, hreq, hsc, hpaid⟩ =>
    exact ⟨req, hreq.mono hpre, hsc, hpaid.chain hK a⟩
  | .done (.blocked ..), ⟨h, req, hreq, hrej⟩ =>
    exact ⟨hworld h, req, hreq.mono hpre, hrej.mono hpre⟩
  | .done (.failed ..), ⟨h, hsc, req, as₁, hreq, has, hg⟩ =>
    exact ⟨hworld h, hsc, req, as₁, hreq.mono hpre, has.trans hpre, hg⟩
  | .failed (.client (.guardRejected ..)), ⟨h, req, hreq, hrej⟩ =>
    exact ⟨hworld h, req, hreq.mono hpre, hrej.mono hpre⟩
  | .failed .lost, .inl h => exact .inl (hworld h)
  | .failed .lost, .inr ⟨req, id, hreq, hsc, hpaid⟩ =>
    exact .inr ⟨req, id, hreq.mono hpre, hsc, hpaid.chain hK a⟩
  | .failed (.prepare _), h => exact hworld h
  | .failed .encoding, h => exact hworld h
  | .failed (.client (.reverted _)), h => exact hworld h
  | .failed (.client .transactionReverted), h => exact hworld h
  | .failed (.client .receiptNotFound), h => exact hworld h

/-! ### The steps of the flow -/

/-- Whatever the guard rejects for is one of the eight reasons. -/
theorem exists_reason {sender : Address}
    (h : GuardedExecutor._checkGuard w sender req = .ok (.RED, code)) :
    ∃ r : Reason, code = r.code D.keccak := by
  unfold GuardedExecutor._checkGuard at h
  dsimp only at h
  rw [red_else_eq_red, red_else_eq_red, red_else_eq_red, red_else_eq_red, red_else_eq_red] at h
  simp only [bind_eq_ok, pure, Except.pure, red_else_eq_red] at h
  rcases h with ⟨-, h⟩ |
    ⟨-, ⟨-, h⟩ | ⟨-, ⟨-, h⟩ | ⟨-, ⟨-, h⟩ | ⟨-, ⟨-, h⟩ | ⟨-, _, -, ⟨-, h⟩ | ⟨-, h⟩⟩⟩⟩⟩⟩
  · exact ⟨.DELEGATE_NOT_APPROVED, h.symm⟩
  · exact ⟨.TOKEN_NOT_USDC, h.symm⟩
  · exact ⟨.NO_ACTIVE_INTENT, h.symm⟩
  · exact ⟨.INTENT_EXPIRED, h.symm⟩
  · exact ⟨.COUNTERPARTY_NOT_ALLOWED, h.symm⟩
  · exact ⟨.DAY_CAP_EXCEEDED, h.symm⟩
  · rcases checkTraceAck_red (Except.ok.inj h) with h | h
    · exact ⟨.TRACE_ACK_EXPIRED, h⟩
    · exact ⟨.TRACE_ACK_INVALID, h⟩

theorem rejectedFor_of_red (hK : D.keccak.CollisionFree)
    (h : GuardedExecutor._checkGuard (run step (init g) as) F.account req = .ok (.RED, code)) :
    RejectedFor F g as req (decodeReasonLabel D.keccak code) code := by
  obtain ⟨r, rfl⟩ := exists_reason h
  exact ⟨as, r, List.prefix_rfl, (checkGuard_rejects hK).1 h, rfl, decodeReasonLabel_code hK r⟩

theorem explained_afterRead :
    Explained F g as (run step (init g) as) (F.afterRead (run step (init g) as)) := by
  unfold Launch.afterRead
  split
  · exact rfl
  · exact ⟨rfl, as, _, List.prefix_rfl, ‹_›, rfl⟩

theorem explained_afterUpload {intentHash : Bytes32} {data : TraceUploadResponse}
    (h : Explained F g as w (.uploading intentHash)) :
    Explained F g as w (F.afterUpload intentHash data) := by
  obtain ⟨hw, as₁, owner, has, howner, rfl⟩ := h
  unfold Launch.afterUpload
  split
  · exact hw
  · split
    · exact hw
    · exact ⟨hw, as₁, owner, data, _, _, has, howner, ‹_›, ‹_›⟩

theorem preflight_eq_ok {account : Address} {r : PreflightResult}
    (h : Agent.preflight w account req = .ok r) :
    GuardedExecutor._checkGuard w account req = .ok (r.decision, r.reasonCode) ∧
      r.reasonLabel = decodeReasonLabel D.keccak r.reasonCode := by
  unfold Agent.preflight GuardedExecutor.preflightCheck at h
  split at h
  · exact absurd h nofun
  · obtain rfl := Except.ok.inj h
    exact ⟨‹_›, rfl⟩

theorem explained_afterPreflight (hK : D.keccak.CollisionFree) {r : PreflightResult}
    (h : Explained F g as (run step (init g) as) (.checking req))
    (hr : Agent.preflight (run step (init g) as) F.account req = .ok r) :
    Explained F g as (run step (init g) as) (F.afterPreflight req r) := by
  obtain ⟨-, hreq⟩ := h
  obtain ⟨hcheck, hlabel⟩ := preflight_eq_ok hr
  -- the guard never answers YELLOW
  have hdecision : r.decision ≠ .RED → GuardPasses (run step (init g) as) F.account req ∧
      r.decision = .GREEN := by
    intro hne
    rcases checkGuard_cases (run step (init g) as) F.account req with ⟨c, hred⟩ | hgreen | herror
    · exact absurd (Prod.mk.inj (Except.ok.inj (hcheck.symm.trans hred))).1 hne
    · exact ⟨(checkGuard_green.1 hgreen).1,
        (Prod.mk.inj (Except.ok.inj (hcheck.symm.trans hgreen))).1⟩
    · exact absurd (hcheck.symm.trans herror) nofun
  have hblocked : r.decision = .RED → RejectedFor F g as req r.reasonLabel r.reasonCode := by
    intro hred
    rw [hlabel]
    exact rejectedFor_of_red hK (hred ▸ hcheck)
  unfold Launch.afterPreflight
  split_ifs with hsc hne hne
  · exact ⟨rfl, hsc, req, as, hreq, List.prefix_rfl, (hdecision hne).1⟩
  · exact ⟨rfl, req, hreq, hblocked (not_not.1 hne)⟩
  · refine ⟨rfl, req, hreq, hblocked ?_⟩
    by_contra hred
    exact hne (hdecision hred).2
  · exact ⟨rfl, hreq, hsc⟩

theorem preflight_error {account : Address} {e : ClientError}
    (h : Agent.preflight w account req = .error e) :
    ∃ e', e = .reverted e' := by
  unfold Agent.preflight at h
  split at h
  · exact ⟨_, (Except.error.inj h).symm⟩
  · exact absurd h nofun

theorem explained_simulate (hK : D.keccak.CollisionFree) {e : ClientError}
    (hreq : Prepared F g as req)
    (h : Agent.simulate (run step (init g) as) F.account req = .error e) :
    Explained F g as (run step (init g) as) (.failed (.client e)) := by
  unfold Agent.simulate at h
  split at h
  · next hexec =>
    obtain rfl := Except.error.inj h
    exact ⟨rfl, req, hreq, rejectedFor_of_red hK ((red_iff_rejected _).2 hexec)⟩
  · obtain rfl := Except.error.inj h
    exact rfl
  · exact absurd h nofun

/-- A transaction that is mined has reverted, or it has paid and its receipt is read. -/
theorem mined (req : IntentGuard.ExecutionRequest) :
    (readReceipt (run step (init g) as) (F.tx req) = .error .transactionReverted ∧
      apply (run step (init g) as) (F.tx req) = run step (init g) as) ∨
      ∃ receiptId, readReceipt (run step (init g) as) (F.tx req) = .ok receiptId ∧
        Paid F g as (apply (run step (init g) as) (F.tx req)) req receiptId := by
  rcases hexec : GuardedExecutor.executeWithGuard (run step (init g) as) F.account req with e |
    ⟨w', receiptId⟩
  · have hx : exec (run step (init g) as) (F.tx req).sender (F.tx req).call = .error e := by
      rw [Launch.tx, exec, hexec]
      rfl
    left
    rw [readReceipt, hx, apply_of_error hx]
    exact ⟨rfl, rfl⟩
  · have hx : exec (run step (init g) as) (F.tx req).sender (F.tx req).call = .ok w' :=
      map_eq_ok.2 ⟨_, hexec, rfl⟩
    obtain ⟨-, rfl, u, -, rfl⟩ := executeWithGuard_eq_ok.1 hexec
    right
    refine ⟨_, ?_, ⟨as, [], _, (List.append_nil as).symm, hexec, (apply_of_ok hx), ?_⟩⟩
    · rw [readReceipt, hx]
      simp only [List.drop_left, firstActionReceipt, List.findSome?_cons]
    · rw [apply_of_ok hx]
      exact executed_receipts_self

/-! ### Runs -/

theorem explained_step (hK : D.keccak.CollisionFree) {s : State D}
    (h : Explained F g as s.world s.flow) (x : Step D) :
    Explained F g (as ++ others [x]) (F.flowStep s x).world (F.flowStep s x).flow := by
  obtain ⟨w, flow⟩ := s
  dsimp only at h
  cases x with
  | chain a => exact h.chain hK.words a
  | read =>
    rw [show others [Step.read (D := D)] = [] from rfl, List.append_nil]
    cases flow with
    | reading =>
      obtain rfl : w = run step (init g) as := h
      exact explained_afterRead
    | _ => exact h
  | upload data =>
    rw [show others [Step.upload (D := D) data] = [] from rfl, List.append_nil]
    cases flow with
    | uploading intentHash => exact explained_afterUpload h
    | _ => exact h
  | preflight =>
    rw [show others [Step.preflight (D := D)] = [] from rfl, List.append_nil]
    cases flow with
    | checking req =>
      obtain rfl := h.1
      simp only [Launch.flowStep]
      split
      · next hcheck =>
        obtain ⟨e', rfl⟩ := preflight_error hcheck
        exact rfl
      · exact explained_afterPreflight hK h ‹_›
    | _ => exact h
  | simulate =>
    rw [show others [Step.simulate (D := D)] = [] from rfl, List.append_nil]
    cases flow with
    | simulating req =>
      obtain rfl := h.1
      simp only [Launch.flowStep]
      split
      · exact explained_simulate hK h.2.1 ‹_›
      · exact h
    | _ => exact h
  | mine =>
    rw [show others [Step.mine (D := D)] = [] from rfl, List.append_nil]
    cases flow with
    | waiting req =>
      obtain rfl := h.1
      rcases @mined D F g as req with ⟨hread, happly⟩ | ⟨receiptId, hread, hpaid⟩
      · simp only [Launch.flowStep, hread]
        exact happly
      · simp only [Launch.flowStep, hread]
        exact ⟨req, h.2.1, h.2.2, hpaid⟩
    | abandoned req =>
      obtain rfl := h.1
      rcases @mined D F g as req with ⟨-, happly⟩ | ⟨receiptId, -, hpaid⟩
      · exact .inl happly
      · exact .inr ⟨req, receiptId, h.2.1, h.2.2, hpaid⟩
    | _ => exact h
  | lose =>
    rw [show others [Step.lose (D := D)] = [] from rfl, List.append_nil]
    cases flow with
    | reading => exact .inl h
    | uploading _ => exact .inl h.1
    | checking _ => exact .inl h.1
    | simulating _ => exact .inl h.1
    | _ => exact h

end

/-- Whatever else happens on the chain while it runs, what a flow reports says what it has done
there. -/
theorem flow_explained (hK : D.keccak.CollisionFree) (F : Launch D) (g : Genesis D)
    (xs : List (Step D)) :
    Explained F g (others xs) (run F.flowStep (launched g) xs).world
      (run F.flowStep (launched g) xs).flow := by
  induction xs using List.reverseRecOn with
  | nil => exact rfl
  | append_singleton xs x ih =>
    rw [others_concat, run_concat]
    exact explained_step hK ih x

end IntentGuard.Agent

namespace IntentGuard.Localnet

open Js Infra Trace Agent

/-- Alice's agent pays the merchant 15 USDC. -/
def alicesAgent : Launch localnet where
  checksum := lowerCase
  scenario := .overspend
  fixture := { paymentFixture with
    expectedTarget := .string (toHex 40 merchant)
    expectedAmount := .string (text "15000000") }
  env := ⟨toHex 40 alice, toHex 64 agent⟩
  USDC := toHex 40 localnet.USDC
  account := delegate
  account_ne_zero := by decide
  external := by decide

/-- The service's answer for the intent with hash 77. -/
def signedAnswer : TraceUploadResponse :=
  let contextDigest :=
    (do
      let prepared ← (prepareScenarioExecution lowerCase alicesAgent.fixture alicesAgent.env
        alicesAgent.USDC 77).toOption
      (computeContextDigest localnet.keccak prepared.liveTrace).toOption).getD []
  let uriHash := localnet.keccak.bytes (Js.encode (text "ipfs://trace"))
  { traceURI := text "ipfs://trace"
    contextDigest
    uriHash
    expiresAt := 3456000
    signature :=
      traceKey.sign
        (GuardedExecutor.traceAckDigest localnet.keccak localnet.guardedExecutor localnet.chainid
          ((hexLiteral 64 contextDigest).getD 0) uriHash 3456000 agent alice) }

/-- The flow, with the others in between. -/
def interleaved : List (Agent.Step localnet) :=
  (setUp 50000000).map .chain ++ [.read, .upload signedAnswer, .preflight] ++
  meanwhile.map .chain ++ [.simulate, .mine]

end IntentGuard.Localnet

namespace IntentGuard.Agent

open Localnet

/-- The theorem at a payment that is mined two days after preflight. -/
theorem flow_explained_alicesAgent :
    ∃ req, Prepared alicesAgent genesis (others interleaved) req ∧ alicesAgent.scenario ≠ .blocked ∧
      Paid alicesAgent genesis (others interleaved)
        (Runs.run alicesAgent.flowStep (launched genesis) interleaved).world req
        firstId := by
  have hpaid : ∀ xs, (Runs.run alicesAgent.flowStep (launched genesis) xs).flow.result =
      some (.success firstId) →
      ∃ req, Prepared alicesAgent genesis (others xs) req ∧ alicesAgent.scenario ≠ .blocked ∧
        Paid alicesAgent genesis (others xs)
          (Runs.run alicesAgent.flowStep (launched genesis) xs).world req firstId := by
    intro xs hresult
    have hexplained := flow_explained Keccak.numbering_collisionFree alicesAgent genesis xs
    rw [Flow.result_eq_some.1 hresult] at hexplained
    exact hexplained
  exact hpaid interleaved (by decide +kernel)

end IntentGuard.Agent
