import IntentGuard.Js.Text
import IntentGuard.Lib.Runs

/-!
# The demo control service and its dashboard

`POST /demo/run-*` of `demo-control/src/index.ts` starts a run and answers at once; the flow of the
run settles later, and `finishRun` then writes its result. The store of `state.ts` has one slot, for
the run started last, so a run that settles after a newer start leaves nothing behind.
`waitForDemoScenario` of `web/src/lib/api.ts` polls `GET /demo/status` for one run.

`waitForDemoScenario_run`: a call reports its own run and no other, and it does so exactly when one
of its polls comes after the run has settled and before any newer start.
-/

namespace IntentGuard.Demo

open Js

/-! ### The store -/

/-- The routes `run-legit`, `run-blocked` and `run-overspend`. -/
inductive DemoScenario
  | legit
  | blocked
  | overspend

namespace DemoScenario

def name : DemoScenario → JsString
  | .legit => text "legit"
  | .blocked => text "blocked"
  | .overspend => text "overspend"

end DemoScenario

inductive Outcome
  | success
  | blocked
  | failed
deriving DecidableEq

structure ScenarioResult where
  scenario : JsString
  outcome : Outcome
  txHash : Option JsString
  receiptId : Option JsString
  reasonCode : Option JsString
  reasonCodeHex : Option JsString
  error : Option JsString

inductive RunStatus
  | running
  | completed
  | failed
deriving DecidableEq

structure DemoState where
  scenarioId : JsString
  status : RunStatus
  result : Option ScenarioResult
  startedAt : ℕ

def startRun (scenarioId : JsString) (startedAt : ℕ) : DemoState where
  scenarioId
  status := .running
  result := none
  startedAt

/-- What the slot holds afterwards, which is also what is returned. -/
def finishRun (lastRun : Option DemoState) (scenarioId : JsString) (status : RunStatus)
    (result : ScenarioResult) :
    Option DemoState :=
  match lastRun with
  | none => none
  | some run =>
    if run.scenarioId ≠ scenarioId then some run
    else some { run with status, result := some result }

/-! ### The service -/

/-- How `resolveEnv` and then the flow of a run end. -/
inductive Flow
  | resolves (result : ScenarioResult)
  | throws (message : JsString)

namespace Flow

def status : Flow → RunStatus
  | .resolves _ => .completed
  | .throws _ => .failed

def result (scenario : DemoScenario) : Flow → ScenarioResult
  | .resolves result => result
  | .throws message =>
    { scenario := scenario.name
      outcome := .failed
      txHash := none
      receiptId := none
      reasonCode := none
      reasonCodeHex := none
      error := some message }

end Flow

/-- The `last` of `GET /demo/status`, where it is not null. -/
structure DemoStatusLast where
  scenarioId : JsString
  status : RunStatus
  outcome : Option Outcome
  txHash : Option JsString
  reasonCode : Option JsString
  reasonCodeHex : Option JsString
  receiptId : Option JsString
  error : Option JsString

def demoStatus (lastRun : Option DemoState) : Option DemoStatusLast :=
  lastRun.map fun run =>
    { scenarioId := run.scenarioId
      status := run.status
      outcome := run.result.map ScenarioResult.outcome
      txHash := run.result.bind ScenarioResult.txHash
      reasonCode := run.result.bind ScenarioResult.reasonCode
      reasonCodeHex := run.result.bind ScenarioResult.reasonCodeHex
      receiptId := run.result.bind ScenarioResult.receiptId
      error := run.result.bind ScenarioResult.error }

structure State where
  lastRun : Option DemoState
  /-- The handlers that still await their flow, with their routes. -/
  pending : JsString → Option DemoScenario

def init : State := ⟨none, fun _ => none⟩

/-- What becomes of a request for the status on its way. -/
inductive Delivery
  | arrives
  | notOk
  | offline (message : JsString)

inductive Action
  | post (scenario : DemoScenario) (scenarioId : JsString) (startedAt : ℕ)
  | settle (scenarioId : JsString) (flow : Flow)
  /-- One poll of the `call`-th call of `waitForDemoScenario`. -/
  | poll (call : ℕ) (delivery : Delivery)

def step (s : State) : Action → State
  | .post scenario scenarioId startedAt =>
    { lastRun := some (startRun scenarioId startedAt)
      pending := Function.update s.pending scenarioId (some scenario) }
  | .settle scenarioId flow =>
    match s.pending scenarioId with
    | some scenario =>
      { lastRun := finishRun s.lastRun scenarioId flow.status (flow.result scenario)
        pending := Function.update s.pending scenarioId none }
    | none => s
  | .poll _ _ => s

/-! ### The dashboard -/

inductive DemoRunStatus
  | idle
  | running
  | success
  | failed

structure DemoStatus where
  scenario : DemoScenario
  status : DemoRunStatus
  txHash : Option JsString := none
  reasonCode : Option JsString := none
  receiptId : Option JsString := none
  error : Option JsString := none

def mapLastToDemoStatus (scenario : DemoScenario) (last : DemoStatusLast) : DemoStatus :=
  if last.status = .failed then
    { scenario, status := .failed, error := some (last.error.getD (text "Demo agent failed")) }
  else
    match last.outcome with
    | some .blocked =>
      { scenario, status := .success,
        reasonCode := some (last.reasonCode.getD (text "COUNTERPARTY_NOT_ALLOWED")) }
    | some .failed =>
      { scenario, status := .failed, error := some (last.error.getD (text "Execution failed")) }
    | some .success =>
      { scenario, status := .success, txHash := last.txHash, receiptId := last.receiptId }
    | none =>
      { scenario, status := .failed, error := some (last.error.getD (text "Unknown demo outcome")) }

inductive Response
  | offline (message : JsString)
  | notOk
  | ok (last : Option DemoStatusLast)

def timedOut (scenario : DemoScenario) : DemoStatus :=
  { scenario, status := .failed, error := some (text "Timed out waiting for demo scenario") }

/-- `none`: the call still waits, with attempts left after these responses. -/
def waitForDemoScenario (scenario : DemoScenario) (scenarioId : JsString) :
    ℕ → List Response → Option DemoStatus
  | 0, _ => some (timedOut scenario)
  | _ + 1, [] => none
  | _ + 1, .offline message :: _ => some { scenario, status := .failed, error := some message }
  | attempts + 1, .notOk :: rest => waitForDemoScenario scenario scenarioId attempts rest
  | attempts + 1, .ok none :: rest => waitForDemoScenario scenario scenarioId attempts rest
  | attempts + 1, .ok (some last) :: rest =>
    if last.scenarioId = scenarioId ∧ last.status ≠ .running then
      some (mapLastToDemoStatus scenario last)
    else waitForDemoScenario scenario scenarioId attempts rest

def respond (s : State) : Delivery → Response
  | .arrives => .ok (demoStatus s.lastRun)
  | .notOk => .notOk
  | .offline message => .offline message

/-- The responses to the polls of one call, in a run of the service. -/
def responses (call : ℕ) (actions : List Action) : List Response :=
  (Runs.visits step init actions).filterMap fun v =>
    match v.2 with
    | .poll c delivery => if c = call then some (respond v.1 delivery) else none
    | _ => none

/-! ### What a call reports -/

/-- The outcome of a run, as a call reports it. -/
def Flow.shown (scenario : DemoScenario) : Flow → DemoStatus
  | .throws message => { scenario, status := .failed, error := some message }
  | .resolves result =>
    match result.outcome with
    | .success =>
      { scenario, status := .success, txHash := result.txHash, receiptId := result.receiptId }
    | .blocked =>
      { scenario, status := .success,
        reasonCode := some (result.reasonCode.getD (text "COUNTERPARTY_NOT_ALLOWED")) }
    | .failed =>
      { scenario, status := .failed, error := some (result.error.getD (text "Execution failed")) }

namespace Action

def started : Action → Option JsString
  | .post _ scenarioId _ => some scenarioId
  | _ => none

def settles (scenarioId : JsString) : Action → Option Flow
  | .settle id flow => if id = scenarioId then some flow else none
  | _ => none

def polls (call : ℕ) : Action → Bool
  | .poll c _ => c = call
  | _ => false

end Action

/-- In `pre` the run has completed or failed, with `flow`. -/
def Ended (scenarioId : JsString) (flow : Flow) (pre : List Action) : Prop :=
  ∃ before scenario startedAt since, pre = before ++ .post scenario scenarioId startedAt :: since ∧
    since.findSome? (Action.settles scenarioId) = some flow

/-- Besides, no run was started since it was. -/
def EndedLatest (scenarioId : JsString) (flow : Flow) (pre : List Action) : Prop :=
  ∃ before scenario startedAt since, pre = before ++ .post scenario scenarioId startedAt :: since ∧
    (∀ a ∈ since, a.started = none) ∧ since.findSome? (Action.settles scenarioId) = some flow

/-- After `pre` the call makes a poll, one of its first `attempts`. -/
def PollsAfter (actions : List Action) (call attempts : ℕ) (pre : List Action) : Prop :=
  (∃ delivery, pre ++ [.poll call delivery] <+: actions) ∧ pre.countP (Action.polls call) < attempts

/-! ### The slot -/

/-- The slot after a start and more actions, none of them a start. -/
def slotSince (scenario : DemoScenario) (scenarioId : JsString) (startedAt : ℕ) :
    Option Flow → DemoState
  | none => startRun scenarioId startedAt
  | some flow =>
    { scenarioId
      status := flow.status
      result := some (flow.result scenario)
      startedAt }

/-- The run was started last, and has settled so far as `settled` says. -/
structure Latest (scenario : DemoScenario) (scenarioId : JsString) (startedAt : ℕ)
    (settled : Option Flow) (s : State) : Prop where
  slot : s.lastRun = some (slotSince scenario scenarioId startedAt settled)
  pending : s.pending scenarioId = if settled.isSome then none else some scenario

section
variable {scenario : DemoScenario} {scenarioId : JsString} {startedAt : ℕ}
  {settled : Option Flow} {s : State}

theorem latest_post (s : State) (scenario : DemoScenario) (scenarioId : JsString) (startedAt : ℕ) :
    Latest scenario scenarioId startedAt none (step s (.post scenario scenarioId startedAt)) where
  slot := rfl
  pending := Function.update_self _ _ _

/-- The handler of the run writes the slot once. -/
theorem Latest.settle_self (h : Latest scenario scenarioId startedAt settled s) (flow : Flow) :
    Latest scenario scenarioId startedAt (settled.or (some flow))
      (step s (.settle scenarioId flow)) := by
  cases settled with
  | none =>
    have hpending : s.pending scenarioId = some scenario := h.pending
    simp only [step, hpending, h.slot]
    exact ⟨if_neg (not_not_intro rfl), Function.update_self _ _ _⟩
  | some first =>
    have hpending : s.pending scenarioId = none := h.pending
    simp only [step, hpending]
    exact h

/-- The completion of another run is stale. -/
theorem Latest.settle_of_ne (h : Latest scenario scenarioId startedAt settled s) {id : JsString}
    (hid : id ≠ scenarioId) (flow : Flow) :
    Latest scenario scenarioId startedAt settled (step s (.settle id flow)) := by
  have hne : (slotSince scenario scenarioId startedAt settled).scenarioId ≠ id := by
    cases settled <;> exact hid.symm
  simp only [step]
  split
  · constructor
    · rw [h.slot]
      exact if_pos hne
    · exact (Function.update_of_ne hid.symm _ _).trans h.pending
  · exact h

theorem Latest.next (h : Latest scenario scenarioId startedAt settled s) {a : Action}
    (ha : a.started = none) :
    Latest scenario scenarioId startedAt (settled.or (a.settles scenarioId)) (step s a) := by
  cases a with
  | post => exact absurd ha nofun
  | settle id flow =>
    by_cases hid : id = scenarioId
    · subst hid
      rw [show Action.settles id (.settle id flow) = some flow from if_pos rfl]
      exact h.settle_self flow
    · rw [show Action.settles scenarioId (.settle id flow) = none from if_neg hid, Option.or_none]
      exact h.settle_of_ne hid flow
  | poll =>
    rw [show Action.settles scenarioId (.poll _ _) = none from rfl, Option.or_none]
    exact h

theorem Latest.run (h : Latest scenario scenarioId startedAt settled s) (since : List Action)
    (hsince : ∀ a ∈ since, a.started = none) :
    Latest scenario scenarioId startedAt (settled.or (since.findSome? (Action.settles scenarioId)))
      (Runs.run step s since) := by
  induction since generalizing settled s with
  | nil => rwa [List.findSome?_nil, Option.or_none]
  | cons a since ih =>
    obtain ⟨ha, hrest⟩ := List.forall_mem_cons.1 hsince
    have hnext := ih (h.next ha) hrest
    rw [Option.or_assoc] at hnext
    rw [← List.singleton_append, List.findSome?_append, List.findSome?_singleton]
    exact hnext

end

/-- Before the first start nothing is pending. -/
theorem run_unstarted (actions : List Action) (hstart : ∀ a ∈ actions, a.started = none) :
    Runs.run step init actions = init := by
  induction actions with
  | nil => rfl
  | cons a actions ih =>
    obtain ⟨ha, hrest⟩ := List.forall_mem_cons.1 hstart
    have hstep : step init a = init := by
      cases a with
      | post => exact absurd ha nofun
      | settle => rfl
      | poll => rfl
    rw [Runs.run_cons, hstep, ih hrest]

/-- Where the last start is. -/
theorem exists_last_start (actions : List Action) :
    (∀ a ∈ actions, a.started = none) ∨ ∃ before scenario scenarioId startedAt since,
      actions = before ++ .post scenario scenarioId startedAt :: since ∧ ∀ a ∈ since,
        a.started = none := by
  induction actions with
  | nil => exact .inl (List.forall_mem_nil _)
  | cons a actions ih =>
    rcases ih with hnone | ⟨before, scenario, scenarioId, startedAt, since, rfl, hsince⟩
    · cases a with
      | post scenario scenarioId startedAt =>
        exact .inr ⟨[], scenario, scenarioId, startedAt, actions, rfl, hnone⟩
      | settle => exact .inl (List.forall_mem_cons.2 ⟨rfl, hnone⟩)
      | poll => exact .inl (List.forall_mem_cons.2 ⟨rfl, hnone⟩)
    · exact .inr ⟨a :: before, scenario, scenarioId, startedAt, since, rfl, hsince⟩

/-- What a poll that finds `last` lets the call return. -/
def finished (scenario : DemoScenario) (scenarioId : JsString) :
    Option DemoStatusLast → Option DemoStatus
  | some last =>
    if last.scenarioId = scenarioId ∧ last.status ≠ .running then
      some (mapLastToDemoStatus scenario last)
    else none
  | none => none

theorem waitForDemoScenario_ok (scenario : DemoScenario) (scenarioId : JsString) (attempts : ℕ)
    (last : Option DemoStatusLast) (rest : List Response) :
    waitForDemoScenario scenario scenarioId (attempts + 1) (.ok last :: rest) =
      (finished scenario scenarioId last).or
        (waitForDemoScenario scenario scenarioId attempts rest) := by
  cases last with
  | none => rfl
  | some last =>
    simp only [waitForDemoScenario, finished]
    split_ifs
    · rfl
    · rfl

theorem finished_slotSince (scenario route : DemoScenario) (scenarioId : JsString) (startedAt : ℕ)
    (flow : Option Flow) :
    finished scenario scenarioId (demoStatus (some (slotSince route scenarioId startedAt flow))) =
      flow.map (Flow.shown scenario) := by
  cases flow with
  | none => exact if_neg fun h => h.2 rfl
  | some flow =>
    cases flow with
    | throws message => exact if_pos ⟨rfl, nofun⟩
    | resolves result =>
      refine (if_pos ⟨rfl, nofun⟩).trans (congrArg some ?_)
      obtain ⟨name, outcome, txHash, receiptId, reasonCode, reasonCodeHex, error⟩ := result
      cases outcome <;> rfl

theorem finished_of_ne (scenario : DemoScenario) {scenarioId id : JsString} (hid : id ≠ scenarioId)
    {route : DemoScenario} {startedAt : ℕ} (settled : Option Flow) :
    finished scenario scenarioId (demoStatus (some (slotSince route id startedAt settled))) =
      none := by
  have hne : (slotSince route id startedAt settled).scenarioId ≠ scenarioId := by
    cases settled <;> exact hid
  exact if_neg fun h => hne h.1

theorem finished_run_iff (scenario : DemoScenario) (scenarioId : JsString) (pre : List Action)
    (shown : DemoStatus) :
    finished scenario scenarioId (demoStatus (Runs.run step init pre).lastRun) = some shown ↔
      ∃ flow, EndedLatest scenarioId flow pre ∧ flow.shown scenario = shown := by
  constructor
  · intro h
    rcases exists_last_start pre with hnone | ⟨before, route, id, startedAt, since, rfl, hsince⟩
    · rw [run_unstarted pre hnone] at h
      exact absurd h nofun
    · have hlatest := (latest_post (Runs.run step init before) route id startedAt).run since hsince
      rw [Runs.run_append, Runs.run_cons, hlatest.slot] at h
      by_cases hid : id = scenarioId
      · subst hid
        rw [finished_slotSince, Option.none_or, Option.map_eq_some_iff] at h
        obtain ⟨flow, hflow, hshown⟩ := h
        exact ⟨flow, ⟨before, route, startedAt, since, rfl, hsince, hflow⟩, hshown⟩
      · exact absurd (h.symm.trans (finished_of_ne scenario hid _)) nofun
  · rintro ⟨flow, ⟨before, route, startedAt, since, rfl, hsince, hflow⟩, rfl⟩
    have hlatest :=
      (latest_post (Runs.run step init before) route scenarioId startedAt).run since hsince
    rw [Runs.run_append, Runs.run_cons, hlatest.slot, finished_slotSince, Option.none_or, hflow,
      Option.map_some]

/-! ### The polls of a call -/

/-- The states that the call looks at. -/
def looks (call : ℕ) (actions : List Action) : List State :=
  (Runs.visits step init actions).filterMap fun v => if v.2.polls call then some v.1 else none

theorem looks_concat (call : ℕ) (actions : List Action) (a : Action) :
    looks call (actions ++ [a]) = looks call actions ++ if a.polls call then
      [Runs.run step init actions] else [] := by
  unfold looks
  rw [Runs.visits_concat, List.filterMap_append, List.filterMap_cons, List.filterMap_nil]
  cases a.polls call <;> rfl

theorem length_looks (call : ℕ) (actions : List Action) :
    (looks call actions).length = actions.countP (Action.polls call) := by
  induction actions using List.reverseRecOn with
  | nil => rfl
  | append_singleton actions a ih =>
    rw [looks_concat, List.length_append, List.countP_append, ih, List.countP_singleton]
    cases a.polls call <;> rfl

theorem polls_iff (call : ℕ) (a : Action) :
    a.polls call = true ↔ ∃ delivery, a = .poll call delivery := by
  cases a with
  | post => exact iff_of_false nofun nofun
  | settle => exact iff_of_false nofun nofun
  | poll c delivery =>
    constructor
    · intro h
      obtain rfl := of_decide_eq_true h
      exact ⟨delivery, rfl⟩
    · rintro ⟨_, h⟩
      injection h with hcall
      exact decide_eq_true hcall

theorem pollsAfter_concat_iff (actions : List Action) (a : Action) (call attempts : ℕ)
    (pre : List Action) :
    PollsAfter (actions ++ [a]) call attempts pre ↔ PollsAfter actions call attempts pre ∨
      pre = actions ∧ a.polls call = true ∧ actions.countP (Action.polls call) < attempts := by
  constructor
  · rintro ⟨⟨delivery, hpre⟩, hcount⟩
    rcases List.prefix_concat_iff.1 hpre with heq | hpre
    · obtain ⟨rfl, hlast⟩ := List.append_inj' heq rfl
      exact .inr ⟨rfl, (polls_iff call a).2 ⟨delivery, (List.singleton_inj.1 hlast).symm⟩, hcount⟩
    · exact .inl ⟨⟨delivery, hpre⟩, hcount⟩
  · rintro (⟨⟨delivery, hpre⟩, hcount⟩ | ⟨rfl, hpolls, hcount⟩)
    · exact ⟨⟨delivery, hpre.trans (List.prefix_append _ _)⟩, hcount⟩
    · obtain ⟨delivery, rfl⟩ := (polls_iff call a).1 hpolls
      exact ⟨⟨delivery, List.prefix_rfl⟩, hcount⟩

theorem mem_take_singleton_iff {s s' : State} {b : Bool} {n : ℕ} :
    s ∈ (if b then [s'] else []).take n ↔ (b = true ∧ 0 < n) ∧ s' = s := by
  cases b with
  | false => simp
  | true =>
    cases n with
    | zero => simp
    | succ n => simp [eq_comm]

theorem mem_take_looks_iff (call attempts : ℕ) (actions : List Action) (s : State) :
    s ∈ (looks call actions).take attempts ↔ ∃ pre, PollsAfter actions call attempts pre ∧
    Runs.run step init pre = s := by
  induction actions using List.reverseRecOn with
  | nil =>
    refine iff_of_false (by simp [looks]) ?_
    rintro ⟨pre, ⟨⟨delivery, hpre⟩, -⟩, -⟩
    exact absurd (List.prefix_nil.1 hpre)
      (List.append_ne_nil_of_right_ne_nil _ (List.cons_ne_nil _ _))
  | append_singleton actions a ih =>
    rw [looks_concat, List.take_append, List.mem_append, ih, mem_take_singleton_iff, length_looks,
      Nat.sub_pos_iff_lt]
    simp only [pollsAfter_concat_iff, or_and_right, exists_or]
    refine or_congr_right ⟨?_, ?_⟩
    · rintro ⟨hpolls, hrun⟩
      exact ⟨actions, ⟨rfl, hpolls⟩, hrun⟩
    · rintro ⟨_, ⟨rfl, hpolls⟩, hrun⟩
      exact ⟨hpolls, hrun⟩

theorem responses_eq (call : ℕ) (actions : List Action)
    (harrives : ∀ delivery, .poll call delivery ∈ actions → delivery = .arrives) :
    responses call actions = (looks call actions).map fun s => .ok (demoStatus s.lastRun) := by
  unfold responses looks
  rw [List.map_filterMap]
  apply List.filterMap_congr
  rintro ⟨s, a⟩ hv
  have ha : a ∈ actions := by
    obtain ⟨before, after, rfl, -⟩ := Runs.exists_split_of_mem_visits hv
    exact List.mem_append_right _ List.mem_cons_self
  cases a with
  | post => rfl
  | settle => rfl
  | poll c delivery =>
    by_cases hcall : c = call
    · subst hcall
      obtain rfl := harrives delivery ha
      simp [Action.polls, respond]
    · simp [Action.polls, hcall]

/-- A call whose polls all succeed returns at the first that finds its run finished. -/
theorem waitForDemoScenario_eq (scenario : DemoScenario) (scenarioId : JsString) (attempts : ℕ)
    (seen : List State) :
    waitForDemoScenario scenario scenarioId attempts
      (seen.map fun s => .ok (demoStatus s.lastRun)) =
      ((seen.take attempts).findSome? fun s => finished scenario scenarioId
        (demoStatus s.lastRun)).or
        (if attempts ≤ seen.length then some (timedOut scenario) else none) := by
  induction seen generalizing attempts with
  | nil =>
    cases attempts with
    | zero => rfl
    | succ n => rfl
  | cons s seen ih =>
    cases attempts with
    | zero => rfl
    | succ n =>
      rw [List.map_cons, waitForDemoScenario_ok, ih, List.take_succ_cons, List.length_cons]
      simp only [List.findSome?_cons, Nat.add_le_add_iff_right]
      cases finished scenario scenarioId (demoStatus s.lastRun) with
      | none => rfl
      | some shown => rfl

/-! ### The results -/

/-- How the run ends that the first start with this id begins. -/
def flowOf (scenarioId : JsString) : List Action → Option Flow
  | [] => none
  | a :: rest =>
    if a.started = some scenarioId then rest.findSome? (Action.settles scenarioId)
    else flowOf scenarioId rest

theorem flowOf_append {scenarioId : JsString} {flow : Flow} {pre : List Action}
    (h : flowOf scenarioId pre = some flow) (rest : List Action) :
    flowOf scenarioId (pre ++ rest) = some flow := by
  induction pre with
  | nil => exact absurd h nofun
  | cons a pre ih =>
    rw [List.cons_append]
    unfold flowOf at h ⊢
    split_ifs at h ⊢ with ha
    · rw [List.findSome?_append, h, Option.some_or]
    · exact ih h

theorem Ended.flowOf_eq {scenarioId : JsString} {flow : Flow} {pre : List Action}
    (h : Ended scenarioId flow pre) (hdistinct : (pre.filterMap Action.started).Nodup) :
    flowOf scenarioId pre = some flow := by
  obtain ⟨before, scenario, startedAt, since, rfl, hflow⟩ := h
  induction before with
  | nil => exact (if_pos rfl).trans hflow
  | cons a before ih =>
    have ha : a.started ≠ some scenarioId := by
      intro ha
      rw [List.cons_append, List.filterMap_cons_some ha, List.nodup_cons] at hdistinct
      exact hdistinct.1 (List.mem_filterMap.2 ⟨_, List.mem_append_right _ List.mem_cons_self, rfl⟩)
    refine (if_neg ha).trans (ih ?_)
    exact hdistinct.sublist ((List.sublist_cons_self a _).filterMap _)

/-- With distinct ids a run has one end. -/
theorem Ended.unique {actions pre pre' : List Action} {scenarioId : JsString} {flow flow' : Flow}
    (hdistinct : (actions.filterMap Action.started).Nodup) (h : Ended scenarioId flow pre)
    (hpre : pre <+: actions) (h' : Ended scenarioId flow' pre') (hpre' : pre' <+: actions) :
    flow = flow' := by
  have hflow : ∀ p f, Ended scenarioId f p → p <+: actions →
      flowOf scenarioId actions = some f := by
    intro p f hended hp
    have heq := hended.flowOf_eq (hdistinct.sublist (hp.sublist.filterMap _))
    obtain ⟨rest, rfl⟩ := hp
    exact flowOf_append heq rest
  exact Option.some.inj ((hflow pre flow h hpre).symm.trans (hflow pre' flow' h' hpre'))

theorem EndedLatest.ended {scenarioId : JsString} {flow : Flow} {pre : List Action}
    (h : EndedLatest scenarioId flow pre) :
    Ended scenarioId flow pre := by
  obtain ⟨before, scenario, startedAt, since, hpre, -, hflow⟩ := h
  exact ⟨before, scenario, startedAt, since, hpre, hflow⟩

theorem PollsAfter.isPrefix {actions pre : List Action} {call attempts : ℕ}
    (h : PollsAfter actions call attempts pre) :
    pre <+: actions := by
  obtain ⟨⟨_, hpre⟩, -⟩ := h
  exact (List.prefix_append _ _).trans hpre

/-- The call reports its own run, when one of its polls finds it ended and still the latest;
otherwise it times out. -/
theorem waitForDemoScenario_run (actions : List Action)
    (hdistinct : (actions.filterMap Action.started).Nodup) (call : ℕ)
    (harrives : ∀ delivery, .poll call delivery ∈ actions → delivery = .arrives)
    (scenario : DemoScenario) (scenarioId : JsString) (attempts : ℕ) :
    let answer := waitForDemoScenario scenario scenarioId attempts (responses call actions)
    (∀ pre flow, PollsAfter actions call attempts pre → EndedLatest scenarioId flow pre →
      answer = some (flow.shown scenario)) ∧
    ((∀ pre flow, PollsAfter actions call attempts pre → ¬ EndedLatest scenarioId flow pre) →
      answer = if attempts ≤ actions.countP (Action.polls call) then some (timedOut scenario)
        else none) := by
  intro answer
  have hanswer : answer = ((((looks call actions).take attempts).findSome? fun s =>
      finished scenario scenarioId (demoStatus s.lastRun)).or
        (if attempts ≤ actions.countP (Action.polls call) then some (timedOut scenario)
          else none)) := by
    rw [← length_looks, ← waitForDemoScenario_eq, ← responses_eq call actions harrives]
  rw [hanswer]
  constructor
  · intro pre flow hpolls hended
    have hmem := (mem_take_looks_iff call attempts actions _).2 ⟨pre, hpolls, rfl⟩
    have hfinds := (finished_run_iff scenario scenarioId pre _).2 ⟨flow, hended, rfl⟩
    have hsome : (((looks call actions).take attempts).findSome? fun s =>
        finished scenario scenarioId (demoStatus s.lastRun)).isSome := by
      rw [List.findSome?_isSome_iff]
      exact ⟨_, hmem, Option.isSome_iff_exists.2 ⟨_, hfinds⟩⟩
    obtain ⟨shown, hshown⟩ := Option.isSome_iff_exists.1 hsome
    rw [hshown, Option.some_or]
    -- the poll at which the call returns has seen the same end
    obtain ⟨s, hs, hfirst⟩ := List.exists_of_findSome?_eq_some hshown
    obtain ⟨pre', hpolls', rfl⟩ := (mem_take_looks_iff call attempts actions s).1 hs
    obtain ⟨flow', hended', rfl⟩ := (finished_run_iff scenario scenarioId pre' shown).1 hfirst
    rw [hended'.ended.unique hdistinct hpolls'.isPrefix hended.ended hpolls.isPrefix]
  · intro hnever
    have hnone : ((looks call actions).take attempts).findSome?
        (fun s => finished scenario scenarioId (demoStatus s.lastRun)) = none := by
      refine List.findSome?_eq_none_iff.2 fun s hs =>
        Option.eq_none_iff_forall_ne_some.2 fun shown hshown => ?_
      obtain ⟨pre, hpolls, rfl⟩ := (mem_take_looks_iff call attempts actions s).1 hs
      obtain ⟨flow, hended, -⟩ := (finished_run_iff scenario scenarioId pre shown).1 hshown
      exact hnever pre flow hpolls hended
    rw [hnone, Option.none_or]

def paid : ScenarioResult where
  scenario := text "legit"
  outcome := .success
  txHash := some (text "0xabc")
  receiptId := some (text "0xdef")
  reasonCode := none
  reasonCodeHex := none
  error := none

/-- One poll while the run is on its way, one after it, and then a newer start. -/
theorem waitForDemoScenario_run_paid :
    let actions := [.post .legit (text "a") 0, .poll 0 .arrives,
      .settle (text "a") (.resolves paid), .poll 0 .arrives, .post .blocked (text "b") 1]
    waitForDemoScenario .legit (text "a") 90 (responses 0 actions) =
      some { scenario := .legit, status := .success, txHash := some (text "0xabc"),
             receiptId := some (text "0xdef") } := by
  intro actions
  have harrives : ∀ delivery, .poll 0 delivery ∈ actions → delivery = .arrives := by
    intro delivery hmem
    simpa [actions] using hmem
  have hrun := waitForDemoScenario_run actions (by decide) 0 harrives .legit (text "a") 90
  refine hrun.1 [.post .legit (text "a") 0, .poll 0 .arrives, .settle (text "a") (.resolves paid)]
    (.resolves paid) ?_ ?_
  · exact ⟨⟨.arrives, _, rfl⟩, by decide⟩
  · exact ⟨[], .legit, 0, [.poll 0 .arrives, .settle (text "a") (.resolves paid)], rfl,
      by simp [Action.started], by rfl⟩

/-- The other run is started before this one has ended. -/
def overtaken : List Action :=
  [.post .legit (text "a") 0, .post .blocked (text "b") 1, .settle (text "a") (.resolves paid)] ++
    List.replicate 90 (.poll 0 .arrives)

theorem overtaken_run_times_out :
    ¬ ∀ (actions : List Action) (call : ℕ) (scenario : DemoScenario) (scenarioId : JsString)
      (pre : List Action) (flow : Flow),
      (actions.filterMap Action.started).Nodup →
        (∀ delivery, .poll call delivery ∈ actions → delivery = .arrives) →
      PollsAfter actions call 90 pre → Ended scenarioId flow pre →
      waitForDemoScenario scenario scenarioId 90 (responses call actions) =
        some (flow.shown scenario) := by
  intro h
  have harrives : ∀ delivery, .poll 0 delivery ∈ overtaken → delivery = .arrives := by
    intro delivery hmem
    rcases List.mem_append.1 hmem with hmem | hmem
    · simp at hmem
    · exact (Action.poll.inj (List.eq_of_mem_replicate hmem)).2
  have hreports := h overtaken 0 .legit (text "a") _ (.resolves paid) (by decide) harrives
    ⟨⟨.arrives, List.replicate 89 (.poll 0 .arrives), rfl⟩, by decide⟩
    ⟨[], .legit, 0, [.post .blocked (text "b") 1, .settle (text "a") (.resolves paid)], rfl, by rfl⟩
  have htimeout : waitForDemoScenario .legit (text "a") 90 (responses 0 overtaken) =
      some (timedOut .legit) := by rfl
  exact absurd (htimeout.symm.trans hreports) nofun

end IntentGuard.Demo
