import IntentGuard.Demo.Control
import IntentGuard.Infra.Feed

/-!
# Blocked runs in the feed

`DemoStatusPoller` of `indexer/demo-status.ts` beside the demo control service. A tick asks for the
status, looks for a row of the run and inserts one. The service goes on between these calls, each of
them may fail, and the process may be started again after any of them.

`blocked_runs_recorded`: a row is of a run that ended blocked with the row's reason, and that was
still the latest when a tick asked; a tick that asks at such a time and gets through leaves a row of
the run behind, in every owner's feed; and no run has two rows, unless a failing lookup on Supabase
is taken for an empty one.
-/

namespace IntentGuard.Infra.DemoStatus

open Js Runs
open Demo (Delivery DemoStatusLast DemoScenario Flow demoStatus)

/-! ### The poller -/

/-- What a tick has read of a blocked run, and whether it has looked for its row. -/
structure Tick where
  scenarioId : JsString
  reasonCode : JsString
  looked : Bool

/-- The service, the table `blocked_attempts`, and the tick that waits for a call. -/
structure State where
  demo : Demo.State
  rows : List BlockedAttemptRow
  tick : Option Tick

inductive Action
  | demo (a : Demo.Action)
  | fetch (delivery : Delivery)
  | select (fails : Bool)
  | insert (now : Time) (fails : Bool)
  /-- The process stops and is started again. -/
  | restart

/-- A failing select throws on SQLite and has no data on Supabase. -/
def blockedAttemptExists (provider : Provider) (rows : List BlockedAttemptRow)
    (scenarioId : JsString) (fails : Bool) :
    Option Bool :=
  if scenarioId = [] then some false
  else if fails then
    match provider with
    | .sqlite => none
    | .supabase => some false
  else some (rows.any fun row => row.scenarioId = some scenarioId)

/-- Where a tick goes on after the answer. -/
def blockedLast : Option DemoStatusLast → Option Tick
  | none => none
  | some last =>
    match last.outcome, last.reasonCode with
    | some .blocked, some reasonCode =>
      if reasonCode = [] then none else some ⟨last.scenarioId, reasonCode, false⟩
    | _, _ => none

/-- The service says neither who paid whom nor what the reason is called. -/
def attempt (scenarioId reasonCode : JsString) : InsertBlockedAttemptInput where
  scenarioId := some scenarioId
  owner := none
  agentId := none
  target := none
  token := none
  amount := none
  reasonCode
  reasonLabel := none
  source := some (text "demo-status")

variable (provider : Provider)

def step (s : State) : Action → State
  | .demo a => { s with demo := Demo.step s.demo a }
  | .fetch delivery =>
    match s.tick, Demo.respond s.demo delivery with
    | none, .ok last => { s with tick := blockedLast last }
    | _, _ => s
  | .select fails =>
    match s.tick with
    | some ⟨scenarioId, reasonCode, false⟩ =>
      match blockedAttemptExists provider s.rows scenarioId fails with
      | some false => { s with tick := some ⟨scenarioId, reasonCode, true⟩ }
      | _ => { s with tick := none }
    | _ => s
  | .insert now fails =>
    match s.tick with
    | some ⟨scenarioId, reasonCode, true⟩ =>
      { s with
        rows := if fails then s.rows
          else insertBlockedAttempt now (attempt scenarioId reasonCode) s.rows
        tick := none }
    | _ => s
  | .restart => { s with tick := none }

def init : State := ⟨Demo.init, [], none⟩

def onDemo : Action → Option Demo.Action
  | .demo a => some a
  | _ => none

/-! ### What is recorded -/

/-- The run was started last, and it has ended blocked. -/
def EndedBlocked (pre : List Demo.Action) (scenarioId reasonCode : JsString) : Prop :=
  ∃ result, Demo.EndedLatest scenarioId (.resolves result) pre ∧ result.outcome = .blocked ∧
    result.reasonCode = some reasonCode ∧ reasonCode ≠ []

/-- A tick has asked when the run was like that. -/
def Seen (as : List Action) (scenarioId reasonCode : JsString) : Prop :=
  ∃ pre, pre ++ [.fetch .arrives] <+: as ∧ EndedBlocked (pre.filterMap onDemo) scenarioId reasonCode

/-- And it has got through, whatever the service did meanwhile. -/
def GotThrough (as : List Action) (scenarioId reasonCode : JsString) : Prop :=
  ∃ (pre : List Action) (ds ds' : List Demo.Action) (now : Time) (rest : List Action),
    as = pre ++ .fetch .arrives ::
      (ds.map .demo ++ .select false :: (ds'.map .demo ++ .insert now false :: rest)) ∧
      (run (step provider) init pre).tick = none ∧
      EndedBlocked (pre.filterMap onDemo) scenarioId reasonCode

section
variable {provider} {s : State} {as : List Action} {scenarioId reasonCode : JsString}

/-- What a tick finds in the slot. -/
theorem blockedLast_slotSince {route : DemoScenario} {id : JsString} {startedAt : ℕ}
    {settled : Option Flow} {t : Tick} :
    blockedLast (demoStatus (some (Demo.slotSince route id startedAt settled))) = some t ↔
      ∃ result rc, settled = some (.resolves result) ∧ result.outcome = .blocked ∧
        result.reasonCode = some rc ∧ rc ≠ [] ∧
        t = ⟨id, rc, false⟩ := by
  cases settled with
  | none => exact iff_of_false nofun nofun
  | some flow =>
    cases flow with
    | throws message => exact iff_of_false nofun nofun
    | resolves result =>
      obtain ⟨name, outcome, txHash, receiptId, code, codeHex, error⟩ := result
      cases outcome with
      | success => exact iff_of_false nofun nofun
      | failed => exact iff_of_false nofun nofun
      | blocked =>
        cases code with
        | none => exact iff_of_false nofun nofun
        | some rc =>
          show (if rc = [] then none else some (⟨id, rc, false⟩ : Tick)) = some t ↔ _
          constructor
          · intro h
            split_ifs at h with hrc
            exact ⟨_, rc, rfl, rfl, rfl, hrc, (Option.some.inj h).symm⟩
          · rintro ⟨_, _, hflow, -, hcode, hrc, rfl⟩
            obtain rfl := Flow.resolves.inj (Option.some.inj hflow)
            obtain rfl := Option.some.inj hcode
            exact if_neg hrc

/-- What a tick finds is the latest run, ended blocked. -/
theorem blockedLast_run_iff {pre : List Demo.Action} {t : Tick} :
    blockedLast (demoStatus (run Demo.step Demo.init pre).lastRun) = some t ↔
      EndedBlocked pre t.scenarioId t.reasonCode ∧ t.looked = false := by
  constructor
  · intro h
    rcases Demo.exists_last_start pre with hnone | ⟨before, route, id, startedAt,
      since, rfl, hsince⟩
    · rw [Demo.run_unstarted pre hnone] at h
      exact absurd h nofun
    · have hlatest :=
        (Demo.latest_post (run Demo.step Demo.init before) route id startedAt).run since hsince
      rw [run_append, run_cons, hlatest.slot, Option.none_or] at h
      obtain ⟨result, rc, hflow, hblocked, hcode, hrc, rfl⟩ := blockedLast_slotSince.1 h
      exact ⟨⟨result, ⟨before, route, startedAt, since, rfl, hsince, hflow⟩, hblocked, hcode, hrc⟩,
        rfl⟩
  · rintro ⟨⟨result, ⟨before, route, startedAt, since, rfl, hsince, hflow⟩, hblocked, hcode, hrc⟩,
      hlooked⟩
    have hlatest :=
      (Demo.latest_post (run Demo.step Demo.init before) route t.scenarioId startedAt).run since
        hsince
    rw [run_append, run_cons, hlatest.slot, Option.none_or]
    refine blockedLast_slotSince.2 ⟨result, t.reasonCode, hflow, hblocked, hcode, hrc, ?_⟩
    rw [← hlooked]

/-! ### Every row -/

theorem demo_step (s : State) (a : Action) :
    (step provider s a).demo = (onDemo a).elim s.demo (Demo.step s.demo) := by
  cases a with
  | demo a => rfl
  | fetch delivery =>
    simp only [step]
    split <;> rfl
  | select fails =>
    simp only [step]
    split
    · split <;> rfl
    · rfl
  | insert now fails =>
    simp only [step]
    split <;> rfl
  | restart => rfl

/-- The service of a run is a run of the service. -/
theorem demo_run (s : State) (as : List Action) :
    (run (step provider) s as).demo = run Demo.step s.demo (as.filterMap onDemo) :=
  component_run State.demo onDemo Demo.step demo_step s as

theorem Seen.mono {a : Action} (h : Seen as scenarioId reasonCode) :
    Seen (as ++ [a]) scenarioId reasonCode := by
  obtain ⟨pre, hpre, hended⟩ := h
  exact ⟨pre, hpre.trans (List.prefix_append _ _), hended⟩

/-- What is in the table or on its way there has been seen. -/
structure Inv (as : List Action) (s : State) : Prop where
  tick : ∀ t, s.tick = some t → Seen as t.scenarioId t.reasonCode
  rows : ∀ row ∈ s.rows, row.owner = none ∧ ∃ id, row.scenarioId = some id ∧
    Seen as id row.reasonCode

theorem Inv.mono {a : Action} (h : Inv as s) : Inv (as ++ [a]) s where
  tick t ht := (h.tick t ht).mono
  rows row hrow := by
    obtain ⟨howner, id, hid, hseen⟩ := h.rows row hrow
    exact ⟨howner, id, hid, hseen.mono⟩

theorem inv_step (h : Inv as s) (hdemo : s.demo = run Demo.step Demo.init (as.filterMap onDemo))
    (a : Action) :
    Inv (as ++ [a]) (step provider s a) := by
  have hmono := h.mono (a := a)
  cases a with
  | demo a => exact ⟨hmono.tick, hmono.rows⟩
  | fetch delivery =>
    simp only [step]
    split
    · rename_i last _ hresponse
      refine ⟨?_, hmono.rows⟩
      intro t ht
      cases delivery with
      | arrives =>
        obtain rfl := Demo.Response.ok.inj hresponse
        rw [hdemo] at ht
        exact ⟨as, List.prefix_rfl, (blockedLast_run_iff.1 ht).1⟩
      | notOk => exact absurd hresponse nofun
      | offline message => exact absurd hresponse nofun
    · exact hmono
  | select fails =>
    simp only [step]
    split
    · rename_i id rc htick
      split
      · refine ⟨?_, hmono.rows⟩
        rintro t ht
        obtain rfl := Option.some.inj ht
        exact hmono.tick ⟨id, rc, false⟩ htick
      · exact ⟨nofun, hmono.rows⟩
    · exact hmono
  | insert now fails =>
    simp only [step]
    split
    · rename_i id rc htick
      refine ⟨nofun, ?_⟩
      intro row hrow
      cases fails with
      | true => exact hmono.rows row hrow
      | false =>
        rcases List.mem_append.1 hrow with hrow | hrow
        · exact hmono.rows row hrow
        · obtain rfl := List.mem_singleton.1 hrow
          exact ⟨rfl, id, rfl, hmono.tick _ htick⟩
    · exact hmono
  | restart => exact ⟨nofun, hmono.rows⟩

theorem inv_run (as : List Action) : Inv as (run (step provider) init as) := by
  induction as using List.reverseRecOn with
  | nil => exact ⟨nofun, fun _ hrow => absurd hrow List.not_mem_nil⟩
  | append_singleton as a ih =>
    rw [run_concat]
    exact inv_step ih (demo_run init as) a

/-! ### One row for a run -/

/-- No run has two rows, and a tick that has looked for a row has found none. -/
structure Once (s : State) : Prop where
  rows : (s.rows.map BlockedAttemptRow.scenarioId).Nodup
  tick : ∀ t, s.tick = some t → t.looked = true →
    some t.scenarioId ∉ s.rows.map BlockedAttemptRow.scenarioId

/-- A lookup that returns is right, but for one that fails on Supabase. -/
theorem not_mem_of_blockedAttemptExists {rows : List BlockedAttemptRow} {fails : Bool}
    (hid : scenarioId ≠ []) (hfails : fails = true → provider = .sqlite)
    (h : blockedAttemptExists provider rows scenarioId fails = some false) :
    some scenarioId ∉ rows.map BlockedAttemptRow.scenarioId := by
  unfold blockedAttemptExists at h
  rw [if_neg hid] at h
  cases fails with
  | true =>
    obtain rfl := hfails rfl
    exact absurd h nofun
  | false =>
    intro hmem
    obtain ⟨row, hrow, heq⟩ := List.mem_map.1 hmem
    exact List.any_eq_false.1 (Option.some.inj h) row hrow (decide_eq_true heq)

theorem once_step (h : Once s) (a : Action) (hid : ∀ t, s.tick = some t → t.scenarioId ≠ [])
    (hselect : a = .select true → provider = .sqlite) : Once (step provider s a) := by
  cases a with
  | demo a => exact ⟨h.rows, h.tick⟩
  | fetch delivery =>
    simp only [step]
    split
    · refine ⟨h.rows, ?_⟩
      intro t ht hlooked
      rename_i last _ _
      have hnew : t.looked = false := by
        unfold blockedLast at ht
        split at ht
        · exact absurd ht nofun
        · split at ht
          · split_ifs at ht
            obtain rfl := Option.some.inj ht
            rfl
          · exact absurd ht nofun
      exact absurd (hlooked.symm.trans hnew) nofun
    · exact h
  | select fails =>
    simp only [step]
    split
    · rename_i id rc htick
      split
      · rename_i hexists
        refine ⟨h.rows, ?_⟩
        rintro t ht -
        obtain rfl := Option.some.inj ht
        exact not_mem_of_blockedAttemptExists (hid ⟨id, rc, false⟩ htick)
          (fun hfails => hselect (hfails ▸ rfl)) hexists
      · exact ⟨h.rows, nofun⟩
    · exact h
  | insert now fails =>
    simp only [step]
    split
    · rename_i id rc htick
      refine ⟨?_, nofun⟩
      cases fails with
      | true => exact h.rows
      | false =>
        have hnew : some id ∉ s.rows.map BlockedAttemptRow.scenarioId := h.tick _ htick rfl
        show ((s.rows ++ [_]).map BlockedAttemptRow.scenarioId).Nodup
        rw [List.map_append, List.map_singleton, List.nodup_append]
        refine ⟨h.rows, List.nodup_singleton _, ?_⟩
        rintro a ha b hb rfl
        have heq : a = some id := List.mem_singleton.1 hb
        exact hnew (heq ▸ ha)
    · exact h
  | restart => exact ⟨h.rows, nofun⟩

/-- The id of a run that has been seen is one that was posted. -/
theorem Seen.started (h : Seen as scenarioId reasonCode) :
    some scenarioId ∈ (as.filterMap onDemo).map Demo.Action.started := by
  obtain ⟨pre, hpre, -, ⟨before, scenario, startedAt, since, hsplit, -, -⟩, -⟩ := h
  have hleads : pre.filterMap onDemo <+: as.filterMap onDemo :=
    ((List.prefix_append _ _).trans hpre).filterMap _
  refine List.mem_map.2 ⟨.post scenario scenarioId startedAt, hleads.subset ?_, rfl⟩
  rw [hsplit]
  exact List.mem_append_right _ List.mem_cons_self

theorem once_run (as : List Action) (hids : ∀ a ∈ as.filterMap onDemo, a.started ≠ some [])
    (hselect : .select true ∈ as → provider = .sqlite) : Once (run (step provider) init as) := by
  induction as using List.reverseRecOn with
  | nil => exact ⟨List.nodup_nil, nofun⟩
  | append_singleton as a ih =>
    rw [run_concat]
    have hbefore : ∀ b ∈ as.filterMap onDemo, b.started ≠ some [] := by
      intro b hb
      refine hids b ?_
      rw [List.filterMap_append]
      exact List.mem_append_left _ hb
    refine once_step (ih hbefore fun hmem => hselect (List.mem_append_left _ hmem)) a ?_ ?_
    · intro t ht hempty
      obtain ⟨b, hb, hstarted⟩ := List.mem_map.1 ((inv_run as).tick t ht).started
      exact hbefore b hb (hstarted.trans (congrArg some hempty))
    · rintro rfl
      exact hselect (List.mem_append_right _ List.mem_cons_self)

/-! ### A row for a run -/

theorem rows_step (s : State) (a : Action) : s.rows <+: (step provider s a).rows := by
  cases a with
  | demo a => exact List.prefix_rfl
  | fetch delivery =>
    simp only [step]
    split <;> exact List.prefix_rfl
  | select fails =>
    simp only [step]
    split
    · split <;> exact List.prefix_rfl
    · exact List.prefix_rfl
  | insert now fails =>
    simp only [step]
    split
    · cases fails with
      | true => exact List.prefix_rfl
      | false => exact List.prefix_append _ _
    · exact List.prefix_rfl
  | restart => exact List.prefix_rfl

theorem rows_run (s : State) (as : List Action) : s.rows <+: (run (step provider) s as).rows := by
  induction as generalizing s with
  | nil => exact List.prefix_rfl
  | cons a as ih => exact (rows_step s a).trans (ih _)

/-- What the service does leaves the tick and the table alone. -/
theorem run_map_demo (s : State) (ds : List Demo.Action) :
    run (step provider) s (ds.map .demo) = { s with demo := run Demo.step s.demo ds } := by
  induction ds generalizing s with
  | nil => rfl
  | cons d ds ih =>
    rw [List.map_cons, run_cons, ih]
    rfl

/-- A lookup that does not fail finds no row where there is none. -/
theorem blockedAttemptExists_of_not_mem {rows : List BlockedAttemptRow}
    (h : ¬ ∃ row ∈ rows, row.scenarioId = some scenarioId) :
    blockedAttemptExists provider rows scenarioId false = some false := by
  unfold blockedAttemptExists
  by_cases hempty : scenarioId = []
  · exact if_pos hempty
  · rw [if_neg hempty, if_neg Bool.false_ne_true]
    refine congrArg some (List.any_eq_false.2 ?_)
    intro row hrow hid
    exact h ⟨row, hrow, of_decide_eq_true hid⟩

/-- A tick that gets through leaves a row of the run behind. -/
theorem recorded_of_gotThrough (h : GotThrough provider as scenarioId reasonCode) :
    ∃ row ∈ (run (step provider) init as).rows, row.scenarioId = some scenarioId := by
  obtain ⟨pre, ds, ds', now, rest, rfl, hidle, hended⟩ := h
  rw [run_append]
  generalize hs : run (step provider) init pre = s at hidle ⊢
  by_cases hfound : ∃ row ∈ s.rows, row.scenarioId = some scenarioId
  · obtain ⟨row, hrow, hid⟩ := hfound
    exact ⟨row, (rows_run s _).subset hrow, hid⟩
  · have hlast : blockedLast (demoStatus s.demo.lastRun) =
        some ⟨scenarioId, reasonCode, false⟩ := by
      rw [← hs, demo_run init pre]
      exact blockedLast_run_iff.2 ⟨hended, rfl⟩
    have hfetch : step provider s (.fetch .arrives) =
        { s with tick := some ⟨scenarioId, reasonCode, false⟩ } := by
      simp only [step, Demo.respond, hidle, hlast]
    have hselect : ∀ demo,
        step provider ⟨demo, s.rows, some ⟨scenarioId, reasonCode, false⟩⟩ (.select false) =
        ⟨demo, s.rows, some ⟨scenarioId, reasonCode, true⟩⟩ := by
      intro demo
      simp only [step, blockedAttemptExists_of_not_mem hfound]
    rw [run_cons, hfetch, run_append, run_map_demo, run_cons, hselect, run_append,
      run_map_demo, run_cons]
    obtain ⟨row, hrow,
      hid⟩ : ∃ row ∈ insertBlockedAttempt now (attempt scenarioId reasonCode) s.rows,
        row.scenarioId = some scenarioId :=
      ⟨_, List.mem_append_right _ List.mem_cons_self, rfl⟩
    exact ⟨row, (rows_run _ rest).subset hrow, hid⟩

/-- With distinct ids the rows of a run have its reason. -/
theorem Seen.unique {rc : JsString}
    (hdistinct : ((as.filterMap onDemo).filterMap Demo.Action.started).Nodup)
    (h : Seen as scenarioId reasonCode) (h' : Seen as scenarioId rc) : reasonCode = rc := by
  obtain ⟨pre, hpre, result, hended, -, hcode, -⟩ := h
  obtain ⟨pre', hpre', result', hended', -, hcode', -⟩ := h'
  have hleads : ∀ p, p ++ [.fetch .arrives] <+: as → p.filterMap onDemo <+: as.filterMap onDemo :=
    fun p hp => ((List.prefix_append _ _).trans hp).filterMap _
  have hflow :=
    Demo.Ended.unique hdistinct hended.ended (hleads pre hpre) hended'.ended (hleads pre' hpre')
  obtain rfl := Flow.resolves.inj hflow
  exact Option.some.inj (hcode.symm.trans hcode')

theorem GotThrough.seen (h : GotThrough provider as scenarioId reasonCode) :
    Seen as scenarioId reasonCode := by
  obtain ⟨pre, ds, ds', now, rest, rfl, -, hended⟩ := h
  exact ⟨pre, (List.prefix_append_right_inj pre).2 ⟨_, rfl⟩, hended⟩

/-- A row without an owner is in every owner's list, as long as it is one of the newest `limit`. -/
theorem listBlockedByOwner_newest {rows : List BlockedAttemptRow}
    (h : ∀ row ∈ rows, row.owner = none) (owner : Address) (limit : ℕ) :
    ∃ older, (listBlockedByOwner owner limit rows ++ older).Perm rows ∧
      (listBlockedByOwner owner limit rows).length = min limit rows.length ∧
        ∀ row ∈ listBlockedByOwner owner limit rows, ∀ old ∈ older,
          old.createdAt ≤ row.createdAt := by
  have hall : (rows.filter fun row => row.owner = some owner ∨ row.owner = none) = rows :=
    List.filter_eq_self.2 fun row hrow => decide_eq_true (.inr (h row hrow))
  have : Std.Total createdAfter := ⟨fun a b => Nat.le_total b.createdAt a.createdAt⟩
  have : IsTrans BlockedAttemptRow createdAfter := ⟨fun _ _ _ hab hbc => Nat.le_trans hbc hab⟩
  have hsorted := List.pairwise_insertionSort createdAfter rows
  rw [← List.take_append_drop limit (rows.insertionSort createdAfter)] at hsorted
  unfold listBlockedByOwner
  rw [hall]
  refine ⟨(rows.insertionSort createdAfter).drop limit, ?_, ?_, ?_⟩
  · rw [List.take_append_drop]
    exact List.perm_insertionSort _ _
  · rw [List.length_take, List.length_insertionSort]
  · exact (List.pairwise_append.1 hsorted).2.2

/-- The table has a row of a run only if a tick has seen the run end blocked, and has one if such a
tick has got through; it has one row at most of each, and the newest `limit` rows are every owner's
list. -/
theorem blocked_runs_recorded (provider : Provider) (as : List Action)
    (hdistinct : ((as.filterMap onDemo).filterMap Demo.Action.started).Nodup)
    (hids : ∀ a ∈ as.filterMap onDemo, a.started ≠ some []) :
    let rows := (run (step provider) init as).rows
    (∀ row ∈ rows, ∃ id, row.scenarioId = some id ∧ Seen as id row.reasonCode) ∧
      (∀ id rc, GotThrough provider as id rc → ∃ row ∈ rows, row.scenarioId = some id ∧
        row.reasonCode = rc) ∧
      ((.select true ∈ as → provider = .sqlite) → (rows.map BlockedAttemptRow.scenarioId).Nodup) ∧
      ∀ owner limit, ∃ older, (listBlockedByOwner owner limit rows ++ older).Perm rows ∧
        (listBlockedByOwner owner limit rows).length = min limit rows.length ∧
          ∀ row ∈ listBlockedByOwner owner limit rows, ∀ old ∈ older,
            old.createdAt ≤ row.createdAt := by
  intro rows
  have hinv : Inv as (run (step provider) init as) := inv_run as
  refine ⟨fun row hrow => (hinv.rows row hrow).2, ?_,
    fun hselect => (once_run as hids hselect).rows, ?_⟩
  · intro id rc hthrough
    obtain ⟨row, hrow, hid⟩ := recorded_of_gotThrough hthrough
    obtain ⟨-, id', hid', hseen⟩ := hinv.rows row hrow
    obtain rfl := Option.some.inj (hid.symm.trans hid')
    exact ⟨row, hrow, hid, hseen.unique hdistinct hthrough.seen⟩
  · exact listBlockedByOwner_newest fun row hrow => (hinv.rows row hrow).1

end

end IntentGuard.Infra.DemoStatus

namespace IntentGuard.Localnet

open Js Infra Demo

def blockedResult : ScenarioResult where
  scenario := text "blocked"
  outcome := .blocked
  txHash := none
  receiptId := none
  reasonCode := some (text "COUNTERPARTY_NOT_ALLOWED")
  reasonCodeHex := none
  error := none

/-- A blocked run is asked for while it is running, when it has ended, and twice more; a newer run
is started before the tick that sees it has looked for a row, and the process stops in the middle of
the second. -/
def statusPolls (fails : Bool) : List DemoStatus.Action :=
  [.demo (.post .blocked (text "demo-1") 0), .fetch .arrives,
    .demo (.settle (text "demo-1") (.resolves blockedResult)), .fetch .arrives, .select false,
    .insert LateResolution.clock false, .fetch .arrives, .restart, .fetch .arrives,
    .select fails, .insert LateResolution.clock false, .fetch .arrives,
    .demo (.post .legit (text "demo-2") 1),
    .select false]

end IntentGuard.Localnet

namespace IntentGuard.Infra.DemoStatus

open Js Runs Localnet

/-- One row for three ticks that have seen the run. -/
theorem blocked_runs_recorded_statusPolls :
    ((run (step .supabase) init (statusPolls false)).rows.map BlockedAttemptRow.scenarioId).Nodup ∧
      ∃ row ∈ (run (step .supabase) init (statusPolls false)).rows,
        row.scenarioId = some (text "demo-1") ∧
        row.reasonCode = text "COUNTERPARTY_NOT_ALLOWED" := by
  have hended : EndedBlocked [.post .blocked (text "demo-1") 0,
      .settle (text "demo-1") (.resolves blockedResult)]
      (text "demo-1") (text "COUNTERPARTY_NOT_ALLOWED") :=
    ⟨blockedResult, ⟨[], .blocked, 0, [.settle (text "demo-1") (.resolves blockedResult)], rfl,
      List.forall_mem_singleton.2 rfl, rfl⟩, rfl, rfl, by decide⟩
  have hthrough :
      GotThrough .supabase (statusPolls false) (text "demo-1") (text "COUNTERPARTY_NOT_ALLOWED") :=
    ⟨(statusPolls false).take 3, [], [], _, _, rfl, by decide, hended⟩
  obtain ⟨-, hrow, honce, -⟩ :=
    blocked_runs_recorded .supabase (statusPolls false) (by decide) (by decide)
  exact ⟨honce fun h => absurd h (by simp [statusPolls]), hrow _ _ hthrough⟩

/-- A lookup that fails on Supabase lets the run have a second row. -/
theorem failed_lookup_doubles :
    (run (step .supabase) init (statusPolls true)).rows.map BlockedAttemptRow.scenarioId =
      [some (text "demo-1"), some (text "demo-1")] := by
  decide +kernel

end IntentGuard.Infra.DemoStatus
