import IntentGuard.Contracts.Records
import IntentGuard.Contracts.Intents
import IntentGuard.Infra.StoreMirror

/-!
# The active intent in the store

`active_intent_mirrored`: after one pass over the logs of a history, the `intents` table has the
owner's committed hashes, and its active row is the registry's active intent. On both sides the last
log that concerns the owner decides: the registry by `active_logged`, the table by the flag of the
row (`IntentMirror`). The two providers write the table alike (`IntentMirror.insert_eq`), although
their conflict targets differ: in a valid history a row of the hash is a row of the place.
-/

namespace IntentGuard

open Function Runs

variable {D : Deployment} {g : Genesis D} {w w' : World D} {sender : Address} {call : Call}

/-! ### The registry, by its logs -/

/-- What an event makes of the owner's active hash. -/
def activeIn (o : Address) : Event → Option Bytes32
  | .IntentCommitted o' intentHash _ => if o' = o then some intentHash else none
  | .IntentRevoked o' _ => if o' = o then some 0 else none
  | _ => none

/-- The active hash is the last one logged. -/
theorem active_logged (hr : Reachable g w) (o : Address) :
    w.registry.activeIntentHash o = (lastLogged (activeIn o) w.logs).getD 0 := by
  apply hr.invariant (I := fun w => w.registry.activeIntentHash o =
    (lastLogged (activeIn o) w.logs).getD 0) rfl
    (fun _ _ hI => hI)
  intro w w' tx _ hI h
  generalize tx.sender = sender at h
  generalize tx.call = call at h
  have hquiet : ∀ {es : List Event}, (∀ e ∈ es, activeIn o e = none) →
      w.registry.activeIntentHash o = (lastLogged (activeIn o) (w.logs ++ es)).getD 0 := by
    intro es hes
    rw [lastLogged_append_of_quiet hes]
    exact hI
  have hwrites : ∀ {value : Bytes32} {e : Event},
      activeIn o e = (if sender = o then some value else none) →
      update w.registry.activeIntentHash sender value o =
        (lastLogged (activeIn o) (w.logs ++ [e])).getD 0 := by
    intro value e he
    have hlast : lastLogged (activeIn o) [e] = activeIn o e := by simp [lastLogged]
    rw [lastLogged_append, hlast, he]
    by_cases ho : sender = o
    · rw [if_pos ho, ← ho, update_self]
      rfl
    · rw [if_neg ho, update_of_ne (Ne.symm ho), hI]
      rfl
  cases h with
  | commitIntent => exact hwrites rfl
  | revokeIntent => exact hwrites rfl
  | registerAgent => exact hquiet (by simp [activeIn])
  | stake => exact hquiet (by simp [activeIn])
  | deposit => exact hquiet (by simp [activeIn])
  | slash => exact hquiet (by simp [activeIn])
  | setAgentDelegate => exact hquiet (by simp [activeIn])
  | executeWithGuard => exact hquiet (by simp [activeIn])
  | setTraceAckSigner => exact hquiet (by simp [activeIn])
  | fileAmountViolation => exact hquiet (by simp [activeIn])
  | dismiss => exact hquiet (by simp [activeIn])
  | uphold => exact hquiet (by simp [activeIn])
  | setReviewerSigner => exact hquiet (by simp [activeIn])
  | _ => exact hI

/-- A hash is logged as committed exactly when it has been committed. -/
theorem logged_commit (g : Genesis D) (as : List (Action D)) (o : Address) (intentHash : Bytes32) :
    (∃ uri, .IntentCommitted o intentHash uri ∈ (run step (init g) as).logs) ↔
      ∃ c ∈ commits (history g as), c.owner = o ∧ c.intentHash = intentHash := by
  refine history_induction (C := fun _ _ => True)
    (J := fun h w => (∃ uri, Event.IntentCommitted o intentHash uri ∈ w.logs) ↔
      ∃ c ∈ commits h, c.owner = o ∧ c.intentHash = intentHash)
    ?_ (fun _ _ _ hJ => hJ) ?_ as fun _ _ => trivial
  · simp [init, commits]
  intro h w w' tx _ hJ _ hx
  have heff := effect_of_exec hx
  obtain ⟨sender, call, hne, hext⟩ := tx
  dsimp only at heff
  have hquiet : ∀ {es : List Event}, (∀ uri, .IntentCommitted o intentHash uri ∉ es) →
      commitOf ((w, ⟨sender, call, hne, hext⟩) : World D × Tx D) = none →
      ((∃ uri, Event.IntentCommitted o intentHash uri ∈ w.logs ++ es) ↔
        ∃ c ∈ commits (h ++ [(w, ⟨sender, call, hne, hext⟩)]), c.owner = o ∧
          c.intentHash = intentHash) := by
    intro es hes hnone
    rw [commits_concat_of_none hnone, ← hJ]
    simp only [List.mem_append, hes, or_false]
  have hnil : w.logs = w.logs ++ [] := (List.append_nil _).symm
  cases heff with
  | @commitIntent intentHash' cfg uri' =>
    rw [commits_concat_of_some (c := ⟨sender, intentHash', cfg, uri'⟩) rfl]
    simp only [List.mem_append, List.mem_singleton, Event.IntentCommitted.injEq, exists_or,
      or_and_right, hJ, exists_eq_left]
    refine or_congr_right ?_
    constructor
    · intro heq
      obtain ⟨uri, rfl, rfl, rfl⟩ := heq
      exact ⟨rfl, rfl⟩
    · intro heq
      obtain ⟨rfl, rfl⟩ := heq
      exact ⟨uri', rfl, rfl, rfl⟩
  | revokeIntent => exact hquiet (by simp) rfl
  | registerAgent => exact hquiet (by simp) rfl
  | stake => exact hquiet (by simp) rfl
  | deposit => exact hquiet (by simp) rfl
  | slash => exact hquiet (by simp) rfl
  | setAgentDelegate => exact hquiet (by simp) rfl
  | executeWithGuard => exact hquiet (by simp) rfl
  | setTraceAckSigner => exact hquiet (by simp) rfl
  | fileAmountViolation => exact hquiet (by simp) rfl
  | dismiss => exact hquiet (by simp) rfl
  | uphold => exact hquiet (by simp) rfl
  | setReviewerSigner => exact hquiet (by simp) rfl
  | _ =>
    rw [hnil]
    exact hquiet (by simp) rfl

end IntentGuard

namespace IntentGuard.Infra

open Function Runs Replay

variable {D : Deployment} {g : Genesis D} {w : World D} {chain X : List MinedLog} {l : MinedLog}
  {ctx : DecodeContext} {provider : Provider}

/-! ### Both providers write the intents alike -/

/-- On a valid history the two conflict targets meet the same rows. -/
theorem IntentMirror.insert_eq (hv : ValidHistory g w chain) (hX : X ⊆ chain) {s : Store}
    (h : IntentMirror ctx chain X s.intents) (hmem : l ∈ chain) {owner : Address}
    {intentHash : Bytes32} {uri : Bytes} (hl : l.event = .IntentCommitted owner intentHash uri)
    (provider : Provider) :
    insertIntentCommitted provider (intentRow ctx l.toProvenance owner intentHash uri) s =
      insertIntentCommitted .sqlite (intentRow ctx l.toProvenance owner intentHash uri) s := by
  cases provider with
  | sqlite => rfl
  | supabase =>
    by_cases hagain : l ∈ X
    · obtain ⟨active, hactive⟩ : ∃ active, flag l (concerns owner) X = some active :=
        Option.ne_none_iff_exists'.1 fun hnone => (flag_eq_none_iff X).1 hnone hagain
      have hself := h.find_deactivate hmem hl owner
      rw [if_pos rfl, hactive] at hself
      rw [(h.commit_again hv hmem hl hagain).1]
      exact if_pos ⟨_, Table.mem_of_find _ hself, rfl⟩
    · rw [(h.commit_first hv hX hmem hl hagain).1]
      refine (if_neg ?_).trans (if_neg ?_)
      · intro hclash
        obtain ⟨r, hr, heq⟩ := hclash
        exact (h.fresh hv hX hmem hl hagain hr).1 heq
      · intro hclash
        obtain ⟨r, hr, hsame⟩ := hclash
        exact (h.fresh hv hX hmem hl hagain hr).2 hsame

/-- The intents after a log that is no commit. -/
def intentsAfter (s : Store) : Event → List IntentRow
  | .IntentRevoked owner _ => deactivate owner s.intents
  | _ => s.intents

theorem handleEvent_intents {p : Provenance} {s : Store} {e : Event} {r : Handled}
    (hno : ∀ o intentHash uri, e ≠ .IntentCommitted o intentHash uri)
    (h : handleEvent ctx p provider s e = .ok r) :
    r.store.intents = intentsAfter s e := by
  cases e with
  | IntentCommitted o intentHash uri => exact absurd rfl (hno _ _ _)
  | ActionReceipt id receipt =>
    obtain ⟨s', hs', hr⟩ := bind_eq_ok.1 h
    obtain rfl := Except.ok.inj hr
    unfold upsertReceipt at hs'
    split_ifs at hs'
    · cases provider with
      | sqlite => exact absurd hs' (by simp [rejected])
      | supabase =>
        obtain rfl := Except.ok.inj hs'
        rfl
    · obtain rfl := Except.ok.inj hs'
      rfl
  | _ =>
    obtain rfl := Except.ok.inj h
    rfl

/-- Step lemma of `handleLogs_intents`. -/
theorem IntentMirror.handleEvent (hv : ValidHistory g w chain) (hX : X ⊆ chain)
    (hl : l ∈ chain) {s : Store} (h : IntentMirror ctx chain X s.intents) {r : Handled}
    (hr : handleEvent ctx l.toProvenance provider s l.event = .ok r) :
    IntentMirror ctx chain (X ++ [l]) r.store.intents := by
  by_cases hcommit : ∃ o intentHash uri, l.event = .IntentCommitted o intentHash uri
  · obtain ⟨o, intentHash, uri, he⟩ := hcommit
    obtain ⟨rows, hinsert, hmirror⟩ := h.commit hv hX hl he
    rw [he] at hr
    obtain ⟨s', hs', hr⟩ := bind_eq_ok.1 hr
    rw [h.insert_eq hv hX hl he, hinsert] at hs'
    obtain rfl := Except.ok.inj hr
    obtain rfl := Except.ok.inj hs'
    exact hmirror
  · have hno : ∀ o intentHash uri, l.event ≠ .IntentCommitted o intentHash uri := by
      intro o intentHash uri he
      exact hcommit ⟨o, intentHash, uri, he⟩
    rw [handleEvent_intents hno hr]
    by_cases hrevoke : ∃ o intentHash, l.event = .IntentRevoked o intentHash
    · obtain ⟨o, intentHash, he⟩ := hrevoke
      rw [he]
      exact h.revoke he
    · have hsame : intentsAfter s l.event = s.intents := by
        unfold intentsAfter
        cases he : l.event with
        | IntentRevoked o intentHash => exact absurd ⟨o, intentHash, he⟩ hrevoke
        | _ => rfl
      rw [hsame]
      apply h.skip
      intro o
      unfold concerns
      cases he : l.event with
      | IntentCommitted o intentHash uri => exact absurd he (hno _ _ _)
      | IntentRevoked o intentHash => exact absurd ⟨o, intentHash, he⟩ hrevoke
      | _ => rfl

variable (ctx provider) in
/-- The intents after any logs of a valid history, under either provider. -/
theorem handleLogs_intents (hv : ValidHistory g w chain) {s : Store}
    (h : IntentMirror ctx chain X s.intents) (hX : X ⊆ chain) {Y : List MinedLog} (hY : Y ⊆ chain)
    {s' : Store} (hs' : handleLogs ctx provider s Y = .ok s') :
    IntentMirror ctx chain (X ++ Y) s'.intents := by
  induction Y generalizing X s with
  | nil =>
    obtain rfl := Except.ok.inj hs'
    rwa [List.append_nil]
  | cons l Y ih =>
    obtain ⟨hl, hY⟩ := List.cons_subset.1 hY
    obtain ⟨r, hr, hrest⟩ := bind_eq_ok.1 hs'
    rw [List.append_cons]
    exact ih (h.handleEvent hv hX hl hr) (List.append_subset.2 ⟨hX, by simpa using hl⟩) hY hrest

/-! ### The active row -/

theorem concerns_eq (o : Address) (l : MinedLog) : concerns o l = (activeIn o l.event).isSome := by
  unfold concerns activeIn
  cases l.event with
  | IntentCommitted o' intentHash uri => by_cases h : o' = o <;> simp [h]
  | IntentRevoked o' intentHash => by_cases h : o' = o <;> simp [h]
  | _ => rfl

theorem findSome?_eq_find?_bind {α β : Type} (f : α → Option β) (xs : List α) :
    xs.findSome? f = (xs.find? fun x => (f x).isSome).bind f := by
  induction xs with
  | nil => rfl
  | cons x xs ih =>
    rw [List.findSome?_cons, List.find?_cons]
    cases h : f x with
    | none => exact ih
    | some b => exact h.symm

/-- The last log that concerns the owner says what the registry has active. -/
theorem active_of_last (hv : ValidHistory g w chain) (o : Address) :
    w.registry.activeIntentHash o =
      ((chain.reverse.find? (concerns o)).bind fun e => activeIn o e.event).getD 0 := by
  have hfilter : lastLogged (activeIn o) (w.logs.filter indexed) =
      lastLogged (activeIn o) w.logs := by
    apply lastLogged_filter
    intro e he
    cases e <;> simp_all [indexed, activeIn]
  rw [active_logged hv.reachable, ← hfilter, ← hv.events, lastLogged, ← List.map_reverse,
    List.findSome?_map, findSome?_eq_find?_bind]
  have hkind : concerns o = fun l => ((activeIn o ∘ MinedLog.event) l).isSome :=
    funext (concerns_eq o)
  rw [hkind]
  rfl

/-- What the table says about an owner whose registry entry is `active`. -/
structure ActiveRow (o : Address) (active : Bytes32) (s : Store) : Prop where
  atMostOne : (s.intents.filter fun row => row.owner = o ∧ row.active = true).length ≤ 1
  found : active ≠ 0 → ∃ row, getActiveIntent o s = some row ∧ row.intentHash = active
  none : active = 0 → getActiveIntent o s = none

theorem activeRow_of_filter {o : Address} {active : Bytes32} {s : Store} {rows : List IntentRow}
    (h : (s.intents.filter fun row => row.owner = o ∧ row.active = true) = rows)
    (hrows : rows = [] ∧ active = 0 ∨ ∃ row, rows = [row] ∧ row.intentHash = active ∧ active ≠ 0) :
    ActiveRow o active s := by
  rcases hrows with ⟨rfl, hzero⟩ | ⟨row, rfl, hrow, hne⟩
  · refine ⟨?_, fun hne => absurd hzero hne, fun _ => ?_⟩
    · rw [h]
      exact Nat.zero_le _
    · unfold getActiveIntent
      rw [h]
      rfl
  · refine ⟨?_, fun _ => ⟨row, ?_, hrow⟩, fun hzero => absurd hzero hne⟩
    · rw [h]
      exact le_rfl
    · unfold getActiveIntent
      rw [h]
      rfl

/-- An active row of the owner is the one of its last commit. -/
theorem IntentMirror.active_iff (hv : ValidHistory g w chain) {rows : List IntentRow}
    (h : IntentMirror ctx chain chain rows) {o : Address} {r : IntentRow} :
    (r ∈ rows ∧ r.owner = o ∧ r.active = true) ↔
      ∃ e intentHash uri, chain.reverse.find? (concerns o) = some e ∧
        e.event = .IntentCommitted o intentHash uri ∧
        r = committedRow ctx e o intentHash uri true := by
  have hup : ∀ {e : MinedLog} {intentHash : Bytes32} {uri : Bytes}, e ∈ chain →
      e.event = .IntentCommitted o intentHash uri →
      (flag e (concerns o) chain = some true ↔ chain.reverse.find? (concerns o) = some e) := by
    intro e intentHash uri he hevent
    have hkind : concerns o e = true := by simp [concerns, hevent]
    rw [flag_eq_true_iff hkind]
    exact and_iff_right (List.count_eq_one_of_mem hv.nodup he)
  constructor
  · intro hr
    obtain ⟨hmem, rfl, hactive⟩ := hr
    obtain ⟨e, he, uri, hevent, -, -⟩ := h.logged r hmem
    have hfind := (Table.find_eq_some_iff h.unique).2 ⟨hmem, rfl⟩
    rw [h.find_eq e he _ _ _ hevent] at hfind
    obtain ⟨active, hflag, hrow⟩ := Option.map_eq_some_iff.1 hfind
    have hflagged : active = true := by
      rw [← hrow] at hactive
      exact hactive
    subst hflagged
    exact ⟨e, r.intentHash, uri, (hup he hevent).1 hflag, hevent, hrow.symm⟩
  · intro hr
    obtain ⟨e, intentHash, uri, hlast, hevent, rfl⟩ := hr
    have he : e ∈ chain := List.mem_reverse.1 (List.mem_of_find?_eq_some hlast)
    have hfind := h.find_eq e he _ _ _ hevent
    rw [(hup he hevent).2 hlast] at hfind
    exact ⟨Table.mem_of_find _ hfind, rfl, rfl⟩

theorem IntentMirror.activeRow (hv : ValidHistory g w chain) {s : Store}
    (h : IntentMirror ctx chain chain s.intents)
    (hzero : ∀ o uri, .IntentCommitted o 0 uri ∉ w.logs) (o : Address) :
    ActiveRow o (w.registry.activeIntentHash o) s := by
  have hrows : ∀ r, r ∈ (s.intents.filter fun row => row.owner = o ∧ row.active = true) ↔
      r ∈ s.intents ∧ r.owner = o ∧ r.active = true := by
    intro r
    rw [List.mem_filter, decide_eq_true_iff]
  have hnodup : (s.intents.filter fun row => row.owner = o ∧ row.active = true).Nodup :=
    (List.Nodup.of_map _ h.unique).filter _
  have hactive := active_of_last hv o
  by_cases hcommit : ∃ e intentHash uri, chain.reverse.find? (concerns o) = some e ∧
      e.event = .IntentCommitted o intentHash uri
  · obtain ⟨e, intentHash, uri, hlast, hevent⟩ := hcommit
    have hall : ∀ r, r ∈ (s.intents.filter fun row => row.owner = o ∧ row.active = true) ↔
        r ∈ [committedRow ctx e o intentHash uri true] := by
      intro r
      rw [hrows, h.active_iff hv, List.mem_singleton]
      constructor
      · intro hr
        obtain ⟨e', intentHash', uri', hlast', hevent', rfl⟩ := hr
        obtain rfl := Option.some.inj (hlast.symm.trans hlast')
        obtain ⟨-, rfl, rfl⟩ := Event.IntentCommitted.inj (hevent.symm.trans hevent')
        rfl
      · intro hr
        exact ⟨e, intentHash, uri, hlast, hevent, hr⟩
    have hperm := (List.perm_ext_iff_of_nodup hnodup (List.nodup_singleton _)).2 hall
    refine activeRow_of_filter (List.perm_singleton.1 hperm) (.inr ⟨_, rfl, ?_, ?_⟩)
    · rw [hactive, hlast]
      simp [hevent, activeIn, committedRow, intentRow]
    · rw [hactive, hlast]
      have hmem := hv.event_mem (List.mem_reverse.1 (List.mem_of_find?_eq_some hlast))
      simp only [hevent, activeIn, Option.bind_some, if_true, Option.getD_some]
      intro heq
      subst heq
      exact hzero o uri (hevent ▸ hmem)
  · refine activeRow_of_filter ?_ (.inl ⟨rfl, ?_⟩)
    · rw [List.eq_nil_iff_forall_not_mem]
      intro r hr
      obtain ⟨e, intentHash, uri, hlast, hevent, -⟩ := (h.active_iff hv).1 ((hrows r).1 hr)
      exact hcommit ⟨e, intentHash, uri, hlast, hevent⟩
    · rw [hactive]
      cases hlast : chain.reverse.find? (concerns o) with
      | none => rfl
      | some e =>
        have hkind := List.find?_some hlast
        cases hevent : e.event with
        | IntentCommitted o' intentHash uri =>
          have ho : o' = o := by simpa [concerns, hevent] using hkind
          subst ho
          exact absurd ⟨e, intentHash, uri, hlast, hevent⟩ hcommit
        | IntentRevoked o' intentHash =>
          have ho : o' = o := by simpa [concerns, hevent] using hkind
          simp [activeIn, hevent, ho]
        | _ => simp [concerns, hevent] at hkind

/-- After one pass over the logs of a run, under either provider: an owner has at most one active
row, it is read as the registry's active intent, and the owner's rows are the hashes that it has
committed. -/
theorem active_intent_mirrored (ctx : DecodeContext) (provider : Provider) (g : Genesis D)
    (as : List (Action D)) (chain : List MinedLog)
    (hv : ValidHistory g (run step (init g) as) chain)
    (hzero : ∀ c ∈ commits (history g as), c.intentHash ≠ 0) :
    ∃ s, handleLogs ctx provider .empty chain = .ok s ∧
      Table.UniqueKeys IntentRow.intentHash s.intents ∧ ∀ o,
      ActiveRow o ((run step (init g) as).registry.activeIntentHash o) s ∧
      ∀ intentHash, (∃ row ∈ s.intents, row.owner = o ∧ row.intentHash = intentHash) ↔
        ∃ c ∈ commits (history g as), c.owner = o ∧ c.intentHash = intentHash := by
  have hempty : Mirrors ctx provider chain [] .empty := .nil
  obtain ⟨s, hs, -⟩ := handleLogs_mirrors ctx hv hempty (List.nil_subset _)
    (List.Subset.refl chain)
  have h := handleLogs_intents ctx provider hv .nil (List.nil_subset _) (List.Subset.refl chain) hs
  rw [List.nil_append] at h
  refine ⟨s, hs, h.unique, fun o => ⟨?_, fun intentHash => ?_⟩⟩
  · apply h.activeRow hv
    intro o uri hlog
    obtain ⟨c, hc, -, hhash⟩ := (logged_commit g as o 0).1 ⟨uri, hlog⟩
    exact hzero c hc hhash
  · rw [← logged_commit]
    constructor
    · intro hrow
      obtain ⟨row, hrow, rfl, rfl⟩ := hrow
      obtain ⟨e, he, uri, hevent, -, -⟩ := h.logged row hrow
      exact ⟨uri, hevent ▸ hv.event_mem he⟩
    · intro hlog
      obtain ⟨uri, hlog⟩ := hlog
      have hindexed : Event.IntentCommitted o intentHash uri ∈ chain.map MinedLog.event := by
        rw [hv.events]
        exact List.mem_filter.2 ⟨hlog, rfl⟩
      obtain ⟨e, he, hevent⟩ := List.mem_map.1 hindexed
      obtain ⟨active, hflag⟩ : ∃ active, flag e (concerns o) chain = some active :=
        Option.ne_none_iff_exists'.1 fun hnone => (flag_eq_none_iff chain).1 hnone he
      have hfind := h.find_eq e he o intentHash uri hevent
      rw [hflag] at hfind
      exact ⟨_, Table.mem_of_find _ hfind, rfl, rfl⟩

open Localnet in
/-- Alice's commit is the active row. -/
theorem active_intent_mirrored_setUp :
    ∃ s row, handleLogs ⟨fun _ => 0, fun _ => []⟩ .supabase .empty
        (oneLogPerBlock 1 ((run step (init genesis) (setUp 100000000)).logs.filter indexed)) =
          .ok s ∧
      getActiveIntent alice s = some row ∧ row.intentHash = 77 := by
  obtain ⟨s, hs, -, h⟩ :=
    active_intent_mirrored ⟨fun _ => 0, fun _ => []⟩ .supabase genesis (setUp 100000000)
    (oneLogPerBlock 1 ((run step (init genesis) (setUp 100000000)).logs.filter indexed))
    (oneLogPerBlock_valid (reachable_run _ _)) (by decide +kernel)
  have hactive : (run step (init genesis) (setUp 100000000)).registry.activeIntentHash alice =
      77 := by
    decide +kernel
  obtain ⟨row, hrow, hhash⟩ := (h alice).1.found (by rw [hactive]; decide)
  exact ⟨s, row, hs, hrow, hhash.trans hactive⟩

end IntentGuard.Infra
