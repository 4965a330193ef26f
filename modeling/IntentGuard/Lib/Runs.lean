import Mathlib.Data.List.Induction
import Mathlib.Data.Set.Basic

/-!
# Runs of a deterministic step function

A system is a function `step : σ → α → σ`; an action that the system refuses is one that `step` maps
to the same state. `run` folds a list of actions, `Reachable` collects the states of all runs from a
start state, and `visits` is the history of a run: every action with the state it was taken in.

* `Reachable.induction`: an invariant of the start state that every step keeps holds in every
  reachable state.
* `history_induction`: the same for a property of the history and the state together, along the runs
  whose every visit meets a condition. Ghost quantities (totals, counts, last writers) are functions
  of the history, so nothing is added to the state for them. `prefix_induction` is the same rule for
  a condition that looks back at the run.
* `project_run`: when a part of the state moves only with the visits that one party can see, and by
  what it sees of them, that part of a run's last state is a function of the party's view of the
  run. Two runs with one view cannot be told apart by that party.
* `simulate_run`: a run whose every visit is, in another system's terms, a step of that system is a
  run of it.
* `held_run_subset`: what a state holds comes from the actions of its run.
* `forall_mem_trail`: an invariant that every state within every step keeps holds wherever a run
  passes.
* `forall_prefix_iff`: when a step keeps a property exactly under a condition, a run has the
  property all along exactly when its every visit meets the condition.
-/

namespace Runs

variable {σ α : Type*} (step : σ → α → σ)

/-- The state after a list of actions. -/
def run (s : σ) (as : List α) : σ := as.foldl step s

/-- The actions of a run, each with the state it was taken in. -/
def visits : σ → List α → List (σ × α)
  | _, [] => []
  | s, a :: as => (s, a) :: visits (step s a) as

/-- The states of all runs from `s₀`. -/
def Reachable (s₀ s : σ) : Prop := ∃ as, run step s₀ as = s

@[simp] theorem run_nil (s : σ) : run step s [] = s := rfl

@[simp] theorem run_cons (s : σ) (a : α) (as : List α) :
    run step s (a :: as) = run step (step s a) as := rfl

theorem run_append (s : σ) (as bs : List α) :
    run step s (as ++ bs) = run step (run step s as) bs := List.foldl_append

theorem run_concat (s : σ) (as : List α) (a : α) :
    run step s (as ++ [a]) = step (run step s as) a := by
  rw [run_append, run_cons, run_nil]

@[simp] theorem visits_nil (s : σ) : visits step s [] = [] := rfl

@[simp] theorem visits_cons (s : σ) (a : α) (as : List α) :
    visits step s (a :: as) = (s, a) :: visits step (step s a) as := rfl

theorem visits_append (s : σ) (as bs : List α) :
    visits step s (as ++ bs) = visits step s as ++ visits step (run step s as) bs := by
  induction as generalizing s with
  | nil => rfl
  | cons a as ih => simp only [List.cons_append, visits_cons, ih, run_cons]

theorem visits_concat (s : σ) (as : List α) (a : α) :
    visits step s (as ++ [a]) = visits step s as ++ [(run step s as, a)] := by
  rw [visits_append, visits_cons, visits_nil]

variable {step}

theorem Reachable.refl (s : σ) : Reachable step s s := ⟨[], rfl⟩

theorem Reachable.next {s₀ s : σ} (h : Reachable step s₀ s) (a : α) :
    Reachable step s₀ (step s a) := by
  obtain ⟨as, rfl⟩ := h
  exact ⟨as ++ [a], run_concat _ _ _ _⟩

theorem reachable_run (s : σ) (as : List α) : Reachable step s (run step s as) := ⟨as, rfl⟩

/-- The invariant rule. -/
theorem Reachable.induction {I : σ → Prop} {s₀ s : σ} (h : Reachable step s₀ s) (h₀ : I s₀)
    (hstep : ∀ s a, I s → I (step s a)) : I s := by
  obtain ⟨as, rfl⟩ := h
  induction as using List.reverseRecOn with
  | nil => exact h₀
  | append_singleton as a ih =>
    rw [run_concat]
    exact hstep _ _ ih

/-- The history rule: along a run whose every visit meets `C`, a property of the history so far and
the current state is carried from the empty history to the whole one. -/
theorem history_induction {C : σ → α → Prop} {J : List (σ × α) → σ → Prop} {s₀ : σ} (h₀ : J [] s₀)
    (hstep : ∀ h s a, Reachable step s₀ s → J h s → C s a → J (h ++ [(s, a)]) (step s a))
    (as : List α) (hC : ∀ v ∈ visits step s₀ as, C v.1 v.2) :
    J (visits step s₀ as) (run step s₀ as) := by
  induction as using List.reverseRecOn with
  | nil => exact h₀
  | append_singleton as a ih =>
    rw [visits_concat] at hC ⊢
    rw [run_concat]
    apply hstep _ _ _ (reachable_run _ _) (ih fun v hv => hC v (List.mem_append_left _ hv))
    exact hC (run step s₀ as, a) (List.mem_append_right _ (List.mem_singleton_self _))

/-- The history rule with a condition that may look back: on the run so far at every action. -/
theorem prefix_induction {C : List (σ × α) → σ → α → Prop} {J : List (σ × α) → σ → Prop} {s₀ : σ}
    (h₀ : J [] s₀) (hstep : ∀ h s a, J h s → C h s a → J (h ++ [(s, a)]) (step s a)) (as : List α)
    (hC : ∀ pre a, pre ++ [a] <+: as → C (visits step s₀ pre) (run step s₀ pre) a) :
    J (visits step s₀ as) (run step s₀ as) := by
  induction as using List.reverseRecOn with
  | nil => exact h₀
  | append_singleton as a ih =>
    rw [visits_concat, run_concat]
    refine hstep _ _ _ (ih fun pre a' hpre => hC pre a' (hpre.trans (List.prefix_append _ _))) ?_
    exact hC as a List.prefix_rfl

/-- The projection rule. -/
theorem project_run {τ β : Type*} (π : σ → τ) (view : σ × α → Option β) (move : τ → β → τ) (s₀ : σ)
    (hquiet : ∀ s a, view (s, a) = none → π (step s a) = π s)
    (hseen : ∀ s a b, view (s, a) = some b → π (step s a) = move (π s) b) (as : List α) :
    π (run step s₀ as) = ((visits step s₀ as).filterMap view).foldl move (π s₀) := by
  induction as generalizing s₀ with
  | nil => rfl
  | cons a as ih =>
    rw [run_cons, visits_cons, ih]
    cases hv : view (s₀, a) with
    | none => rw [List.filterMap_cons_none hv, hquiet s₀ a hv]
    | some b => rw [List.filterMap_cons_some hv, List.foldl_cons, hseen s₀ a b hv]

/-- The component rule: a part of the state that moves with some of the actions, whatever the rest
of the state is. -/
theorem component_run {τ β : Type*} (π : σ → τ) (view : α → Option β) (move : τ → β → τ)
    (hstep : ∀ s a, π (step s a) = (view a).elim (π s) (move (π s))) (s : σ) (as : List α) :
    π (run step s as) = run move (π s) (as.filterMap view) := by
  induction as generalizing s with
  | nil => rfl
  | cons a as ih =>
    rw [run_cons, ih, hstep]
    cases hview : view a with
    | none => rw [List.filterMap_cons_none hview]; rfl
    | some b => rw [List.filterMap_cons_some hview]; rfl

/-- The prefix rule. -/
theorem forall_prefix_iff {Q : σ → Prop} {C : σ → α → Prop}
    (hstep : ∀ s a, Q s → (Q (step s a) ↔ C s a)) {s : σ} (hs : Q s) (as : List α) :
    (∀ pre, pre <+: as → Q (run step s pre)) ↔ ∀ v ∈ visits step s as, C v.1 v.2 := by
  induction as generalizing s with
  | nil =>
    refine iff_of_true ?_ (by simp)
    intro pre hpre
    obtain rfl := List.prefix_nil.1 hpre
    exact hs
  | cons a as ih =>
    rw [visits_cons, List.forall_mem_cons, ← hstep s a hs]
    constructor
    · intro h
      have hnext := h [a] (List.cons_prefix_cons.2 ⟨rfl, List.nil_prefix⟩)
      refine ⟨hnext, (ih hnext).1 ?_⟩
      intro pre hpre
      exact h (a :: pre) (List.cons_prefix_cons.2 ⟨rfl, hpre⟩)
    · intro h pre hpre
      cases pre with
      | nil => exact hs
      | cons b pre =>
        obtain ⟨rfl, hrest⟩ := List.cons_prefix_cons.1 hpre
        exact (ih h.1).2 h.2 pre hrest

/-- The output rule: a step that adds to an output adds over a run what its visits add. -/
theorem output_run {β : Type*} (out : σ → List β) (added : σ × α → List β)
    (hstep : ∀ s a, out (step s a) = out s ++ added (s, a)) (s : σ) (as : List α) :
    out (run step s as) = out s ++ (visits step s as).flatMap added := by
  induction as generalizing s with
  | nil => rw [run_nil, visits_nil, List.flatMap_nil, List.append_nil]
  | cons a as ih => rw [run_cons, ih, hstep, visits_cons, List.flatMap_cons, List.append_assoc]

/-- The simulation rule: where every visit of a run is a step of another system, the runs and their
visits are the same. -/
theorem simulate_run {τ : Type*} {step' : τ → α → τ} (π : σ → τ) {s : σ} {as : List α}
    (h : ∀ v ∈ visits step s as, π (step v.1 v.2) = step' (π v.1) v.2) :
    visits step' (π s) as = (visits step s as).map (fun v => (π v.1, v.2)) ∧
    run step' (π s) as = π (run step s as) := by
  induction as generalizing s with
  | nil => exact ⟨rfl, rfl⟩
  | cons a as ih =>
    rw [visits_cons, List.forall_mem_cons] at h
    obtain ⟨hvisits, hrun⟩ := ih h.2
    rw [h.1] at hvisits hrun
    exact ⟨congrArg _ hvisits, hrun⟩

/-- The states that a run goes through, where `inner` lists those that one step goes through. -/
def trail (step : σ → α → σ) (inner : σ → α → List σ) : σ → List α → List σ
  | s, [] => [s]
  | s, a :: as => s :: (inner s a ++ trail step inner (step s a) as)

/-- A trail ends where the run does. -/
theorem getLast?_trail (inner : σ → α → List σ) (s : σ) (as : List α) :
    (trail step inner s as).getLast? = some (run step s as) := by
  induction as generalizing s with
  | nil => rfl
  | cons a as ih =>
    rw [trail, List.getLast?_cons, List.getLast?_append, ih]
    rfl

/-- The invariant rule for the states within the steps. -/
theorem forall_mem_trail {inner : σ → α → List σ}
    (hlast : ∀ s a, (inner s a).getLast? = some (step s a)) {I : σ → Prop} {as : List α}
    (hinner : ∀ a ∈ as, ∀ s, I s → ∀ t ∈ inner s a, I t) {s : σ} (hs : I s) :
    ∀ t ∈ trail step inner s as, I t := by
  induction as generalizing s with
  | nil =>
    intro t ht
    rw [List.mem_singleton.1 ht]
    exact hs
  | cons a as ih =>
    rw [List.forall_mem_cons] at hinner
    intro t ht
    rcases List.mem_cons.1 ht with rfl | ht
    · exact hs
    · have hwithin := hinner.1 s hs
      rcases List.mem_append.1 ht with ht | ht
      · exact hwithin t ht
      · exact ih hinner.2 (hwithin _ (List.mem_of_getLast? (hlast s a))) t ht

/-- What a list in the state holds was given by the run's actions, if each step holds only what was
held before it or what its action gives. -/
theorem held_run_subset {β : Type*} {f : σ → List β} {g : α → Option β} {s₀ : σ} (h₀ : f s₀ = [])
    (hstep : ∀ s a, ∀ x ∈ f (step s a), x ∈ f s ∨ g a = some x) (as : List α) :
    f (run step s₀ as) ⊆ as.filterMap g := by
  induction as using List.reverseRecOn with
  | nil =>
    rw [run_nil, h₀]
    exact List.nil_subset _
  | append_singleton as a ih =>
    intro x hx
    rw [run_concat] at hx
    rw [List.filterMap_append, List.mem_append]
    rcases hstep _ a x hx with hold | hnew
    · exact .inl (ih hold)
    · right
      rw [List.filterMap_cons_some hnew]
      exact List.mem_cons_self

/-- Where in a run a visit is. -/
theorem exists_split_of_mem_visits {s : σ} {as : List α} {v : σ × α} (hv : v ∈ visits step s as) :
    ∃ as₁ as₂, as = as₁ ++ v.2 :: as₂ ∧ run step s as₁ = v.1 := by
  induction as generalizing s with
  | nil => simp at hv
  | cons a as ih =>
    rcases List.mem_cons.1 hv with rfl | hv
    · exact ⟨[], as, rfl, rfl⟩
    · obtain ⟨as₁, as₂, rfl, hrun⟩ := ih hv
      exact ⟨a :: as₁, as₂, rfl, hrun⟩

theorem snd_mem_of_mem_visits {s : σ} {as : List α} {v : σ × α} (hv : v ∈ visits step s as) :
    v.2 ∈ as := by
  obtain ⟨as₁, as₂, rfl, -⟩ := exists_split_of_mem_visits hv
  exact List.mem_append_right _ List.mem_cons_self

end Runs
