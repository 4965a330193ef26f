import IntentGuard.Lib.Runs
import Mathlib.Data.List.Flatten

/-!
# Broadcast by topic

A channel has subscribers, each with a topic or without one, and keeps what it has delivered to
whom. A message with a topic goes to the subscribers of the topic and to those without one, a
message without a topic goes to everyone. What the actions of a system do to the channel is given by
`op`, `none` for those that do nothing.

* `received_run`: what a receiver has received is what it hears at each visit of the run.
* `received_filter_iff`: where the actions that subscribe or unsubscribe a receiver are kept,
  leaving the others out changes nothing for it exactly when it hears none of them.
* `received_eq_iff`: two runs that are the same but for actions that are left out, and in one of
  which the receiver hears none of these, are the same for it exactly when it hears none of them in
  the other.
-/

namespace Broadcast

open Runs

variable {ρ τ μ α : Type*}

structure Subscriber (ρ τ : Type*) where
  receiver : ρ
  topic : Option τ

inductive Op (ρ τ μ : Type*)
  | publish (topic : Option τ) (message : μ)
  | subscribe (receiver : ρ) (topic : Option τ) (greeting : μ)
  | unsubscribe (receiver : ρ)

structure Channel (ρ τ μ : Type*) where
  subscribers : List (Subscriber ρ τ)
  delivered : List (ρ × μ)

def Channel.empty : Channel ρ τ μ := ⟨[], []⟩

def Subscriber.Accepts (x : Subscriber ρ τ) (topic : Option τ) : Prop :=
  x.topic = none ∨ topic = none ∨ x.topic = topic

/-- The operation subscribes or unsubscribes the receiver. -/
def Op.Moves (c : ρ) : Op ρ τ μ → Prop
  | .publish .. => False
  | .subscribe receiver .. => receiver = c
  | .unsubscribe receiver => receiver = c

variable [DecidableEq ρ] [DecidableEq τ]

instance (x : Subscriber ρ τ) (topic : Option τ) : Decidable (x.Accepts topic) :=
  inferInstanceAs (Decidable (_ ∨ _))

def Channel.apply (s : Channel ρ τ μ) : Op ρ τ μ → Channel ρ τ μ
  | .publish topic message =>
    { s with
      delivered := s.delivered ++ (s.subscribers.filter fun x => x.Accepts topic).map
        fun x => (x.receiver, message) }
  | .subscribe receiver topic greeting =>
    { subscribers := s.subscribers ++ [⟨receiver, topic⟩]
      delivered := s.delivered ++ [(receiver, greeting)] }
  | .unsubscribe receiver =>
    { s with subscribers := s.subscribers.eraseP fun x => x.receiver = receiver }

variable (op : α → Option (Op ρ τ μ))

def Channel.step (s : Channel ρ τ μ) (a : α) : Channel ρ τ μ := (op a).elim s s.apply

section
variable (c : ρ)

def subscriptions (s : Channel ρ τ μ) : List (Subscriber ρ τ) :=
  s.subscribers.filter fun x => x.receiver = c

def received (s : Channel ρ τ μ) : List μ := (s.delivered.filter fun d => d.1 = c).map Prod.snd

/-- What the receiver hears of an operation. -/
def hears (s : Channel ρ τ μ) : Op ρ τ μ → List μ
  | .publish topic message =>
    ((subscriptions c s).filter fun x => x.Accepts topic).map fun _ => message
  | .subscribe receiver _ greeting => if receiver = c then [greeting] else []
  | .unsubscribe _ => []

/-- What it hears at a visit. -/
def heard (v : Channel ρ τ μ × α) : List μ := (op v.2).elim [] (hears c v.1)

/-! ### One receiver -/

theorem received_apply (s : Channel ρ τ μ) (o : Op ρ τ μ) :
    received c (s.apply o) = received c s ++ hears c s o := by
  unfold received
  cases o with
  | publish topic message =>
    have hcomm : (s.subscribers.filter fun x => x.Accepts topic).filter (fun x => x.receiver = c) =
        (subscriptions c s).filter fun x => x.Accepts topic := by
      unfold subscriptions
      rw [List.filter_filter, List.filter_filter]
      apply List.filter_congr
      intro x _
      exact Bool.and_comm _ _
    show ((s.delivered ++ _).filter _).map Prod.snd = _ ++ ((subscriptions c s).filter _).map _
    rw [List.filter_append, List.map_append, List.filter_map, List.map_map, ← hcomm]
    rfl
  | subscribe receiver topic greeting =>
    show ((s.delivered ++ _).filter _).map Prod.snd = _
    rw [List.filter_append, List.map_append]
    unfold hears
    by_cases h : receiver = c <;> simp [h]
  | unsubscribe receiver => exact (List.append_nil _).symm

theorem received_step (s : Channel ρ τ μ) (a : α) :
    received c (Channel.step op s a) = received c s ++ heard op c (s, a) := by
  unfold Channel.step heard
  cases op a with
  | none => exact (List.append_nil _).symm
  | some o => exact received_apply c s o

theorem received_run (s : Channel ρ τ μ) (as : List α) :
    received c (run (Channel.step op) s as) =
      received c s ++ (visits (Channel.step op) s as).flatMap (heard op c) :=
  output_run (received c) (heard op c) (received_step op c) s as

end

/-! ### Subscriptions -/

section
variable {c : ρ}

omit [DecidableEq τ] in
theorem filter_eraseP_self (l : List (Subscriber ρ τ)) :
    (l.eraseP fun x => x.receiver = c).filter (fun x => x.receiver = c) =
      (l.filter fun x => x.receiver = c).tail := by
  induction l with
  | nil => rfl
  | cons x l ih => by_cases h : x.receiver = c <;> simp [h, ih]

omit [DecidableEq τ] in
theorem filter_eraseP_other {receiver : ρ} (h : receiver ≠ c) (l : List (Subscriber ρ τ)) :
    (l.eraseP fun x => x.receiver = receiver).filter (fun x => x.receiver = c) =
      l.filter fun x => x.receiver = c := by
  induction l with
  | nil => rfl
  | cons x l ih =>
    by_cases hx : x.receiver = receiver
    · have hne : x.receiver ≠ c := hx ▸ h
      simp [hx, h]
    · rw [List.eraseP_cons_of_neg (by simpa using hx), List.filter_cons, List.filter_cons, ih]

/-- What an operation does to a receiver's subscriptions depends on these alone. -/
theorem subscriptions_apply_congr {s s' : Channel ρ τ μ}
    (h : subscriptions c s = subscriptions c s') (o : Op ρ τ μ) :
    subscriptions c (s.apply o) = subscriptions c (s'.apply o) := by
  unfold subscriptions at h ⊢
  cases o with
  | publish topic message => exact h
  | subscribe receiver topic greeting =>
    show (s.subscribers ++ _).filter _ = (s'.subscribers ++ _).filter _
    rw [List.filter_append, List.filter_append, h]
  | unsubscribe receiver =>
    show (s.subscribers.eraseP _).filter _ = (s'.subscribers.eraseP _).filter _
    by_cases hc : receiver = c
    · subst hc
      rw [filter_eraseP_self, filter_eraseP_self, h]
    · rw [filter_eraseP_other hc, filter_eraseP_other hc, h]

theorem subscriptions_apply_of_not_moves (s : Channel ρ τ μ) {o : Op ρ τ μ} (ho : ¬ o.Moves c) :
    subscriptions c (s.apply o) = subscriptions c s := by
  unfold subscriptions
  cases o with
  | publish topic message => rfl
  | subscribe receiver topic greeting =>
    show (s.subscribers ++ _).filter _ = _
    have hne : receiver ≠ c := ho
    rw [List.filter_append]
    simp [hne]
  | unsubscribe receiver => exact filter_eraseP_other ho _

theorem heard_congr {s s' : Channel ρ τ μ} (h : subscriptions c s = subscriptions c s') (a : α) :
    heard op c (s, a) = heard op c (s', a) := by
  unfold heard
  cases op a with
  | none => rfl
  | some o =>
    cases o with
    | publish topic message =>
      show (List.filter _ (subscriptions c s)).map _ = (List.filter _ (subscriptions c s')).map _
      rw [h]
    | subscribe => rfl
    | unsubscribe => rfl

theorem subscriptions_step_congr {s s' : Channel ρ τ μ} (h : subscriptions c s = subscriptions c s')
    (a : α) :
    subscriptions c (Channel.step op s a) = subscriptions c (Channel.step op s' a) := by
  unfold Channel.step
  cases op a with
  | none => exact h
  | some o => exact subscriptions_apply_congr h o

/-- A message is not heard exactly when no subscription accepts its topic. -/
theorem hears_publish_eq_nil {s : Channel ρ τ μ} {topic : Option τ} {message : μ} :
    hears c s (.publish topic message) = [] ↔ ∀ x ∈ s.subscribers, x.receiver = c →
      ¬ x.Accepts topic := by
  unfold hears subscriptions
  rw [List.map_eq_nil_iff, List.filter_eq_nil_iff]
  simp only [List.mem_filter, decide_eq_true_eq, and_imp]

/-! ### Leaving actions out -/

theorem flatMap_filter_eq_iff {β : Type*} (keep : β → Bool) (f : β → List μ) (l : List β) :
    l.flatMap f = (l.filter keep).flatMap f ↔ ∀ x ∈ l, keep x = false → f x = [] := by
  induction l with
  | nil => simp
  | cons x l ih =>
    have hsub : ((l.filter keep).flatMap f).Sublist (l.flatMap f) := List.filter_sublist.flatMap f
    rw [List.forall_mem_cons, ← ih, List.flatMap_cons]
    by_cases hx : keep x = true
    · rw [List.filter_cons_of_pos hx, List.flatMap_cons, List.append_cancel_left_eq, hx]
      simp
    · rw [List.filter_cons_of_neg hx]
      constructor
      · intro h
        have hlength := congrArg List.length h
        rw [List.length_append] at hlength
        have hle := hsub.length_le
        have hnil : f x = [] := List.eq_nil_of_length_eq_zero (by omega)
        rw [hnil, List.nil_append] at h
        exact ⟨fun _ => hnil, h⟩
      · intro h
        rw [h.1 (Bool.not_eq_true _ ▸ hx), List.nil_append]
        exact h.2

variable {op} {keep : α → Bool} (hkeep : ∀ a, keep a = false → ∀ o ∈ op a, ¬ o.Moves c)
include hkeep

theorem subscriptions_step_of_not_kept (s : Channel ρ τ μ) {a : α} (ha : keep a = false) :
    subscriptions c (Channel.step op s a) = subscriptions c s := by
  have hmoves := hkeep a ha
  unfold Channel.step
  cases h : op a with
  | none => rfl
  | some o => exact subscriptions_apply_of_not_moves s (hmoves o h)

/-- Without the other actions the receiver hears what it heard at the kept ones. -/
theorem heard_filter {s s' : Channel ρ τ μ} (h : subscriptions c s = subscriptions c s')
    (as : List α) :
    (visits (Channel.step op) s' (as.filter keep)).flatMap (heard op c) =
      ((visits (Channel.step op) s as).filter fun v => keep v.2).flatMap (heard op c) := by
  induction as generalizing s s' with
  | nil => rfl
  | cons a as ih =>
    cases ha : keep a with
    | true =>
      simp only [List.filter_cons, ha, if_true, visits_cons, List.flatMap_cons]
      rw [heard_congr op h, ih (subscriptions_step_congr op h a)]
    | false =>
      have hsame := subscriptions_step_of_not_kept hkeep s ha
      simp only [List.filter_cons, ha, visits_cons]
      exact ih (hsame.trans h)

theorem received_filter_iff (s : Channel ρ τ μ) (as : List α) :
    received c (run (Channel.step op) s as) =
      received c (run (Channel.step op) s (as.filter keep)) ↔
      ∀ v ∈ visits (Channel.step op) s as, keep v.2 = false → heard op c v = [] := by
  rw [received_run, received_run, List.append_cancel_left_eq, heard_filter hkeep rfl,
    flatMap_filter_eq_iff]

/-- Two runs that are the same up to what is left out of them. -/
theorem received_eq_iff {keep' : α → Bool} (hkeep' : ∀ a, keep' a = false → ∀ o ∈ op a, ¬ o.Moves c)
    {s : Channel ρ τ μ} {as bs : List α} (hagree : as.filter keep = bs.filter keep')
    (hunheard : ∀ v ∈ visits (Channel.step op) s bs, keep' v.2 = false → heard op c v = []) :
    received c (run (Channel.step op) s as) = received c (run (Channel.step op) s bs) ↔
      ∀ v ∈ visits (Channel.step op) s as, keep v.2 = false → heard op c v = [] := by
  rw [(received_filter_iff hkeep' s bs).2 hunheard, ← hagree]
  exact received_filter_iff hkeep s as

end

end Broadcast
