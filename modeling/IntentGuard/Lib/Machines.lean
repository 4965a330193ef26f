import Mathlib.Data.List.Basic

/-!
# Machines that read a letter at a time

The step of a machine is a function `σ → α → σ × List β`: it reads a letter in a state, and may
write any number of letters. `feed` is the machine on a word, and again such a step, with words for
letters: `feed_feed` says that it does not matter how a word is cut. `pipe` lets one machine read
what another writes.
-/

namespace Machines

variable {σ τ α β γ : Type*}

/-- The state in which the machine leaves a word, and what it has written. -/
def feed (f : σ → α → σ × List β) : σ → List α → σ × List β
  | s, [] => (s, [])
  | s, a :: as =>
    let r := f s a
    let rest := feed f r.1 as
    (rest.1, r.2 ++ rest.2)

variable (f : σ → α → σ × List β) (g : τ → β → τ × List γ)

@[simp] theorem feed_nil (s : σ) : feed f s [] = (s, []) := rfl

theorem feed_cons (s : σ) (a : α) (as : List α) :
    feed f s (a :: as) = ((feed f (f s a).1 as).1, (f s a).2 ++ (feed f (f s a).1 as).2) := rfl

theorem feed_append (s : σ) (as bs : List α) :
    feed f s (as ++ bs) =
      ((feed f (feed f s as).1 bs).1, (feed f s as).2 ++ (feed f (feed f s as).1 bs).2) := by
  induction as generalizing s with
  | nil => rfl
  | cons a as ih => simp only [List.cons_append, feed_cons, ih, List.append_assoc]

/-- A word may come in pieces. -/
theorem feed_feed (s : σ) (words : List (List α)) :
    feed (feed f) s words = feed f s words.flatten := by
  induction words generalizing s with
  | nil => rfl
  | cons word words ih => rw [feed_cons, ih, List.flatten_cons, feed_append]

variable {f}

/-- More letters never take back what has been written. -/
theorem isPrefix_feed {s : σ} {as bs : List α} (h : as <+: bs) :
    (feed f s as).2 <+: (feed f s bs).2 := by
  obtain ⟨rest, rfl⟩ := h
  rw [feed_append]
  exact List.prefix_append _ _

/-- Two words after another, the first of which leaves the state. -/
theorem feed_append_of_eq {s s' : σ} {as bs : List α} {out : List β} (h : feed f s as = (s', out)) :
    feed f s (as ++ bs) = ((feed f s' bs).1, out ++ (feed f s' bs).2) := by
  rw [feed_append, h]

/-- A machine that reads back the code of every letter reads back the code of a word. -/
theorem feed_flatMap {encode : β → List α} {s : σ} {bs : List β}
    (h : ∀ b ∈ bs, feed f s (encode b) = (s, [b])) :
    feed f s (bs.flatMap encode) = (s, bs) := by
  induction bs with
  | nil => rfl
  | cons b bs ih =>
    rw [List.forall_mem_cons] at h
    rw [List.flatMap_cons, feed_append_of_eq h.1, ih h.2]
    rfl

variable (f)

/-- `g` reads what `f` writes. -/
def pipe (s : σ × τ) (a : α) : (σ × τ) × List γ :=
  let r := f s.1 a
  let q := feed g s.2 r.2
  ((r.1, q.1), q.2)

theorem feed_pipe (s : σ × τ) (as : List α) :
    feed (pipe f g) s as =
      (((feed f s.1 as).1, (feed g s.2 (feed f s.1 as).2).1),
        (feed g s.2 (feed f s.1 as).2).2) := by
  induction as generalizing s with
  | nil => rfl
  | cons a as ih => simp only [feed_cons, ih, pipe, feed_append]

end Machines
