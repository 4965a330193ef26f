import Mathlib.Data.List.Induction
import Mathlib.Data.List.Basic

/-!
# Handling a list in batches that are retried

A consumer works through the list `L`, batch by batch, and a batch that fails after some of its
elements is begun again from its first element. `Replays L H` says that `H` is what the consumer has
handled in the end: any number of failed attempts, each a prefix of what is left, between the
batches.

* `Replays.sublist`, `Replays.subset`: `H` has all of `L`, in order, and nothing else.
* `Replays.findSome?_eq`, `Replays.reverse_findSome?_eq`: the first and the last element of a kind
  are the same in `H` and in `L`.
* `row_of_last_creation`, `row_of_last_update`: what creations write is in a row as the last of them
  wrote it, and a row touched last by an update shows that update. `row_induction` is what every
  write keeps.
* `row_replay`: a row that elements create, merge into and update is the same after `H` and after
  `L`, if its laws say that only the first creation, the last merge and the last update are left in
  it, and if it is `Settled`.
* `flag_replay_iff`: a flag that one element sets and that every later element of its kind clears,
  that element included, is the same exactly when it should be down or its element has come only
  once.
-/

namespace Replay

variable {α β γ υ ρ : Type*}

inductive Replays : List α → List α → Prop
  | done : Replays [] []
  | stopped {L H : List α} (p : List α) (hp : p <+: L) (h : Replays L H) : Replays L (p ++ H)
  | completed {L H : List α} (b : List α) (h : Replays L H) : Replays (b ++ L) (b ++ H)

namespace Replays
variable {L H : List α}

theorem refl (L : List α) : Replays L L := by
  have h := completed L (done (α := α))
  rwa [List.append_nil] at h

theorem sublist (h : Replays L H) : L.Sublist H := by
  induction h with
  | done => exact List.Sublist.slnil
  | stopped p _ _ ih => exact ih.trans (List.sublist_append_right p _)
  | completed b _ ih => exact ih.append_left b

theorem subset (h : Replays L H) : H ⊆ L := by
  induction h with
  | done => exact List.Subset.refl _
  | stopped p hp _ ih => exact List.append_subset.2 ⟨hp.subset, ih⟩
  | completed b _ ih =>
    refine List.append_subset.2 ⟨List.subset_append_left _ _, ?_⟩
    exact fun x hx => List.subset_append_right _ _ (ih hx)

theorem findSome?_eq (h : Replays L H) (f : α → Option β) : H.findSome? f = L.findSome? f := by
  induction h with
  | done => rfl
  | @stopped L H p hp _ ih =>
    obtain ⟨rest, rfl⟩ := hp
    rw [List.findSome?_append, ih, List.findSome?_append]
    cases p.findSome? f <;> rfl
  | completed b _ ih => rw [List.findSome?_append, ih, List.findSome?_append]

theorem reverse_findSome?_eq (h : Replays L H) (f : α → Option β) :
    H.reverse.findSome? f = L.reverse.findSome? f := by
  induction h with
  | done => rfl
  | @stopped L H p hp _ ih =>
    rw [List.reverse_append, List.findSome?_append, ih]
    cases hL : L.reverse.findSome? f with
    | some b => rfl
    | none =>
      -- nothing of the kind is left, so the failed attempt handled nothing of the kind
      rw [Option.none_or, List.findSome?_eq_none_iff]
      intro x hx
      rw [List.findSome?_eq_none_iff] at hL
      exact hL x (List.mem_reverse.2 (hp.subset (List.mem_reverse.1 hx)))
  | completed b _ ih =>
    rw [List.reverse_append, List.findSome?_append, ih, List.reverse_append, List.findSome?_append]

end Replays

/-! ### Rows -/

/-- What an element does to one row. -/
inductive Write (γ υ : Type*)
  | create (c : γ)
  | update (u : υ)

section
variable (new : γ → ρ) (merge : γ → ρ → ρ) (set : υ → ρ → ρ) (touch : α → Option (Write γ υ))

/-- What a sequence of writes leaves in a row. -/
structure RowLaws : Prop where
  merge_new : ∀ c, merge c (new c) = new c
  merge_merge : ∀ c c' r, merge c' (merge c r) = merge c' r
  merge_set : ∀ c u r, merge c (set u r) = set u (merge c r)
  set_set : ∀ u u' r, set u' (set u r) = set u' r

def creation (a : α) : Option γ :=
  match touch a with
  | some (.create c) => some c
  | _ => none

def updating (a : α) : Option υ :=
  match touch a with
  | some (.update u) => some u
  | _ => none

/-- A row, or its absence, after an element. -/
def rowStep (row? : Option ρ) (a : α) : Option ρ :=
  match touch a with
  | some (.create c) => some (row?.elim (new c) (merge c))
  | some (.update u) => row?.map (set u)
  | none => row?

/-- The row after a list of elements. -/
def row (X : List α) : Option ρ := X.foldl (rowStep new merge set touch) none

/-- A row from its first creation, a later one and a later update. -/
def finish (c₀ : γ) (c? : Option γ) (u? : Option υ) : ρ :=
  let r := c?.elim (new c₀) fun c => merge c (new c₀)
  u?.elim r fun u => set u r

/-- Unless nothing creates the row or nothing updates it, an update follows a creation. -/
def Settled (X : List α) : Prop :=
  X.findSome? (creation touch) ≠ none → X.findSome? (updating touch) ≠ none →
    ∃ a b, [a, b].Sublist X ∧ creation touch a ≠ none ∧ updating touch b ≠ none

end

section
variable {new : γ → ρ} {merge : γ → ρ → ρ} {set : υ → ρ → ρ} {touch : α → Option (Write γ υ)}

@[simp] theorem row_concat (X : List α) (a : α) :
    row new merge set touch (X ++ [a]) =
      rowStep new merge set touch (row new merge set touch X) a :=
  List.foldl_concat ..

theorem row_concat_of_none {a : α} (h : touch a = none) (X : List α) :
    row new merge set touch (X ++ [a]) = row new merge set touch X := by
  rw [row_concat, rowStep, h]

theorem creation_eq_some {a : α} {c : γ} :
    creation touch a = some c ↔ touch a = some (.create c) := by
  unfold creation
  cases touch a with
  | none => simp
  | some w => cases w <;> simp

theorem updating_eq_some {a : α} {u : υ} :
    updating touch a = some u ↔ touch a = some (.update u) := by
  unfold updating
  cases touch a with
  | none => simp
  | some w => cases w <;> simp

/-- What every creation writes and no update changes is in a row as the last creation wrote it. -/
theorem row_of_last_creation {P : γ → ρ → Prop} (hnew : ∀ c, P c (new c))
    (hmerge : ∀ c r, P c (merge c r)) (hset : ∀ c u r, P c r → P c (set u r)) (X : List α) :
    Option.Rel P (X.reverse.findSome? (creation touch)) (row new merge set touch X) := by
  induction X using List.reverseRecOn with
  | nil => exact .none
  | append_singleton X a ih =>
    rw [row_concat, rowStep, List.reverse_append]
    show Option.Rel P ((a :: X.reverse).findSome? (creation touch)) _
    rw [List.findSome?_cons, creation]
    cases touch a with
    | none => exact ih
    | some w =>
      cases w with
      | create c =>
        apply Option.Rel.some
        cases row new merge set touch X with
        | none => exact hnew c
        | some r => exact hmerge c r
      | update u =>
        revert ih
        cases X.reverse.findSome? (creation touch) <;> cases row new merge set touch X <;>
          intro ih <;> cases ih
        · exact .none
        · exact .some (hset _ u _ ‹_›)

/-- The columns that only creations write are those of the last creation. -/
theorem row_map (π : ρ → β) (π' : γ → β) (hnew : ∀ c, π (new c) = π' c)
    (hmerge : ∀ c r, π (merge c r) = π' c) (hset : ∀ u r, π (set u r) = π r) (X : List α) :
    (row new merge set touch X).map π = (X.reverse.findSome? (creation touch)).map π' := by
  have hrel : Option.Rel (fun c r => π r = π' c) (X.reverse.findSome? (creation touch))
      (row new merge set touch X) :=
    row_of_last_creation (P := fun c r => π r = π' c) hnew hmerge
      (fun _ u r h => (hset u r).trans h) X
  revert hrel
  cases X.reverse.findSome? (creation touch) <;> cases row new merge set touch X <;>
    intro hrel <;> cases hrel
  · rfl
  · exact congrArg some ‹_›

/-- A row comes from an element that created it or was merged into it. -/
theorem exists_creation_of_row {P : γ → ρ → Prop} (hnew : ∀ c, P c (new c))
    (hmerge : ∀ c r, P c (merge c r)) (hset : ∀ c u r, P c r → P c (set u r)) {X : List α} {r : ρ}
    (h : row new merge set touch X = some r) :
    ∃ a ∈ X, ∃ c, touch a = some (.create c) ∧ P c r := by
  have hrel : Option.Rel P (X.reverse.findSome? (creation touch)) (row new merge set touch X) :=
    row_of_last_creation hnew hmerge hset X
  rw [h] at hrel
  cases hlast : X.reverse.findSome? (creation touch) with
  | none =>
    rw [hlast] at hrel
    cases hrel
  | some c =>
    rw [hlast] at hrel
    cases hrel with
    | some hP =>
      obtain ⟨a, ha, hc⟩ := List.exists_of_findSome?_eq_some hlast
      exact ⟨a, List.mem_reverse.1 ha, c, creation_eq_some.1 hc, hP⟩

/-- What holds of every row created and is kept by every write holds of the row. -/
theorem row_induction {P : ρ → Prop} {X : List α}
    (hcreate : ∀ a ∈ X, ∀ c, touch a = some (.create c) → P (new c) ∧ ∀ r, P r → P (merge c r))
    (hupdate : ∀ a ∈ X, ∀ u, touch a = some (.update u) → ∀ r, P r → P (set u r)) {r : ρ}
    (h : row new merge set touch X = some r) : P r := by
  induction X using List.reverseRecOn generalizing r with
  | nil => exact absurd h (by simp [row])
  | append_singleton X a ih =>
    replace ih : ∀ r, row new merge set touch X = some r → P r := fun r hr =>
      ih (fun b hb => hcreate b (List.mem_append_left _ hb))
        (fun b hb => hupdate b (List.mem_append_left _ hb)) hr
    rw [row_concat, rowStep] at h
    cases ht : touch a with
    | none =>
      rw [ht] at h
      exact ih r h
    | some w =>
      rw [ht] at h
      cases w with
      | create c =>
        obtain ⟨hnew, hmerge⟩ := hcreate a (by simp) c ht
        obtain rfl := Option.some.inj h
        cases hrow : row new merge set touch X with
        | none => exact hnew
        | some r => exact hmerge r (ih r hrow)
      | update u =>
        obtain ⟨r', hr', rfl⟩ := Option.map_eq_some_iff.1 h
        exact hupdate a (by simp) u ht r' (ih r' hr')

/-- A row that was touched last by an update shows it. -/
theorem row_of_last_update {X : List α} {u : υ}
    (hlast : X.reverse.findSome? touch = some (.update u)) {r : ρ}
    (h : row new merge set touch X = some r) : ∃ r', r = set u r' := by
  induction X using List.reverseRecOn generalizing r with
  | nil => exact absurd h (by simp [row])
  | append_singleton X a ih =>
    rw [List.reverse_append] at hlast
    replace hlast : (a :: X.reverse).findSome? touch = some (.update u) := hlast
    rw [List.findSome?_cons] at hlast
    rw [row_concat, rowStep] at h
    cases ht : touch a with
    | none =>
      rw [ht] at h hlast
      exact ih hlast h
    | some w =>
      rw [ht] at h hlast
      obtain rfl := Option.some.inj hlast
      obtain ⟨r', -, rfl⟩ := Option.map_eq_some_iff.1 h
      exact ⟨r', rfl⟩

theorem updating_eq_none {a : α} {c : γ} (h : creation touch a = some c) :
    updating touch a = none := by
  unfold updating
  rw [creation_eq_some.1 h]

theorem foldl_of_not_created {T : List α} (h : ∀ a ∈ T, creation touch a = none) :
    T.foldl (rowStep new merge set touch) none = none := by
  induction T with
  | nil => rfl
  | cons a T ih =>
    have ha := h a List.mem_cons_self
    have hstep : rowStep new merge set touch none a = none := by
      unfold creation at ha
      unfold rowStep
      cases ht : touch a with
      | none => rfl
      | some w => cases w <;> simp_all
    rw [List.foldl_cons, hstep]
    exact ih fun x hx => h x (List.mem_cons_of_mem _ hx)

theorem merge_finish (laws : RowLaws new merge set) (c₀ c : γ) (c? : Option γ) (u? : Option υ) :
    merge c (finish new merge set c₀ c? u?) = finish new merge set c₀ (some c) u? := by
  unfold finish
  cases u? <;> cases c? <;>
    simp only [Option.elim_none, Option.elim_some, laws.merge_set, laws.merge_merge]

theorem set_finish (laws : RowLaws new merge set) (c₀ : γ) (u : υ) (c? : Option γ) (u? : Option υ) :
    set u (finish new merge set c₀ c? u?) = finish new merge set c₀ c? (some u) := by
  unfold finish
  cases u? <;> simp only [Option.elim_none, Option.elim_some, laws.set_set]

/-- After its creation, a row keeps the last creation merged in and the last update. -/
theorem foldl_of_created (laws : RowLaws new merge set) (c₀ : γ) (X : List α) :
    X.foldl (rowStep new merge set touch) (some (new c₀)) =
      some (finish new merge set c₀ (X.reverse.findSome? (creation touch))
        (X.reverse.findSome? (updating touch))) := by
  induction X using List.reverseRecOn with
  | nil => rfl
  | append_singleton X a ih =>
    rw [List.foldl_concat, ih, List.reverse_append]
    show _ = some (finish new merge set c₀ ((a :: X.reverse).findSome? (creation touch))
      ((a :: X.reverse).findSome? (updating touch)))
    rw [List.findSome?_cons, List.findSome?_cons]
    unfold rowStep
    cases ht : touch a with
    | none =>
      have hc : creation touch a = none := by rw [creation, ht]
      have hu : updating touch a = none := by rw [updating, ht]
      rw [hc, hu]
    | some w =>
      cases w with
      | create c =>
        have hc : creation touch a = some c := by rw [creation, ht]
        rw [hc, updating_eq_none hc]
        exact congrArg some (merge_finish laws c₀ c _ _)
      | update u =>
        have hc : creation touch a = none := by rw [creation, ht]
        have hu : updating touch a = some u := by rw [updating, ht]
        rw [hc, hu]
        exact congrArg some (set_finish laws c₀ u _ _)

/-- A settled row, from the first and the last of what creates it and the last of what updates
it. -/
theorem row_eq (laws : RowLaws new merge set) {X : List α} (hX : Settled touch X) :
    row new merge set touch X =
      (X.findSome? (creation touch)).map fun c₀ =>
        finish new merge set c₀ (X.reverse.findSome? (creation touch))
          (X.reverse.findSome? (updating touch)) := by
  cases hfirst : X.findSome? (creation touch) with
  | none => exact foldl_of_not_created (List.findSome?_eq_none_iff.1 hfirst)
  | some c₀ =>
    have hfirst' := hfirst
    obtain ⟨T, a, D, rfl, ha, hT⟩ := List.findSome?_eq_some_iff.1 hfirst'
    have hTlast : T.reverse.findSome? (creation touch) = none := by
      rw [List.findSome?_eq_none_iff]
      exact fun x hx => hT x (List.mem_reverse.1 hx)
    have htouch : touch a = some (.create c₀) := creation_eq_some.1 ha
    have hstep : rowStep new merge set touch none a = some (new c₀) := by
      unfold rowStep
      rw [htouch]
      rfl
    have hsplit : (T ++ a :: D).reverse = D.reverse ++ a :: T.reverse := by simp
    unfold row
    rw [List.foldl_append, foldl_of_not_created hT, List.foldl_cons, hstep,
      foldl_of_created laws, hsplit, List.findSome?_append, List.findSome?_append,
      List.findSome?_cons, List.findSome?_cons, ha,
      updating_eq_none ha, hTlast]
    dsimp only
    -- an update before the first creation is followed by one after it
    have hupdate : D.reverse.findSome? (updating touch) = none →
        T.reverse.findSome? (updating touch) = none := by
      intro hD
      by_contra hTu
      have hU : (T ++ a :: D).findSome? (updating touch) ≠ none := by
        intro hnone
        rw [List.findSome?_eq_none_iff] at hnone hTu
        exact hTu fun x hx => hnone x (List.mem_append_left _ (List.mem_reverse.1 hx))
      obtain ⟨x, y, hxy, hx, hy⟩ := hX (by rw [hfirst]; simp) hU
      rw [List.findSome?_eq_none_iff] at hD
      obtain ⟨l₁, l₂, hl, h₁, h₂⟩ := List.sublist_append_iff.1 hxy
      cases l₁ with
      | nil =>
        obtain rfl : [x, y] = l₂ := hl
        rcases List.sublist_cons_iff.1 h₂ with h | ⟨r, hr, hrD⟩
        · exact hy (hD y (List.mem_reverse.2 (h.subset (by simp))))
        · obtain ⟨-, rfl⟩ := List.cons.inj hr
          exact hy (hD y (List.mem_reverse.2 (hrD.subset (by simp))))
      | cons z l₁ =>
        obtain ⟨rfl, -⟩ := List.cons.inj hl
        exact hx (hT x (h₁.subset List.mem_cons_self))
    congr 1
    cases hDu : D.reverse.findSome? (updating touch) with
    | none =>
      rw [hupdate hDu]
      cases D.reverse.findSome? (creation touch) <;> simp [finish, laws.merge_new]
    | some u => cases D.reverse.findSome? (creation touch) <;> simp [finish, laws.merge_new]

/-- Retries do not change a settled row. -/
theorem row_replay (laws : RowLaws new merge set) {L H : List α} (h : Replays L H)
    (hL : Settled touch L) :
    row new merge set touch H = row new merge set touch L := by
  have hH : Settled touch H := by
    intro hc hu
    rw [h.findSome?_eq] at hc hu
    obtain ⟨a, b, hab, ha, hb⟩ := hL hc hu
    exact ⟨a, b, hab.trans h.sublist, ha, hb⟩
  rw [row_eq laws hH, row_eq laws hL, h.findSome?_eq, h.reverse_findSome?_eq,
    h.reverse_findSome?_eq]

end

/-! ### Flags -/

section
variable [DecidableEq α] (e : α) (kind : α → Bool)

/-- A flag that `e` sets when it comes for the first time, and that `e` and every other element of
the kind clear from then on. -/
def flagStep (flag? : Option Bool) (a : α) : Option Bool :=
  if a = e then some flag?.isNone
  else if kind a then flag?.map fun _ => false
  else flag?

def flag (X : List α) : Option Bool := X.foldl (flagStep e kind) none

@[simp] theorem flag_concat (X : List α) (a : α) :
    flag e kind (X ++ [a]) = flagStep e kind (flag e kind X) a := List.foldl_concat ..

variable {e kind}

theorem flag_concat_of_ne {a : α} (ha : a ≠ e) (X : List α) :
    flag e kind (X ++ [a]) = if kind a then (flag e kind X).map fun _ =>
      false else flag e kind X := by
  rw [flag_concat, flagStep, if_neg ha]

theorem flag_eq_none_iff (X : List α) : flag e kind X = none ↔ e ∉ X := by
  induction X using List.reverseRecOn with
  | nil => simp [flag]
  | append_singleton X a ih =>
    rw [flag_concat, flagStep, List.mem_append, List.mem_singleton, not_or]
    by_cases ha : a = e
    · simp [ha]
    · rw [if_neg ha]
      split_ifs <;> simp [ih, Ne.symm ha]

/-- The flag is up when its element has come once, and no other of the kind after it. -/
theorem flag_eq_true_iff (hkind : kind e = true) (X : List α) :
    flag e kind X = some true ↔ X.count e = 1 ∧ X.reverse.find? kind = some e := by
  induction X using List.reverseRecOn with
  | nil => simp [flag]
  | append_singleton X a ih =>
    rw [flag_concat, flagStep, List.reverse_append, List.count_append]
    show _ ↔ _ ∧ (a :: X.reverse).find? kind = some e
    rw [List.find?_cons, List.count_singleton]
    by_cases ha : a = e
    · subst ha
      have hnone : (flag a kind X).isNone = true ↔ X.count a = 0 := by
        rw [Option.isNone_iff_eq_none, flag_eq_none_iff, List.count_eq_zero]
      simp [hkind, hnone]
    · have hbeq : (a == e) = false := beq_false_of_ne ha
      rw [if_neg ha, hbeq]
      by_cases hk : kind a = true
      · cases hflag : flag e kind X <;> simp [hk, ha]
      · simp [hk, ih]

/-- Retries keep a flag, unless it should stay up and its element has come again. -/
theorem flag_replay_iff (hkind : kind e = true) {L H : List α} (h : Replays L H)
    (hone : L.count e = 1) :
    flag e kind H = flag e kind L ↔ (L.reverse.find? kind = some e → H.count e = 1) := by
  have hlast : H.reverse.find? kind = L.reverse.find? kind := by
    rw [List.find?_eq_findSome?_guard, List.find?_eq_findSome?_guard, h.reverse_findSome?_eq]
  have hL : e ∈ L := List.count_pos_iff.1 (by omega)
  have hH : e ∈ H := h.sublist.subset hL
  have hsome : ∀ {X : List α}, e ∈ X → flag e kind X = some true ∨ flag e kind X = some false := by
    intro X hX
    cases hflag : flag e kind X with
    | none => exact absurd hX ((flag_eq_none_iff X).1 hflag)
    | some b => cases b <;> simp
  have hup : ∀ X : List α, flag e kind X = some true ↔
      X.count e = 1 ∧ X.reverse.find? kind = some e :=
    flag_eq_true_iff hkind
  have hupH := hup H
  have hupL := hup L
  rw [hlast] at hupH
  rcases hsome hH with hfH | hfH <;> rcases hsome hL with hfL | hfL <;>
    simp only [hfH, hfL, hone, true_and, true_iff, false_iff, Option.some.injEq, Bool.true_eq_false,
      Bool.false_eq_true] at hupH hupL ⊢
  · exact fun _ => hupH.1
  · exact absurd hupH.2 hupL
  · exact fun hall => hupH ⟨hall hupL, hupL⟩
  · exact fun hlast => absurd hlast hupL

end

end Replay
