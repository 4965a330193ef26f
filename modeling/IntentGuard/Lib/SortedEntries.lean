import Mathlib.Data.List.Sort

/-!
# Entries sorted by their keys

What a serializer does with the entries of a record: it sorts them by a comparison `r` of their keys
(`sortByKey`), and gives up at the first entry, in that order, that has no value (`collect`).

`eq_of_perm_of_keys`: two arrangements of entries with distinct keys are the same when their keys
come in the same order.
-/

namespace SortedEntries

variable {κ α β ε : Type}

/-! ### Values that may be missing -/

/-- The entries with their values, or the first error among these. -/
def collect : List (κ × Except ε α) → Except ε (List (κ × α))
  | [] => pure []
  | (k, v) :: es => do
    let a ← v
    let rest ← collect es
    pure ((k, a) :: rest)

theorem collect_eq_ok {es : List (κ × Except ε α)} {ps : List (κ × α)} (h : collect es = .ok ps) :
    es = ps.map fun p => (p.1, .ok p.2) := by
  induction es generalizing ps with
  | nil =>
    obtain rfl := Except.ok.inj h
    rfl
  | cons e es ih =>
    obtain ⟨k, v⟩ := e
    unfold collect at h
    cases v with
    | error e => exact absurd h (by simp [bind, Except.bind])
    | ok a =>
      cases hes : collect es with
      | error e => exact absurd (hes ▸ h) (by simp [bind, Except.bind])
      | ok rest =>
        rw [hes] at h
        obtain rfl := Except.ok.inj h
        rw [ih hes]
        rfl

/-- An error is that of one of the entries. -/
theorem collect_eq_error {es : List (κ × Except ε α)} {x : ε} (h : collect es = .error x) :
    ∃ e ∈ es, e.2 = .error x := by
  induction es with
  | nil => exact absurd h (by simp [collect, pure, Except.pure])
  | cons e es ih =>
    obtain ⟨k, v⟩ := e
    unfold collect at h
    cases v with
    | error y =>
      obtain rfl := Except.error.inj h
      exact ⟨_, List.mem_cons_self, rfl⟩
    | ok a =>
      cases hes : collect es with
      | error y =>
        rw [hes] at h
        obtain ⟨e, he, hvalue⟩ := ih (hes.trans h)
        exact ⟨e, List.mem_cons_of_mem _ he, hvalue⟩
      | ok rest => exact absurd (hes ▸ h) (by simp [bind, Except.bind, pure, Except.pure])

/-- Entries that all have their values. -/
theorem exists_map_ok {es : List (κ × Except ε α)} (h : ∀ e ∈ es, ∃ a, e.2 = .ok a) :
    ∃ ps : List (κ × α), es = ps.map fun p => (p.1, .ok p.2) := by
  induction es with
  | nil => exact ⟨[], rfl⟩
  | cons e es ih =>
    rw [List.forall_mem_cons] at h
    obtain ⟨a, ha⟩ := h.1
    obtain ⟨ps, hps⟩ := ih h.2
    exact ⟨(e.1, a) :: ps, by rw [List.map_cons, hps, ← ha]⟩

theorem collect_map_ok (f : κ × α → β) (es : List (κ × α)) :
    collect (es.map fun e => (e.1, (.ok (f e) : Except ε β))) =
      .ok (es.map fun e => (e.1, f e)) := by
  induction es with
  | nil => rfl
  | cons e es ih =>
    rw [List.map_cons, collect, ih]
    rfl

/-! ### Sorting -/

variable (r : κ → κ → Bool)

def sortByKey (es : List (κ × α)) : List (κ × α) := es.insertionSort fun a b => r a.1 b.1

variable {r}

theorem sortByKey_perm (es : List (κ × α)) : (sortByKey r es).Perm es :=
  List.perm_insertionSort (fun a b : κ × α => (r a.1 b.1 : Prop)) es

theorem mem_sortByKey {es : List (κ × α)} {e : κ × α} : e ∈ sortByKey r es ↔ e ∈ es :=
  (sortByKey_perm es).mem_iff

/-- Entries that were collected in order all had their values. -/
theorem ok_of_collect_sortByKey {es : List (κ × Except ε α)} {ps : List (κ × α)}
    (h : collect (sortByKey r es) = .ok ps) :
    ∀ e ∈ es, ∃ a, e.2 = .ok a := by
  intro e he
  rw [← mem_sortByKey (r := r), collect_eq_ok h] at he
  obtain ⟨p, -, rfl⟩ := List.mem_map.1 he
  exact ⟨p.2, rfl⟩

theorem sortByKey_map (f : κ × α → β) (es : List (κ × α)) :
    sortByKey r (es.map fun e => (e.1, f e)) = (sortByKey r es).map fun e => (e.1, f e) :=
  (List.map_insertionSort (fun a b : κ × α => (r a.1 b.1 : Prop))
    (fun a b : κ × β => (r a.1 b.1 : Prop))
    (fun e => (e.1, f e)) es fun _ _ _ _ => Iff.rfl).symm

theorem sortByKey_of_pairwise {es : List (κ × α)} (h : es.Pairwise fun a b => r a.1 b.1) :
    sortByKey r es = es :=
  List.Pairwise.insertionSort_eq h

theorem pairwise_sortByKey (htotal : ∀ a b, r a b ∨ r b a) (htrans : ∀ a b c, r a b → r b c → r a c)
    (es : List (κ × α)) : (sortByKey r es).Pairwise fun a b => r a.1 b.1 := by
  have : Std.Total fun a b : κ × α => (r a.1 b.1 : Prop) := ⟨fun a b => htotal a.1 b.1⟩
  have : IsTrans (κ × α) fun a b => (r a.1 b.1 : Prop) := ⟨fun a b c => htrans a.1 b.1 c.1⟩
  exact List.pairwise_insertionSort (fun a b : κ × α => (r a.1 b.1 : Prop)) es

theorem eq_of_perm_of_keys {es es' : List (κ × α)} (hperm : es.Perm es')
    (hkeys : (es.map Prod.fst).Nodup) (h : es.map Prod.fst = es'.map Prod.fst) : es = es' := by
  have hinj : ∀ e ∈ es, ∀ e' ∈ es, e.1 = e'.1 → e = e' := by
    intro e he e' he' heq
    exact List.inj_on_of_nodup_map hkeys he he' heq
  have hlength : es.length = es'.length := hperm.length_eq
  apply List.ext_getElem hlength
  intro i hi hi'
  apply hinj _ (List.getElem_mem hi) _ (hperm.mem_iff.2 (List.getElem_mem hi'))
  have hkey : (es.map Prod.fst)[i]? = (es'.map Prod.fst)[i]? := by rw [h]
  simpa [hi, hi'] using hkey

/-- Entries with distinct keys are sorted alike in whatever order they come. -/
theorem sortByKey_eq_of_perm (htotal : ∀ a b, r a b ∨ r b a)
    (htrans : ∀ a b c, r a b → r b c → r a c) (hantisymm : ∀ a b, r a b → r b a → a = b)
    {es es' : List (κ × α)} (hperm : es.Perm es') (hkeys : (es.map Prod.fst).Nodup) :
    sortByKey r es = sortByKey r es' := by
  have hsorted :=
    (sortByKey_perm (r := r) es).trans (hperm.trans (sortByKey_perm (r := r) es').symm)
  have hnodup : ((sortByKey r es).map Prod.fst).Nodup :=
    ((sortByKey_perm es).map Prod.fst).nodup_iff.2 hkeys
  apply eq_of_perm_of_keys hsorted hnodup
  apply (hsorted.map Prod.fst).eq_of_pairwise fun a b _ _ => hantisymm a b
  · exact List.pairwise_map.2 (pairwise_sortByKey htotal htrans es)
  · exact List.pairwise_map.2 (pairwise_sortByKey htotal htrans es')

end SortedEntries
