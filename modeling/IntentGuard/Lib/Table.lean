import Mathlib.Data.List.Induction
import Mathlib.Data.List.Perm.Basic
import Mathlib.Data.List.Nodup

/-!
# Tables with a primary key

A table is the list of its rows, and `key` reads a row's primary key. The four statements below are
what a program sends to a database: a select by key, an insert that resolves a conflict on the key
by an update, an insert that replaces, and an update of the rows that a condition selects. Each has
its law for `find`, and each keeps the keys distinct.

`perm_iff_find`: two tables with distinct keys hold the same rows exactly when they answer every
select the same way, so an equality of contents is proved key by key.
-/

namespace Table

variable {ρ κ : Type*} (key : ρ → κ)

/-- No two rows share a key. -/
def UniqueKeys (rows : List ρ) : Prop := (rows.map key).Nodup

/-- `UPDATE t SET … WHERE p`. -/
def updateWhere (p : ρ → Prop) [DecidablePred p] (update : ρ → ρ) (rows : List ρ) : List ρ :=
  rows.map fun r => if p r then update r else r

variable [DecidableEq κ]

/-- `SELECT * FROM t WHERE key = k`. -/
def find (k : κ) (rows : List ρ) : Option ρ := rows.find? fun r => key r = k

/-- `INSERT INTO t … ON CONFLICT(key) DO UPDATE SET …`; with `update = id` it is `DO NOTHING`. -/
def upsert (update : ρ → ρ) (new : ρ) : List ρ → List ρ
  | [] => [new]
  | r :: rows => if key r = key new then update r :: rows else r :: upsert update new rows

/-- `INSERT OR REPLACE INTO t …`. -/
def insertOrReplace (new : ρ) (rows : List ρ) : List ρ :=
  (rows.filter fun r => key r ≠ key new) ++ [new]

/-! ### Selects -/

@[simp] theorem find_nil (k : κ) : find key k [] = none := rfl

theorem find_cons (k : κ) (r : ρ) (rows : List ρ) :
    find key k (r :: rows) = if key r = k then some r else find key k rows := by
  unfold find
  by_cases h : key r = k <;> simp [h]

theorem key_of_find {k : κ} {rows : List ρ} {r : ρ} (h : find key k rows = some r) : key r = k := by
  have h := List.find?_some h
  simpa using h

theorem mem_of_find {k : κ} {rows : List ρ} {r : ρ} (h : find key k rows = some r) : r ∈ rows :=
  List.mem_of_find?_eq_some h

theorem find_eq_none_iff {k : κ} {rows : List ρ} :
    find key k rows = none ↔ ∀ r ∈ rows, key r ≠ k := by
  simp [find]

variable {key}

theorem find_eq_some_iff {rows : List ρ} (hu : UniqueKeys key rows) {k : κ} {r : ρ} :
    find key k rows = some r ↔ r ∈ rows ∧ key r = k := by
  constructor
  · intro h
    exact ⟨mem_of_find key h, key_of_find key h⟩
  · intro h
    obtain ⟨hr, rfl⟩ := h
    cases h : find key (key r) rows with
    | none => exact absurd rfl ((find_eq_none_iff key).1 h r hr)
    | some r' => rw [List.inj_on_of_nodup_map hu (mem_of_find key h) hr (key_of_find key h)]

/-- Two tables with distinct keys have the same contents exactly when they agree on every select. -/
theorem perm_iff_find {rows rows' : List ρ} (hu : UniqueKeys key rows)
    (hu' : UniqueKeys key rows') :
    rows.Perm rows' ↔ ∀ k, find key k rows = find key k rows' := by
  have hmem : ∀ {l : List ρ}, UniqueKeys key l → ∀ r, r ∈ l ↔ find key (key r) l = some r := by
    intro l hl r
    rw [find_eq_some_iff hl]
    exact (and_iff_left rfl).symm
  constructor
  · intro h k
    ext r
    rw [find_eq_some_iff hu, find_eq_some_iff hu', h.mem_iff]
  · intro h
    rw [List.perm_ext_iff_of_nodup (List.Nodup.of_map key hu) (List.Nodup.of_map key hu')]
    intro r
    rw [hmem hu, hmem hu', h]

/-! ### Statements -/

variable {update : ρ → ρ} {new : ρ}

theorem find_upsert (hkey : ∀ r, key r = key new → key (update r) = key new) (k : κ)
    (rows : List ρ) :
    find key k (upsert key update new rows) =
      if key new = k then some ((find key k rows).elim new update) else find key k rows := by
  induction rows with
  | nil =>
    show find key k [new] = _
    rw [find_cons]
    rfl
  | cons r rows ih =>
    unfold upsert
    by_cases hr : key r = key new
    · rw [if_pos hr, find_cons, find_cons, hkey r hr, hr]
      split_ifs <;> rfl
    · rw [if_neg hr, find_cons, find_cons, ih]
      by_cases hk : key r = k
      · have hn : ¬ key new = k := fun h => hr (hk.trans h.symm)
        simp only [if_pos hk, if_neg hn]
      · simp only [if_neg hk]

theorem find_insertOrReplace (k : κ) (rows : List ρ) :
    find key k (insertOrReplace key new rows) = if key new = k then some new
      else find key k rows := by
  have hlast : find key k [new] = if key new = k then some new else none := by
    rw [find_cons, find_nil]
  have hrest : ¬ key new = k →
      find key k (rows.filter fun r => key r ≠ key new) = find key k rows := by
    intro hk
    unfold find
    rw [List.find?_filter]
    congr 1
    funext r
    by_cases hr : key r = k
    · simp [hr, Ne.symm hk]
    · simp [hr]
  have hnone : key new = k → find key k (rows.filter fun r => key r ≠ key new) = none := by
    intro hk
    rw [find_eq_none_iff]
    intro r hr
    have := (List.mem_filter.1 hr).2
    simpa [hk] using this
  unfold insertOrReplace
  show List.find? _ (_ ++ _) = _
  rw [List.find?_append]
  show Option.or (find key k _) (find key k [new]) = _
  rw [hlast]
  by_cases hk : key new = k
  · rw [hnone hk, if_pos hk, if_pos hk]
    rfl
  · rw [hrest hk, if_neg hk, if_neg hk, Option.or_none]

theorem find_updateWhere {p : ρ → Prop} [DecidablePred p] (hkey : ∀ r, key (update r) = key r)
    (k : κ) (rows : List ρ) :
    find key k (updateWhere p update rows) = (find key k rows).map fun r =>
      if p r then update r else r := by
  have hkey' : ∀ r, key (if p r then update r else r) = key r := by
    intro r
    split_ifs
    · exact hkey r
    · rfl
  unfold updateWhere find
  rw [List.find?_map]
  congr 2
  funext r
  simp only [Function.comp_apply, hkey']

/-! ### Keys -/

theorem mem_keys_iff {k : κ} {rows : List ρ} : k ∈ rows.map key ↔ find key k rows ≠ none := by
  rw [Ne, find_eq_none_iff, List.mem_map]
  push Not
  rfl

/-- No key is lost, and the new one is there. -/
theorem keys_upsert (key : ρ → κ) (update : ρ → ρ) (new : ρ)
    (hkey : ∀ r, key r = key new → key (update r) = key new) (rows : List ρ) :
    key new :: rows.map key ⊆ (upsert key update new rows).map key := by
  intro k hk
  rw [mem_keys_iff, find_upsert hkey]
  split_ifs with hnew
  · exact Option.some_ne_none _
  · rcases List.mem_cons.1 hk with rfl | hk
    · exact absurd rfl hnew
    · exact mem_keys_iff.1 hk

theorem keys_insertOrReplace (rows : List ρ) :
    key new :: rows.map key ⊆ (insertOrReplace key new rows).map key := by
  intro k hk
  rw [mem_keys_iff, find_insertOrReplace]
  split_ifs with hnew
  · exact Option.some_ne_none _
  · rcases List.mem_cons.1 hk with rfl | hk
    · exact absurd rfl hnew
    · exact mem_keys_iff.1 hk

omit [DecidableEq κ] in
theorem keys_updateWhere {p : ρ → Prop} [DecidablePred p] (hkey : ∀ r, key (update r) = key r)
    (rows : List ρ) :
    (updateWhere p update rows).map key = rows.map key := by
  unfold updateWhere
  rw [List.map_map]
  apply List.map_congr_left
  intro r _
  show key (if p r then update r else r) = key r
  split_ifs
  · exact hkey r
  · rfl

/-! ### Conflicts -/

/-- An insert that meets a row updates it. -/
theorem find_upsert_of_find (key : ρ → κ) (update : ρ → ρ) (new : ρ)
    (hkey : ∀ r, key r = key new → key (update r) = key new) {rows : List ρ} {r : ρ}
    (h : find key (key new) rows = some r) :
    find key (key new) (upsert key update new rows) = some (update r) := by
  rw [find_upsert hkey, if_pos rfl, h]
  rfl

/-- Only the update of the row under the key matters. -/
theorem upsert_congr {update' : ρ → ρ} {rows : List ρ}
    (h : ∀ r ∈ rows, key r = key new → update r = update' r) :
    upsert key update new rows = upsert key update' new rows := by
  induction rows with
  | nil => rfl
  | cons r rows ih =>
    unfold upsert
    split_ifs with hr
    · rw [h r List.mem_cons_self hr]
    · rw [ih fun r' hr' => h r' (List.mem_cons_of_mem _ hr')]

/-! ### New keys -/

theorem upsert_of_not_mem {rows : List ρ} (h : key new ∉ rows.map key) :
    upsert key update new rows = rows ++ [new] := by
  induction rows with
  | nil => rfl
  | cons r rows ih =>
    rw [List.map_cons, List.mem_cons, not_or] at h
    rw [upsert, if_neg (Ne.symm h.1), ih h.2]
    rfl

/-- Rows under new keys follow the others, in their order. -/
theorem foldl_upsert {rows news : List ρ} (h : UniqueKeys key (rows ++ news)) :
    news.foldl (fun rows new => upsert key (fun _ => new) new rows) rows = rows ++ news := by
  induction news generalizing rows with
  | nil => exact (List.append_nil _).symm
  | cons new news ih =>
    have hnew : key new ∉ rows.map key := by
      unfold UniqueKeys at h
      rw [List.map_append, List.map_cons, List.nodup_append] at h
      intro hmem
      exact h.2.2 _ hmem _ List.mem_cons_self rfl
    rw [List.foldl_cons, upsert_of_not_mem hnew, ih (by rwa [List.append_assoc]), List.append_assoc]
    rfl

/-! ### Keys stay distinct -/

theorem mem_upsert {r : ρ} {rows : List ρ} (h : r ∈ upsert key update new rows) :
    r = new ∨ r ∈ rows ∨ ∃ r' ∈ rows, key r' = key new ∧ r = update r' := by
  induction rows with
  | nil => exact .inl (List.mem_singleton.1 h)
  | cons x rows ih =>
    unfold upsert at h
    split_ifs at h with hx
    · rcases List.mem_cons.1 h with rfl | h
      · exact .inr (.inr ⟨x, List.mem_cons_self, hx, rfl⟩)
      · exact .inr (.inl (List.mem_cons_of_mem _ h))
    · rcases List.mem_cons.1 h with rfl | h
      · exact .inr (.inl List.mem_cons_self)
      · rcases ih h with h | h | ⟨r', h, hk, hr⟩
        · exact .inl h
        · exact .inr (.inl (List.mem_cons_of_mem _ h))
        · exact .inr (.inr ⟨r', List.mem_cons_of_mem _ h, hk, hr⟩)

theorem UniqueKeys.upsert (hkey : ∀ r, key r = key new → key (update r) = key new) {rows : List ρ}
    (hu : UniqueKeys key rows) : UniqueKeys key (upsert key update new rows) := by
  induction rows with
  | nil => simp [UniqueKeys, Table.upsert]
  | cons x rows ih =>
    unfold UniqueKeys at hu
    rw [List.map_cons, List.nodup_cons] at hu
    unfold UniqueKeys Table.upsert
    by_cases hx : key x = key new
    · rw [if_pos hx, List.map_cons, hkey x hx, ← hx, List.nodup_cons]
      exact hu
    · rw [if_neg hx, List.map_cons, List.nodup_cons]
      refine ⟨?_, ih hu.2⟩
      intro hmem
      obtain ⟨r, hr, hrx⟩ := List.mem_map.1 hmem
      rcases mem_upsert hr with rfl | hr | ⟨r', hr', hk, rfl⟩
      · exact hx hrx.symm
      · exact hu.1 (List.mem_map.2 ⟨r, hr, hrx⟩)
      · exact hx (hrx.symm.trans (hkey r' hk))

theorem UniqueKeys.insertOrReplace {rows : List ρ} (hu : UniqueKeys key rows) :
    UniqueKeys key (insertOrReplace key new rows) := by
  unfold UniqueKeys Table.insertOrReplace
  rw [List.map_append, List.nodup_append]
  refine ⟨hu.sublist (List.filter_sublist.map key), List.nodup_singleton _, ?_⟩
  intro k hk k' hk'
  obtain ⟨r, hr, rfl⟩ := List.mem_map.1 hk
  have hne := (List.mem_filter.1 hr).2
  rw [List.mem_singleton.1 hk']
  simpa using hne

omit [DecidableEq κ] in
theorem UniqueKeys.updateWhere {p : ρ → Prop} [DecidablePred p] (hkey : ∀ r, key (update r) = key r)
    {rows : List ρ} (hu : UniqueKeys key rows) : UniqueKeys key (updateWhere p update rows) := by
  have hmap : (Table.updateWhere p update rows).map key = rows.map key := by
    unfold Table.updateWhere
    rw [List.map_map]
    apply List.map_congr_left
    intro r _
    show key (if p r then update r else r) = key r
    split_ifs
    · exact hkey r
    · rfl
  unfold UniqueKeys
  rw [hmap]
  exact hu

/-! ### Tables filled by upserts -/

section
variable {ι γ : Type*} (updates : ι → ρ → ρ) (row : ι → ρ)

/-- The inserts of a run, from an empty table. -/
def upserts (key : ρ → κ) (is : List ι) : List ρ :=
  is.foldl (fun rows i => upsert key (updates i) (row i) rows) []

theorem upserts_concat (key : ρ → κ) (is : List ι) (i : ι) :
    upserts updates row key (is ++ [i]) =
      upsert key (updates i) (row i) (upserts updates row key is) := by
  unfold upserts
  rw [List.foldl_append, List.foldl_cons, List.foldl_nil]

variable {updates row}

/-- A row agrees with an inserted row of its key on what (`f`) the updates leave alone. -/
theorem exists_of_find_upserts (hkey : ∀ i r, key (updates i r) = key r) {f : ρ → γ}
    (hf : ∀ i r, f (updates i r) = f r) {is : List ι} {k : κ} {r : ρ}
    (h : find key k (upserts updates row key is) = some r) :
    ∃ i ∈ is, key (row i) = k ∧ f r = f (row i) := by
  induction is using List.reverseRecOn generalizing r with
  | nil => exact absurd h (by simp [upserts])
  | append_singleton is i ih =>
    have hlift : ∀ {r}, find key k (upserts updates row key is) = some r →
        ∃ j ∈ is ++ [i], key (row j) = k ∧ f r = f (row j) := by
      intro r hr
      obtain ⟨j, hj, hfound⟩ := ih hr
      exact ⟨j, List.mem_append_left _ hj, hfound⟩
    rw [upserts_concat, find_upsert fun r hr => (hkey i r).trans hr] at h
    split_ifs at h with hnew
    · obtain rfl := Option.some.inj h
      cases hold : find key k (upserts updates row key is) with
      | none => exact ⟨i, List.mem_append_right _ (List.mem_singleton_self i), hnew, rfl⟩
      | some r =>
        obtain ⟨j, hj, hkeyj, hfj⟩ := hlift hold
        exact ⟨j, hj, hkeyj, (hf i r).trans hfj⟩
    · exact hlift h

/-- Every inserted key stays. -/
theorem find_upserts_ne_none (hkey : ∀ i r, key (updates i r) = key r) {is : List ι} {i : ι}
    (hi : i ∈ is) :
    find key (key (row i)) (upserts updates row key is) ≠ none := by
  induction is using List.reverseRecOn with
  | nil => exact absurd hi List.not_mem_nil
  | append_singleton is j ih =>
    rw [upserts_concat, ← mem_keys_iff]
    apply keys_upsert key (updates j) (row j) fun r hr => (hkey j r).trans hr
    rcases List.mem_append.1 hi with hi | hi
    · exact List.mem_cons_of_mem _ (mem_keys_iff.2 (ih hi))
    · obtain rfl := List.mem_singleton.1 hi
      exact List.mem_cons_self

end

end Table
