import IntentGuard.Lib.Replay
import IntentGuard.Lib.Table

/-!
# Tables that mirror a log

Every element of a log creates or updates the row under at most one key. `Mirror X rows` says that
the table holds under each key the row that the elements of `X` make (`Replay.row`), and the
statements of `Table` keep it. `Mirror.map_find` and `Mirror.find_of_last_update` read columns of
the table off the log.

`Mirror.perm_of_replays`: the tables after a log and after the same log with retries have the same
contents.
-/

namespace Replay

variable {α γ υ ρ κ : Type*} [DecidableEq κ]

section
variable (key : ρ → κ) (new : γ → ρ) (merge : γ → ρ → ρ) (set : υ → ρ → ρ)
  (touch : κ → α → Option (Write γ υ))

structure Mirror (X : List α) (rows : List ρ) : Prop where
  unique : Table.UniqueKeys key rows
  find_eq : ∀ k, Table.find key k rows = row new merge set (touch k) X

end

namespace Mirror
variable {key : ρ → κ} {new : γ → ρ} {merge : γ → ρ → ρ} {set : υ → ρ → ρ}
  {touch : κ → α → Option (Write γ υ)}
variable {X : List α} {rows : List ρ} {a : α}

theorem nil : Mirror key new merge set touch ([] : List α) [] := ⟨List.nodup_nil, fun _ => rfl⟩

theorem skip (h : Mirror key new merge set touch X rows) (ha : ∀ k, touch k a = none) :
    Mirror key new merge set touch (X ++ [a]) rows where
  unique := h.unique
  find_eq := by
    intro k
    rw [row_concat_of_none (ha k), h.find_eq]

theorem upsert (h : Mirror key new merge set touch X rows) {c : γ}
    (ha : ∀ k, touch k a = if key (new c) = k then some (.create c) else none)
    (hkey : ∀ r, key r = key (new c) → key (merge c r) = key (new c)) :
    Mirror key new merge set touch (X ++ [a]) (Table.upsert key (merge c) (new c) rows) where
  unique := h.unique.upsert hkey
  find_eq := by
    intro k
    rw [Table.find_upsert hkey, row_concat, rowStep, ha, h.find_eq]
    split_ifs <;> rfl

theorem insertOrReplace (h : Mirror key new merge set touch X rows) {c : γ}
    (ha : ∀ k, touch k a = if key (new c) = k then some (.create c) else none)
    (hmerge : ∀ r, merge c r = new c) :
    Mirror key new merge set touch (X ++ [a]) (Table.insertOrReplace key (new c) rows) where
  unique := h.unique.insertOrReplace
  find_eq := by
    intro k
    rw [Table.find_insertOrReplace, row_concat, rowStep, ha, h.find_eq]
    split_ifs
    · cases row new merge set (touch k) X with
      | none => rfl
      | some r => exact congrArg some (hmerge r).symm
    · rfl

theorem updateWhere (h : Mirror key new merge set touch X rows) {j : κ} {u : υ}
    (ha : ∀ k, touch k a = if j = k then some (.update u) else none)
    (hkey : ∀ r, key (set u r) = key r) :
    Mirror key new merge set touch (X ++ [a])
      (Table.updateWhere (fun r => key r = j) (set u) rows) where
  unique := h.unique.updateWhere hkey
  find_eq := by
    intro k
    rw [Table.find_updateWhere hkey, row_concat, rowStep, ha, h.find_eq]
    cases hrow : row new merge set (touch k) X with
    | none => split_ifs <;> rfl
    | some r =>
      have hk : key r = k := Table.key_of_find key ((h.find_eq k).trans hrow)
      rw [Option.map_some, hk]
      by_cases hj : j = k
      · rw [if_pos hj.symm, if_pos hj]
        rfl
      · rw [if_neg (Ne.symm hj), if_neg hj]

theorem perm_of_replays {L H : List α} {rows rows' : List ρ} (laws : RowLaws new merge set)
    (h : Replays L H) (hL : Mirror key new merge set touch L rows)
    (hH : Mirror key new merge set touch H rows') (hsettled : ∀ k, Settled (touch k) L) :
    rows'.Perm rows := by
  rw [Table.perm_iff_find hH.unique hL.unique]
  intro k
  rw [hL.find_eq, hH.find_eq, row_replay laws h (hsettled k)]

theorem map_find {β : Type*} (h : Mirror key new merge set touch X rows) (π : ρ → β) (π' : γ → β)
    (hnew : ∀ c, π (new c) = π' c) (hmerge : ∀ c r, π (merge c r) = π' c)
    (hset : ∀ u r, π (set u r) = π r) (k : κ) :
    (Table.find key k rows).map π = (X.reverse.findSome? (creation (touch k))).map π' := by
  rw [h.find_eq]
  exact row_map π π' hnew hmerge hset X

theorem find_of_last_update (h : Mirror key new merge set touch X rows) {k : κ} {u : υ}
    (hlast : X.reverse.findSome? (touch k) = some (.update u)) {r : ρ}
    (hr : Table.find key k rows = some r) :
    ∃ r', r = set u r' :=
  row_of_last_update hlast ((h.find_eq k).symm.trans hr)

/-- Every row of the table comes from an element that created it or was merged into it. -/
theorem exists_creation (h : Mirror key new merge set touch X rows) {P : γ → ρ → Prop}
    (hnew : ∀ c, P c (new c)) (hmerge : ∀ c r, P c (merge c r))
    (hset : ∀ c u r, P c r → P c (set u r)) {r : ρ} (hr : r ∈ rows) :
    ∃ a ∈ X, ∃ c, touch (key r) a = some (.create c) ∧ P c r := by
  refine exists_creation_of_row hnew hmerge hset ((h.find_eq (key r)).symm.trans ?_)
  exact (Table.find_eq_some_iff h.unique).2 ⟨hr, rfl⟩

end Mirror

end Replay
