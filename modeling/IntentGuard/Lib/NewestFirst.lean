import Mathlib.Data.List.Sort

/-!
# Lists that are cut before they are merged

Each of several lists is cut to its first `n` elements, what is left is sorted by a timestamp,
newest first, and the result is cut to `n` elements again (`top`). The lists need not be in the
order of the timestamp.

`top_take_iff`: the smaller cuts are the beginnings of the larger ones, up to a cut `N`, exactly
when in every list each element has at least as many newer elements, not counting those before it in
its list, as older ones before it (`InTime`).
-/

namespace NewestFirst

variable {α : Type*} (t : α → ℕ)

def AsNew (x y : α) : Prop := t y ≤ t x

instance : DecidableRel (AsNew t) := fun x y => inferInstanceAs (Decidable (t y ≤ t x))

instance : Std.Total (AsNew t) := ⟨fun x y => le_total (t y) (t x)⟩

instance : IsTrans α (AsNew t) := ⟨fun _ _ _ hxy hyz => Nat.le_trans hyz hxy⟩

/-- Newest first; elements that tie stay in their order. -/
def sort (l : List α) : List α := l.insertionSort (AsNew t)

def top (n : ℕ) (lists : List (List α)) : List α :=
  (sort t (lists.map (List.take n)).flatten).take n

/-- What stands before an element in its list though it is older is made up for by what is newer and
stands after it, in its list or in another; in the lists `before`, what is as new counts too. -/
def InTime (before l after : List α) : Prop :=
  ∀ pre x post, l = pre ++ x :: post →
    pre.countP (fun y => t y < t x) ≤
      post.countP (fun y => t x < t y) + before.countP (fun y => t x ≤ t y) +
      after.countP (fun y => t x < t y)

/-! ### A stable sort -/

section
variable {t} {l l' : List α} {x y : α}

theorem mem_sort : x ∈ sort t l ↔ x ∈ l := List.mem_insertionSort _

theorem sort_sorted (l : List α) : (sort t l).Pairwise (AsNew t) := List.pairwise_insertionSort _ l

theorem sort_nodup (h : l.Nodup) : (sort t l).Nodup := (List.perm_insertionSort _ l).nodup_iff.2 h

theorem sort_cons (x : α) (l : List α) : sort t (x :: l) = (sort t l).orderedInsert (AsNew t) x :=
  rfl

theorem sort_sublist (h : l.Sublist l') : (sort t l).Sublist (sort t l') := by
  induction h with
  | slnil => exact List.Sublist.slnil
  | @cons l₁ l₂ x _ ih => exact ih.trans (List.sublist_orderedInsert x _)
  | @cons_cons l₁ l₂ x _ ih => exact ih.orderedInsert_sublist x (sort_sorted l₂)

/-- What is as new is inserted before. -/
theorem orderedInsert_before (h : AsNew t y x) (a b : List α) :
    ∃ a', (a ++ x :: b).orderedInsert (AsNew t) y = a' ++ x :: b ∧ a'.length = a.length + 1 := by
  induction a with
  | nil => exact ⟨[y], List.orderedInsert_cons_of_le _ _ h, rfl⟩
  | cons z a ih =>
    rw [List.cons_append]
    by_cases hz : AsNew t y z
    · exact ⟨y :: z :: a, List.orderedInsert_cons_of_le _ _ hz, rfl⟩
    · obtain ⟨a', heq, hlength⟩ := ih
      refine ⟨z :: a', ?_, by simp [hlength]⟩
      rw [List.orderedInsert_of_not_le _ _ hz, heq, List.cons_append]

/-- What is older is inserted after. -/
theorem orderedInsert_after (h : ¬ AsNew t y x) {a b : List α}
    (hsorted : (a ++ x :: b).Pairwise (AsNew t)) :
    ∃ b', (a ++ x :: b).orderedInsert (AsNew t) y = a ++ x :: b' := by
  induction a with
  | nil => exact ⟨_, List.orderedInsert_of_not_le _ _ h⟩
  | cons z a ih =>
    rw [List.cons_append, List.pairwise_cons] at hsorted
    obtain ⟨b', heq⟩ := ih hsorted.2
    have hz : ¬ AsNew t y z := fun hyz => h (trans_of _ hyz (hsorted.1 x (by simp)))
    refine ⟨b', ?_⟩
    rw [List.cons_append, List.orderedInsert_of_not_le _ _ hz, heq, List.cons_append]

/-- In a sorted list the newer elements come first. -/
theorem length_takeWhile_newer (h : l.Pairwise (AsNew t)) (x : α) :
    (l.takeWhile fun y => ¬ AsNew t x y).length = l.countP (fun y => t x < t y) := by
  induction l with
  | nil => rfl
  | cons y l ih =>
    rw [List.pairwise_cons] at h
    rw [List.takeWhile_cons, List.countP_cons]
    by_cases hy : t x < t y
    · have hnot : ¬ AsNew t x y := Nat.not_le.2 hy
      simp [hy, hnot, ← ih h.2]
    · have hold : AsNew t x y := Nat.not_lt.1 hy
      have hnone : l.countP (fun y => t x < t y) = 0 := by
        rw [List.countP_eq_zero]
        intro z hz
        have hyz : t z ≤ t y := h.1 z hz
        simp only [decide_eq_true_eq, not_lt]
        omega
      simp [hy, hold, hnone]

/-- The place of an element after sorting. -/
theorem sort_split (u : List α) (x : α) (v : List α) :
    ∃ a b, sort t (u ++ x :: v) = a ++ x :: b ∧
      a.length = u.countP (fun y => t x ≤ t y) + v.countP (fun y => t x < t y) := by
  induction u with
  | nil =>
    refine ⟨_, _, List.orderedInsert_eq_take_drop _ x (sort t v), ?_⟩
    rw [length_takeWhile_newer (sort_sorted v), List.countP_nil, Nat.zero_add]
    exact (List.perm_insertionSort _ v).countP_eq _
  | cons y u ih =>
    obtain ⟨a, b, heq, hlength⟩ := ih
    have hsorted : (sort t (u ++ x :: v)).Pairwise (AsNew t) := sort_sorted _
    rw [List.cons_append, sort_cons, List.countP_cons]
    rw [heq] at hsorted ⊢
    by_cases hy : t x ≤ t y
    · obtain ⟨a', heq', hlength'⟩ := orderedInsert_before hy a b
      refine ⟨a', b, heq', ?_⟩
      simp only [hy, decide_true, if_true]
      omega
    · obtain ⟨b', heq'⟩ := orderedInsert_after hy hsorted
      refine ⟨a, b', heq', ?_⟩
      simp only [hy, decide_false, Bool.false_eq_true, if_false]
      omega

end

/-! ### Cuts -/

section
variable {t} {l l' : List α} {lists : List (List α)} {x : α} {n m N : ℕ}

theorem map_take_take (h : n ≤ m) :
    (lists.map (List.take m)).map (List.take n) = lists.map (List.take n) := by
  rw [List.map_map]
  congr 1
  funext l
  rw [Function.comp_apply, List.take_take, Nat.min_eq_left h]

theorem flatten_take_sublist (n : ℕ) (lists : List (List α)) :
    (lists.map (List.take n)).flatten.Sublist lists.flatten := by
  induction lists with
  | nil => exact List.Sublist.slnil
  | cons l lists ih => exact (List.take_sublist n l).append ih

/-- A sublist of a list without repetition begins as the list does, if it has all of that
beginning. -/
theorem take_eq_take_iff (hl : l'.Nodup) (h : l.Sublist l') :
    l.take n = l'.take n ↔ ∀ x ∈ l'.take n, x ∈ l := by
  constructor
  · intro heq x hx
    exact List.mem_of_mem_take (heq ▸ hx)
  intro hall
  rw [← List.take_append_drop n l'] at h hl
  obtain ⟨c, d, rfl, hc, hd⟩ := List.sublist_append_iff.1 h
  have hfull : c = l'.take n := by
    refine hc.eq_of_length_le ?_
    refine (List.nodup_append.1 hl).1.length_le_of_subset ?_
    intro x hx
    refine (List.mem_append.1 (hall x hx)).resolve_right fun hxd => ?_
    exact (List.nodup_append.1 hl).2.2 x hx x (hd.subset hxd) rfl
  subst hfull
  by_cases hn : n ≤ l'.length
  · have hlength : (l'.take n).length = n := List.length_take_of_le hn
    exact List.take_left' hlength
  · have hdrop : l'.drop n = [] := List.drop_of_length_le (by omega)
    rw [hdrop] at hd
    rw [List.sublist_nil.1 hd, List.append_nil, List.take_take, Nat.min_self]

theorem length_eq_countP_add (pre : List α) (x : α) :
    pre.length = pre.countP (fun y => t x ≤ t y) + pre.countP (fun y => t y < t x) := by
  rw [List.length_eq_countP_add_countP fun y => decide (t x ≤ t y)]
  simp only [decide_eq_true_eq, Nat.not_le]

/-- An element is among the first `n` exactly when fewer than `n` stand before it. -/
theorem mem_take_iff {pre post : List α} (h : (pre ++ x :: post).Nodup) :
    x ∈ (pre ++ x :: post).take n ↔ pre.length < n := by
  rw [List.take_append, List.mem_append]
  have hpre : x ∉ pre := fun hx => (List.nodup_append.1 h).2.2 x hx x (by simp) rfl
  constructor
  · intro hx
    rcases hx with hx | hx
    · exact absurd (List.mem_of_mem_take hx) hpre
    · by_contra hn
      rw [Nat.sub_eq_zero_of_le (by omega)] at hx
      exact List.not_mem_nil hx
  · intro hn
    obtain ⟨k, hk⟩ := Nat.exists_eq_add_of_lt hn
    refine .inr ?_
    rw [show n - pre.length = k + 1 by omega]
    exact List.mem_cons_self

theorem mem_kept_iff {before after : List (List α)} {pre post : List α}
    (h : (before ++ (pre ++ x :: post) :: after).flatten.Nodup) :
    x ∈ ((before ++ (pre ++ x :: post) :: after).map (List.take n)).flatten ↔ pre.length < n := by
  rw [List.flatten_append, List.flatten_cons, List.nodup_append, List.nodup_append] at h
  obtain ⟨-, ⟨hl, -, hafter⟩, hbefore⟩ := h
  have hx : x ∈ pre ++ x :: post := by simp
  rw [List.map_append, List.map_cons, List.flatten_append, List.flatten_cons, List.mem_append,
    List.mem_append, ← mem_take_iff hl]
  constructor
  · intro hmem
    rcases hmem with hmem | hmem | hmem
    · have hxb := (flatten_take_sublist n before).subset hmem
      exact absurd rfl (hbefore x hxb x (List.mem_append_left _ hx))
    · exact hmem
    · have hxa := (flatten_take_sublist n after).subset hmem
      exact absurd rfl (hafter x hx x hxa)
  · exact fun hmem => .inr (.inl hmem)

/-- Nothing is cut off before its turn exactly when all lists are in time. -/
theorem kept_iff (h : lists.flatten.Nodup) (hN : ∀ l ∈ lists, l.length ≤ N) :
    (∀ n ≤ N, ∀ x ∈ (sort t lists.flatten).take n, x ∈ (lists.map (List.take n)).flatten) ↔
      ∀ before l after, lists = before ++ l :: after → InTime t before.flatten l after.flatten := by
  have hsplit : ∀ {before after : List (List α)} {pre post : List α} {x : α},
      lists = before ++ (pre ++ x :: post) :: after → ∃ a b, sort t lists.flatten = a ++ x :: b ∧
        (pre.length ≤ a.length ↔
          pre.countP (fun y => t y < t x) ≤ post.countP (fun y => t x < t y) +
          before.flatten.countP (fun y => t x ≤ t y) +
            after.flatten.countP (fun y => t x < t y)) := by
    intro before after pre post x hlists
    obtain ⟨a, b, heq, hlength⟩ :=
      sort_split (t := t) (before.flatten ++ pre) x (post ++ after.flatten)
    refine ⟨a, b, ?_, ?_⟩
    · rw [hlists, ← heq]
      simp
    · rw [hlength, length_eq_countP_add (t := t) pre x, List.countP_append, List.countP_append]
      omega
  constructor
  · intro hall before l after hlists pre x post hl
    subst hl
    obtain ⟨a, b, heq, hiff⟩ := hsplit hlists
    rw [← hiff]
    by_contra hlt
    -- cut to the length of `pre`, `x` would be among the newest but not in its list
    have hmem := hall pre.length ?_ x ?_
    · rw [hlists] at h hmem
      exact absurd ((mem_kept_iff h).1 hmem) (Nat.lt_irrefl _)
    · have hle := hN (pre ++ x :: post) (by simp [hlists])
      rw [List.length_append, List.length_cons] at hle
      omega
    · have hnodup : (a ++ x :: b).Nodup := heq ▸ sort_nodup h
      rw [heq, mem_take_iff hnodup]
      omega
  · intro htime n hn x hx
    obtain ⟨l, hl, hxl⟩ := List.mem_flatten.1 (mem_sort.1 (List.mem_of_mem_take hx))
    obtain ⟨before, after, hlists⟩ := List.append_of_mem hl
    obtain ⟨pre, post, rfl⟩ := List.append_of_mem hxl
    obtain ⟨a, b, heq, hiff⟩ := hsplit hlists
    have hnodup : (a ++ x :: b).Nodup := heq ▸ sort_nodup h
    rw [heq, mem_take_iff hnodup] at hx
    have hle := hiff.2 (htime before _ after hlists pre x post rfl)
    rw [hlists] at h ⊢
    exact (mem_kept_iff h).2 (by omega)

theorem top_of_le (h : n ≤ N) : top t n lists = top t n (lists.map (List.take N)) := by
  unfold top
  rw [map_take_take h]

theorem top_take_iff (h : lists.flatten.Nodup) :
    (∀ n m, n ≤ m → m ≤ N → top t n lists = (top t m lists).take n) ↔
      ∀ before l after, lists.map (List.take N) = before ++ l :: after →
        InTime t before.flatten l after.flatten := by
  have hnodup : (lists.map (List.take N)).flatten.Nodup := h.sublist (flatten_take_sublist N lists)
  have hlength : ∀ l ∈ lists.map (List.take N), l.length ≤ N := by
    intro l hl
    obtain ⟨l', -, rfl⟩ := List.mem_map.1 hl
    exact List.length_take_le N l'
  rw [← kept_iff hnodup hlength]
  have htop : ∀ n ≤ N, (top t n lists = (sort t (lists.map (List.take N)).flatten).take n ↔
      ∀ x ∈ (sort t (lists.map (List.take N)).flatten).take n,
        x ∈ ((lists.map (List.take N)).map (List.take n)).flatten) := by
    intro n hn
    rw [top_of_le hn]
    refine (take_eq_take_iff (sort_nodup hnodup) (sort_sublist (flatten_take_sublist n _))).trans ?_
    simp only [mem_sort]
  constructor
  · intro hprefix n hn
    rw [← htop n hn, hprefix n N hn le_rfl, (htop N le_rfl).2]
    · rw [List.take_take, Nat.min_eq_left hn]
    · intro x hx
      rw [map_take_take le_rfl]
      exact mem_sort.1 (List.mem_of_mem_take hx)
  · intro hkept n m hnm hmN
    rw [(htop n (hnm.trans hmN)).2 (hkept n (hnm.trans hmN)), (htop m hmN).2 (hkept m hmN),
      List.take_take, Nat.min_eq_left hnm]

/-- All ways to single out one of the lists. -/
theorem forall_split_cons {P : List (List α) → List α → List (List α) → Prop} {l : List α} :
    (∀ before l' after, l :: lists = before ++ l' :: after → P before l' after) ↔
      P [] l lists ∧ ∀ before l' after, lists = before ++ l' :: after →
        P (l :: before) l' after := by
  constructor
  · intro h
    refine ⟨h [] l lists rfl, ?_⟩
    intro before l' after heq
    exact h (l :: before) l' after (by rw [heq, List.cons_append])
  · intro h before l' after heq
    cases before with
    | nil =>
      obtain ⟨rfl, rfl⟩ := List.cons.inj heq
      exact h.1
    | cons b before =>
      obtain ⟨rfl, hrest⟩ := List.cons.inj heq
      exact h.2 before l' after hrest

/-- A list in the order of the timestamp is in time, whatever the others are. -/
theorem inTime_of_sorted (h : l.Pairwise (AsNew t)) (before after : List α) :
    InTime t before l after := by
  intro pre x post hl
  have hnone : pre.countP (fun y => t y < t x) = 0 := by
    rw [List.countP_eq_zero]
    intro y hy
    rw [hl, List.pairwise_append] at h
    have hyx : t x ≤ t y := h.2.2 y hy x (by simp)
    simp only [decide_eq_true_eq, not_lt]
    exact hyx
  rw [hnone]
  exact Nat.zero_le _

theorem top_sorted (n : ℕ) (lists : List (List α)) : (top t n lists).Pairwise (AsNew t) :=
  (sort_sorted _).sublist (List.take_sublist _ _)

end

end NewestFirst
