import Mathlib.Data.List.Chain
import IntentGuard.Infra.StoreFailures

/-!
# The blocks the poller covers

One `catchUp` asks for consecutive ranges that tile the blocks from its start to the head
(`tiles_ranges`). Over many of them, with failures anywhere, the logs whose `handleLog` has returned
are read off the run (`completed`), and `Swept` says how far they reach: from a block `s` to the
persisted cursor, and within a batch to the log that was handled last. It is stated for any relation
between the logs of a range and the handled ones that grows with both (`Keeps`): as a sublist for
the order of the chain, or as the membership of one log where only that log is at stake.

A step keeps `Swept` whenever an attempt that resumes from no cursor starts where the sweep has got
to. With a configured start block it does. Without one the start is taken from the chain's head at
every attempt anew, and what is left behind is exactly what lies below it (`fallback_keeps_iff`).
-/

namespace IntentGuard.Infra

open Runs

/-! ### One attempt -/

/-- The ranges that `indexLoop` asks for. -/
def ranges (batchSize toBlock : ℕ) : ℕ → ℕ → List (ℕ × ℕ)
  | 0, _ => []
  | turns + 1, cursor =>
    if cursor ≤ toBlock then
      (cursor, if cursor + batchSize > toBlock then toBlock else cursor + batchSize) ::
        ranges batchSize toBlock turns (cursor + (batchSize + 1))
    else []

/-- Consecutive, disjoint ranges that make up the blocks from `start` to `head`. -/
structure Tiles (start head : ℕ) (rs : List (ℕ × ℕ)) : Prop where
  nonempty : ∀ r ∈ rs, r.1 ≤ r.2
  consecutive : rs.IsChain fun r r' => r'.1 = r.2 + 1
  disjoint : rs.Pairwise fun r r' => r.2 < r'.1
  covers : ∀ n, (∃ r ∈ rs, r.1 ≤ n ∧ n ≤ r.2) ↔ start ≤ n ∧ n ≤ head

theorem Tiles.nil {start head : ℕ} (h : head < start) : Tiles start head [] where
  nonempty := by simp
  consecutive := .nil
  disjoint := .nil
  covers := by
    intro n
    simp only [List.not_mem_nil, false_and, exists_false, false_iff]
    omega

theorem Tiles.cons {start upper head : ℕ} {rs : List (ℕ × ℕ)} (hlow : start ≤ upper)
    (hup : upper ≤ head) (hhead : ∀ r ∈ rs.head?, r.1 = upper + 1) (h : Tiles (upper + 1) head rs) :
    Tiles start head ((start, upper) :: rs) where
  nonempty := List.forall_mem_cons.2 ⟨hlow, h.nonempty⟩
  consecutive := h.consecutive.cons hhead
  disjoint := by
    refine List.pairwise_cons.2 ⟨?_, h.disjoint⟩
    intro r hr
    exact ((h.covers r.1).1 ⟨r, hr, le_rfl, h.nonempty r hr⟩).1
  covers := by
    intro n
    rw [List.exists_mem_cons_iff, h.covers n]
    dsimp only
    omega

theorem head?_ranges {batchSize toBlock turns cursor : ℕ} :
    ∀ r ∈ (ranges batchSize toBlock turns cursor).head?, r.1 = cursor := by
  intro r hr
  cases turns with
  | zero => exact absurd hr (by simp [ranges])
  | succ turns =>
    rw [ranges] at hr
    split_ifs at hr
    · obtain rfl := Option.some.inj hr
      rfl
    · obtain rfl := Option.some.inj hr
      rfl
    · exact absurd hr (by simp)

theorem ranges_of_lt {batchSize toBlock turns cursor : ℕ} (h : toBlock < cursor) :
    ranges batchSize toBlock turns cursor = [] := by
  cases turns with
  | zero => rfl
  | succ turns => rw [ranges, if_neg (Nat.not_le.2 h)]

theorem tiles_ranges (batchSize toBlock turns cursor : ℕ) (hturns : toBlock + 1 ≤ cursor + turns) :
    Tiles cursor toBlock (ranges batchSize toBlock turns cursor) := by
  induction turns generalizing cursor with
  | zero => exact .nil (by omega)
  | succ turns ih =>
    rw [ranges]
    split_ifs with hcursor hlast
    · -- the last range: the next turn finds the cursor past the end
      rw [ranges_of_lt (by omega)]
      exact .cons hcursor le_rfl (by simp) (.nil (by omega))
    · exact .cons (by omega) (by omega) head?_ranges (ih _ (by omega))
    · exact .nil (by omega)

namespace Poller
variable (P : Poller)

/-- The ranges one `catchUp` asks for when no call fails; an attempt that is stopped asks for the
first of them. -/
def queries (last : Option ℕ) (a : Attempt) : List (ℕ × ℕ) :=
  ranges a.INDEXER_BATCH_BLOCKS a.head (a.head + 1 - P.resolveStartBlock last a.fallbackHead)
    (P.resolveStartBlock last a.fallbackHead)

theorem tiles_queries (last : Option ℕ) (a : Attempt) :
    Tiles (P.resolveStartBlock last a.fallbackHead) a.head (P.queries last a) :=
  tiles_ranges _ _ _ _ (by omega)

/-- The writes of a loop are those of its ranges. -/
theorem indexLoop_eq (batchSize toBlock turns cursor : ℕ) :
    P.indexLoop batchSize toBlock turns cursor =
      (ranges batchSize toBlock turns cursor).flatMap fun r =>
        (P.getLogs r.1 r.2).map .handle ++ [.setMeta r.2] := by
  induction turns generalizing cursor with
  | zero => rfl
  | succ turns ih =>
    rw [indexLoop, ranges]
    by_cases hcursor : cursor ≤ toBlock
    · rw [if_pos hcursor, if_pos hcursor, List.flatMap_cons, ih, List.append_assoc]
      rfl
    · rw [if_neg hcursor, if_neg hcursor]
      rfl

theorem indexRange_eq (last : Option ℕ) (a : Attempt) :
    P.indexRange a.INDEXER_BATCH_BLOCKS (P.resolveStartBlock last a.fallbackHead) a.head =
      (P.queries last a).flatMap fun r => (P.getLogs r.1 r.2).map .handle ++ [.setMeta r.2] :=
  P.indexLoop_eq _ _ _ _

/-! ### What a run has handled -/

/-- The indexed logs of the blocks from `lo` up to but not including `hi`. -/
def logsBefore (lo hi : ℕ) : List MinedLog :=
  P.chain.filter fun l => lo ≤ l.blockNumber ∧ l.blockNumber < hi

/-- The log whose `handleLog` returns in this step. -/
def returned : Indexing × Tick → Option MinedLog
  | (s, .call fails) =>
    match s.pending with
    | .handle l :: _ =>
      if (storeCalls P.provider fails (statements P.ctx l.toProvenance P.provider l.event)
        s.store).isSome then some l
      else none
    | _ => none
  | (_, .wake ..) => none

/-- The logs whose `handleLog` has returned, in the order of the returns. -/
def completed (s₀ : Indexing) (ticks : List Tick) : List MinedLog :=
  (visits P.step s₀ ticks).filterMap P.returned

variable {P}

theorem mem_logsBefore {lo hi : ℕ} {l : MinedLog} :
    l ∈ P.logsBefore lo hi ↔ l ∈ P.chain ∧ lo ≤ l.blockNumber ∧ l.blockNumber < hi := by
  rw [logsBefore, List.mem_filter, decide_eq_true_eq]

theorem getLogs_eq_logsBefore (lo hi : ℕ) : P.getLogs lo hi = P.logsBefore lo (hi + 1) := by
  unfold getLogs logsBefore
  simp only [Nat.lt_succ_iff]

theorem logsBefore_self (lo hi : ℕ) (h : hi ≤ lo) : P.logsBefore lo hi = [] := by
  rw [logsBefore, List.filter_eq_nil_iff]
  intro l _
  rw [decide_eq_true_eq]
  omega

/-- In a chain in order the logs of adjacent ranges are adjacent. -/
theorem logsBefore_append (hchain : P.chain.Pairwise fun l l' => l.blockNumber ≤ l'.blockNumber)
    {lo mid hi : ℕ} (hlow : lo ≤ mid) (hup : mid ≤ hi) :
    P.logsBefore lo mid ++ P.logsBefore mid hi = P.logsBefore lo hi := by
  unfold logsBefore
  generalize P.chain = chain at hchain
  induction chain with
  | nil => rfl
  | cons l ls ih =>
    obtain ⟨hl, hls⟩ := List.pairwise_cons.1 hchain
    have ih := ih hls
    by_cases hmid : l.blockNumber < mid
    · have hright : ¬ (mid ≤ l.blockNumber ∧ l.blockNumber < hi) := by omega
      have hsame : (lo ≤ l.blockNumber ∧ l.blockNumber < mid) ↔
          lo ≤ l.blockNumber ∧ l.blockNumber < hi := by omega
      simp only [List.filter_cons, hright, hsame, decide_false, Bool.false_eq_true, if_false]
      split_ifs
      · rw [List.cons_append, ih]
      · exact ih
    · -- from here on nothing is below `mid`
      have hnone : (l :: ls).filter (fun l => lo ≤ l.blockNumber ∧ l.blockNumber < mid) = [] := by
        rw [List.filter_eq_nil_iff]
        intro l' hl'
        rw [decide_eq_true_eq]
        rcases List.mem_cons.1 hl' with rfl | hl'
        · omega
        · have := hl l' hl'
          omega
      rw [hnone, List.nil_append]
      apply List.filter_congr
      intro l' hl'
      rw [decide_eq_decide]
      rcases List.mem_cons.1 hl' with rfl | hl'
      · omega
      · have := hl l' hl'
        omega

end Poller

/-- A relation between the logs of a range and the handled logs that grows with both. -/
structure Keeps (R : List MinedLog → List MinedLog → Prop) : Prop where
  nil : ∀ done, R [] done
  snoc : ∀ {logs done} (l : MinedLog), R logs done → R (logs ++ [l]) (done ++ [l])
  grow : ∀ {logs done} (more : List MinedLog), R logs done → R logs (done ++ more)

theorem keeps_sublist : Keeps List.Sublist where
  nil := List.nil_sublist
  snoc := fun _ h => h.append (List.Sublist.refl _)
  grow := fun _ h => h.trans (List.sublist_append_left _ _)

/-- A cursor that `resolveStartBlock` resumes from. -/
def Indexing.HasCursor (x : Indexing) : Prop := ∃ b, x.lastBlock = some b ∧ 0 < b

/-- A head that an attempt of the history has seen. -/
def Seen (h : List (Indexing × Tick)) (n : ℕ) : Prop :=
  ∃ v ∈ h, ∃ a r, v.2 = Tick.wake a r ∧ a.head = n

theorem Seen.mono {h h' : List (Indexing × Tick)} {n : ℕ} (hn : Seen h n) : Seen (h ++ h') n := by
  obtain ⟨v, hv, hseen⟩ := hn
  exact ⟨v, List.mem_append_left _ hv, hseen⟩

namespace Poller

/-- An attempt within the batch from `c` to `upper`, of which `x.batch` has been handled. -/
structure Underway (R : List MinedLog → List MinedLog → Prop) (P : Poller) (s : ℕ)
    (h : List (Indexing × Tick)) (x : Indexing) (c upper toBlock : ℕ) : Prop where
  swept : R (P.logsBefore s c ++ x.batch) (h.filterMap P.returned)
  start_le : s ≤ c
  le_upper : c ≤ upper
  upper_le : upper ≤ toBlock
  seen : Seen h toBlock
  cursor_le : ∀ b, x.lastBlock = some b → b ≤ upper
  pending : ∃ rest batchSize turns next, x.batch ++ rest = P.getLogs c upper ∧
    (next = upper + 1 ∨ toBlock < next) ∧
    x.pending <+: rest.map .handle ++ .setMeta upper :: P.indexLoop batchSize toBlock turns next

/-- The logs from block `s` to the cursor have been handled, and an attempt goes on from there. -/
structure Swept (R : List MinedLog → List MinedLog → Prop) (P : Poller) (s : ℕ) (last₀ : Option ℕ)
    (h : List (Indexing × Tick)) (x : Indexing) : Prop where
  covered : ∀ b, x.lastBlock = some b → R (P.getLogs s b) (h.filterMap P.returned)
  seen : ∀ b, x.lastBlock = some b → last₀ = some b ∨ ∃ n, Seen h n ∧ b ≤ n
  start_le : ∀ b, x.lastBlock = some b → 0 < b → s ≤ b + 1
  ahead : x.pending = [] ∨ ∃ c upper toBlock, Underway R P s h x c upper toBlock

/-- Where an attempt begun in `x` may start. -/
def Resumes (R : List MinedLog → List MinedLog → Prop) (P : Poller) (s : ℕ)
    (h : List (Indexing × Tick)) (x : Indexing) (fallbackHead : ℕ) : Prop :=
  x.HasCursor ∨
    s ≤ P.firstBlock fallbackHead ∧
    R (P.logsBefore s (P.firstBlock fallbackHead)) (h.filterMap P.returned)

variable {R : List MinedLog → List MinedLog → Prop} {P : Poller} {s : ℕ} {last₀ : Option ℕ}
  {h : List (Indexing × Tick)} {x : Indexing}

/-- The loop from `c`, once everything below `c` has been handled. -/
theorem underway_of_indexLoop {batchSize toBlock turns c : ℕ} (hbatch : x.batch = [])
    (hswept : R (P.logsBefore s c) (h.filterMap P.returned)) (hlow : s ≤ c) (hseen : Seen h toBlock)
    (hcursor : ∀ b, x.lastBlock = some b → b ≤ c)
    (hpending : x.pending <+: P.indexLoop batchSize toBlock turns c) :
    x.pending = [] ∨ ∃ c upper toBlock, Underway R P s h x c upper toBlock := by
  cases turns with
  | zero => exact .inl (List.prefix_nil.1 hpending)
  | succ turns =>
    by_cases hc : c ≤ toBlock
    · right
      rw [indexLoop, if_pos hc] at hpending
      dsimp only at hpending
      have hupper : c ≤ (if c + batchSize > toBlock then toBlock else c + batchSize) ∧
          (if c + batchSize > toBlock then toBlock else c + batchSize) ≤ toBlock := by
        split_ifs <;> omega
      refine ⟨c, _, toBlock, ?_, hlow, hupper.1, hupper.2, hseen, ?_, _, batchSize, turns, _,
        ?_, ?_, hpending⟩
      · rw [hbatch, List.append_nil]
        exact hswept
      · intro b hb
        exact (hcursor b hb).trans hupper.1
      · rw [hbatch]
        rfl
      · split_ifs <;> omega
    · left
      rw [indexLoop, if_neg hc] at hpending
      exact List.prefix_nil.1 hpending

/-- An attempt starts where the sweep has got to. -/
theorem Swept.start (hx : Swept R P s last₀ h x) {fallbackHead : ℕ}
    (hresumes : Resumes R P s h x fallbackHead) :
    s ≤ P.resolveStartBlock x.lastBlock fallbackHead ∧
      R (P.logsBefore s (P.resolveStartBlock x.lastBlock fallbackHead)) (h.filterMap P.returned) ∧
      ∀ b, x.lastBlock = some b → b ≤ P.resolveStartBlock x.lastBlock fallbackHead := by
  unfold Resumes Indexing.HasCursor at hresumes
  unfold resolveStartBlock
  cases hlast : x.lastBlock with
  | none =>
    rw [hlast] at hresumes
    obtain ⟨b, hb, -⟩ | hfirst := hresumes
    · exact absurd hb (by simp)
    · exact ⟨hfirst.1, hfirst.2, by simp⟩
  | some b =>
    rw [hlast] at hresumes
    dsimp only
    by_cases hb : b > 0
    · rw [if_pos hb, ← getLogs_eq_logsBefore]
      refine ⟨hx.start_le b hlast hb, hx.covered b hlast, ?_⟩
      intro b' hb'
      obtain rfl := Option.some.inj hb'
      exact Nat.le_succ b
    · rw [if_neg hb]
      obtain ⟨b', hb', hpos⟩ | hfirst := hresumes
      · obtain rfl := Option.some.inj hb'
        exact absurd hpos hb
      · refine ⟨hfirst.1, hfirst.2, ?_⟩
        intro b' hb'
        obtain rfl := Option.some.inj hb'
        omega

theorem writes_isPrefix (last : Option ℕ) (a : Attempt) :
    P.writes last a <+: P.indexRange a.INDEXER_BATCH_BLOCKS
      (P.resolveStartBlock last a.fallbackHead) a.head := by
  unfold writes
  dsimp only
  split
  · exact List.take_prefix _ _
  · exact List.prefix_rfl

theorem writes_of_unstopped (last : Option ℕ) {a : Attempt} (h : a.stopsAfter = none) :
    P.writes last a = P.indexRange a.INDEXER_BATCH_BLOCKS
      (P.resolveStartBlock last a.fallbackHead) a.head := by
  unfold writes
  rw [h]

section
variable (hR : Keeps R)
include hR

/-- One more step of history, the cursor as it was. -/
theorem Swept.next (hx : Swept R P s last₀ h x) (v : Indexing × Tick) {x' : Indexing}
    (hlast : x'.lastBlock = x.lastBlock)
    (hahead : x'.pending = [] ∨ ∃ c upper toBlock, Underway R P s (h ++ [v]) x' c upper toBlock) :
    Swept R P s last₀ (h ++ [v]) x' where
  covered := by
    intro b hb
    rw [List.filterMap_append]
    exact hR.grow _ (hx.covered b (hlast ▸ hb))
  seen := by
    intro b hb
    refine (hx.seen b (hlast ▸ hb)).imp_right fun hn => ?_
    obtain ⟨n, hn, hle⟩ := hn
    exact ⟨n, hn.mono, hle⟩
  start_le := hlast ▸ hx.start_le
  ahead := hahead

theorem Swept.wake (hx : Swept R P s last₀ h x) {a : Attempt} {readFails : Bool}
    (hread : readFails = true → P.provider = .sqlite)
    (hresumes : Resumes R P s h x a.fallbackHead) :
    Swept R P s last₀ (h ++ [(x, .wake a readFails)]) (P.wake x a readFails) := by
  unfold Poller.wake
  cases readFails with
  | true =>
    rw [hread rfl]
    exact hx.next hR _ rfl (.inl rfl)
  | false =>
    obtain ⟨hlow, hswept, hcursor⟩ := hx.start hresumes
    refine hx.next hR _ rfl
      (underway_of_indexLoop rfl ?_ hlow ?_ hcursor (writes_isPrefix x.lastBlock a))
    · rw [List.filterMap_append]
      exact hR.grow _ hswept
    · exact ⟨_, List.mem_append_right _ (List.mem_singleton_self _), a, false, rfl, rfl⟩

theorem Swept.handle (hx : Swept R P s last₀ h x) {l : MinedLog} {rest : List IndexerWrite}
    (hpending : x.pending = .handle l :: rest) (fails : ℕ → Bool) :
    Swept R P s last₀ (h ++ [(x, .call fails)]) (P.handle x l rest fails) := by
  have hreturned : P.returned (x, .call fails) =
      if (storeCalls P.provider fails (statements P.ctx l.toProvenance P.provider l.event)
        x.store).isSome then some l
      else none := by
    unfold returned
    dsimp only
    rw [hpending]
  unfold Poller.handle
  dsimp only
  cases hcalls : storeCalls P.provider fails
    (statements P.ctx l.toProvenance P.provider l.event) x.store with
  | none => exact hx.next hR _ rfl (.inl rfl)
  | some r =>
    rw [hcalls] at hreturned
    refine hx.next hR _ rfl (.inr ?_)
    rcases hx.ahead with hnil | ⟨c, upper, toBlock, hu⟩
    · exact absurd (hpending.symm.trans hnil) (by simp)
    obtain ⟨logs, batchSize, turns, next, hbatch, hnext, hprefix⟩ := hu.pending
    obtain ⟨logs, rfl, hleft⟩ := exists_of_handle_prefix (hpending ▸ hprefix)
    refine ⟨c, upper, toBlock, ?_, hu.start_le, hu.le_upper, hu.upper_le, hu.seen.mono,
      hu.cursor_le, logs, batchSize, turns, next, ?_, hnext, hleft⟩
    · rw [List.filterMap_append, List.filterMap_cons_some hreturned, List.filterMap_nil,
        ← List.append_assoc]
      exact hR.snoc l hu.swept
    · rw [← hbatch]
      exact List.append_assoc _ _ _

theorem Swept.writeCursor (hchain : P.chain.Pairwise fun l l' => l.blockNumber ≤ l'.blockNumber)
    (hx : Swept R P s last₀ h x) {upper : ℕ} {rest : List IndexerWrite}
    (hpending : x.pending = .setMeta upper :: rest) (fails : ℕ → Bool) :
    Swept R P s last₀ (h ++ [(x, .call fails)]) (P.writeCursor x upper rest (fails 0)) := by
  rcases hx.ahead with hnil | ⟨c, upper', toBlock, hu⟩
  · exact absurd (hpending.symm.trans hnil) (by simp)
  obtain ⟨logs, batchSize, turns, next, hbatch, hnext, hprefix⟩ := hu.pending
  obtain ⟨rfl, rfl, hleft⟩ := of_setMeta_prefix (hpending ▸ hprefix)
  -- the batch is complete
  have hrange : R (P.getLogs s upper) ((h ++ [(x, Tick.call fails)]).filterMap P.returned) := by
    have hswept := hu.swept
    rw [List.append_nil] at hbatch
    rw [hbatch, getLogs_eq_logsBefore,
      logsBefore_append hchain hu.start_le (Nat.le_succ_of_le hu.le_upper)] at hswept
    rw [getLogs_eq_logsBefore, List.filterMap_append]
    exact hR.grow _ hswept
  have hlater : ∀ {x' : Indexing}, x'.batch = [] → x'.pending = rest →
      (∀ b, x'.lastBlock = some b → x.lastBlock = some b ∨ b = upper) →
      x'.pending = [] ∨ ∃ c upper toBlock,
        Underway R P s (h ++ [(x, Tick.call fails)]) x' c upper toBlock := by
    intro x' hbatch' hpending' hlast'
    rcases hnext with rfl | hnext
    · refine underway_of_indexLoop (c := upper + 1) hbatch' ?_ ?_ hu.seen.mono ?_
        (hpending' ▸ hleft)
      · rw [← getLogs_eq_logsBefore]
        exact hrange
      · exact hu.start_le.trans (Nat.le_succ_of_le hu.le_upper)
      · intro b hb
        rcases hlast' b hb with hb | rfl
        · exact Nat.le_succ_of_le (hu.cursor_le b hb)
        · exact Nat.le_succ b
    · rw [indexLoop_of_lt hnext] at hleft
      exact .inl (hpending'.trans (List.prefix_nil.1 hleft))
  unfold Poller.writeCursor
  dsimp only
  split
  · refine ⟨?_, ?_, ?_, hlater rfl rfl ?_⟩
    · intro b hb
      obtain rfl := Option.some.inj hb
      exact hrange
    · intro b hb
      obtain rfl := Option.some.inj hb
      exact .inr ⟨toBlock, hu.seen.mono, hu.upper_le⟩
    · intro b hb _
      obtain rfl := Option.some.inj hb
      exact hu.start_le.trans (Nat.le_succ_of_le hu.le_upper)
    · intro b hb
      exact .inr (Option.some.inj hb).symm
  · exact hx.next hR _ rfl (.inl rfl)
  · exact hx.next hR _ rfl (hlater rfl rfl fun b hb => .inl hb)

/-- The step lemma. -/
theorem Swept.step (hchain : P.chain.Pairwise fun l l' => l.blockNumber ≤ l'.blockNumber)
    (hx : Swept R P s last₀ h x) (t : Tick)
    (hwake : ∀ a readFails, t = .wake a readFails →
      (readFails = true → P.provider = .sqlite) ∧ Resumes R P s h x a.fallbackHead) :
    Swept R P s last₀ (h ++ [(x, t)]) (P.step x t) := by
  cases t with
  | wake a readFails =>
    obtain ⟨hread, hresumes⟩ := hwake a readFails rfl
    exact hx.wake hR hread hresumes
  | call fails =>
    unfold Poller.step
    cases hpending : x.pending with
    | nil => exact hx.next hR _ rfl (.inl hpending)
    | cons op rest =>
      cases op with
      | handle l => exact hx.handle hR hpending fails
      | setMeta upper => exact hx.writeCursor hR hchain hpending fails

end

/-- A step never takes the cursor back. -/
theorem Swept.lastBlock_le (hx : Swept R P s last₀ h x) (t : Tick) {b : ℕ}
    (hb : x.lastBlock = some b) :
    ∃ b', (P.step x t).lastBlock = some b' ∧ b ≤ b' := by
  cases t with
  | wake a readFails =>
    refine ⟨b, ?_, le_rfl⟩
    show (P.wake x a readFails).lastBlock = some b
    unfold Poller.wake
    split <;> exact hb
  | call fails =>
    unfold Poller.step
    cases hpending : x.pending with
    | nil => exact ⟨b, hb, le_rfl⟩
    | cons op rest =>
      cases op with
      | handle l =>
        refine ⟨b, ?_, le_rfl⟩
        show (P.handle x l rest fails).lastBlock = some b
        unfold Poller.handle
        dsimp only
        split <;> exact hb
      | setMeta upper =>
        rcases hx.ahead with hnil | ⟨c, upper', toBlock, hu⟩
        · exact absurd (hpending.symm.trans hnil) (by simp)
        have hle := hu.cursor_le b hb
        obtain ⟨logs, batchSize, turns, next, -, -, hprefix⟩ := hu.pending
        obtain ⟨-, rfl, -⟩ := of_setMeta_prefix (hpending ▸ hprefix)
        show ∃ b', (P.writeCursor x upper rest (fails 0)).lastBlock = some b' ∧ b ≤ b'
        unfold Poller.writeCursor
        dsimp only
        split
        · exact ⟨upper, rfl, hle⟩
        · exact ⟨b, hb, le_rfl⟩
        · exact ⟨b, hb, le_rfl⟩

theorem Swept.hasCursor_step (hx : Swept R P s last₀ h x) (t : Tick) (hcursor : x.HasCursor) :
    (P.step x t).HasCursor := by
  obtain ⟨b, hb, hpos⟩ := hcursor
  obtain ⟨b', hb', hle⟩ := hx.lastBlock_le t hb
  exact ⟨b', hb', hpos.trans_le hle⟩

/-! ### A configured start, or a cursor -/

end Poller

/-- The indexer when the process starts. -/
def Indexing.resumed (s : IndexerState) : Indexing := ⟨s, [], [], [], [], []⟩

/-- The block that indexing starts at: the configured one or the one after the cursor. `reset` is
the state that `reindexFromGenesis` leaves before its `catchUp`. -/
inductive StartsAt (P : Poller) : Option ℕ → ℕ → Prop
  | configured {s : ℕ} (h : P.startBlock = some s) : StartsAt P none s
  | cursor {b : ℕ} (h : 0 < b) : StartsAt P (some b) (b + 1)
  | reset {s : ℕ} (h : P.startBlock = some s) (hs : 0 < s) : StartsAt P (some 0) s

namespace Poller
variable {P : Poller} {R : List MinedLog → List MinedLog → Prop} {s : ℕ} {last₀ : Option ℕ}
  {store : Store}

theorem swept_resumed (hR : Keeps R) (hlast : ∀ b, last₀ = some b → b < s ∧ (0 < b → s = b + 1)) :
    Swept R P s last₀ [] (.resumed ⟨store, last₀⟩) where
  covered := by
    intro b hb
    rw [getLogs_eq_logsBefore, logsBefore_self s (b + 1) (hlast b hb).1]
    exact hR.nil _
  seen := fun b hb => .inl hb
  start_le := fun b hb hpos => ((hlast b hb).2 hpos).le
  ahead := .inl rfl

/-- The run lemma. -/
theorem swept_run (hR : Keeps R)
    (hchain : P.chain.Pairwise fun l l' => l.blockNumber ≤ l'.blockNumber)
    (hstart : StartsAt P last₀ s) (ticks : List Tick)
    (hread : ∀ a, Tick.wake a true ∈ ticks → P.provider = .sqlite) :
    Swept R P s last₀ (visits P.step (.resumed ⟨store, last₀⟩) ticks)
      (run P.step (.resumed ⟨store, last₀⟩) ticks) := by
  have hresumes : ∀ {h : List (Indexing × Tick)} {x : Indexing} {fallbackHead : ℕ},
      (x.HasCursor ∨ P.startBlock = some s) → Resumes R P s h x fallbackHead := by
    intro h x fallbackHead hx
    refine hx.imp_right fun hblock => ?_
    rw [firstBlock_eq hblock, logsBefore_self s s le_rfl]
    exact ⟨le_rfl, hR.nil _⟩
  have hinit : Swept R P s last₀ [] (.resumed ⟨store, last₀⟩) ∧
      ((Indexing.resumed ⟨store, last₀⟩).HasCursor ∨ P.startBlock = some s) := by
    cases hstart with
    | configured hblock => exact ⟨swept_resumed hR (by simp), .inr hblock⟩
    | cursor hpos => exact ⟨swept_resumed hR (by simp), .inl ⟨_, rfl, hpos⟩⟩
    | reset hblock hs => exact ⟨swept_resumed hR (by simpa using hs), .inr hblock⟩
  refine (prefix_induction (C := fun _ _ t => ∀ a, t = .wake a true → P.provider = .sqlite)
    (J := fun h x => Swept R P s last₀ h x ∧ (x.HasCursor ∨ P.startBlock = some s))
    hinit ?_ ticks ?_).1
  · intro h x t hJ hC
    obtain ⟨hx, hcursor⟩ := hJ
    refine ⟨hx.step hR hchain t ?_, hcursor.imp_left fun hcursor => hx.hasCursor_step t hcursor⟩
    rintro a readFails rfl
    exact ⟨fun hfails => hC a (hfails ▸ rfl), hresumes hcursor⟩
  · intro pre t hpre a ht
    apply hread a
    apply hpre.subset
    rw [ht]
    exact List.mem_append_right _ (List.mem_singleton_self _)

end Poller

open Poller in
/-- With a configured start block or a cursor above 0, for every batch size, any heads and any calls
that fail or are cut off: the ranges of one attempt tile the blocks from its start to its head, and
its writes are those of its ranges until something stops it; the persisted cursor never goes back
and never passes a head that has been seen; and when it is at `b`, `handleLog` has returned for
every log of the blocks from the start to `b`, in the order of the chain. -/
theorem poller_gapless {P : Poller}
    (hchain : P.chain.Pairwise fun l l' => l.blockNumber ≤ l'.blockNumber) {store : Store}
    {last₀ : Option ℕ} {s : ℕ} (hstart : StartsAt P last₀ s) (ticks : List Tick)
    (hread : ∀ a, Tick.wake a true ∈ ticks → P.provider = .sqlite) :
    (∀ last a, Tiles (P.resolveStartBlock last a.fallbackHead) a.head (P.queries last a) ∧
      P.writes last a <+:
        ((P.queries last a).flatMap fun r => (P.getLogs r.1 r.2).map .handle ++ [.setMeta r.2]) ∧
      (a.stopsAfter = none → P.writes last a =
        (P.queries last a).flatMap fun r => (P.getLogs r.1 r.2).map .handle ++ [.setMeta r.2])) ∧
    ∀ b, (run P.step (.resumed ⟨store, last₀⟩) ticks).lastBlock = some b →
      (∀ t, ∃ b', (run P.step (.resumed ⟨store, last₀⟩) (ticks ++ [t])).lastBlock = some b' ∧
        b ≤ b') ∧
      (last₀ = some b ∨ ∃ a readFails, Tick.wake a readFails ∈ ticks ∧ b ≤ a.head) ∧
      (P.getLogs s b).Sublist (P.completed (.resumed ⟨store, last₀⟩) ticks) := by
  have hswept : Swept (List.Sublist) P s last₀ (visits P.step (.resumed ⟨store, last₀⟩) ticks)
      (run P.step (.resumed ⟨store, last₀⟩) ticks) :=
    swept_run keeps_sublist hchain hstart ticks hread
  refine ⟨?_, ?_⟩
  · intro last a
    refine ⟨P.tiles_queries last a, P.indexRange_eq last a ▸ writes_isPrefix last a, ?_⟩
    intro hwhole
    rw [← P.indexRange_eq last a, writes_of_unstopped last hwhole]
  · intro b hb
    refine ⟨?_, ?_, hswept.covered b hb⟩
    · intro t
      rw [run_concat]
      exact hswept.lastBlock_le t hb
    · refine (hswept.seen b hb).imp_right ?_
      rintro ⟨n, ⟨v, hv, a, readFails, ht, rfl⟩, hle⟩
      obtain ⟨pre, post, hsplit, -⟩ := exists_split_of_mem_visits hv
      refine ⟨a, readFails, ?_, hle⟩
      rw [hsplit, ht]
      exact List.mem_append_right _ List.mem_cons_self

/-! ### The start taken from the head -/

def Tick.fallbackHead : Tick → Option ℕ
  | .wake a _ => some a.fallbackHead
  | .call _ => none

theorem fallbackHeads_cons (a : Attempt) (readFails : Bool) (ticks : List Tick) :
    (Tick.wake a readFails :: ticks).filterMap Tick.fallbackHead =
      a.fallbackHead :: ticks.filterMap Tick.fallbackHead := rfl

namespace Poller
variable {P : Poller} {n : ℕ} {x : Indexing}

theorem firstBlock_mono {m n : ℕ} (h : m ≤ n) : P.firstBlock m ≤ P.firstBlock n := by
  unfold firstBlock
  split
  · exact le_rfl
  · exact le_rfl
  · split_ifs <;> omega

/-- Nothing below block `n` is asked for any more. -/
structure Above (n : ℕ) (x : Indexing) : Prop where
  handles : ∀ l, .handle l ∈ x.pending → n ≤ l.blockNumber
  cursors : ∀ b, .setMeta b ∈ x.pending → n ≤ b
  persisted : ∀ b, x.lastBlock = some b → 0 < b → n ≤ b

theorem le_of_mem_writes {last : Option ℕ} {a : Attempt} {op : IndexerWrite}
    (hop : op ∈ P.writes last a) :
    (∀ l, op = .handle l → P.resolveStartBlock last a.fallbackHead ≤ l.blockNumber) ∧
      ∀ b, op = .setMeta b → P.resolveStartBlock last a.fallbackHead ≤ b := by
  have hmem := (writes_isPrefix last a).subset hop
  rw [indexRange_eq, List.mem_flatMap] at hmem
  obtain ⟨r, hr, hop⟩ := hmem
  have htiles := P.tiles_queries last a
  have hlow := ((htiles.covers r.1).1 ⟨r, hr, le_rfl, htiles.nonempty r hr⟩).1
  rcases List.mem_append.1 hop with hop | hop
  · obtain ⟨l, hl, rfl⟩ := List.mem_map.1 hop
    refine ⟨?_, by simp⟩
    intro l' hl'
    obtain rfl := IndexerWrite.handle.inj hl'
    rw [getLogs_eq_logsBefore, mem_logsBefore] at hl
    exact hlow.trans hl.2.1
  · obtain rfl := List.mem_singleton.1 hop
    refine ⟨by simp, ?_⟩
    intro b hb
    obtain rfl := IndexerWrite.setMeta.inj hb
    exact hlow.trans (htiles.nonempty r hr)

theorem above_wake (hpersisted : ∀ b, x.lastBlock = some b → 0 < b → n ≤ b) {a : Attempt}
    {readFails : Bool} (hhead : n ≤ P.firstBlock a.fallbackHead)
    (hread : readFails = true → P.provider = .sqlite) :
    Above n (P.wake x a readFails) := by
  unfold Poller.wake
  cases readFails with
  | true =>
    rw [hread rfl]
    exact ⟨by simp, by simp, hpersisted⟩
  | false =>
    have hstart : n ≤ P.resolveStartBlock x.lastBlock a.fallbackHead := by
      unfold resolveStartBlock
      cases hlast : x.lastBlock with
      | none => exact hhead
      | some b =>
        dsimp only
        split_ifs with hb
        · exact Nat.le_succ_of_le (hpersisted b hlast hb)
        · exact hhead
    refine ⟨?_, ?_, hpersisted⟩
    · intro l hl
      exact hstart.trans ((le_of_mem_writes hl).1 l rfl)
    · intro b hb
      exact hstart.trans ((le_of_mem_writes hb).2 b rfl)

theorem Above.step (hx : Above n x) (t : Tick)
    (hhead : ∀ m, t.fallbackHead = some m → n ≤ P.firstBlock m)
    (hread : ∀ a, t = .wake a true → P.provider = .sqlite) : Above n (P.step x t) := by
  cases t with
  | wake a readFails =>
    exact above_wake hx.persisted (hhead a.fallbackHead rfl) fun hfails => hread a (hfails ▸ rfl)
  | call fails =>
    unfold Poller.step
    cases hpending : x.pending with
    | nil => exact hx
    | cons op rest =>
      have hrest : rest ⊆ x.pending := hpending ▸ List.subset_cons_self _ _
      have hhandles : ∀ l, .handle l ∈ rest → n ≤ l.blockNumber :=
        fun l hl => hx.handles l (hrest hl)
      have hcursors : ∀ b, .setMeta b ∈ rest → n ≤ b := fun b hb => hx.cursors b (hrest hb)
      cases op with
      | handle l =>
        show Above n (P.handle x l rest fails)
        unfold Poller.handle
        dsimp only
        split
        · exact ⟨by simp, by simp, hx.persisted⟩
        · exact ⟨hhandles, hcursors, hx.persisted⟩
      | setMeta upper =>
        show Above n (P.writeCursor x upper rest (fails 0))
        unfold Poller.writeCursor
        dsimp only
        split
        · refine ⟨hhandles, hcursors, ?_⟩
          intro b hb _
          obtain rfl := Option.some.inj hb
          exact hx.cursors upper (hpending ▸ List.mem_cons_self)
        · exact ⟨by simp, by simp, hx.persisted⟩
        · exact ⟨hhandles, hcursors, hx.persisted⟩

/-- What returns is the first of the pending logs. -/
theorem mem_pending_of_returned {t : Tick} {l : MinedLog} (h : P.returned (x, t) = some l) :
    .handle l ∈ x.pending := by
  cases t with
  | wake a readFails => exact absurd h (by simp [returned])
  | call fails =>
    unfold returned at h
    dsimp only at h
    split at h
    · rename_i l' rest hpending
      split_ifs at h
      obtain rfl := Option.some.inj h
      rw [hpending]
      exact List.mem_cons_self
    · exact absurd h (by simp)

theorem Above.completed (hx : Above n x) (ticks : List Tick)
    (hheads : ∀ t ∈ ticks, ∀ m, t.fallbackHead = some m → n ≤ P.firstBlock m)
    (hread : ∀ a, Tick.wake a true ∈ ticks → P.provider = .sqlite) :
    ∀ l ∈ P.completed x ticks, n ≤ l.blockNumber := by
  induction ticks generalizing x with
  | nil => simp [Poller.completed]
  | cons t ticks ih =>
    obtain ⟨hhead, hheads⟩ := List.forall_mem_cons.1 hheads
    have hnext := hx.step t hhead fun a ht => hread a (ht ▸ List.mem_cons_self)
    intro l hl
    unfold Poller.completed at hl
    rw [visits_cons, List.filterMap_cons] at hl
    have hlater := ih hnext hheads (fun a ha => hread a (List.mem_cons_of_mem _ ha)) l
    cases hreturned : P.returned (x, t) with
    | none =>
      rw [hreturned] at hl
      exact hlater hl
    | some l' =>
      rw [hreturned] at hl
      rcases List.mem_cons.1 hl with rfl | hl
      · exact hx.handles l (mem_pending_of_returned hreturned)
      · exact hlater hl

theorem completed_append (x₀ : Indexing) (pre more : List Tick) :
    P.completed x₀ (pre ++ more) = P.completed x₀ pre ++ P.completed (run P.step x₀ pre) more := by
  unfold completed
  rw [visits_append, List.filterMap_append]

end Poller

open Poller in
/-- When the persisted cursor has passed the block of a log at or after the first attempt's start,
the log has been handled exactly when every attempt that began without a cursor and started above it
did so after it had been handled. -/
theorem fallback_keeps_iff {P : Poller}
    (hchain : P.chain.Pairwise fun l l' => l.blockNumber ≤ l'.blockNumber) {store : Store}
    {first : Attempt} {ticks : List Tick}
    (hheads : ((Tick.wake first false :: ticks).filterMap Tick.fallbackHead).Pairwise (· ≤ ·))
    (hread : ∀ a, Tick.wake a true ∈ Tick.wake first false :: ticks → P.provider = .sqlite)
    {l : MinedLog} (hl : l ∈ P.chain) (hlow : P.firstBlock first.fallbackHead ≤ l.blockNumber)
    {b : ℕ}
    (hb : (run P.step (.resumed ⟨store, none⟩) (.wake first false :: ticks)).lastBlock = some b)
    (hle : l.blockNumber ≤ b) :
    l ∈ P.completed (.resumed ⟨store, none⟩) (.wake first false :: ticks) ↔
      ∀ pre a readFails, pre ++ [Tick.wake a readFails] <+: .wake first false :: ticks →
        ¬ (run P.step (.resumed ⟨store, none⟩) pre).HasCursor →
          l.blockNumber < P.firstBlock a.fallbackHead →
          l ∈ P.completed (.resumed ⟨store, none⟩) pre := by
  generalize hall : Tick.wake first false :: ticks = all at hheads hread hb ⊢
  constructor
  · intro hdone pre a readFails hpre hfresh habove
    obtain ⟨more, rfl⟩ := hpre
    rw [List.append_assoc, List.singleton_append] at hheads hread hdone
    rw [List.filterMap_append, fallbackHeads_cons, List.pairwise_append] at hheads
    have hlater := (List.pairwise_cons.1 hheads.2.1).1
    have hwake : Above (P.firstBlock a.fallbackHead)
        (P.wake (run P.step (.resumed ⟨store, none⟩) pre) a readFails) := by
      apply above_wake _ le_rfl
      · rintro rfl
        exact hread a (List.mem_append_right _ List.mem_cons_self)
      · intro b' hb' hpos
        exact absurd ⟨b', hb', hpos⟩ hfresh
    rw [completed_append] at hdone
    refine (List.mem_append.1 hdone).resolve_right ?_
    -- from this attempt on only logs from its start on are handled
    intro hdone
    refine absurd (hwake.completed more ?_ ?_ l hdone) (Nat.not_le.2 habove)
    · intro t ht m hm
      exact firstBlock_mono (hlater m (List.mem_filterMap.2 ⟨t, ht, hm⟩))
    · intro a' ha'
      exact hread a' (List.mem_append_right _ (List.mem_cons_of_mem _ ha'))
  · intro hcond
    have hR : Keeps fun logs done => l ∈ logs → l ∈ done := by
      refine ⟨by simp, ?_, fun _ h hmem => List.mem_append_left _ (h hmem)⟩
      intro logs done l' h hmem
      rcases List.mem_append.1 hmem with hmem | hmem
      · exact List.mem_append_left _ (h hmem)
      · exact List.mem_append_right _ hmem
    have hswept :
        Swept (fun logs done => l ∈ logs → l ∈ done) P (P.firstBlock first.fallbackHead) none
        (visits P.step (.resumed ⟨store, none⟩) all) (run P.step (.resumed ⟨store, none⟩) all) := by
      refine prefix_induction (C := fun h x t => ∀ a readFails, t = .wake a readFails →
        (readFails = true → P.provider = .sqlite) ∧
          Resumes (fun logs done => l ∈ logs → l ∈ done) P (P.firstBlock first.fallbackHead) h x
            a.fallbackHead)
        (swept_resumed hR (by simp)) (fun h x t hx hC => hx.step hR hchain t hC) all ?_
      rintro pre t hpre a readFails rfl
      have hmem : Tick.wake a readFails ∈ all :=
        hpre.subset (List.mem_append_right _ (List.mem_singleton_self _))
      refine ⟨fun hfails => hread a (hfails ▸ hmem), ?_⟩
      by_cases hcursor : (run P.step (.resumed ⟨store, none⟩) pre).HasCursor
      · exact .inl hcursor
      refine .inr ⟨?_, ?_⟩
      · rw [← hall] at hheads hmem
        rw [fallbackHeads_cons, List.pairwise_cons] at hheads
        apply firstBlock_mono
        rcases List.mem_cons.1 hmem with hfirst | hmem
        · rw [(Tick.wake.inj hfirst).1]
        · exact hheads.1 _ (List.mem_filterMap.2 ⟨_, hmem, rfl⟩)
      · intro hmem
        exact hcond pre a readFails hpre hcursor (mem_logsBefore.1 hmem).2.2
    apply hswept.covered b hb
    rw [getLogs_eq_logsBefore, mem_logsBefore]
    exact ⟨hl, hlow, Nat.lt_succ_of_le hle⟩

end IntentGuard.Infra

namespace IntentGuard.Localnet

open Runs Infra

/-- An attempt that fails before its first log, and one that gets through. -/
def failedThenDone : List Tick :=
  [.wake (attempt none) false, .wake (attempt none) false, .call fun _ => false,
    .call fun _ => false]

/-- The agent's registration, in block 500. -/
def registrationLog : MinedLog where
  blockNumber := 500
  transactionHash := 1
  logIndex := 0
  event := .AgentRegistered agent operator []

/-- No start block is configured and none is in the manifest. -/
def fallbackPoller : Poller where
  ctx := ⟨fun _ => genesis.now, fun _ => []⟩
  provider := .sqlite
  INDEXER_START_BLOCK := none
  deployment := { manifest with startBlock := none }
  chain := [registrationLog]

def attemptAt (head : ℕ) : Attempt := { attempt none with head, fallbackHead := head }

/-- At head 1400 the call to `getLogs` fails; at head 1600 nothing does. -/
def movedHead : List Tick :=
  [.wake (attemptAt 1400) false, .wake (attemptAt 1600) false, .call fun _ => false]

/-- At head 1400 the call to `getLogs` fails, and the attempt is repeated at the same head. -/
def sameHead : List Tick :=
  [.wake (attemptAt 1400) false, .wake (attemptAt 1400) false, .call fun _ => false,
    .call fun _ => false]

end IntentGuard.Localnet

namespace IntentGuard.Infra

open Runs Localnet

/-- The theorem at a start block of 1. -/
theorem poller_gapless_failedThenDone :
    (∀ last a, Tiles (poller.resolveStartBlock last a.fallbackHead) a.head (poller.queries last a) ∧
      poller.writes last a <+:
        ((poller.queries last a).flatMap fun r => (poller.getLogs r.1 r.2).map .handle ++
          [.setMeta r.2]) ∧
      (a.stopsAfter = none → poller.writes last a =
        (poller.queries last a).flatMap fun r => (poller.getLogs r.1 r.2).map .handle ++
          [.setMeta r.2])) ∧
    ∀ b, (run poller.step (.resumed ⟨.empty, none⟩) failedThenDone).lastBlock = some b →
      (∀ t, ∃ b', (run poller.step (.resumed ⟨.empty, none⟩) (failedThenDone ++ [t])).lastBlock =
        some b' ∧ b ≤ b') ∧
      (none = some b ∨ ∃ a readFails, Tick.wake a readFails ∈ failedThenDone ∧ b ≤ a.head) ∧
      (poller.getLogs 1 b).Sublist (poller.completed (.resumed ⟨.empty, none⟩) failedThenDone) :=
  poller_gapless (List.pairwise_singleton _ _) (.configured rfl) failedThenDone fun _ _ => rfl

/-- The cursor is at 1600, the registration in block 500 is not handled, and the first attempt
started at 400. -/
theorem movedHead_lost :
    ¬ ∀ (P : Poller) (store : Store) (first : Attempt) (ticks : List Tick) (b : ℕ) (l : MinedLog),
      P.startBlock = none → P.chain.Pairwise (fun l l' => l.blockNumber ≤ l'.blockNumber) →
        ((Tick.wake first false :: ticks).filterMap Tick.fallbackHead).Pairwise (· ≤ ·) →
          (∀ a, Tick.wake a true ∈ Tick.wake first false :: ticks → P.provider = .sqlite) →
            (run P.step (.resumed ⟨store, none⟩) (.wake first false :: ticks)).lastBlock = some b →
              l ∈ P.chain → P.firstBlock first.fallbackHead ≤ l.blockNumber → l.blockNumber ≤ b →
                l ∈ P.completed (.resumed ⟨store, none⟩) (.wake first false :: ticks) := by
  intro h
  have hdone := h fallbackPoller .empty (attemptAt 1400) movedHead.tail 1600 registrationLog rfl
    (List.pairwise_singleton _ _) (by decide) (fun _ _ => rfl) (by decide +kernel) (by decide)
      (by decide) (by decide)
  exact absurd hdone (by decide +kernel)

/-- The theorem where the head has not moved. -/
theorem fallback_keeps_iff_sameHead :
    registrationLog ∈ fallbackPoller.completed (.resumed ⟨.empty, none⟩) sameHead ↔
      ∀ pre a readFails, pre ++ [Tick.wake a readFails] <+: sameHead →
        ¬ (run fallbackPoller.step (.resumed ⟨.empty, none⟩) pre).HasCursor →
          registrationLog.blockNumber < fallbackPoller.firstBlock a.fallbackHead →
            registrationLog ∈ fallbackPoller.completed (.resumed ⟨.empty, none⟩) pre :=
  fallback_keeps_iff (List.pairwise_singleton _ _) (by decide) (fun _ _ => rfl)
    (by decide) (by decide)
    (b := 1400) (by decide +kernel) (by decide)

end IntentGuard.Infra
