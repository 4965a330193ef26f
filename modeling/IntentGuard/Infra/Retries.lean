import IntentGuard.Infra.Poller
import IntentGuard.Infra.StoreMirror

/-!
# Indexing with retries

The main result about the poller under SQLite, for every valid history, every batch size and every
way to stop the attempts: when the cursor has passed the history, the tables hold what a single pass
leaves, exactly when no owner's last log is a commit that has been handled twice
(`indexed_once_iff`). Everything but the flag of such an intent is always right.
`stoppedBatch_deactivates` is the shortest run that goes wrong: a commit, handled once by an attempt
that stops before the cursor is written, and once more.

`replays_of_catchUps` shows that the poller works through the history as `Replays` says; the rest is
about the rows of one table, one key at a time.
-/

namespace IntentGuard.Infra

open Replay

/-! ### The poller works through the history -/

/-- The logs that a sequence of writes handles. -/
def logsOf (ops : List IndexerWrite) : List MinedLog :=
  ops.filterMap fun op =>
    match op with
    | .handle l => some l
    | .setMeta _ => none

/-- The cursor after a sequence of writes. -/
def cursorOf (last : Option ℕ) (ops : List IndexerWrite) : Option ℕ :=
  ops.foldl (fun last op => match op with | .handle _ => last | .setMeta n => some n) last

@[simp] theorem logsOf_handle (ls : List MinedLog) : logsOf (ls.map .handle) = ls := by
  induction ls with
  | nil => rfl
  | cons l ls ih => exact congrArg (l :: ·) ih

theorem logsOf_append (ops ops' : List IndexerWrite) :
    logsOf (ops ++ ops') = logsOf ops ++ logsOf ops' :=
  List.filterMap_append

theorem cursorOf_append (last : Option ℕ) (ops ops' : List IndexerWrite) :
    cursorOf last (ops ++ ops') = cursorOf (cursorOf last ops) ops' := List.foldl_append

@[simp] theorem cursorOf_handle (last : Option ℕ) (ls : List MinedLog) :
    cursorOf last (ls.map .handle) = last := by
  induction ls with
  | nil => rfl
  | cons l ls ih => exact ih

theorem handleLogs_append (ctx : DecodeContext) (provider : Provider) (s : Store)
    (X Y : List MinedLog) :
    handleLogs ctx provider s (X ++ Y) =
      (handleLogs ctx provider s X >>= fun s' => handleLogs ctx provider s' Y) := by
  induction X generalizing s with
  | nil => rfl
  | cons l X ih =>
    show (handleLog ctx provider s l.toLog >>= fun r => handleLogs ctx provider r.store (X ++ Y)) =
      _
    rw [handleLogs, bind_assoc]
    congr 1
    funext r
    exact ih r.store

/-- On a list sorted by `f`, the part up to `u` comes first. -/
theorem filter_split {α : Type*} (f : α → ℕ) {xs : List α}
    (hsorted : xs.Pairwise fun x y => f x ≤ f y) {c u : ℕ} (hcu : c ≤ u + 1) :
    (xs.filter fun x => c ≤ f x) = (xs.filter fun x => c ≤ f x ∧ f x ≤ u) ++ xs.filter fun x =>
      u < f x := by
  induction xs with
  | nil => rfl
  | cons x xs ih =>
    obtain ⟨hx, hsorted⟩ := List.pairwise_cons.1 hsorted
    have ih := ih hsorted
    by_cases hlow : c ≤ f x
    · by_cases hup : f x ≤ u
      · have hnot : ¬ u < f x := by omega
        rw [List.filter_cons_of_pos (by simpa using hlow),
          List.filter_cons_of_pos (by simp [hlow, hup]),
            List.filter_cons_of_neg (by simpa using hnot), ih]
        rfl
      · -- everything from here on lies beyond `u`
        have hnone : (xs.filter fun y => c ≤ f y ∧ f y ≤ u) = [] := by
          rw [List.filter_eq_nil_iff]
          intro y hy
          have := hx y hy
          simp only [decide_eq_true_eq]
          omega
        rw [List.filter_cons_of_pos (by simpa using hlow), List.filter_cons_of_neg (by simp [hup]),
          List.filter_cons_of_pos (by simp; omega), ih, hnone]
        rfl
    · have hnot : ¬ u < f x := by omega
      rw [List.filter_cons_of_neg (by simpa using hlow), List.filter_cons_of_neg (by simp [hlow]),
        List.filter_cons_of_neg (by simpa using hnot), ih]

namespace Poller
variable (P : Poller) {D : Deployment} {g : Genesis D} {w : World D}

/-- The logs beyond the cursor. -/
def remaining (last : Option ℕ) : List MinedLog :=
  P.chain.filter fun l => last.getD 0 < l.blockNumber

/-- The logs that the attempts pass to `handleLog`, in order, as long as no statement fails. -/
def handled (as : List Attempt) : List MinedLog :=
  (Runs.visits P.catchUp ⟨.empty, none⟩ as).flatMap fun v => logsOf (P.writes v.1.lastBlock v.2)

variable {P}

theorem performAll_eq {ops : List IndexerWrite} {s : IndexerState} {store : Store}
    (h : handleLogs P.ctx P.provider s.store (logsOf ops) = .ok store) :
    P.performAll s ops = ⟨store, cursorOf s.lastBlock ops⟩ := by
  induction ops generalizing s with
  | nil =>
    obtain rfl := Except.ok.inj h
    rfl
  | cons op ops ih =>
    cases op with
    | handle l =>
      obtain ⟨r, hr, h⟩ := bind_eq_ok.1 h
      have hperform : P.perform s (.handle l) = .ok { s with store := r.store } :=
        bind_eq_ok.2 ⟨r, hr, rfl⟩
      rw [performAll, hperform]
      exact ih h
    | setMeta n => exact ih (s := { s with lastBlock := some n }) h

theorem indexLoop_of_lt {batchSize toBlock turns cursor : ℕ} (h : toBlock < cursor) :
    P.indexLoop batchSize toBlock turns cursor = [] := by
  cases turns with
  | zero => rfl
  | succ turns => exact if_neg (by omega)

/-- Step lemma of `replays_of_catchUps`: an attempt that is stopped after `n` writes works off what
its cursor says it has, and may have handled a part of the next batch. -/
theorem replays_of_indexLoop (hsorted : P.chain.Pairwise fun l l' => l.blockNumber ≤ l'.blockNumber)
    {batchSize toBlock turns cursor n : ℕ} {last : Option ℕ} {H : List MinedLog}
    (hlast : P.remaining last = P.chain.filter fun l => cursor ≤ l.blockNumber)
    (h : Replays (P.remaining (cursorOf last ((P.indexLoop batchSize toBlock turns cursor).take n)))
      H) :
    Replays (P.remaining last)
      (logsOf ((P.indexLoop batchSize toBlock turns cursor).take n) ++ H) := by
  induction turns generalizing cursor n last with
  | zero => simpa [indexLoop, logsOf, cursorOf] using h
  | succ turns ih =>
    by_cases hcursor : toBlock < cursor
    · rw [indexLoop_of_lt hcursor] at h ⊢
      simpa [logsOf, cursorOf] using h
    rw [indexLoop, if_pos (by omega)] at h ⊢
    dsimp only at h ⊢
    generalize hupper : (if cursor + batchSize > toBlock then toBlock else cursor + batchSize) =
      upper at h ⊢
    have hle : cursor ≤ upper + 1 := by
      split_ifs at hupper <;> omega
    have hrest : P.remaining last = P.getLogs cursor upper ++ P.remaining (some upper) := by
      rw [hlast]
      exact filter_split (fun l : MinedLog => l.blockNumber) hsorted hle
    generalize hb : P.getLogs cursor upper = b at h hrest ⊢
    by_cases hn : n ≤ b.length
    · -- stopped within the batch
      have htake : ((b.map IndexerWrite.handle) ++ .setMeta upper ::
          P.indexLoop batchSize toBlock turns (cursor + (batchSize + 1))).take n =
            (b.take n).map .handle := by
        rw [List.take_append_of_le_length (by simpa using hn), List.map_take]
      rw [htake] at h ⊢
      rw [cursorOf_handle] at h
      rw [logsOf_handle]
      exact .stopped _ (hrest ▸ (List.take_prefix n b).trans (List.prefix_append b _)) h
    · obtain ⟨m, rfl⟩ : ∃ m, n = b.length + (m + 1) := ⟨n - b.length - 1, by omega⟩
      have htake : ((b.map IndexerWrite.handle) ++ .setMeta upper ::
          P.indexLoop batchSize toBlock turns (cursor + (batchSize + 1))).take
            (b.length + (m + 1)) =
            b.map .handle ++ .setMeta upper ::
              (P.indexLoop batchSize toBlock turns (cursor + (batchSize + 1))).take m := by
        have hlength : (b.map IndexerWrite.handle).length = b.length := List.length_map _
        rw [← hlength, List.take_length_add_append]
        rfl
      rw [htake] at h ⊢
      rw [cursorOf_append, cursorOf_handle] at h
      rw [logsOf_append, logsOf_handle, List.append_assoc, hrest]
      apply Replays.completed b
      change Replays (P.remaining (cursorOf (some upper) _)) H at h
      show Replays _
        (logsOf ((P.indexLoop batchSize toBlock turns (cursor + (batchSize + 1))).take m) ++ H)
      by_cases hend : cursor + batchSize > toBlock
      · rw [indexLoop_of_lt (by omega)] at h ⊢
        simpa [logsOf, cursorOf] using h
      · rw [if_neg hend] at hupper
        refine ih ?_ h
        rw [← hupper]
        rfl

/-- The poller never starts behind its history. -/
def StartsInTime (P : Poller) (as : List Attempt) : Prop :=
  ∀ a ∈ as, ∀ l ∈ P.chain, P.firstBlock a.fallbackHead ≤ l.blockNumber

theorem remaining_eq (hv : ValidHistory g w P.chain) {last : Option ℕ} {fallbackHead : ℕ}
    (hstart : ∀ l ∈ P.chain, P.firstBlock fallbackHead ≤ l.blockNumber) :
    P.remaining last = P.chain.filter fun l =>
      P.resolveStartBlock last fallbackHead ≤ l.blockNumber := by
  have hall : (P.chain.filter fun l => 0 < l.blockNumber) =
      P.chain.filter fun l => P.firstBlock fallbackHead ≤ l.blockNumber := by
    apply List.filter_congr
    intro l hl
    have hpos := hv.block_pos l hl
    have hle := hstart l hl
    simp [hpos, hle]
  cases last with
  | none => exact hall
  | some n =>
    by_cases hn : n > 0
    · rw [resolveStartBlock, if_pos hn]
      rfl
    · rw [resolveStartBlock, if_neg hn]
      obtain rfl : n = 0 := by omega
      exact hall

theorem replays_of_writes (hv : ValidHistory g w P.chain) {last : Option ℕ} {a : Attempt}
    {H : List MinedLog} (hstart : ∀ l ∈ P.chain, P.firstBlock a.fallbackHead ≤ l.blockNumber)
    (h : Replays (P.remaining (cursorOf last (P.writes last a))) H) :
    Replays (P.remaining last) (logsOf (P.writes last a) ++ H) := by
  have hall : ∀ ops : List IndexerWrite, ops = ops.take ops.length :=
    fun ops => List.take_length.symm
  unfold writes at h ⊢
  dsimp only at h ⊢
  cases hstop : a.stopsAfter with
  | none =>
    rw [hstop] at h
    dsimp only at h ⊢
    rw [hall (P.indexRange _ _ _)] at h ⊢
    exact replays_of_indexLoop hv.ordered (remaining_eq hv hstart) h
  | some n =>
    rw [hstop] at h
    exact replays_of_indexLoop hv.ordered (remaining_eq hv hstart) h

theorem handled_concat (as : List Attempt) (a : Attempt) :
    P.handled (as ++ [a]) = P.handled as ++ logsOf (P.writes (P.catchUps as).lastBlock a) := by
  unfold handled
  rw [Runs.visits_concat, List.flatMap_append, List.flatMap_singleton]
  rfl

/-- What a sequence of attempts has done to the store and to the history. -/
structure Progress (P : Poller) (as : List Attempt) : Prop where
  store_eq : handleLogs P.ctx .sqlite .empty (P.handled as) = .ok (P.catchUps as).store
  subset : P.handled as ⊆ P.chain
  replays : ∀ H, Replays (P.remaining (P.catchUps as).lastBlock) H →
    Replays P.chain (P.handled as ++ H)

/-- No statement fails, so every attempt does what it sets out to do. -/
theorem progress (hv : ValidHistory g w P.chain) (hprovider : P.provider = .sqlite)
    {as : List Attempt} (hstart : P.StartsInTime as) : P.Progress as := by
  induction as using List.reverseRecOn with
  | nil =>
    refine ⟨rfl, List.nil_subset _, ?_⟩
    intro H h
    have hall : P.remaining (P.catchUps []).lastBlock = P.chain := by
      apply List.filter_eq_self.2
      intro l hl
      exact decide_eq_true (hv.block_pos l hl)
    rwa [hall] at h
  | append_singleton as a ih =>
    have hP := ih fun a' ha' => hstart a' (List.mem_append_left _ ha')
    have hstart := hstart a (by simp)
    generalize hops : P.writes (P.catchUps as).lastBlock a = ops
    have hreplays : ∀ H, Replays (P.remaining (cursorOf (P.catchUps as).lastBlock ops)) H →
        Replays (P.remaining (P.catchUps as).lastBlock) (logsOf ops ++ H) := by
      intro H h
      rw [← hops] at h ⊢
      exact replays_of_writes hv hstart h
    have hops_subset : logsOf ops ⊆ P.chain := by
      intro l hl
      exact List.mem_of_mem_filter ((hreplays _ (.refl _)).subset (List.mem_append_left _ hl))
    obtain ⟨s, hs, hmirror⟩ := handleLogs_mirrors P.ctx hv .nil (List.nil_subset _) hP.subset
    obtain rfl : s = (P.catchUps as).store := Except.ok.inj (hs.symm.trans hP.store_eq)
    obtain ⟨s', hs', -⟩ := handleLogs_mirrors P.ctx hv hmirror hP.subset hops_subset
    have hcatchUps : P.catchUps (as ++ [a]) = ⟨s', cursorOf (P.catchUps as).lastBlock ops⟩ := by
      show Runs.run P.catchUp _ (as ++ [a]) = _
      rw [Runs.run_concat]
      show P.performAll (P.catchUps as) (P.writes (P.catchUps as).lastBlock a) = _
      rw [hops]
      exact performAll_eq (hprovider ▸ hs')
    refine ⟨?_, ?_, ?_⟩
    · rw [handled_concat, hops, handleLogs_append, hP.store_eq, hcatchUps]
      exact hs'
    · rw [handled_concat, hops]
      exact List.append_subset.2 ⟨hP.subset, hops_subset⟩
    · intro H h
      rw [handled_concat, hops, List.append_assoc]
      rw [hcatchUps] at h
      exact hP.replays _ (hreplays H h)

/-- When the cursor has passed the history, the attempts have worked through it. -/
theorem replays_of_catchUps (hv : ValidHistory g w P.chain) (hprovider : P.provider = .sqlite)
    {as : List Attempt} (hstart : P.StartsInTime as)
    (hdone : ∀ l ∈ P.chain, l.blockNumber ≤ (P.catchUps as).lastBlock.getD 0) :
    Replays P.chain (P.handled as) := by
  have hnil : P.remaining (P.catchUps as).lastBlock = [] := by
    apply List.filter_eq_nil_iff.2
    intro l hl
    have := hdone l hl
    simpa using this
  have h := (progress hv hprovider hstart).replays []
  rw [hnil, List.append_nil] at h
  exact h .done

end Poller

/-! ### The tables after retries -/

/-- Two stores with the same rows in every table. -/
structure SameContents (s s' : Store) : Prop where
  receipts : s.receipts.Perm s'.receipts
  challenges : s.challenges.Perm s'.challenges
  intents : s.intents.Perm s'.intents
  agents : s.agents.Perm s'.agents
  delegates : s.delegates.Perm s'.delegates

/-- The last log of the owner's intents. -/
def lastConcerning (owner : Address) (chain : List MinedLog) : Option MinedLog :=
  chain.reverse.find? (concerns owner)

def IsCommit (l : MinedLog) : Prop :=
  ∃ owner intentHash uri, l.event = .IntentCommitted owner intentHash uri

section
variable {D : Deployment} {g : Genesis D} {w : World D} {ctx : DecodeContext} {L H : List MinedLog}
variable {rows rows' : List IntentRow}

/-- The intents are right exactly when no commit that is an owner's last log has come twice. -/
theorem intents_perm_iff (hv : ValidHistory g w L) (h : Replays L H)
    (hL : IntentMirror ctx L L rows) (hH : IntentMirror ctx L H rows') :
    rows'.Perm rows ↔ ∀ owner e, lastConcerning owner L = some e → IsCommit e → H.count e = 1 := by
  have hkind : ∀ {e : MinedLog} {o : Address} {intentHash : Bytes32} {uri : Bytes},
      e.event = .IntentCommitted o intentHash uri → concerns o e = true := by
    intro e o intentHash uri hevent
    simp [concerns, hevent]
  have hflag : ∀ {e : MinedLog} {o : Address} {intentHash : Bytes32} {uri : Bytes} (_ : e ∈ L)
      (_ : e.event = .IntentCommitted o intentHash uri),
      Table.find IntentRow.intentHash intentHash rows' =
        Table.find IntentRow.intentHash intentHash rows ↔
        (lastConcerning o L = some e → H.count e = 1) := by
    intro e o intentHash uri he hevent
    rw [hH.find_eq e he o intentHash uri hevent, hL.find_eq e he o intentHash uri hevent,
      lastConcerning, ← flag_replay_iff (hkind hevent) h (List.count_eq_one_of_mem hv.nodup he)]
    constructor
    · intro heq
      have hinj : Function.Injective (committedRow ctx e o intentHash uri) := fun _ _ hab =>
        congrArg IntentRow.active hab
      exact Option.map_injective hinj heq
    · intro heq
      rw [heq]
  rw [Table.perm_iff_find hH.unique hL.unique]
  constructor
  · intro hfind owner e hlast h
    obtain ⟨o, intentHash, uri, hevent⟩ := h
    have he : e ∈ L := List.mem_reverse.1 (List.mem_of_find?_eq_some hlast)
    have ho : o = owner := by
      have := List.find?_some hlast
      simpa [concerns, hevent] using this
    exact (hflag he hevent).1 (hfind intentHash) (ho ▸ hlast)
  · intro hcount k
    have hnone : ∀ {X : List MinedLog} {rows : List IntentRow}, IntentMirror ctx L X rows → X ⊆ L →
        (∀ e ∈ L, ∀ o uri, e.event ≠ .IntentCommitted o k uri) →
          Table.find IntentRow.intentHash k rows = none := by
      intro X rows hX hsub hno
      rw [Table.find_eq_none_iff]
      rintro r hr rfl
      obtain ⟨e, he, uri, hevent, -, -⟩ := hX.logged r hr
      exact hno e (hsub he) _ _ hevent
    by_cases hk : ∃ e ∈ L, ∃ o uri, e.event = .IntentCommitted o k uri
    · obtain ⟨e, he, o, uri, hevent⟩ := hk
      exact (hflag he hevent).2 fun hlast => hcount o e hlast ⟨o, k, uri, hevent⟩
    · have hno : ∀ e ∈ L, ∀ o uri, e.event ≠ .IntentCommitted o k uri :=
        fun e he o uri hevent => hk ⟨e, he, o, uri, hevent⟩
      rw [hnone hH h.subset hno, hnone hL (List.Subset.refl L) hno]

/-- Retries leave the other four tables as they should be. -/
theorem sameContents_iff (hv : ValidHistory g w L) (h : Replays L H) {s s' : Store}
    (hL : Mirrors ctx .sqlite L L s) (hH : Mirrors ctx .sqlite L H s') :
    SameContents s' s ↔ ∀ owner e, lastConcerning owner L = some e → IsCommit e →
      H.count e = 1 := by
  rw [← intents_perm_iff hv h (hL.intents rfl) (hH.intents rfl)]
  constructor
  · exact SameContents.intents
  · intro hintents
    exact ⟨hL.receipts.perm_of_replays receiptLaws h hH.receipts (hv.receipt_settled ctx),
      hL.challenges.perm_of_replays challengeLaws h hH.challenges (hv.challenge_settled ctx),
      hintents,
      hL.agents.perm_of_replays agentLaws h hH.agents (hv.agent_settled ctx),
      hL.delegates.perm_of_replays delegateLaws h hH.delegates delegate_settled⟩

end

/-- However the attempts are batched and stopped: once the cursor has passed the history, the tables
hold what a single pass over it leaves, exactly when every commit that is its owner's last log has
been handled only once. -/
theorem indexed_once_iff {D : Deployment} {g : Genesis D} {w : World D} {P : Poller}
    (hv : ValidHistory g w P.chain) (hprovider : P.provider = .sqlite) {as : List Attempt}
    (hstart : P.StartsInTime as)
    (hdone : ∀ l ∈ P.chain, l.blockNumber ≤ (P.catchUps as).lastBlock.getD 0) :
    ∃ s, handleLogs P.ctx .sqlite .empty P.chain = .ok s ∧
      (SameContents (P.catchUps as).store s ↔
        ∀ owner e, lastConcerning owner P.chain = some e → IsCommit e →
          (P.handled as).count e = 1) := by
  obtain ⟨s, hs, hL⟩ :=
    handleLogs_mirrors P.ctx hv .nil (List.nil_subset _) (List.Subset.refl P.chain)
  have hP := Poller.progress hv hprovider hstart
  obtain ⟨s', hs', hH⟩ := handleLogs_mirrors P.ctx hv .nil (List.nil_subset _) hP.subset
  obtain rfl := Except.ok.inj (hs'.symm.trans hP.store_eq)
  exact ⟨s, hs, sameContents_iff hv (Poller.replays_of_catchUps hv hprovider hstart hdone) hL hH⟩

end IntentGuard.Infra

/-! ### A commit handled twice -/

namespace IntentGuard.Localnet

open Infra

/-- Alice's first commit, in block 1. -/
def commitLog : MinedLog where
  blockNumber := 1
  transactionHash := 1
  logIndex := 0
  event := .IntentCommitted alice 77 []

def poller : Poller where
  ctx := ⟨fun _ => genesis.now, fun _ => []⟩
  provider := .sqlite
  INDEXER_START_BLOCK := none
  deployment := manifest
  chain := [commitLog]

def attempt (stopsAfter : Option ℕ) : Attempt where
  head := 1
  fallbackHead := 1
  INDEXER_BATCH_BLOCKS := 2000
  batch_pos := by decide
  stopsAfter

/-- The first attempt is stopped when it has handled the log and not yet written the cursor. -/
def stoppedBatch : List Attempt := [attempt (some 1), attempt none]

theorem poller_valid :
    ValidHistory genesis (Runs.run step (init genesis) [send alice (.commitIntent 77 config [])])
      poller.chain where
  reachable := Runs.reachable_run _ _
  events := by decide +kernel
  distinct := by decide
  ordered := List.pairwise_singleton _ _
  block_pos := by decide

theorem poller_startsInTime : poller.StartsInTime stoppedBatch := by
  unfold Poller.StartsInTime stoppedBatch
  decide

theorem poller_done :
    ∀ l ∈ poller.chain, l.blockNumber ≤ (poller.catchUps stoppedBatch).lastBlock.getD 0 := by
  decide +kernel

end IntentGuard.Localnet

namespace IntentGuard.Infra

open Localnet

/-- Alice's intent ends up inactive, where a single pass leaves it active. -/
theorem stoppedBatch_deactivates :
    ¬ ∀ (D : Deployment) (g : Genesis D) (w : World D) (P : Poller) (as : List Attempt),
      ValidHistory g w P.chain →
      P.provider = .sqlite → P.StartsInTime as →
        (∀ l ∈ P.chain, l.blockNumber ≤ (P.catchUps as).lastBlock.getD 0) →
          ∃ s, handleLogs P.ctx .sqlite .empty P.chain = .ok s ∧
            SameContents (P.catchUps as).store s := by
  intro h
  obtain ⟨s, hs, hsame⟩ :=
    h _ _ _ poller stoppedBatch poller_valid rfl poller_startsInTime poller_done
  obtain rfl := Except.ok.inj hs
  exact absurd hsame.intents (by decide +kernel)

/-- The theorem at this run. -/
theorem indexed_once_iff_stoppedBatch :
    ∃ s, handleLogs poller.ctx .sqlite .empty poller.chain = .ok s ∧
      (SameContents (poller.catchUps stoppedBatch).store s ↔
        ∀ owner e, lastConcerning owner poller.chain = some e → IsCommit e →
          (poller.handled stoppedBatch).count e = 1) :=
  indexed_once_iff poller_valid rfl poller_startsInTime poller_done

end IntentGuard.Infra
