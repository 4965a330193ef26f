import IntentGuard.Infra.ChainHistory

/-!
# The store mirrors the logs it has handled

`Mirrors X s` says that the store holds what the logs `X` make of it, table by table. In four tables
that is the row that the logs create and update under each key. An intent's row carries a flag
instead, under SQLite: its commit sets it, and the next log of the owner clears it, which may be the
same commit handled again (`concerns`).

`handleLogs_mirrors`: on logs of a valid history, in any order and repeated or not, no statement
fails and the store mirrors them.
-/

namespace IntentGuard.Infra

open Replay

variable {D : Deployment} {g : Genesis D} {w : World D} {chain X : List MinedLog} {l : MinedLog}
  (ctx : DecodeContext)

/-! ### Intents -/

/-- The logs that decide which of an owner's intents is active. -/
def concerns (owner : Address) (l : MinedLog) : Bool :=
  match l.event with
  | .IntentCommitted o _ _ => o = owner
  | .IntentRevoked o _ => o = owner
  | _ => false

/-- The row of a commit, active or not. -/
def committedRow (e : MinedLog) (o : Address) (intentHash : Bytes32) (uri : Bytes)
    (active : Bool) : IntentRow :=
  { intentRow ctx e.toProvenance o intentHash uri with active }

structure IntentMirror (chain X : List MinedLog) (rows : List IntentRow) : Prop where
  unique : Table.UniqueKeys IntentRow.intentHash rows
  find_eq : ∀ e ∈ chain, ∀ o intentHash uri, e.event = .IntentCommitted o intentHash uri →
    Table.find IntentRow.intentHash intentHash rows =
      (flag e (concerns o) X).map (committedRow ctx e o intentHash uri)
  logged : ∀ r ∈ rows, ∃ e ∈ X, ∃ uri, e.event = .IntentCommitted r.owner r.intentHash uri ∧
    e.transactionHash = r.txHash ∧ e.logIndex = r.logIndex

variable {ctx} {rows : List IntentRow}

theorem mem_deactivate {owner : Address} {r : IntentRow} (h : r ∈ deactivate owner rows) :
    ∃ r' ∈ rows, ∃ active, r = { r' with active } := by
  obtain ⟨r', hr', rfl⟩ := List.mem_map.1 h
  refine ⟨r', hr', ?_⟩
  split_ifs
  · exact ⟨false, rfl⟩
  · exact ⟨r'.active, rfl⟩

namespace IntentMirror

theorem nil : IntentMirror ctx chain [] [] := ⟨List.nodup_nil, fun _ _ _ _ _ _ => rfl, by simp⟩

theorem skip (h : IntentMirror ctx chain X rows) (hl : ∀ o, concerns o l = false) :
    IntentMirror ctx chain (X ++ [l]) rows where
  unique := h.unique
  find_eq := by
    intro e he o intentHash uri hevent
    have hne : l ≠ e := by
      rintro rfl
      have := hl o
      simp [concerns, hevent] at this
    rw [flag_concat_of_ne hne, hl o, h.find_eq e he o intentHash uri hevent]
    rfl
  logged := by
    intro r hr
    obtain ⟨e, he, h⟩ := h.logged r hr
    exact ⟨e, List.mem_append_left _ he, h⟩

/-- Deactivation clears the flags of the owner. -/
theorem find_deactivate (h : IntentMirror ctx chain X rows) {e : MinedLog}
    (he : e ∈ chain) {o : Address} {intentHash : Bytes32} {uri : Bytes}
    (hevent : e.event = .IntentCommitted o intentHash uri) (owner : Address) :
    Table.find IntentRow.intentHash intentHash (deactivate owner rows) =
      ((if owner = o then (flag e (concerns o) X).map fun _ => false
        else flag e (concerns o) X)).map
        (committedRow ctx e o intentHash uri) := by
  unfold deactivate
  rw [Table.find_updateWhere (by exact fun _ => rfl), h.find_eq e he o intentHash uri hevent]
  cases flag e (concerns o) X with
  | none => split_ifs <;> rfl
  | some active =>
    by_cases ho : owner = o
    · subst ho
      cases active <;> simp [committedRow, intentRow]
    · have hne : ¬ o = owner := fun h => ho h.symm
      simp [committedRow, intentRow, ho, hne]

theorem logged_deactivate (h : IntentMirror ctx chain X rows) {owner : Address} {r : IntentRow}
    (hr : r ∈ deactivate owner rows) :
    ∃ e ∈ X, ∃ uri, e.event = .IntentCommitted r.owner r.intentHash uri ∧
      e.transactionHash = r.txHash ∧ e.logIndex = r.logIndex := by
  obtain ⟨r', hr', active, rfl⟩ := mem_deactivate hr
  exact h.logged r' hr'

theorem revoke (h : IntentMirror ctx chain X rows) {owner : Address} {intentHash : Bytes32}
    (hl : l.event = .IntentRevoked owner intentHash) :
    IntentMirror ctx chain (X ++ [l]) (deactivate owner rows) where
  unique := unique_deactivate h.unique owner
  find_eq := by
    intro e he o intentHash' uri hevent
    have hne : l ≠ e := by
      rintro rfl
      rw [hl] at hevent
      exact absurd hevent (by simp)
    have hkind : concerns o l = decide (owner = o) := by rw [concerns, hl]
    rw [h.find_deactivate he hevent, flag_concat_of_ne hne, hkind]
    simp only [decide_eq_true_eq]
  logged := by
    intro r hr
    obtain ⟨e, he, h⟩ := h.logged_deactivate hr
    exact ⟨e, List.mem_append_left _ he, h⟩

theorem logged_concat (h : IntentMirror ctx chain X rows) (owner : Address) {r : IntentRow}
    (hr : r ∈ deactivate owner rows) :
    ∃ e ∈ X ++ [l], ∃ uri, e.event = .IntentCommitted r.owner r.intentHash uri ∧
      e.transactionHash = r.txHash ∧ e.logIndex = r.logIndex := by
  obtain ⟨e, he, hlogged⟩ := h.logged_deactivate hr
  exact ⟨e, List.mem_append_left _ he, hlogged⟩

section
variable {owner : Address} {intentHash : Bytes32} {uri : Bytes}

/-- A commit does not touch the rows of other commits beyond deactivating its owner's. -/
theorem find_other (hv : ValidHistory g w chain) (h : IntentMirror ctx chain X rows)
    (hmem : l ∈ chain) (hl : l.event = .IntentCommitted owner intentHash uri) {e : MinedLog}
    (he : e ∈ chain) {o : Address} {intentHash' : Bytes32} {uri' : Bytes}
    (hevent : e.event = .IntentCommitted o intentHash' uri') (hne : l ≠ e) :
    intentHash ≠ intentHash' ∧ Table.find IntentRow.intentHash intentHash' (deactivate owner rows) =
      (flag e (concerns o) (X ++ [l])).map (committedRow ctx e o intentHash' uri') := by
  refine ⟨fun heq => hne (hv.eq_of_commit hmem he (heq ▸ hl) hevent), ?_⟩
  have hkind : concerns o l = decide (owner = o) := by rw [concerns, hl]
  rw [h.find_deactivate he hevent, flag_concat_of_ne hne, hkind]
  simp only [decide_eq_true_eq]

/-- A commit that has been handled before finds its row, which it has just deactivated. -/
theorem commit_again (hv : ValidHistory g w chain) {s : Store}
    (h : IntentMirror ctx chain X s.intents) (hmem : l ∈ chain)
    (hl : l.event = .IntentCommitted owner intentHash uri) (hagain : l ∈ X) :
    insertIntentCommitted .sqlite (intentRow ctx l.toProvenance owner intentHash uri) s =
        .ok { s with intents := deactivate owner s.intents } ∧
      IntentMirror ctx chain (X ++ [l]) (deactivate owner s.intents) := by
  obtain ⟨active, hactive⟩ : ∃ active, flag l (concerns owner) X = some active :=
    Option.ne_none_iff_exists'.1 fun hnone => (flag_eq_none_iff X).1 hnone hagain
  have hself := h.find_deactivate hmem hl owner
  rw [if_pos rfl, hactive] at hself
  refine ⟨if_pos ⟨_, Table.mem_of_find _ hself, rfl, rfl⟩, unique_deactivate h.unique owner,
    ?_, fun _ hr =>
    h.logged_concat owner hr⟩
  intro e he o intentHash' uri' hevent
  by_cases hne : l = e
  · subst hne
    obtain ⟨rfl, rfl, rfl⟩ := Event.IntentCommitted.inj (hl.symm.trans hevent)
    rw [hself, flag_concat, flagStep, if_pos rfl, hactive]
    rfl
  · exact (h.find_other hv hmem hl he hevent hne).2

/-- A commit that is handled for the first time meets no row of its hash or its place. -/
theorem fresh (hv : ValidHistory g w chain) (hX : X ⊆ chain) (h : IntentMirror ctx chain X rows)
    (hmem : l ∈ chain) (hl : l.event = .IntentCommitted owner intentHash uri) (hnew : l ∉ X)
    {r : IntentRow} (hr : r ∈ deactivate owner rows) :
    r.intentHash ≠ intentHash ∧ ¬ (r.txHash = l.transactionHash ∧ r.logIndex = l.logIndex) := by
  obtain ⟨e, he, uri', hevent, htx, hindex⟩ := h.logged_deactivate hr
  constructor
  · intro heq
    have := hv.eq_of_commit (hX he) hmem hevent (heq ▸ hl)
    exact hnew (this ▸ he)
  · intro hsame
    have := hv.eq_of_place (hX he) hmem (htx.trans hsame.1) (hindex.trans hsame.2)
    exact hnew (this ▸ he)

theorem find_concat (k : Bytes32) (row : IntentRow) :
    Table.find IntentRow.intentHash k (rows ++ [row]) =
      (Table.find IntentRow.intentHash k rows).or
        (if row.intentHash = k then some row else none) := by
  unfold Table.find
  rw [List.find?_append, List.find?_singleton]
  by_cases hk : row.intentHash = k <;> simp [hk]

theorem commit_first (hv : ValidHistory g w chain) (hX : X ⊆ chain) {s : Store}
    (h : IntentMirror ctx chain X s.intents) (hmem : l ∈ chain)
    (hl : l.event = .IntentCommitted owner intentHash uri) (hnew : l ∉ X) :
    let row := intentRow ctx l.toProvenance owner intentHash uri
    insertIntentCommitted .sqlite row s =
      .ok { s with intents := deactivate owner s.intents ++ [row] } ∧
      IntentMirror ctx chain (X ++ [l]) (deactivate owner s.intents ++ [row]) := by
  intro row
  have hfresh : ∀ r ∈ deactivate owner s.intents, r.intentHash ≠ intentHash := fun r hr =>
    (h.fresh hv hX hmem hl hnew hr).1
  have hplace : ¬ ∃ r ∈ deactivate owner s.intents, r.txHash = l.transactionHash ∧
      r.logIndex = l.logIndex := by
    intro hclash
    obtain ⟨r, hr, hsame⟩ := hclash
    exact (h.fresh hv hX hmem hl hnew hr).2 hsame
  have hkey : ¬ ∃ r ∈ deactivate owner s.intents, r.intentHash = intentHash := by
    intro hclash
    obtain ⟨r, hr, heq⟩ := hclash
    exact hfresh r hr heq
  refine ⟨(if_neg hplace).trans (if_neg hkey), ?_, ?_, ?_⟩
  · unfold Table.UniqueKeys
    rw [List.map_append, List.nodup_append]
    refine ⟨unique_deactivate h.unique owner, List.nodup_singleton _, ?_⟩
    intro a ha b hb
    obtain ⟨r, hr, rfl⟩ := List.mem_map.1 ha
    rw [List.mem_singleton.1 hb]
    exact hfresh r hr
  · intro e he o intentHash' uri' hevent
    rw [find_concat]
    by_cases hne : l = e
    · subst hne
      obtain ⟨rfl, rfl, rfl⟩ := Event.IntentCommitted.inj (hl.symm.trans hevent)
      have hrow : row.intentHash = intentHash := rfl
      rw [(Table.find_eq_none_iff _).2 hfresh, if_pos hrow, flag_concat, flagStep, if_pos rfl,
        (flag_eq_none_iff X).2 hnew]
      rfl
    · obtain ⟨hhash, hfind⟩ := h.find_other hv hmem hl he hevent hne
      have hrow : ¬ row.intentHash = intentHash' := hhash
      rw [hfind, if_neg hrow, Option.or_none]
  · intro r hr
    rcases List.mem_append.1 hr with hr | hr
    · exact h.logged_concat owner hr
    · obtain rfl := List.mem_singleton.1 hr
      exact ⟨l, by simp, uri, hl, rfl, rfl⟩

/-- `insertIntentCommitted` on a commit of a valid history succeeds, whether it is handled for the
first time or again. -/
theorem commit (hv : ValidHistory g w chain) (hX : X ⊆ chain) {s : Store}
    (h : IntentMirror ctx chain X s.intents) (hmem : l ∈ chain)
    (hl : l.event = .IntentCommitted owner intentHash uri) :
    ∃ rows, insertIntentCommitted .sqlite (intentRow ctx l.toProvenance owner intentHash uri) s =
        .ok { s with intents := rows } ∧ IntentMirror ctx chain (X ++ [l]) rows := by
  by_cases hagain : l ∈ X
  · exact ⟨_, h.commit_again hv hmem hl hagain⟩
  · exact ⟨_, h.commit_first hv hX hmem hl hagain⟩

end

end IntentMirror

/-! ### All tables -/

variable {provider : Provider}

variable (ctx provider) in
structure Mirrors (chain X : List MinedLog) (s : Store) : Prop where
  receipts : Mirror ReceiptRow.receiptId id mergeReceipt setTraceUri (receiptTouch ctx) X s.receipts
  challenges : Mirror ChallengeRow.challengeId filedRow (refile provider) resolveRow
    (challengeTouch ctx) X s.challenges
  intents : provider = .sqlite → IntentMirror ctx chain X s.intents
  agents : Mirror AgentRow.agentId id (mergeAgent provider) setStake (agentTouch ctx) X s.agents
  delegates : Mirror DelegateRow.key id (fun input _ => input)
    (Empty.elim : Empty → DelegateRow → DelegateRow)
    delegateTouch X s.delegates

theorem Mirrors.nil : Mirrors ctx provider chain [] .empty :=
  ⟨.nil, .nil, fun _ => .nil, .nil, .nil⟩

/-- A receipt's log never clashes with the place of another receipt. -/
theorem upsertReceipt_ok (hv : ValidHistory g w chain) (hX : X ⊆ chain) {s : Store}
    (h : Mirrors ctx provider chain X s) (hl : l ∈ chain) {id : Bytes32} {r : ReceiptSummary}
    (hevent : l.event = .ActionReceipt id r) :
    upsertReceipt provider (receiptRow l.toProvenance id r) s =
      .ok { s with
        receipts :=
          Table.upsert ReceiptRow.receiptId (mergeReceipt (receiptRow l.toProvenance id r))
            (receiptRow l.toProvenance id r) s.receipts } := by
  apply if_neg
  intro h
  obtain ⟨row, hrow, hid, htx, hindex⟩ := h
  let SamePlace (c row : ReceiptRow) : Prop := c.txHash = row.txHash ∧ c.logIndex = row.logIndex
  obtain ⟨l', hl', c, hc, hplace⟩ :=
    h.receipts.exists_creation (P := SamePlace) (fun _ => ⟨rfl, rfl⟩)
    (fun _ _ => ⟨rfl, rfl⟩) (fun _ _ _ h => h) hrow
  obtain ⟨r', he, rfl⟩ := receiptTouch_create hc
  have heq : l' = l := hv.eq_of_place (hX hl') hl (hplace.1.trans htx) (hplace.2.trans hindex)
  subst heq
  exact hid (Event.ActionReceipt.inj (he.symm.trans hevent)).1

/-- A log that touches no table changes nothing. -/
theorem Mirrors.skip {s : Store} (h : Mirrors ctx provider chain X s)
    (hr : ∀ k, receiptTouch ctx k l = none) (hc : ∀ k, challengeTouch ctx k l = none)
    (hi : ∀ o, concerns o l = false) (ha : ∀ k, agentTouch ctx k l = none)
    (hd : ∀ k, delegateTouch k l = none) : Mirrors ctx provider chain (X ++ [l]) s :=
  ⟨h.receipts.skip hr, h.challenges.skip hc, fun hp => (h.intents hp).skip hi, h.agents.skip ha,
    h.delegates.skip hd⟩

/-- Committing changes the intents only, and never fails on a valid history. -/
theorem insertIntentCommitted_ok (hv : ValidHistory g w chain) (hX : X ⊆ chain)
    (hl : l ∈ chain) {s : Store} (h : Mirrors ctx provider chain X s) {owner : Address}
    {intentHash : Bytes32} {uri : Bytes}
    (hevent : l.event = .IntentCommitted owner intentHash uri) :
    ∃ rows, insertIntentCommitted provider (intentRow ctx l.toProvenance owner intentHash uri) s =
        .ok { s with intents := rows } ∧
        (provider = .sqlite → IntentMirror ctx chain (X ++ [l]) rows) := by
  cases provider with
  | sqlite =>
    obtain ⟨rows, hinsert, hmirror⟩ := (h.intents rfl).commit hv hX hl hevent
    exact ⟨rows, hinsert, fun _ => hmirror⟩
  | supabase =>
    unfold insertIntentCommitted
    dsimp only
    split_ifs <;> exact ⟨_, rfl, fun hp => absurd hp (by simp)⟩

/-- Step lemma of `handleLogs_mirrors`. -/
theorem Mirrors.handleLog (hv : ValidHistory g w chain) (hX : X ⊆ chain)
    (hl : l ∈ chain) {s : Store} (h : Mirrors ctx provider chain X s) :
    ∃ r, handleLog ctx provider s l.toLog = .ok r ∧
      Mirrors ctx provider chain (X ++ [l]) r.store := by
  show ∃ r, handleEvent ctx l.toProvenance provider s l.event = .ok r ∧ _
  cases hevent : l.event
  case ActionReceipt id r =>
    refine ⟨_, bind_eq_ok.2 ⟨_, upsertReceipt_ok hv hX h hl hevent, rfl⟩, ?_, h.challenges.skip ?_,
      fun hp => (h.intents hp).skip ?_, h.agents.skip ?_, h.delegates.skip ?_⟩
    · refine h.receipts.upsert (c := receiptRow l.toProvenance id r) ?_ fun _ _ => rfl
      intro k
      rw [receiptTouch, hevent]
      rfl
    all_goals simp [challengeTouch, concerns, agentTouch, delegateTouch, hevent]
  case TraceURIStored id uri =>
    refine ⟨_, rfl, ?_, h.challenges.skip ?_, fun hp => (h.intents hp).skip ?_, h.agents.skip ?_,
      h.delegates.skip ?_⟩
    · refine h.receipts.updateWhere (j := id) (u := ctx.toText uri) ?_ fun _ => rfl
      simp [receiptTouch, hevent]
    all_goals simp [challengeTouch, concerns, agentTouch, delegateTouch, hevent]
  case ChallengeFiled id receiptId challenger =>
    refine ⟨_, rfl, h.receipts.skip ?_, ?_, fun hp => (h.intents hp).skip ?_, h.agents.skip ?_,
      h.delegates.skip ?_⟩
    case refine_2 =>
      refine h.challenges.upsert (c := filingOf ctx l.toProvenance id receiptId challenger) ?_
        fun _ hr => hr
      intro k
      rw [challengeTouch, hevent]
      rfl
    all_goals simp [receiptTouch, concerns, agentTouch, delegateTouch, hevent]
  case ChallengeResolved id uphold payout =>
    refine ⟨_, rfl, h.receipts.skip ?_, ?_, fun hp => (h.intents hp).skip ?_, h.agents.skip ?_,
      h.delegates.skip ?_⟩
    case refine_2 =>
      refine h.challenges.updateWhere (j := id)
        (u := resolutionOf ctx l.toProvenance id uphold payout) ?_
        fun _ => rfl
      simp [challengeTouch, hevent]
    all_goals simp [receiptTouch, concerns, agentTouch, delegateTouch, hevent]
  case IntentCommitted owner intentHash uri =>
    obtain ⟨rows, hinsert, hintents⟩ := insertIntentCommitted_ok hv hX hl h hevent
    refine ⟨_, bind_eq_ok.2 ⟨_, hinsert, rfl⟩, h.receipts.skip ?_, h.challenges.skip ?_, hintents,
      h.agents.skip ?_, h.delegates.skip ?_⟩
    all_goals simp [receiptTouch, challengeTouch, agentTouch, delegateTouch, hevent]
  case IntentRevoked owner intentHash =>
    refine ⟨_, rfl, h.receipts.skip ?_, h.challenges.skip ?_,
      fun hp => (h.intents hp).revoke hevent, h.agents.skip ?_, h.delegates.skip ?_⟩
    all_goals simp [receiptTouch, challengeTouch, agentTouch, delegateTouch, hevent]
  case AgentRegistered id operator uri =>
    refine ⟨_, rfl, h.receipts.skip ?_, h.challenges.skip ?_, fun hp => (h.intents hp).skip ?_, ?_,
      h.delegates.skip ?_⟩
    case refine_4 =>
      refine h.agents.upsert (c := agentRow ctx l.toProvenance id operator uri) ?_ ?_
      · intro k
        rw [agentTouch, hevent]
        rfl
      · intro row hrow
        cases provider with
        | sqlite => exact hrow
        | supabase => rfl
    all_goals simp [receiptTouch, challengeTouch, concerns, delegateTouch, hevent]
  case AgentStaked id amount newStake =>
    refine ⟨_, rfl, h.receipts.skip ?_, h.challenges.skip ?_, fun hp => (h.intents hp).skip ?_, ?_,
      h.delegates.skip ?_⟩
    case refine_4 =>
      refine h.agents.updateWhere (j := id) (u := newStake) ?_ fun _ => rfl
      simp [agentTouch, hevent]
    all_goals simp [receiptTouch, challengeTouch, concerns, delegateTouch, hevent]
  case AgentDelegateSet owner agentId delegate approved =>
    refine ⟨_, rfl, h.receipts.skip ?_, h.challenges.skip ?_, fun hp => (h.intents hp).skip ?_,
      h.agents.skip ?_, ?_⟩
    case refine_5 =>
      have htouch : ∀ k, delegateTouch k l =
          if (delegateRow l.toProvenance owner agentId delegate approved).key = k then
            some (.create (delegateRow l.toProvenance owner agentId delegate approved))
          else none := by
        intro k
        rw [delegateTouch, hevent]
      cases provider with
      | sqlite => exact h.delegates.insertOrReplace htouch fun _ => rfl
      | supabase => exact h.delegates.upsert htouch fun _ _ => rfl
    all_goals simp [receiptTouch, challengeTouch, concerns, agentTouch, hevent]
  all_goals
    refine ⟨_, rfl, h.skip ?_ ?_ ?_ ?_ ?_⟩
    all_goals simp [receiptTouch, challengeTouch, concerns, agentTouch, delegateTouch, hevent]

variable (ctx) in
/-- The store after any logs of a valid history. -/
theorem handleLogs_mirrors (hv : ValidHistory g w chain) {s : Store}
    (h : Mirrors ctx provider chain X s) (hX : X ⊆ chain) {Y : List MinedLog} (hY : Y ⊆ chain) :
    ∃ s', handleLogs ctx provider s Y = .ok s' ∧ Mirrors ctx provider chain (X ++ Y) s' := by
  induction Y generalizing X s with
  | nil => exact ⟨s, rfl, by rwa [List.append_nil]⟩
  | cons l Y ih =>
    obtain ⟨hl, hY⟩ := List.cons_subset.1 hY
    obtain ⟨r, hr, hmirror⟩ := h.handleLog hv hX hl
    obtain ⟨s', hs', hfinal⟩ := ih hmirror (List.append_subset.2 ⟨hX, by simpa using hl⟩) hY
    refine ⟨s', bind_eq_ok.2 ⟨r, hr, hs'⟩, ?_⟩
    rwa [List.append_cons]

end IntentGuard.Infra
