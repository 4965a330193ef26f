import IntentGuard.Infra.Retries

/-!
# Failing store calls

The poller, one store call at a time, where any call may fail: better-sqlite3 throws, which ends the
attempt, and supabase-js reports the failure in a field that nobody reads. `statements` is
`handleLog` taken apart into its calls.
-/

namespace IntentGuard.Infra

open Runs

/-! ### The store calls -/

/-- What a call asks of the database; `none` when a constraint rejects it. -/
abbrev Statement := Store → Option Store

/-- The second call of `insertIntentCommitted` under Supabase. -/
def upsertIntent (input : IntentRow) : Statement := fun s =>
  if ∃ r ∈ s.intents, r.intentHash = input.intentHash then some s
  else if ∃ r ∈ s.intents, r.txHash = input.txHash ∧ r.logIndex = input.logIndex then none
  else some { s with intents := s.intents ++ [input] }

/-- The store calls of `handleLog`, in order. SQLite runs the two of `insertIntentCommitted` as one
transaction. -/
def statements (ctx : DecodeContext) (p : Provenance) (provider : Provider) : Event → List Statement
  | .ActionReceipt receiptId r =>
    [fun s => (upsertReceipt .sqlite (receiptRow p receiptId r) s).toOption]
  | .TraceURIStored receiptId traceURI =>
    [some ∘ setReceiptTraceUri receiptId (ctx.toText traceURI)]
  | .AgentDelegateSet owner agentId delegate approved =>
    [some ∘ insertDelegate provider (delegateRow p owner agentId delegate approved)]
  | .ChallengeFiled challengeId receiptId challenger =>
    [some ∘ upsertChallengeFiled provider (filingOf ctx p challengeId receiptId challenger)]
  | .ChallengeResolved challengeId uphold payout =>
    [some ∘ resolveChallenge (resolutionOf ctx p challengeId uphold payout)]
  | .IntentCommitted owner intentHash manifestURI =>
    let input := intentRow ctx p owner intentHash manifestURI
    match provider with
    | .sqlite => [fun s => (insertIntentCommitted .sqlite input s).toOption]
    | .supabase => [some ∘ markIntentRevoked owner, upsertIntent input]
  | .IntentRevoked owner _ => [some ∘ markIntentRevoked owner]
  | .AgentRegistered agentId operator metadataURI =>
    [some ∘ upsertAgentRegistered provider (agentRow ctx p agentId operator metadataURI)]
  | .AgentStaked agentId _ newStake => [some ∘ applyStakeIncrease agentId newStake]
  | _ => []

/-- A call throws (`none`), or says whether it took effect, which nobody reads. -/
def storeCall (provider : Provider) (fails : Bool) (statement : Statement) (s : Store) :
    Option (Store × Bool) :=
  match provider, if fails then none else statement s with
  | _, some s' => some (s', true)
  | .sqlite, none => none
  | .supabase, none => some (s, false)

/-- The calls of one handler, of which the `n`-th fails when `fails n`; whether all took effect. -/
def storeCalls (provider : Provider) (fails : ℕ → Bool) :
    List Statement → Store → Option (Store × Bool)
  | [], s => some (s, true)
  | statement :: rest, s => do
    let (s, first) ← storeCall provider (fails 0) statement s
    let (s, others) ← storeCalls provider (fun n => fails (n + 1)) rest s
    pure (s, first && others)

theorem upsertReceipt_supabase (input : ReceiptRow) (s : Store) :
    upsertReceipt .supabase input s = .ok ((upsertReceipt .sqlite input s).toOption.getD s) := by
  unfold upsertReceipt rejected
  split_ifs <;> rfl

theorem insertIntentCommitted_supabase (input : IntentRow) (s : Store) :
    insertIntentCommitted .supabase input s =
      .ok ((upsertIntent input (markIntentRevoked input.owner s)).getD
        (markIntentRevoked input.owner s)) := by
  unfold insertIntentCommitted upsertIntent markIntentRevoked
  dsimp only
  split_ifs <;> rfl

theorem storeCalls_singleton (provider : Provider) (fails : ℕ → Bool)
    (statement : Statement) (s : Store) :
    storeCalls provider fails [statement] s = storeCall provider (fails 0) statement s := by
  show (storeCall provider (fails 0) statement s).bind _ = _
  cases storeCall provider (fails 0) statement s with
  | none => rfl
  | some r => simp [storeCalls]

/-- Calls that do not fail do what `handleLog` does. -/
theorem storeCalls_eq_handleEvent (ctx : DecodeContext) (p : Provenance) (provider : Provider)
    (event : Event) (s : Store) :
    (storeCalls provider (fun _ => false) (statements ctx p provider event) s).map Prod.fst =
      (handleEvent ctx p provider s event).toOption.map Handled.store := by
  cases event
  case ActionReceipt receiptId r =>
    show (storeCalls provider _ [_] s).map Prod.fst =
      (upsertReceipt provider _ s >>= _).toOption.map Handled.store
    rw [storeCalls_singleton]
    unfold storeCall
    dsimp only
    cases provider with
    | sqlite => cases upsertReceipt .sqlite (receiptRow p receiptId r) s <;> rfl
    | supabase =>
      rw [upsertReceipt_supabase]
      cases upsertReceipt .sqlite (receiptRow p receiptId r) s <;> rfl
  case IntentCommitted owner intentHash uri =>
    show _ = (insertIntentCommitted provider _ s >>= _).toOption.map Handled.store
    cases provider with
    | sqlite =>
      show (storeCalls .sqlite _ [_] s).map Prod.fst = _
      rw [storeCalls_singleton]
      unfold storeCall
      dsimp only
      cases insertIntentCommitted .sqlite (intentRow ctx p owner intentHash uri) s <;> rfl
    | supabase =>
      rw [insertIntentCommitted_supabase]
      show ((storeCalls .supabase _ [_] (markIntentRevoked owner s)).bind _).map Prod.fst = _
      rw [storeCalls_singleton]
      unfold storeCall
      show _ = some
        ((upsertIntent (intentRow ctx p owner intentHash uri) (markIntentRevoked owner s)).getD _)
      cases upsertIntent (intentRow ctx p owner intentHash uri) (markIntentRevoked owner s) <;> rfl
  all_goals cases provider <;> rfl

/-! ### The poller, call by call -/

/-- The indexer between two calls. The program has the first two fields only: the others say what it
has done. -/
structure Indexing extends IndexerState where
  pending : List IndexerWrite
  /-- The logs of the current batch that have been handled. -/
  batch : List MinedLog
  /-- The logs of the batches that have been handled to their end. -/
  processed : List MinedLog
  /-- The logs whose store calls have all taken effect in one handling. -/
  effective : List MinedLog
  /-- The logs of which one handling had no failing call. -/
  unfailing : List MinedLog

def Indexing.start : Indexing := ⟨⟨.empty, none⟩, [], [], [], [], []⟩

/-- A `catchUp` begins, whatever has become of the one before, or its next write is made. -/
inductive Tick
  | wake (a : Attempt) (readFails : Bool)
  | call (fails : ℕ → Bool)

namespace Poller
variable (P : Poller)

/-- When `getMeta` fails, Supabase answers as if there were no cursor. -/
def wake (s : Indexing) (a : Attempt) (readFails : Bool) : Indexing :=
  match readFails, P.provider with
  | false, _ => { s with pending := P.writes s.lastBlock a, batch := [] }
  | true, .sqlite => { s with pending := [], batch := [] }
  | true, .supabase => { s with pending := P.writes none a, batch := [] }

def handle (s : Indexing) (l : MinedLog) (rest : List IndexerWrite) (fails : ℕ → Bool) : Indexing :=
  let calls := statements P.ctx l.toProvenance P.provider l.event
  match storeCalls P.provider fails calls s.store with
  | none => { s with pending := [], batch := [] }
  | some (store, took) =>
    { s with
      store
      pending := rest
      batch := s.batch ++ [l]
      effective := if took then l :: s.effective else s.effective
      unfailing := if ∀ n < calls.length, fails n = false then l :: s.unfailing else s.unfailing }

def writeCursor (s : Indexing) (lastBlock : ℕ) (rest : List IndexerWrite)
    (fails : Bool) : Indexing :=
  let s := { s with processed := s.processed ++ s.batch, batch := [] }
  match fails, P.provider with
  | false, _ => { s with lastBlock := some lastBlock, pending := rest }
  | true, .sqlite => { s with pending := [] }
  | true, .supabase => { s with pending := rest }

def step (s : Indexing) : Tick → Indexing
  | .wake a readFails => P.wake s a readFails
  | .call fails =>
    match s.pending with
    | [] => s
    | .handle l :: rest => P.handle s l rest fails
    | .setMeta lastBlock :: rest => P.writeCursor s lastBlock rest (fails 0)

/-- The indexer after a sequence of ticks. -/
def indexing (ticks : List Tick) : Indexing := run P.step .start ticks

variable {P}

theorem run_call_nil {s : Indexing} (h : s.pending = []) (fails : ℕ → Bool) (n : ℕ) :
    run P.step s (List.replicate n (.call fails)) = s := by
  induction n with
  | zero => rfl
  | succ n ih =>
    rw [List.replicate_succ, run_cons]
    have hstep : P.step s (.call fails) = s := by
      unfold step
      rw [h]
    rw [hstep]
    exact ih

/-- Step lemma of `run_wake_eq_catchUp`. -/
theorem run_calls_eq_performAll {ops : List IndexerWrite} {s : Indexing} (h : s.pending = ops) :
    (run P.step s (List.replicate ops.length (.call fun _ => false))).toIndexerState =
      P.performAll s.toIndexerState ops := by
  induction ops generalizing s with
  | nil => rfl
  | cons op ops ih =>
    rw [List.length_cons, List.replicate_succ, run_cons]
    cases op with
    | handle l =>
      have hstep : P.step s (.call fun _ => false) = P.handle s l ops fun _ => false := by
        unfold step
        rw [h]
      have hcalls := storeCalls_eq_handleEvent P.ctx l.toProvenance P.provider l.event s.store
      have hperform : P.perform s.toIndexerState (.handle l) =
          (handleEvent P.ctx l.toProvenance P.provider s.store l.event >>= fun r =>
            pure { s.toIndexerState with store := r.store }) := rfl
      rw [hstep, performAll, hperform]
      unfold handle
      dsimp only
      cases hresult : handleEvent P.ctx l.toProvenance P.provider s.store l.event with
      | error e =>
        rw [hresult] at hcalls
        rw [Option.map_eq_none_iff.1 hcalls, run_call_nil rfl]
        rfl
      | ok r =>
        rw [hresult] at hcalls
        obtain ⟨⟨store, took⟩, hr, hstore⟩ := Option.map_eq_some_iff.1 hcalls
        obtain rfl : store = r.store := hstore
        rw [hr]
        exact ih rfl
    | setMeta b =>
      have hstep : P.step s (.call fun _ => false) = P.writeCursor s b ops false := by
        unfold step
        rw [h]
      rw [hstep]
      exact ih rfl

/-- Where no call fails, the calls of an attempt are `catchUp`. -/
theorem run_wake_eq_catchUp (s : Indexing) (a : Attempt) :
    (run P.step s (.wake a false :: List.replicate (P.writes s.lastBlock a).length
      (.call fun _ => false))).toIndexerState =
      P.catchUp s.toIndexerState a := by
  have hwake :
      P.step s (.wake a false) = { s with pending := P.writes s.lastBlock a, batch := [] } := rfl
  rw [run_cons, hwake, run_calls_eq_performAll rfl]
  rfl

end Poller

/-! ### The rows -/

/-- The row that an event creates is in its table. -/
def Recorded (s : Store) (l : MinedLog) : Prop :=
  match l.event with
  | .ActionReceipt receiptId _ => receiptId ∈ s.receipts.map ReceiptRow.receiptId
  | .ChallengeFiled challengeId _ _ => challengeId ∈ s.challenges.map ChallengeRow.challengeId
  | .IntentCommitted _ intentHash _ => intentHash ∈ s.intents.map IntentRow.intentHash
  | .AgentRegistered agentId _ _ => agentId ∈ s.agents.map AgentRow.agentId
  | .AgentDelegateSet owner agentId delegate approved =>
    (delegateRow l.toProvenance owner agentId delegate approved).key ∈
      s.delegates.map DelegateRow.key
  | _ => True

/-- No row is deleted. -/
structure KeepsRows (s s' : Store) : Prop where
  receipts : s.receipts.map ReceiptRow.receiptId ⊆ s'.receipts.map ReceiptRow.receiptId
  challenges : s.challenges.map ChallengeRow.challengeId ⊆
    s'.challenges.map ChallengeRow.challengeId
  intents : s.intents.map IntentRow.intentHash ⊆ s'.intents.map IntentRow.intentHash
  agents : s.agents.map AgentRow.agentId ⊆ s'.agents.map AgentRow.agentId
  delegates : s.delegates.map DelegateRow.key ⊆ s'.delegates.map DelegateRow.key

theorem KeepsRows.refl (s : Store) : KeepsRows s s :=
  ⟨List.Subset.refl _, List.Subset.refl _, List.Subset.refl _, List.Subset.refl _,
    List.Subset.refl _⟩

theorem KeepsRows.trans {s s' s'' : Store} (h : KeepsRows s s') (h' : KeepsRows s' s'') :
    KeepsRows s s'' :=
  ⟨List.Subset.trans h.receipts h'.receipts, List.Subset.trans h.challenges h'.challenges,
    List.Subset.trans h.intents h'.intents, List.Subset.trans h.agents h'.agents,
    List.Subset.trans h.delegates h'.delegates⟩

theorem Recorded.mono {s s' : Store} {l : MinedLog} (h : Recorded s l) (hkeeps : KeepsRows s s') :
    Recorded s' l := by
  unfold Recorded at h ⊢
  split at h
  · exact hkeeps.receipts h
  · exact hkeeps.challenges h
  · exact hkeeps.intents h
  · exact hkeeps.agents h
  · exact hkeeps.delegates h
  · trivial

/-- Every row with a place in the chain is the row of the log at that place. -/
structure Sourced (chain : List MinedLog) (s : Store) : Prop where
  receipts : ∀ r ∈ s.receipts, ∃ l ∈ chain, l.transactionHash = r.txHash ∧ l.logIndex = r.logIndex ∧
    ∃ receipt, l.event = .ActionReceipt r.receiptId receipt
  intents : ∀ r ∈ s.intents, ∃ l ∈ chain, l.transactionHash = r.txHash ∧ l.logIndex = r.logIndex ∧
    ∃ owner uri, l.event = .IntentCommitted owner r.intentHash uri

theorem Sourced.empty (chain : List MinedLog) : Sourced chain .empty :=
  ⟨by simp [Store.empty], by simp [Store.empty]⟩

/-- The database never rejects the statement. -/
def Executes (chain : List MinedLog) (statement : Statement) : Prop :=
  ∀ s, Sourced chain s → ∃ s', statement s = some s' ∧ KeepsRows s s' ∧ Sourced chain s'

def Records (chain : List MinedLog) (l : MinedLog) (statement : Statement) : Prop :=
  ∀ s s', Sourced chain s → statement s = some s' → Recorded s' l

variable {D : Deployment} {g : Genesis D} {w : World D} {chain : List MinedLog} {l : MinedLog}
  {ctx : DecodeContext}
  {provider : Provider}

/-- A statement on other tables. -/
theorem executes_frame {f : Store → Store} (hreceipts : ∀ s, (f s).receipts = s.receipts)
    (hintents : ∀ s, (f s).intents = s.intents)
    (hchallenges : ∀ s, s.challenges.map ChallengeRow.challengeId ⊆
      (f s).challenges.map ChallengeRow.challengeId)
    (hagents : ∀ s, s.agents.map AgentRow.agentId ⊆ (f s).agents.map AgentRow.agentId)
    (hdelegates : ∀ s, s.delegates.map DelegateRow.key ⊆ (f s).delegates.map DelegateRow.key) :
    Executes chain (some ∘ f) := by
  intro s hs
  refine ⟨f s, rfl, ⟨?_, hchallenges s, ?_, hagents s, hdelegates s⟩, ?_, ?_⟩
  · rw [hreceipts]
    exact List.Subset.refl _
  · rw [hintents]
    exact List.Subset.refl _
  · rw [hreceipts]
    exact hs.receipts
  · rw [hintents]
    exact hs.intents

theorem upsertReceipt_executes (hv : ValidHistory g w chain) (hl : l ∈ chain) {id : Bytes32}
    {r : ReceiptSummary} (hevent : l.event = .ActionReceipt id r) :
    Executes chain fun s =>
      (upsertReceipt .sqlite (receiptRow l.toProvenance id r) s).toOption := by
  intro s hs
  have hfree : ¬ ∃ row ∈ s.receipts, row.receiptId ≠ id ∧ row.txHash = l.transactionHash ∧
      row.logIndex = l.logIndex := by
    intro h
    obtain ⟨row, hrow, hid, htx, hindex⟩ := h
    obtain ⟨l', hl', htx', hindex', receipt, hevent'⟩ := hs.receipts row hrow
    obtain rfl := hv.eq_of_place hl' hl (htx'.trans htx) (hindex'.trans hindex)
    exact hid (Event.ActionReceipt.inj (hevent'.symm.trans hevent)).1
  have hupsert : upsertReceipt .sqlite (receiptRow l.toProvenance id r) s = .ok { s with
      receipts := Table.upsert ReceiptRow.receiptId (mergeReceipt (receiptRow l.toProvenance id r))
        (receiptRow l.toProvenance id r) s.receipts } := if_neg hfree
  have hkeys :=
    Table.keys_upsert ReceiptRow.receiptId (mergeReceipt (receiptRow l.toProvenance id r))
    (receiptRow l.toProvenance id r) (fun _ _ => rfl) s.receipts
  dsimp only
  rw [hupsert]
  refine ⟨_, rfl, ⟨?_, List.Subset.refl _, List.Subset.refl _, List.Subset.refl _,
    List.Subset.refl _⟩, ?_, hs.intents⟩
  · exact List.Subset.trans (List.subset_cons_self _ _) hkeys
  · intro row hrow
    rcases Table.mem_upsert hrow with rfl | hrow | ⟨row', -, -, rfl⟩
    · exact ⟨l, hl, rfl, rfl, r, hevent⟩
    · exact hs.receipts row hrow
    · exact ⟨l, hl, rfl, rfl, r, hevent⟩

theorem setReceiptTraceUri_executes (id : Bytes32) (uri : Js.JsString) :
    Executes chain (some ∘ setReceiptTraceUri id uri) := by
  intro s hs
  have hkeys : (setReceiptTraceUri id uri s).receipts.map ReceiptRow.receiptId =
      s.receipts.map ReceiptRow.receiptId := by
    apply Table.keys_updateWhere
    intro row
    rfl
  refine ⟨_, rfl, ⟨?_, List.Subset.refl _, List.Subset.refl _, List.Subset.refl _,
    List.Subset.refl _⟩, ?_, hs.intents⟩
  · rw [hkeys]
    exact List.Subset.refl _
  · intro row hrow
    obtain ⟨row', hrow', rfl⟩ := List.mem_map.1 hrow
    have hsource := hs.receipts row' hrow'
    split_ifs
    · exact hsource
    · exact hsource

theorem keys_deactivate (owner : Address) (rows : List IntentRow) :
    (deactivate owner rows).map IntentRow.intentHash = rows.map IntentRow.intentHash := by
  apply Table.keys_updateWhere
  intro row
  rfl

/-- Rows of the history, with other flags. -/
theorem Sourced.deactivate {s : Store} (hs : Sourced chain s) (owner : Address) :
    Sourced chain { s with intents := deactivate owner s.intents } := by
  refine ⟨hs.receipts, ?_⟩
  intro row hrow
  obtain ⟨row', hrow', active, rfl⟩ := mem_deactivate hrow
  exact hs.intents row' hrow'

theorem KeepsRows.of_intents {s : Store} {rows : List IntentRow}
    (h : s.intents.map IntentRow.intentHash ⊆ rows.map IntentRow.intentHash) :
    KeepsRows s { s with intents := rows } :=
  ⟨List.Subset.refl _, List.Subset.refl _, h, List.Subset.refl _, List.Subset.refl _⟩

theorem markIntentRevoked_executes (owner : Address) :
    Executes chain (some ∘ markIntentRevoked owner) := by
  intro s hs
  refine ⟨_, rfl, .of_intents ?_, hs.deactivate owner⟩
  rw [keys_deactivate]
  exact List.Subset.refl _

section
variable {owner : Address} {intentHash : Bytes32} {uri : Bytes}

/-- The row at a commit's place has the commit's hash. -/
theorem Sourced.intentHash_eq {s : Store} (hs : Sourced chain s) (hv : ValidHistory g w chain)
    (hl : l ∈ chain) (hevent : l.event = .IntentCommitted owner intentHash uri) {row : IntentRow}
    (hrow : row ∈ s.intents) (htx : row.txHash = l.transactionHash)
    (hindex : row.logIndex = l.logIndex) : row.intentHash = intentHash := by
  obtain ⟨l', hl', htx', hindex', owner', uri', hevent'⟩ := hs.intents row hrow
  obtain rfl := hv.eq_of_place hl' hl (htx'.trans htx) (hindex'.trans hindex)
  exact (Event.IntentCommitted.inj (hevent'.symm.trans hevent)).2.1

theorem Sourced.insert {s : Store} (hs : Sourced chain s) (hl : l ∈ chain)
    (hevent : l.event = .IntentCommitted owner intentHash uri) :
    Sourced chain
      { s with intents := s.intents ++ [intentRow ctx l.toProvenance owner intentHash uri] } := by
  refine ⟨hs.receipts, ?_⟩
  intro row hrow
  rcases List.mem_append.1 hrow with hrow | hrow
  · exact hs.intents row hrow
  · obtain rfl := List.mem_singleton.1 hrow
    exact ⟨l, hl, rfl, rfl, owner, uri, hevent⟩

theorem upsertIntent_executes (hv : ValidHistory g w chain) (hl : l ∈ chain)
    (hevent : l.event = .IntentCommitted owner intentHash uri) :
    Executes chain (upsertIntent (intentRow ctx l.toProvenance owner intentHash uri)) := by
  intro s hs
  unfold upsertIntent
  by_cases hhash : ∃ r ∈ s.intents, r.intentHash = intentHash
  · exact ⟨s, if_pos hhash, .refl s, hs⟩
  · have hplace : ¬ ∃ r ∈ s.intents, r.txHash = l.transactionHash ∧ r.logIndex = l.logIndex := by
      intro h
      obtain ⟨row, hrow, htx, hindex⟩ := h
      exact hhash ⟨row, hrow, hs.intentHash_eq hv hl hevent hrow htx hindex⟩
    refine ⟨_, (if_neg hhash).trans (if_neg hplace), .of_intents ?_, hs.insert hl hevent⟩
    rw [List.map_append]
    exact List.subset_append_left _ _

theorem upsertIntent_records (hevent : l.event = .IntentCommitted owner intentHash uri) :
    Records chain l (upsertIntent (intentRow ctx l.toProvenance owner intentHash uri)) := by
  intro s s' _ h
  unfold Recorded
  rw [hevent]
  unfold upsertIntent at h
  split_ifs at h with hhash hplace
  · obtain ⟨row, hrow, hkey⟩ := hhash
    obtain rfl := Option.some.inj h
    exact List.mem_map.2 ⟨row, hrow, hkey⟩
  · obtain rfl := Option.some.inj h
    exact List.mem_map.2 ⟨_, List.mem_append_right _ (List.mem_singleton_self _), rfl⟩

/-- The transaction of SQLite is the two calls. -/
theorem insertIntentCommitted_eq (hv : ValidHistory g w chain) (hl : l ∈ chain)
    (hevent : l.event = .IntentCommitted owner intentHash uri) {s : Store} (hs : Sourced chain s) :
    (insertIntentCommitted .sqlite (intentRow ctx l.toProvenance owner intentHash uri) s).toOption =
      upsertIntent (intentRow ctx l.toProvenance owner intentHash uri)
        (markIntentRevoked owner s) := by
  have hs' := hs.deactivate owner
  have hsame :
      (∃ r ∈ deactivate owner s.intents, r.txHash = l.transactionHash ∧ r.logIndex = l.logIndex) ↔
      ∃ r ∈ deactivate owner s.intents, r.intentHash = intentHash := by
    constructor
    · intro h
      obtain ⟨row, hrow, htx, hindex⟩ := h
      exact ⟨row, hrow, hs'.intentHash_eq hv hl hevent hrow htx hindex⟩
    · intro h
      obtain ⟨row, hrow, rfl⟩ := h
      obtain ⟨l', hl', htx, hindex, owner', uri', hevent'⟩ := hs'.intents row hrow
      obtain rfl := hv.eq_of_commit hl' hl hevent' hevent
      exact ⟨row, hrow, htx.symm, hindex.symm⟩
  generalize hinput : intentRow ctx l.toProvenance owner intentHash uri = input
  have hplace : (∃ r ∈ deactivate input.owner s.intents, r.txHash = input.txHash ∧
      r.logIndex = input.logIndex) ↔
      ∃ r ∈ deactivate input.owner s.intents, r.intentHash = input.intentHash := by
    rw [← hinput]
    exact hsame
  have howner : owner = input.owner := by rw [← hinput]; rfl
  rw [howner]
  by_cases hhash : ∃ r ∈ deactivate input.owner s.intents, r.intentHash = input.intentHash
  · have hsqlite : insertIntentCommitted .sqlite input s = .ok (markIntentRevoked input.owner s) :=
      if_pos (hplace.2 hhash)
    have hupsert : upsertIntent input (markIntentRevoked input.owner s) =
        some (markIntentRevoked input.owner s) :=
      if_pos hhash
    rw [hsqlite, hupsert]
    rfl
  · have hfree := fun h => hhash (hplace.1 h)
    have hsqlite : insertIntentCommitted .sqlite input s =
        .ok { s with intents := deactivate input.owner s.intents ++ [input] } :=
      (if_neg hfree).trans (if_neg hhash)
    have hupsert : upsertIntent input (markIntentRevoked input.owner s) =
        some { s with intents := deactivate input.owner s.intents ++ [input] } :=
      (if_neg hhash).trans (if_neg hfree)
    rw [hsqlite, hupsert]
    rfl

end

/-- No statement of a log of the history is ever rejected. -/
theorem statements_executes (ctx : DecodeContext) (provider : Provider)
    (hv : ValidHistory g w chain) (hl : l ∈ chain) :
    ∀ statement ∈ statements ctx l.toProvenance provider l.event, Executes chain statement := by
  cases hevent : l.event
  case ActionReceipt id r =>
    intro statement hmem
    obtain rfl := List.mem_singleton.1 hmem
    exact upsertReceipt_executes hv hl hevent
  case TraceURIStored id uri =>
    intro statement hmem
    obtain rfl := List.mem_singleton.1 hmem
    exact setReceiptTraceUri_executes _ _
  case IntentCommitted owner intentHash uri =>
    have hrevoke : Executes chain (some ∘ markIntentRevoked owner) :=
      markIntentRevoked_executes owner
    have hinsert :
        Executes chain (upsertIntent (intentRow ctx l.toProvenance owner intentHash uri)) :=
      upsertIntent_executes hv hl hevent
    cases provider with
    | sqlite =>
      intro statement hmem
      obtain rfl := List.mem_singleton.1 hmem
      intro s hs
      obtain ⟨s', hs', hkeeps, hsource⟩ := hrevoke s hs
      obtain rfl := Option.some.inj hs'
      obtain ⟨s'', hs'', hkeeps', hsource'⟩ := hinsert _ hsource
      exact ⟨s'', (insertIntentCommitted_eq hv hl hevent hs).trans hs'',
        hkeeps.trans hkeeps', hsource'⟩
    | supabase =>
      intro statement hmem
      rcases List.mem_cons.1 hmem with rfl | hmem
      · exact hrevoke
      · obtain rfl := List.mem_singleton.1 hmem
        exact hinsert
  case IntentRevoked owner intentHash =>
    intro statement hmem
    obtain rfl := List.mem_singleton.1 hmem
    exact markIntentRevoked_executes owner
  case ChallengeFiled id receiptId challenger =>
    intro statement hmem
    obtain rfl := List.mem_singleton.1 hmem
    refine executes_frame (fun _ => rfl) (fun _ => rfl) ?_ (fun _ => List.Subset.refl _) fun _ =>
      List.Subset.refl _
    intro s
    apply List.Subset.trans (List.subset_cons_self _ _)
    apply Table.keys_upsert
    intro row hrow
    exact hrow
  case ChallengeResolved id uphold payout =>
    intro statement hmem
    obtain rfl := List.mem_singleton.1 hmem
    refine executes_frame (fun _ => rfl) (fun _ => rfl) ?_ (fun _ => List.Subset.refl _) fun _ =>
      List.Subset.refl _
    intro s
    have hkeys :
        (resolveChallenge (resolutionOf ctx l.toProvenance id uphold payout) s).challenges.map
          ChallengeRow.challengeId =
        s.challenges.map ChallengeRow.challengeId := by
      apply Table.keys_updateWhere
      intro row
      rfl
    rw [hkeys]
    exact List.Subset.refl _
  case AgentRegistered id operator uri =>
    intro statement hmem
    obtain rfl := List.mem_singleton.1 hmem
    refine executes_frame (fun _ => rfl) (fun _ => rfl) (fun _ => List.Subset.refl _) ?_ fun _ =>
      List.Subset.refl _
    intro s
    apply List.Subset.trans (List.subset_cons_self _ _)
    exact Table.keys_upsert _ _ _
      (mergeAgent_key provider (agentRow ctx l.toProvenance id operator uri)) _
  case AgentStaked id amount newStake =>
    intro statement hmem
    obtain rfl := List.mem_singleton.1 hmem
    refine executes_frame (fun _ => rfl) (fun _ => rfl) (fun _ => List.Subset.refl _) ?_ fun _ =>
      List.Subset.refl _
    intro s
    have hkeys : (applyStakeIncrease id newStake s).agents.map AgentRow.agentId =
        s.agents.map AgentRow.agentId := by
      apply Table.keys_updateWhere
      intro row
      rfl
    rw [hkeys]
    exact List.Subset.refl _
  case AgentDelegateSet owner id delegate approved =>
    intro statement hmem
    obtain rfl := List.mem_singleton.1 hmem
    refine executes_frame (fun _ => rfl) (fun _ => rfl) (fun _ => List.Subset.refl _)
      (fun _ => List.Subset.refl _) ?_
    intro s
    apply List.Subset.trans (List.subset_cons_self _ _)
    cases provider with
    | sqlite => exact Table.keys_insertOrReplace _
    | supabase => exact Table.keys_upsert _ _ _ (fun _ _ => rfl) _
  all_goals
    intro statement hmem
    exact absurd hmem List.not_mem_nil

/-- An event that creates a row has a statement that does. -/
theorem statements_records (ctx : DecodeContext) (provider : Provider) (hv : ValidHistory g w chain)
    (hl : l ∈ chain) :
    (∃ statement ∈ statements ctx l.toProvenance provider l.event, Records chain l statement) ∨ ∀ s,
      Recorded s l := by
  cases hevent : l.event
  case ActionReceipt id r =>
    refine .inl ⟨_, List.mem_singleton_self _, ?_⟩
    intro s s' hs h
    unfold Recorded
    rw [hevent]
    dsimp only at h
    unfold upsertReceipt at h
    split_ifs at h
    · exact absurd h (Option.some_ne_none s').symm
    · obtain rfl := Option.some.inj h
      have hkeys :=
        Table.keys_upsert ReceiptRow.receiptId (mergeReceipt (receiptRow l.toProvenance id r))
        (receiptRow l.toProvenance id r) (fun _ _ => rfl) s.receipts
      exact hkeys List.mem_cons_self
  case IntentCommitted owner intentHash uri =>
    have hinsert :
        Records chain l (upsertIntent (intentRow ctx l.toProvenance owner intentHash uri)) :=
      upsertIntent_records hevent
    cases provider with
    | sqlite =>
      refine .inl ⟨_, List.mem_singleton_self _, ?_⟩
      intro s s' hs h
      dsimp only at h
      rw [insertIntentCommitted_eq hv hl hevent hs] at h
      exact hinsert _ s' (hs.deactivate owner) h
    | supabase => exact .inl ⟨_, List.mem_cons_of_mem _ (List.mem_singleton_self _), hinsert⟩
  case ChallengeFiled id receiptId challenger =>
    refine .inl ⟨_, List.mem_singleton_self _, ?_⟩
    intro s s' hs h
    obtain rfl := Option.some.inj h
    unfold Recorded
    rw [hevent]
    have hkeys := Table.keys_upsert ChallengeRow.challengeId
      (refile provider (filingOf ctx l.toProvenance id receiptId challenger))
      (filedRow (filingOf ctx l.toProvenance id receiptId challenger)) (fun _ hr => hr) s.challenges
    exact hkeys List.mem_cons_self
  case AgentRegistered id operator uri =>
    refine .inl ⟨_, List.mem_singleton_self _, ?_⟩
    intro s s' hs h
    obtain rfl := Option.some.inj h
    unfold Recorded
    rw [hevent]
    have hkeys := Table.keys_upsert AgentRow.agentId
      (mergeAgent provider (agentRow ctx l.toProvenance id operator uri))
      (agentRow ctx l.toProvenance id operator uri) (mergeAgent_key _ _) s.agents
    exact hkeys List.mem_cons_self
  case AgentDelegateSet owner id delegate approved =>
    refine .inl ⟨_, List.mem_singleton_self _, ?_⟩
    intro s s' hs h
    obtain rfl := Option.some.inj h
    unfold Recorded
    rw [hevent]
    cases provider with
    | sqlite => exact Table.keys_insertOrReplace _ List.mem_cons_self
    | supabase => exact Table.keys_upsert _ _ _ (fun _ _ => rfl) _ List.mem_cons_self
  all_goals
    right
    intro s
    unfold Recorded
    rw [hevent]
    trivial

/-! ### The calls of one log -/

/-- What the calls of a log of the history leave. -/
structure Handling (chain : List MinedLog) (l : MinedLog) (calls : List Statement)
    (fails : ℕ → Bool) (s s' : Store) (took : Bool) : Prop where
  sourced : Sourced chain s'
  keeps : KeepsRows s s'
  took_iff : took = true ↔ ∀ n < calls.length, fails n = false
  recorded : took = true → (∃ statement ∈ calls, Records chain l statement) → Recorded s' l

theorem handling_of_storeCalls {calls : List Statement} {fails : ℕ → Bool}
    {s s' : Store} {took : Bool} (hcalls : ∀ statement ∈ calls, Executes chain statement)
    (hs : Sourced chain s) (h : storeCalls provider fails calls s = some (s', took)) :
    Handling chain l calls fails s s' took := by
  induction calls generalizing fails s took with
  | nil =>
    obtain ⟨rfl, rfl⟩ := Prod.ext_iff.1 (Option.some.inj h)
    exact ⟨hs, .refl s, by simp, by simp⟩
  | cons statement calls ih =>
    obtain ⟨hstatement, hcalls⟩ := List.forall_mem_cons.1 hcalls
    obtain ⟨⟨s₁, first⟩, h₁, h⟩ := Option.bind_eq_some_iff.1 h
    obtain ⟨⟨s₂, others⟩, h₂, h⟩ := Option.bind_eq_some_iff.1 h
    obtain ⟨rfl, rfl⟩ := Prod.ext_iff.1 (Option.some.inj h)
    obtain ⟨t, ht, hkeeps, hsource⟩ := hstatement s hs
    unfold storeCall at h₁
    cases hfail : fails 0 with
    | true =>
      rw [hfail] at h₁
      cases provider with
      | sqlite => exact absurd h₁ (Option.some_ne_none _).symm
      | supabase =>
        obtain ⟨rfl, rfl⟩ := Prod.ext_iff.1 (Option.some.inj h₁)
        have hrest := ih hcalls hs h₂
        refine ⟨hrest.sourced, hrest.keeps, ?_, by simp⟩
        refine iff_of_false (by simp) ?_
        intro hall
        have := hall 0 (Nat.succ_pos _)
        simp [hfail] at this
    | false =>
      rw [hfail, if_neg Bool.false_ne_true, ht] at h₁
      obtain ⟨rfl, rfl⟩ := Prod.ext_iff.1 (Option.some.inj h₁)
      have hrest := ih hcalls hsource h₂
      refine ⟨hrest.sourced, hkeeps.trans hrest.keeps, ?_, ?_⟩
      · rw [Bool.true_and, hrest.took_iff]
        constructor
        · intro hall n hn
          cases n with
          | zero => exact hfail
          | succ n => exact hall n (Nat.lt_of_succ_lt_succ hn)
        · intro hall n hn
          exact hall (n + 1) (Nat.succ_lt_succ hn)
      · intro htook hrecords
        obtain ⟨statement', hmem, hrecords⟩ := hrecords
        rcases List.mem_cons.1 hmem with rfl | hmem
        · exact (hrecords s t hs ht).mono hrest.keeps
        · exact hrest.recorded (by simpa using htook) ⟨statement', hmem, hrecords⟩

theorem unfailing_of_sqlite {calls : List Statement} {fails : ℕ → Bool} {s : Store}
    {r : Store × Bool} (h : storeCalls .sqlite fails calls s = some r) :
    ∀ n < calls.length, fails n = false := by
  induction calls generalizing fails s r with
  | nil => simp
  | cons statement calls ih =>
    obtain ⟨⟨s₁, first⟩, h₁, h⟩ := Option.bind_eq_some_iff.1 h
    obtain ⟨r', h₂, -⟩ := Option.bind_eq_some_iff.1 h
    intro n hn
    cases n with
    | zero =>
      by_contra hfail
      rw [Bool.not_eq_false] at hfail
      unfold storeCall at h₁
      rw [hfail, if_pos rfl] at h₁
      exact absurd h₁ (Option.some_ne_none _).symm
    | succ n => exact ih h₂ n (Nat.lt_of_succ_lt_succ hn)

/-! ### The cursor -/

/-- Whenever a cursor is persisted, the write of every log that has been processed up to it has
taken effect, and what it created is in the store. -/
def NothingLost (s : Indexing) : Prop :=
  ∀ b, s.lastBlock = some b → ∀ l ∈ s.processed, l.blockNumber ≤ b →
    l ∈ s.effective ∧ Recorded s.store l

/-- At the end of a batch, every log processed up to the cursor that is then persisted has had a
handling without a failing call. -/
def CursorAllowed (s : Indexing) (t : Tick) : Prop :=
  ∀ fails upper rest, t = .call fails → s.pending = .setMeta upper :: rest →
    ∀ b, (if fails 0 then s.lastBlock else some upper) = some b →
      ∀ l ∈ s.processed ++ s.batch, l.blockNumber ≤ b → l ∈ s.unfailing

namespace Poller
variable {P : Poller}

/-- The invariant of all runs. -/
structure Indexed (P : Poller) (s : Indexing) : Prop where
  sourced : Sourced P.chain s.store
  pending : ∀ l, .handle l ∈ s.pending → l ∈ P.chain
  effective_iff : ∀ l, l ∈ s.effective ↔ l ∈ s.unfailing
  recorded : ∀ l ∈ s.effective, Recorded s.store l

theorem mem_of_mem_writes {last : Option ℕ} {a : Attempt} {l : MinedLog}
    (h : .handle l ∈ P.writes last a) :
    l ∈ P.chain := by
  have hloop : ∀ {batchSize toBlock turns cursor : ℕ},
      .handle l ∈ P.indexLoop batchSize toBlock turns cursor → l ∈ P.chain := by
    intro batchSize toBlock turns cursor h
    induction turns generalizing cursor with
    | zero => exact absurd h List.not_mem_nil
    | succ turns ih =>
      by_cases hcursor : cursor ≤ toBlock
      · rw [indexLoop, if_pos hcursor] at h
        dsimp only at h
        rcases List.mem_append.1 h with h | h
        · obtain ⟨l', hl', heq⟩ := List.mem_map.1 h
          obtain rfl := IndexerWrite.handle.inj heq
          exact List.mem_of_mem_filter hl'
        · rcases List.mem_cons.1 h with h | h
          · exact absurd h (by simp)
          · exact ih h
      · rw [indexLoop, if_neg hcursor] at h
        exact absurd h List.not_mem_nil
  unfold writes at h
  dsimp only at h
  split at h
  · exact hloop (List.mem_of_mem_take h)
  · exact hloop h

theorem Indexed.handle {s : Indexing} (hI : Indexed P s) (hv : ValidHistory g w P.chain)
    {l : MinedLog} (hl : l ∈ P.chain) {rest : List IndexerWrite}
    (hrest : ∀ l, .handle l ∈ rest → l ∈ P.chain) (fails : ℕ → Bool) :
    Indexed P (P.handle s l rest fails) := by
  unfold Poller.handle
  dsimp only
  cases hcalls : storeCalls P.provider fails
    (statements P.ctx l.toProvenance P.provider l.event) s.store with
  | none => exact ⟨hI.sourced, by simp, hI.effective_iff, hI.recorded⟩
  | some r =>
    obtain ⟨store, took⟩ := r
    have hh :=
      handling_of_storeCalls (l := l) (statements_executes P.ctx P.provider hv hl) hI.sourced hcalls
    have hrecorded : took = true → Recorded store l := by
      intro htook
      rcases statements_records P.ctx P.provider hv hl with hrecords | hrecords
      · exact hh.recorded htook hrecords
      · exact hrecords store
    refine ⟨hh.sourced, hrest, ?_, ?_⟩
    · intro l'
      dsimp only
      cases took with
      | true =>
        rw [if_pos rfl, if_pos (hh.took_iff.1 rfl), List.mem_cons, List.mem_cons, hI.effective_iff]
      | false =>
        rw [if_neg Bool.false_ne_true, if_neg fun hall => Bool.false_ne_true (hh.took_iff.2 hall),
          hI.effective_iff]
    · intro l' hl'
      have hold : l' ∈ s.effective → Recorded store l' :=
        fun hmem => (hI.recorded l' hmem).mono hh.keeps
      dsimp only at hl' ⊢
      split_ifs at hl' with htook
      · rcases List.mem_cons.1 hl' with rfl | hl'
        · exact hrecorded htook
        · exact hold hl'
      · exact hold hl'

theorem Indexed.step {s : Indexing} (hI : Indexed P s) (hv : ValidHistory g w P.chain) (t : Tick) :
    Indexed P (P.step s t) := by
  cases t with
  | wake a readFails =>
    show Indexed P (P.wake s a readFails)
    unfold wake
    split
    · exact ⟨hI.sourced, fun l => mem_of_mem_writes, hI.effective_iff, hI.recorded⟩
    · exact ⟨hI.sourced, by simp, hI.effective_iff, hI.recorded⟩
    · exact ⟨hI.sourced, fun l => mem_of_mem_writes, hI.effective_iff, hI.recorded⟩
  | call fails =>
    have hpending := hI.pending
    unfold Poller.step
    cases h : s.pending with
    | nil => exact hI
    | cons op rest =>
      rw [h] at hpending
      have hrest : ∀ l, .handle l ∈ rest → l ∈ P.chain :=
        fun l hl => hpending l (List.mem_cons_of_mem _ hl)
      cases op with
      | handle l => exact hI.handle hv (hpending l List.mem_cons_self) hrest fails
      | setMeta upper =>
        show Indexed P (P.writeCursor s upper rest (fails 0))
        unfold writeCursor
        dsimp only
        split
        · exact ⟨hI.sourced, hrest, hI.effective_iff, hI.recorded⟩
        · exact ⟨hI.sourced, by simp, hI.effective_iff, hI.recorded⟩
        · exact ⟨hI.sourced, hrest, hI.effective_iff, hI.recorded⟩

theorem Indexed.start : Indexed P .start := by
  refine ⟨Sourced.empty P.chain, ?_, fun _ => Iff.rfl, ?_⟩
  · intro l hl
    exact absurd hl List.not_mem_nil
  · intro l hl
    exact absurd hl List.not_mem_nil

theorem reachable_indexing (P : Poller) (ticks : List Tick) :
    Runs.Reachable P.step .start (P.indexing ticks) := reachable_run _ _

theorem indexed_indexing (hv : ValidHistory g w P.chain) (ticks : List Tick) :
    Indexed P (P.indexing ticks) :=
  (reachable_indexing P ticks).induction .start fun _ t hI => hI.step hv t

/-- `NothingLost`, read off the calls. -/
def Behind (s : Indexing) : Prop :=
  ∀ b, s.lastBlock = some b → ∀ l ∈ s.processed, l.blockNumber ≤ b → l ∈ s.unfailing

theorem Indexed.nothingLost_iff {s : Indexing} (hI : Indexed P s) : NothingLost s ↔ Behind s := by
  constructor
  · intro h b hb l hl hle
    exact (hI.effective_iff l).1 (h b hb l hl hle).1
  · intro h b hb l hl hle
    have heffective := (hI.effective_iff l).2 (h b hb l hl hle)
    exact ⟨heffective, hI.recorded l heffective⟩

/-- Only the end of a batch can leave a log behind. -/
theorem behind_step_iff {s : Indexing} (h : Behind s) (t : Tick) :
    Behind (P.step s t) ↔ CursorAllowed s t := by
  cases t with
  | wake a readFails =>
    refine iff_of_true ?_ ?_
    · show Behind (P.wake s a readFails)
      unfold wake
      split <;> exact h
    · intro fails upper rest ht
      exact absurd ht (by simp)
  | call fails =>
    cases hpending : s.pending with
    | nil =>
      refine iff_of_true ?_ ?_
      · unfold step
        rw [hpending]
        exact h
      · intro fails' upper rest _ hset
        exact absurd (hpending.symm.trans hset) (by simp)
    | cons op rest =>
      unfold step
      rw [hpending]
      cases op with
      | handle l =>
        refine iff_of_true ?_ ?_
        · show Behind (P.handle s l rest fails)
          unfold Poller.handle
          dsimp only
          split
          · exact h
          · intro b hb l' hl' hle
            have hold := h b hb l' hl' hle
            dsimp only
            split_ifs
            · exact List.mem_cons_of_mem _ hold
            · exact hold
        · intro fails' upper rest' _ hset
          exact absurd (hpending.symm.trans hset) (by simp)
      | setMeta upper =>
        have hlast : (P.writeCursor s upper rest (fails 0)).lastBlock = if fails 0 then s.lastBlock
            else some upper := by
          unfold writeCursor
          cases fails 0 <;> cases P.provider <;> rfl
        have hprocessed : (P.writeCursor s upper rest (fails 0)).processed = s.processed ++
            s.batch := by
          unfold writeCursor
          cases fails 0 <;> cases P.provider <;> rfl
        have hunfailing : (P.writeCursor s upper rest (fails 0)).unfailing = s.unfailing := by
          unfold writeCursor
          cases fails 0 <;> cases P.provider <;> rfl
        show Behind (P.writeCursor s upper rest (fails 0)) ↔ _
        unfold Behind CursorAllowed
        rw [hlast, hprocessed, hunfailing]
        constructor
        · intro hbehind fails' upper' rest' ht hset
          obtain rfl := Tick.call.inj ht
          obtain ⟨hop, -⟩ := List.cons.inj (hpending.symm.trans hset)
          obtain rfl := IndexerWrite.setMeta.inj hop
          exact hbehind
        · intro hallowed
          exact hallowed fails upper rest rfl hpending

/-- SQLite throws, so what is in a batch has been written. -/
structure Thrown (s : Indexing) : Prop where
  batch : s.batch ⊆ s.unfailing
  processed : s.processed ⊆ s.unfailing

theorem Thrown.step {s : Indexing} (h : Thrown s) (hprovider : P.provider = .sqlite) (t : Tick) :
    Thrown (P.step s t) := by
  cases t with
  | wake a readFails =>
    show Thrown (P.wake s a readFails)
    unfold wake
    split <;> exact ⟨List.nil_subset _, h.processed⟩
  | call fails =>
    unfold Poller.step
    cases s.pending with
    | nil => exact h
    | cons op rest =>
      cases op with
      | handle l =>
        show Thrown (P.handle s l rest fails)
        unfold Poller.handle
        dsimp only
        cases hcalls : storeCalls P.provider fails
          (statements P.ctx l.toProvenance P.provider l.event) s.store with
        | none => exact ⟨List.nil_subset _, h.processed⟩
        | some r =>
          have hall := unfailing_of_sqlite (hprovider ▸ hcalls)
          rw [← hprovider] at hall
          dsimp only
          rw [if_pos hall]
          refine ⟨?_, List.subset_cons_of_subset l h.processed⟩
          apply List.append_subset.2 ⟨List.subset_cons_of_subset l h.batch, ?_⟩
          exact List.cons_subset.2 ⟨List.mem_cons_self, List.nil_subset _⟩
      | setMeta upper =>
        have hboth := List.append_subset.2 ⟨h.processed, h.batch⟩
        show Thrown (P.writeCursor s upper rest (fails 0))
        unfold writeCursor
        dsimp only
        split <;> exact ⟨List.nil_subset _, hboth⟩

/-! ### The processed blocks -/

/-- The configured start block. -/
def startBlock (P : Poller) : Option ℕ := P.INDEXER_START_BLOCK <|> P.deployment.startBlock

/-- A log that is next is the first of what is left of the batch. -/
theorem exists_of_handle_prefix {l : MinedLog} {logs : List MinedLog} {upper : ℕ}
    {rest next : List IndexerWrite}
    (h : .handle l :: rest <+: logs.map .handle ++ .setMeta upper :: next) :
    ∃ logs', logs = l :: logs' ∧ rest <+: logs'.map .handle ++ .setMeta upper :: next := by
  cases logs with
  | nil => exact absurd (List.cons_prefix_cons.1 h).1 (by simp)
  | cons l' logs =>
    obtain ⟨hop, hleft⟩ := List.cons_prefix_cons.1 h
    obtain rfl := IndexerWrite.handle.inj hop
    exact ⟨logs, rfl, hleft⟩

/-- When the cursor is next, the batch is through. -/
theorem of_setMeta_prefix {logs : List MinedLog} {upper upper' : ℕ} {rest next : List IndexerWrite}
    (h : .setMeta upper :: rest <+: logs.map .handle ++ .setMeta upper' :: next) :
    logs = [] ∧ upper = upper' ∧ rest <+: next := by
  cases logs with
  | cons l logs => exact absurd (List.cons_prefix_cons.1 h).1 (by simp)
  | nil =>
    obtain ⟨hop, hleft⟩ := List.cons_prefix_cons.1 h
    exact ⟨rfl, IndexerWrite.setMeta.inj hop, hleft⟩

/-- What is left of an attempt: the rest of the batch that has begun at `c`, its cursor, and the
later batches. -/
structure Ahead (P : Poller) (s : Indexing) (c : ℕ) : Prop where
  processed : ∀ start, P.startBlock = some start →
    ∀ l ∈ P.chain, start ≤ l.blockNumber → l.blockNumber < c → l ∈ s.processed
  pending : ∃ rest upper batchSize toBlock turns next, s.batch ++ rest = P.getLogs c upper ∧
    (next = upper + 1 ∨ toBlock < next) ∧
    s.pending <+: rest.map .handle ++ .setMeta upper :: P.indexLoop batchSize toBlock turns next

/-- Every log from the configured start block to the cursor has been processed. -/
structure Covered (P : Poller) (s : Indexing) : Prop where
  persisted : ∀ start, P.startBlock = some start → ∀ b, s.lastBlock = some b →
    ∀ l ∈ P.chain, start ≤ l.blockNumber → l.blockNumber ≤ b → l ∈ s.processed
  ahead : s.pending = [] ∨ ∃ c, Ahead P s c

theorem ahead_of_indexLoop {s : Indexing} {batchSize toBlock turns c : ℕ} (hbatch : s.batch = [])
    (hprocessed : ∀ start, P.startBlock = some start →
      ∀ l ∈ P.chain, start ≤ l.blockNumber → l.blockNumber < c → l ∈ s.processed)
    (hpending : s.pending <+: P.indexLoop batchSize toBlock turns c) :
    s.pending = [] ∨ ∃ c, Ahead P s c := by
  cases turns with
  | zero => exact .inl (List.prefix_nil.1 hpending)
  | succ turns =>
    by_cases hcursor : c ≤ toBlock
    · right
      rw [indexLoop, if_pos hcursor] at hpending
      refine ⟨c, hprocessed, _, _, _, _, _, _, ?_, ?_, hpending⟩
      · rw [hbatch]
        rfl
      · split_ifs <;> omega
    · left
      rw [indexLoop, if_neg hcursor] at hpending
      exact List.prefix_nil.1 hpending

theorem firstBlock_eq {start : ℕ} (h : P.startBlock = some start) (fallbackHead : ℕ) :
    P.firstBlock fallbackHead = start := by
  unfold startBlock at h
  unfold firstBlock
  cases hindexer : P.INDEXER_START_BLOCK with
  | some block =>
    rw [hindexer] at h
    exact Option.some.inj h
  | none =>
    rw [hindexer] at h
    have h : P.deployment.startBlock = some start := h
    rw [h]

theorem Covered.wake {s : Indexing} (h : Covered P s) (last : Option ℕ)
    (hlast : last = none ∨ last = s.lastBlock) (a : Attempt) :
    Covered P { s with pending := P.writes last a, batch := [] } := by
  have hwrites : P.writes last a <+:
      P.indexRange a.INDEXER_BATCH_BLOCKS (P.resolveStartBlock last a.fallbackHead) a.head := by
    unfold writes
    dsimp only
    split
    · exact List.take_prefix _ _
    · exact List.prefix_rfl
  refine ⟨h.persisted, ahead_of_indexLoop rfl ?_ hwrites⟩
  intro start hstart l hl hlow hup
  rcases hlast with rfl | rfl
  · have hfirst : P.resolveStartBlock none a.fallbackHead = start := firstBlock_eq hstart _
    omega
  · cases hb : s.lastBlock with
    | none =>
      have hfirst : P.resolveStartBlock none a.fallbackHead = start := firstBlock_eq hstart _
      rw [hb, hfirst] at hup
      omega
    | some b =>
      rw [hb, resolveStartBlock, firstBlock_eq hstart] at hup
      split_ifs at hup
      · exact h.persisted start hstart b hb l hl hlow (by omega)
      · omega

theorem Covered.handle {s : Indexing} (h : Covered P s) {l : MinedLog} {rest : List IndexerWrite}
    (hpending : s.pending = .handle l :: rest) (fails : ℕ → Bool) :
    Covered P (P.handle s l rest fails) := by
  unfold Poller.handle
  dsimp only
  split
  · exact ⟨h.persisted, .inl rfl⟩
  refine ⟨h.persisted, ?_⟩
  rcases h.ahead with hnil | ⟨c, hprocessed, logs, upper, batchSize, toBlock, turns, next, hbatch,
    hnext, hprefix⟩
  · exact absurd (hpending.symm.trans hnil) (by simp)
  obtain ⟨logs, rfl, hleft⟩ := exists_of_handle_prefix (hpending ▸ hprefix)
  refine .inr ⟨c, hprocessed, logs, upper, batchSize, toBlock, turns, next, ?_, hnext, hleft⟩
  rw [← hbatch]
  exact List.append_assoc _ _ _

theorem Covered.writeCursor {s : Indexing} (h : Covered P s) {upper : ℕ} {rest : List IndexerWrite}
    (hpending : s.pending = .setMeta upper :: rest) (fails : Bool) :
    Covered P (P.writeCursor s upper rest fails) := by
  rcases h.ahead with hnil | ⟨c, hprocessed, logs, upper', batchSize, toBlock, turns, next, hbatch,
    hnext, hprefix⟩
  · exact absurd (hpending.symm.trans hnil) (by simp)
  obtain ⟨rfl, rfl, hleft⟩ := of_setMeta_prefix (hpending ▸ hprefix)
  rw [List.append_nil] at hbatch
  have hupper : ∀ start, P.startBlock = some start → ∀ l ∈ P.chain, start ≤ l.blockNumber →
      l.blockNumber ≤ upper →
      l ∈ s.processed ++ s.batch := by
    intro start hstart l hl hlow hle
    rcases Nat.lt_or_ge l.blockNumber c with hlt | hge
    · exact List.mem_append_left _ (hprocessed start hstart l hl hlow hlt)
    · rw [hbatch]
      exact List.mem_append_right _ (List.mem_filter.2 ⟨hl, by simp [hge, hle]⟩)
  have hold : ∀ start, P.startBlock = some start → ∀ b, s.lastBlock = some b →
      ∀ l ∈ P.chain, start ≤ l.blockNumber → l.blockNumber ≤ b → l ∈ s.processed ++ s.batch := by
    intro start hstart b hb l hl hlow hle
    exact List.mem_append_left _ (h.persisted start hstart b hb l hl hlow hle)
  have hrest : ∀ last, rest = [] ∨ ∃ c, Ahead P
      { s with lastBlock := last, processed := s.processed ++ s.batch, batch := [],
               pending := rest } c := by
    intro last
    rcases hnext with rfl | hnext
    · refine ahead_of_indexLoop
        (s := { s with lastBlock := last, processed := s.processed ++ s.batch, batch := [],
                       pending := rest })
        rfl ?_ hleft
      intro start hstart l hl hlow hlt
      exact hupper start hstart l hl hlow (by omega)
    · rw [indexLoop_of_lt hnext] at hleft
      exact .inl (List.prefix_nil.1 hleft)
  unfold Poller.writeCursor
  dsimp only
  split
  · refine ⟨?_, hrest _⟩
    intro start hstart b hb
    obtain rfl := Option.some.inj hb
    exact hupper start hstart
  · exact ⟨hold, .inl rfl⟩
  · exact ⟨hold, hrest _⟩

theorem Covered.step {s : Indexing} (h : Covered P s) (t : Tick) : Covered P (P.step s t) := by
  cases t with
  | wake a readFails =>
    show Covered P (P.wake s a readFails)
    unfold Poller.wake
    split
    · exact h.wake _ (.inr rfl) a
    · exact ⟨h.persisted, .inl rfl⟩
    · exact h.wake _ (.inl rfl) a
  | call fails =>
    unfold Poller.step
    cases hpending : s.pending with
    | nil => exact h
    | cons op rest =>
      cases op with
      | handle l => exact h.handle hpending fails
      | setMeta upper => exact h.writeCursor hpending (fails 0)

theorem covered_indexing (P : Poller) (ticks : List Tick) : Covered P (P.indexing ticks) := by
  apply (reachable_indexing P ticks).induction
  · refine ⟨?_, .inl rfl⟩
    intro start _ b hb
    exact absurd hb (Option.some_ne_none b).symm
  · intro s t h
    exact h.step t

end Poller

open Poller in
/-- Up to the persisted cursor, on SQLite always, and on Supabase exactly in the runs in which no
batch ends over a log that has only been handled with a failing call, every processed log has been
written. With a configured start block the processed blocks are all blocks from it to the cursor. -/
theorem cursor_behind_writes_iff {P : Poller} (hv : ValidHistory g w P.chain) (ticks : List Tick) :
    (∀ start, P.startBlock = some start → ∀ b, (P.indexing ticks).lastBlock = some b →
      ∀ l ∈ P.chain, start ≤ l.blockNumber → l.blockNumber ≤ b → l ∈ (P.indexing ticks).processed) ∧
    ((∀ pre, pre <+: ticks → NothingLost (P.indexing pre)) ↔
      P.provider = .sqlite ∨ ∀ v ∈ visits P.step .start ticks, CursorAllowed v.1 v.2) := by
  refine ⟨(covered_indexing P ticks).persisted, ?_⟩
  have hstart : Behind .start := by
    intro b hb
    exact absurd hb (Option.some_ne_none b).symm
  have hbehind : (∀ pre, pre <+: ticks → NothingLost (P.indexing pre)) ↔ ∀ pre, pre <+: ticks →
      Behind (P.indexing pre) := by
    constructor
    · intro h pre hpre
      exact (indexed_indexing hv pre).nothingLost_iff.1 (h pre hpre)
    · intro h pre hpre
      exact (indexed_indexing hv pre).nothingLost_iff.2 (h pre hpre)
  have hrule : (∀ pre, pre <+: ticks → Behind (P.indexing pre)) ↔
      ∀ v ∈ visits P.step .start ticks, CursorAllowed v.1 v.2 :=
    forall_prefix_iff (Q := Behind) (C := CursorAllowed)
      (fun _ t hs => behind_step_iff hs t) hstart ticks
  rw [hbehind, hrule]
  constructor
  · exact .inr
  · intro h
    rcases h with hsqlite | hallowed
    · rw [← hrule]
      intro pre _ b _ l hl _
      have hthrown : Thrown (P.indexing pre) := by
        apply (reachable_indexing P pre).induction
        · exact ⟨List.nil_subset _, List.nil_subset _⟩
        · intro s t h
          exact h.step hsqlite t
      exact hthrown.processed hl
    · exact hallowed

end IntentGuard.Infra

namespace IntentGuard.Localnet

open Runs Infra

def supabasePoller : Poller := { poller with provider := .supabase }

/-- Both calls of the commit's handler fail, the cursor is written. -/
def lostCommit : List Tick :=
  [.wake (attempt none) false, .call fun _ => true, .call fun _ => false]

theorem supabasePoller_valid :
    ValidHistory genesis (run step (init genesis) [send alice (.commitIntent 77 config [])])
      supabasePoller.chain :=
  poller_valid

end IntentGuard.Localnet

namespace IntentGuard.Infra

open Runs Localnet

/-- The cursor is at block 1 and its intent is not in the store. -/
theorem lostCommit_passed :
    ¬ ∀ (D : Deployment) (g : Genesis D) (w : World D) (P : Poller) (ticks : List Tick),
      ValidHistory g w P.chain →
      NothingLost (P.indexing ticks) := by
  intro h
  have hlost := h _ _ _ supabasePoller lostCommit supabasePoller_valid
  have hcursor : (supabasePoller.indexing lostCommit).lastBlock = some 1 := by decide +kernel
  have hprocessed : commitLog ∈ (supabasePoller.indexing lostCommit).processed := by decide +kernel
  have hlog := (hlost 1 hcursor commitLog hprocessed (by decide)).1
  exact absurd hlog (by decide +kernel)

/-- The theorem at these calls. -/
theorem cursor_behind_writes_iff_lostCommit :
    (∀ start, supabasePoller.startBlock = some start →
      ∀ b, (supabasePoller.indexing lostCommit).lastBlock = some b →
      ∀ l ∈ supabasePoller.chain, start ≤ l.blockNumber → l.blockNumber ≤ b →
        l ∈ (supabasePoller.indexing lostCommit).processed) ∧
    ((∀ pre, pre <+: lostCommit → NothingLost (supabasePoller.indexing pre)) ↔
      supabasePoller.provider = .sqlite ∨
        ∀ v ∈ visits supabasePoller.step .start lostCommit, CursorAllowed v.1 v.2) :=
  cursor_behind_writes_iff supabasePoller_valid lostCommit

end IntentGuard.Infra
