import IntentGuard.Infra.ActiveIntents
import IntentGuard.Infra.Traces

/-!
# The two backends

The same writes on SQLite and on Supabase. `SameTables` is kept by every write but three, which find
a row that another write has changed since it was made: a filing of a challenge that has been
resolved (Supabase sets its status back), a registration of an agent that has stake (Supabase sets
it to 0), and a trace under another agent, owner or text (SQLite keeps the old ones).
`backends_agree_iff`: the reads agree all along in exactly the sequences without these.
-/

namespace IntentGuard

open Function Runs

variable {D : Deployment} {g : Genesis D} {w w' : World D} {sender : Address} {call : Call}

/-- The registrations of an agent. -/
def registers (agentId : Bytes32) : Event → Bool
  | .AgentRegistered agentId' _ _ => agentId' = agentId
  | _ => false

/-- An agent is registered once. -/
theorem registrations_logged (hr : Reachable g w) (agentId : Bytes32) :
    w.logs.countP (registers agentId) = (w.agents.agents agentId).registered.toNat := by
  apply hr.invariant (I := fun w => w.logs.countP (registers agentId) =
    (w.agents.agents agentId).registered.toNat) rfl
    (fun _ _ hI => hI)
  intro w w' tx _ hI h
  generalize tx.sender = sender at h
  generalize tx.call = call at h
  have hquiet : ∀ {es : List Event}, es.countP (registers agentId) = 0 →
      (w.logs ++ es).countP (registers agentId) = (w.agents.agents agentId).registered.toNat := by
    intro es hes
    rw [List.countP_append, hes, hI, Nat.add_zero]
  cases h with
  | @registerAgent agentId' operator uri _ hfresh =>
    dsimp only
    rw [List.countP_append, hI]
    by_cases heq : agentId' = agentId
    · subst heq
      simp [registers, hfresh]
    · simp [registers, heq, Ne.symm heq]
  | commitIntent => exact hquiet rfl
  | revokeIntent => exact hquiet rfl
  | stake => exact hquiet rfl
  | deposit => exact hquiet rfl
  | slash => exact hquiet rfl
  | setAgentDelegate => exact hquiet rfl
  | executeWithGuard => exact hquiet rfl
  | setTraceAckSigner => exact hquiet rfl
  | fileAmountViolation => exact hquiet rfl
  | dismiss => exact hquiet rfl
  | uphold => exact hquiet rfl
  | setReviewerSigner => exact hquiet rfl
  | _ => exact hI

end IntentGuard

namespace IntentGuard.Infra

open Function Runs Replay

variable {D : Deployment} {g : Genesis D} {w : World D} {chain X : List MinedLog} {l : MinedLog}
  {ctx : DecodeContext}

/-- In a valid history an agent is registered by one log. -/
theorem ValidHistory.eq_of_register (hv : ValidHistory g w chain) {l l' : MinedLog}
    {agentId : Bytes32} {o o' : Address} {uri uri' : Bytes} (hl : l ∈ chain) (hl' : l' ∈ chain)
    (h : l.event = .AgentRegistered agentId o uri)
    (h' : l'.event = .AgentRegistered agentId o' uri') : l = l' := by
  by_contra hne
  have hone : (chain.filter fun l => registers agentId l.event).length ≤ 1 := by
    have hcount : (chain.map MinedLog.event).countP (registers agentId) ≤ 1 := by
      rw [hv.events]
      apply (List.filter_sublist.countP_le).trans
      rw [registrations_logged hv.reachable]
      exact Bool.toNat_le _
    rwa [List.countP_map, List.countP_eq_length_filter] at hcount
  have hpair : [l, l'] ⊆ chain.filter fun l => registers agentId l.event := by
    intro x hx
    rcases List.mem_cons.1 hx with rfl | hx
    · exact List.mem_filter.2 ⟨hl, by simp [registers, h]⟩
    · obtain rfl := List.mem_singleton.1 hx
      exact List.mem_filter.2 ⟨hl', by simp [registers, h']⟩
  have htwo := (List.subperm_of_subset (by simp [hne]) hpair).length_le
  have htwo : 2 ≤ (chain.filter fun l => registers agentId l.event).length := htwo
  omega

/-! ### The writes and the reads -/

/-- A write of the indexer or of the trace handler. -/
inductive StoreWrite
  | log (l : MinedLog)
  | trace (input : TraceRow)

structure Database where
  store : Store
  traces : List TraceRow

def Database.empty : Database := ⟨.empty, []⟩

/-- A write that throws has written nothing. -/
def Database.write (ctx : DecodeContext) (provider : Provider) (db : Database) :
    StoreWrite → Database
  | .log l =>
    match handleLog ctx provider db.store l.toLog with
    | .ok r => { db with store := r.store }
    | .error _ => db
  | .trace input =>
    match insertTrace provider db.traces input false with
    | .ok traces => { db with traces }
    | .error _ => db

/-- Every read has one answer from both. -/
structure SameReads (db db' : Database) : Prop where
  receipt : ∀ receiptId, getReceipt receiptId db.store = getReceipt receiptId db'.store
  activeIntent : ∀ owner, getActiveIntent owner db.store = getActiveIntent owner db'.store
  intents : ∀ owner limit,
    listIntentsByOwner owner limit db.store = listIntentsByOwner owner limit db'.store
  challenge : ∀ challengeId, getChallenge challengeId db.store = getChallenge challengeId db'.store
  byReceipt : ∀ receiptId,
    findChallengeByReceipt receiptId db.store = findChallengeByReceipt receiptId db'.store
  agent : ∀ agentId, getAgent agentId db.store = getAgent agentId db'.store
  trace : ∀ contextDigest, getTraceByDigest .sqlite db.traces contextDigest false =
    getTraceByDigest .supabase db'.traces contextDigest false

/-- A write that finds no row that it changes on one backend only. -/
def Alike (db : Database) : StoreWrite → Prop
  | .log l =>
    (∀ id receiptId challenger, l.event = .ChallengeFiled id receiptId challenger →
      ∀ row, getChallenge id db.store = some row → row.status = .FILED) ∧
    ∀ agentId operator uri, l.event = .AgentRegistered agentId operator uri →
      ∀ row, getAgent agentId db.store = some row → row.totalStake = 0
  | .trace input =>
    ∀ row, Table.find TraceRow.contextDigest input.contextDigest db.traces = some row →
      row.agentId = input.agentId ∧ row.owner = input.owner ∧ row.traceJson = input.traceJson

/-! ### One write -/

/-- The tables that the reads read. -/
structure SameTables (s s' : Store) : Prop where
  receipts : s.receipts = s'.receipts
  challenges : s.challenges = s'.challenges
  intents : s.intents = s'.intents
  agents : s.agents = s'.agents

theorem SameTables.sameReads {db db' : Database} (h : SameTables db.store db'.store)
    (htraces : db.traces = db'.traces) :
    SameReads db db' where
  receipt := fun _ => by rw [getReceipt, getReceipt, h.receipts]
  activeIntent := fun _ => by rw [getActiveIntent, getActiveIntent, h.intents]
  intents := fun _ _ => by rw [listIntentsByOwner, listIntentsByOwner, h.intents]
  challenge := fun _ => by rw [getChallenge, getChallenge, h.challenges]
  byReceipt := fun _ => by rw [findChallengeByReceipt, findChallengeByReceipt, h.challenges]
  agent := fun _ => by rw [getAgent, getAgent, h.agents]
  trace := fun _ => by rw [getTraceByDigest, getTraceByDigest, htraces]; rfl

variable (ctx) in
/-- Both backends have handled `X` and hold the same. -/
structure InStep (chain X : List MinedLog) (db db' : Database) : Prop where
  sqlite : Mirrors ctx .sqlite chain X db.store
  supabase : Mirrors ctx .supabase chain X db'.store
  tables : SameTables db.store db'.store
  traces : db.traces = db'.traces
  traceKeys : Table.UniqueKeys TraceRow.contextDigest db.traces

/-- A filing of a challenge that is still open leaves the same row. -/
theorem upsertChallengeFiled_alike {input : InsertChallengeInput} {s s' : Store}
    (h : s.challenges = s'.challenges)
    (hunique : Table.UniqueKeys ChallengeRow.challengeId s.challenges)
    (hopen : ∀ row, getChallenge input.challengeId s = some row → row.status = .FILED) :
    (upsertChallengeFiled .sqlite input s).challenges =
      (upsertChallengeFiled .supabase input s').challenges := by
  unfold upsertChallengeFiled
  dsimp only
  rw [← h]
  apply Table.upsert_congr
  intro row hrow hkey
  have hfiled := hopen row ((Table.find_eq_some_iff hunique).2 ⟨hrow, hkey⟩)
  unfold refile
  rw [hfiled]

/-- A registration of an agent without stake leaves the same row, which the same log has made. -/
theorem upsertAgentRegistered_alike (hv : ValidHistory g w chain) (hX : X ⊆ chain) (hl : l ∈ chain)
    {agentId : Bytes32} {operator : Address} {uri : Bytes}
    (hevent : l.event = .AgentRegistered agentId operator uri) {s s' : Store}
    (hmirror : Mirrors ctx .supabase chain X s') (h : s.agents = s'.agents)
    (hstake : ∀ row, getAgent agentId s = some row → row.totalStake = 0) :
    (upsertAgentRegistered .sqlite (agentRow ctx l.toProvenance agentId operator uri) s).agents =
      (upsertAgentRegistered .supabase (agentRow ctx l.toProvenance agentId operator uri)
        s').agents := by
  unfold upsertAgentRegistered
  dsimp only
  unfold getAgent at hstake
  rw [h] at hstake ⊢
  apply Table.upsert_congr
  intro row hrow hkey
  have hkey : row.agentId = agentId := hkey
  have hzero := hstake row ((Table.find_eq_some_iff hmirror.agents.unique).2 ⟨hrow, hkey⟩)
  obtain ⟨l', hl', c, hc, hblock, htx⟩ := hmirror.agents.exists_creation
    (P := fun (c row : AgentRow) => c.blockNumber = row.blockNumber ∧ c.txHash = row.txHash)
      (fun _ => ⟨rfl, rfl⟩)
    (fun _ _ => ⟨rfl, rfl⟩) (fun _ _ _ h => h) hrow
  obtain ⟨operator', uri', hevent', rfl⟩ := agentTouch_create hc
  rw [hkey] at hevent'
  obtain rfl := hv.eq_of_register (hX hl') hl hevent' hevent
  cases row
  dsimp only at hkey hzero hblock htx ⊢
  rw [hkey, hzero, ← hblock, ← htx]
  rfl

theorem insertTrace_alike {input : TraceRow} {rows : List TraceRow}
    (hunique : Table.UniqueKeys TraceRow.contextDigest rows)
    (hsame : ∀ row, Table.find TraceRow.contextDigest input.contextDigest rows = some row →
      row.agentId = input.agentId ∧ row.owner = input.owner ∧ row.traceJson = input.traceJson) :
    insertTrace .sqlite rows input false = insertTrace .supabase rows input false := by
  refine congrArg Except.ok (Table.upsert_congr ?_)
  intro row hrow hkey
  obtain ⟨hagent, howner, hjson⟩ := hsame row ((Table.find_eq_some_iff hunique).2 ⟨hrow, hkey⟩)
  cases row
  dsimp only at hkey hagent howner hjson ⊢
  rw [hkey, hagent, howner, hjson]

theorem insertIntentCommitted_tables {input : IntentRow} {s s' t t' : Store} (h : SameTables s s')
    (ht : insertIntentCommitted .sqlite input s = .ok t)
    (ht' : insertIntentCommitted .sqlite input s' = .ok t') :
    SameTables t t' := by
  obtain ⟨hreceipts, hchallenges, hintents, hagents⟩ := h
  unfold insertIntentCommitted at ht ht'
  dsimp only at ht ht'
  rw [← hintents] at ht'
  split_ifs at ht ht'
  · obtain rfl := Except.ok.inj ht
    obtain rfl := Except.ok.inj ht'
    exact ⟨hreceipts, hchallenges, rfl, hagents⟩
  · obtain rfl := Except.ok.inj ht
    obtain rfl := Except.ok.inj ht'
    exact ⟨hreceipts, hchallenges, rfl, hagents⟩

/-- Both backends handle a log alike. -/
theorem sameTables_of_handleEvent (hv : ValidHistory g w chain) (hX : X ⊆ chain) (hl : l ∈ chain)
    {db db' : Database} (h : InStep ctx chain X db db') (halike : Alike db (.log l))
    {r r' : Handled} (hr : handleEvent ctx l.toProvenance .sqlite db.store l.event = .ok r)
    (hr' : handleEvent ctx l.toProvenance .supabase db'.store l.event = .ok r') :
    SameTables r.store r'.store := by
  obtain ⟨hreceipts, hchallenges, hintents, hagents⟩ := h.tables
  cases he : l.event <;> rw [he] at hr hr'
  case ActionReceipt id receipt =>
    obtain ⟨s, hs, hr⟩ := bind_eq_ok.1 hr
    obtain ⟨s', hs', hr'⟩ := bind_eq_ok.1 hr'
    rw [upsertReceipt_ok hv hX h.sqlite hl he] at hs
    rw [upsertReceipt_ok hv hX h.supabase hl he] at hs'
    obtain rfl := Except.ok.inj hr
    obtain rfl := Except.ok.inj hr'
    obtain rfl := Except.ok.inj hs
    obtain rfl := Except.ok.inj hs'
    refine ⟨?_, hchallenges, hintents, hagents⟩
    dsimp only
    rw [hreceipts]
  case IntentCommitted owner intentHash uri =>
    obtain ⟨s, hs, hr⟩ := bind_eq_ok.1 hr
    obtain ⟨s', hs', hr'⟩ := bind_eq_ok.1 hr'
    have hmirror := h.sqlite.intents rfl
    have hmirror' : IntentMirror ctx chain X db'.store.intents := hintents ▸ hmirror
    rw [hmirror'.insert_eq hv hX hl he] at hs'
    obtain rfl := Except.ok.inj hr
    obtain rfl := Except.ok.inj hr'
    exact insertIntentCommitted_tables ⟨hreceipts, hchallenges, hintents, hagents⟩ hs hs'
  case ChallengeFiled id receiptId challenger =>
    obtain rfl := Except.ok.inj hr
    obtain rfl := Except.ok.inj hr'
    exact ⟨hreceipts, upsertChallengeFiled_alike hchallenges h.sqlite.challenges.unique
      (halike.1 _ _ _ he), hintents, hagents⟩
  case AgentRegistered agentId operator uri =>
    obtain rfl := Except.ok.inj hr
    obtain rfl := Except.ok.inj hr'
    exact ⟨hreceipts, hchallenges, hintents,
      upsertAgentRegistered_alike hv hX hl he h.supabase hagents (halike.2 _ _ _ he)⟩
  case TraceURIStored id uri =>
    obtain rfl := Except.ok.inj hr
    obtain rfl := Except.ok.inj hr'
    refine ⟨?_, hchallenges, hintents, hagents⟩
    unfold setReceiptTraceUri
    dsimp only
    rw [hreceipts]
  case ChallengeResolved id uphold payout =>
    obtain rfl := Except.ok.inj hr
    obtain rfl := Except.ok.inj hr'
    refine ⟨hreceipts, ?_, hintents, hagents⟩
    unfold resolveChallenge
    dsimp only
    rw [hchallenges]
  case IntentRevoked owner intentHash =>
    obtain rfl := Except.ok.inj hr
    obtain rfl := Except.ok.inj hr'
    refine ⟨hreceipts, hchallenges, ?_, hagents⟩
    unfold markIntentRevoked
    dsimp only
    rw [hintents]
  case AgentStaked agentId amount newStake =>
    obtain rfl := Except.ok.inj hr
    obtain rfl := Except.ok.inj hr'
    refine ⟨hreceipts, hchallenges, hintents, ?_⟩
    unfold applyStakeIncrease
    dsimp only
    rw [hagents]
  all_goals
    obtain rfl := Except.ok.inj hr
    obtain rfl := Except.ok.inj hr'
    exact ⟨hreceipts, hchallenges, hintents, hagents⟩

def StoreWrite.logs : StoreWrite → List MinedLog
  | .log l => [l]
  | .trace _ => []

/-- Step lemma of `backends_agree_iff`. -/
theorem InStep.write (hv : ValidHistory g w chain) (hX : X ⊆ chain) {db db' : Database}
    (h : InStep ctx chain X db db') {op : StoreWrite} (hop : op.logs ⊆ chain)
    (halike : Alike db op) :
    InStep ctx chain (X ++ op.logs) (db.write ctx .sqlite op) (db'.write ctx .supabase op) := by
  cases op with
  | log l =>
    have hl : l ∈ chain := hop (List.mem_singleton_self l)
    obtain ⟨r, hr, hmirror⟩ := h.sqlite.handleLog hv hX hl
    obtain ⟨r', hr', hmirror'⟩ := h.supabase.handleLog hv hX hl
    unfold Database.write
    dsimp only
    rw [hr, hr']
    exact ⟨hmirror, hmirror', sameTables_of_handleEvent hv hX hl h halike hr hr',
      h.traces, h.traceKeys⟩
  | trace input =>
    have hsame := insertTrace_alike h.traceKeys halike
    have hkeys : Table.UniqueKeys TraceRow.contextDigest
        (Table.upsert TraceRow.contextDigest (fun _ => input) input db.traces) :=
      h.traceKeys.upsert fun _ _ => rfl
    have hX : X ++ StoreWrite.logs (.trace input) = X := List.append_nil X
    rw [hX]
    unfold Database.write
    dsimp only
    rw [hsame, ← h.traces]
    exact ⟨h.sqlite, h.supabase, h.tables, rfl, hkeys⟩

/-! ### The writes that differ -/

/-- Where a write is not alike, a read tells. -/
theorem InStep.differ {db db' : Database} (h : InStep ctx chain X db db') {op : StoreWrite}
    (hnot : ¬ Alike db op) :
    ¬ SameReads (db.write ctx .sqlite op) (db'.write ctx .supabase op) := by
  intro hreads
  apply hnot
  cases op with
  | log l =>
    refine ⟨?_, ?_⟩
    · intro id receiptId challenger he row hrow
      have hread := hreads.challenge id
      unfold Database.write handleLog MinedLog.toLog at hread
      dsimp only at hread
      rw [he] at hread
      have hrow' : getChallenge id db'.store = some row := by
        rw [← hrow, getChallenge, getChallenge, h.tables.challenges]
      have hsqlite := Table.find_upsert_of_find ChallengeRow.challengeId
        (refile .sqlite (filingOf ctx l.toProvenance id receiptId challenger))
        (filedRow (filingOf ctx l.toProvenance id receiptId challenger)) (fun _ hr => hr) hrow
      have hsupabase := Table.find_upsert_of_find ChallengeRow.challengeId
        (refile .supabase (filingOf ctx l.toProvenance id receiptId challenger))
        (filedRow (filingOf ctx l.toProvenance id receiptId challenger)) (fun _ hr => hr) hrow'
      exact congrArg ChallengeRow.status
        (Option.some.inj (hsqlite.symm.trans (hread.trans hsupabase)))
    · intro agentId operator uri he row hrow
      have hread := hreads.agent agentId
      unfold Database.write handleLog MinedLog.toLog at hread
      dsimp only at hread
      rw [he] at hread
      have hrow' : getAgent agentId db'.store = some row := by
        rw [← hrow, getAgent, getAgent, h.tables.agents]
      have hsqlite := Table.find_upsert_of_find AgentRow.agentId
        (mergeAgent .sqlite (agentRow ctx l.toProvenance agentId operator uri))
        (agentRow ctx l.toProvenance agentId operator uri) (fun _ hr => hr) hrow
      have hsupabase := Table.find_upsert_of_find AgentRow.agentId
        (mergeAgent .supabase (agentRow ctx l.toProvenance agentId operator uri))
        (agentRow ctx l.toProvenance agentId operator uri) (fun _ _ => rfl) hrow'
      exact congrArg AgentRow.totalStake
        (Option.some.inj (hsqlite.symm.trans (hread.trans hsupabase)))
  | trace input =>
    intro row hrow
    have hread := hreads.trace input.contextDigest
    unfold Database.write insertTrace getTraceByDigest at hread
    dsimp only at hread
    simp only [Bool.false_eq_true, if_false] at hread
    have hread := Except.ok.inj hread
    have hsqlite := Table.find_upsert_of_find TraceRow.contextDigest
      (fun row : TraceRow =>
        { row with
          traceUri := input.traceUri
          uriHash := input.uriHash
          expiresAt := input.expiresAt
          signer := input.signer
          signature := input.signature })
      input (fun _ hr => hr) hrow
    have hsupabase :=
      Table.find_upsert_of_find TraceRow.contextDigest (fun _ => input) input (fun _ _ => rfl)
      (h.traces ▸ hrow)
    have hread := Option.some.inj (hsqlite.symm.trans (hread.trans hsupabase))
    have hagent := congrArg TraceRow.agentId hread
    have howner := congrArg TraceRow.owner hread
    have hjson := congrArg TraceRow.traceJson hread
    exact ⟨hagent, howner, hjson⟩

theorem InStep.empty : InStep ctx chain [] .empty .empty := by
  refine ⟨.nil, .nil, ⟨rfl, rfl, rfl, rfl⟩, rfl, ?_⟩
  exact List.nodup_nil

theorem inStep_iff (hv : ValidHistory g w chain) (hX : X ⊆ chain) {db db' : Database}
    (h : InStep ctx chain X db db') (ops : List StoreWrite) (hops : ∀ op ∈ ops, op.logs ⊆ chain) :
    (∀ pre, pre <+: ops →
      SameReads (run (Database.write ctx .sqlite) db pre)
        (run (Database.write ctx .supabase) db' pre)) ↔
      ∀ v ∈ visits (Database.write ctx .sqlite) db ops, Alike v.1 v.2 := by
  induction ops generalizing X db db' with
  | nil =>
    refine iff_of_true ?_ (by simp)
    intro pre hpre
    obtain rfl := List.prefix_nil.1 hpre
    exact h.tables.sameReads h.traces
  | cons op ops ih =>
    obtain ⟨hop, hops⟩ := List.forall_mem_cons.1 hops
    rw [visits_cons, List.forall_mem_cons]
    by_cases halike : Alike db op
    · have hnext := h.write hv hX hop halike
      rw [← ih (List.append_subset.2 ⟨hX, hop⟩) hnext hops, and_iff_right halike]
      constructor
      · intro hall pre hpre
        exact hall (op :: pre) ((List.prefix_cons_inj op).2 hpre)
      · intro hall pre hpre
        cases pre with
        | nil => exact h.tables.sameReads h.traces
        | cons op' pre =>
          obtain ⟨rfl, hrest⟩ := List.cons_prefix_cons.1 hpre
          exact hall pre hrest
    · refine iff_of_false ?_ fun hall => halike hall.1
      intro hall
      exact h.differ halike (hall [op] (List.cons_prefix_cons.2 ⟨rfl, List.nil_prefix⟩))

/-- The two backends answer every read alike, after every write of a sequence, exactly when no write
of it finds a challenge resolved that it files, an agent with stake that it registers, or a trace of
another agent, owner or text under its digest. -/
theorem backends_agree_iff (ctx : DecodeContext) (hv : ValidHistory g w chain)
    (ops : List StoreWrite) (hops : ∀ op ∈ ops, op.logs ⊆ chain) :
    (∀ pre, pre <+: ops →
      SameReads (run (Database.write ctx .sqlite) .empty pre)
        (run (Database.write ctx .supabase) .empty pre)) ↔
      ∀ v ∈ visits (Database.write ctx .sqlite) .empty ops, Alike v.1 v.2 :=
  inStep_iff hv (List.nil_subset _) .empty ops hops

end IntentGuard.Infra

namespace IntentGuard.Localnet

open Runs Infra

/-- The logs of two payments of which the first is challenged. -/
def challengedChain : List MinedLog :=
  oneLogPerBlock 1 ((run step (init genesis) (filedOnce 100000000)).logs.filter indexed)

def isFiling : Event → Bool
  | .ChallengeFiled _ _ _ => true
  | _ => false

/-- All logs of the chain, and the filing once more. -/
def filedTwice : List StoreWrite :=
  (challengedChain ++ challengedChain.filter fun l => isFiling l.event).map .log

def challengedContext : DecodeContext := ⟨fun _ => 0, fun _ => []⟩

theorem challengedChain_valid :
    ValidHistory genesis (run step (init genesis) (filedOnce 100000000)) challengedChain :=
  oneLogPerBlock_valid (reachable_run _ _)

theorem filedTwice_logs : ∀ op ∈ filedTwice, op.logs ⊆ challengedChain := by
  intro op hop
  obtain ⟨l, hl, rfl⟩ := List.mem_map.1 hop
  apply List.cons_subset.2 ⟨?_, List.nil_subset _⟩
  rcases List.mem_append.1 hl with hl | hl
  · exact hl
  · exact List.mem_of_mem_filter hl

end IntentGuard.Localnet

namespace IntentGuard.Infra

open Runs Localnet

/-- The upheld challenge is open again on Supabase. -/
theorem filedTwice_differ :
    ¬ ∀ (D : Deployment) (g : Genesis D) (w : World D) (chain : List MinedLog) (ctx : DecodeContext)
      (ops : List StoreWrite), ValidHistory g w chain → (∀ op ∈ ops, op.logs ⊆ chain) →
        SameReads (run (Database.write ctx .sqlite) .empty ops)
          (run (Database.write ctx .supabase) .empty ops) := by
  intro h
  have hsame := h _ _ _ _ challengedContext filedTwice challengedChain_valid filedTwice_logs
  have hsqlite :
      (getChallenge 1 (run (Database.write challengedContext .sqlite) .empty filedTwice).store).map
      ChallengeRow.status = some .UPHELD := by decide +kernel
  have hsupabase :
      (getChallenge 1
        (run (Database.write challengedContext .supabase) .empty filedTwice).store).map
      ChallengeRow.status = some .FILED := by decide +kernel
  rw [hsame.challenge 1, hsupabase] at hsqlite
  exact absurd hsqlite (by decide)

/-- The theorem at these writes. -/
theorem backends_agree_iff_filedTwice :
    (∀ pre, pre <+: filedTwice →
      SameReads (run (Database.write challengedContext .sqlite) .empty pre)
        (run (Database.write challengedContext .supabase) .empty pre)) ↔
      ∀ v ∈ visits (Database.write challengedContext .sqlite) .empty filedTwice, Alike v.1 v.2 :=
  backends_agree_iff challengedContext challengedChain_valid filedTwice filedTwice_logs

end IntentGuard.Infra
