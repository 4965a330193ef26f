import IntentGuard.Infra.CanonicalJson
import IntentGuard.Infra.Decoder
import IntentGuard.Lib.NewestFirst
import IntentGuard.Lib.Runs

/-!
# The feed

`GET /v1/feed`: an owner's receipts, challenges, intents and blocked attempts, each list cut to the
limit in the order of its own query, merged newest first and cut again. `FeedTables` has the columns
that the feed reads beyond `Store`: the time at which an intent was indexed, and the table of
blocked attempts.

`feed_prefix_iff`: in every state of every run a smaller limit gives the beginning of what a larger
one gives exactly when the receipts, challenges and intents are `InTime`, as they are when they are
dated in the order in which they are listed (`DatedAsListed.listedInTime`). A challenge is listed by
when it was filed and dated by when it was resolved, and the intents of one block are listed in no
order of their own and dated by when they were indexed.
-/

namespace IntentGuard.Infra

open Js Runs

/-! ### Blocked attempts -/

structure InsertBlockedAttemptInput where
  scenarioId : Option JsString
  owner : Option Address
  agentId : Option Bytes32
  target : Option Address
  token : Option Address
  amount : Option ℤ
  reasonCode : JsString
  reasonLabel : Option JsString
  source : Option JsString

structure BlockedAttemptRow where
  id : ℕ
  scenarioId : Option JsString
  owner : Option Address
  agentId : Option Bytes32
  target : Option Address
  token : Option Address
  amount : Option ℤ
  reasonCode : JsString
  reasonLabel : Option JsString
  source : JsString
  createdAt : ℕ
  deriving DecidableEq

/-- No row is ever deleted, so the ids count the rows. -/
def insertBlockedAttempt (now : Time) (input : InsertBlockedAttemptInput)
    (rows : List BlockedAttemptRow) :
    List BlockedAttemptRow :=
  rows ++
    [{ id := rows.length + 1
       scenarioId := input.scenarioId
       owner := input.owner
       agentId := input.agentId
       target := input.target
       token := input.token
       amount := input.amount
       reasonCode := input.reasonCode
       reasonLabel := input.reasonLabel
       source := input.source.getD (text "demo-status")
       createdAt := now.seconds }]

/-- `ORDER BY created_at DESC`; rows that tie stay in the order of the table. -/
def createdAfter (a b : BlockedAttemptRow) : Prop := b.createdAt ≤ a.createdAt

instance : DecidableRel createdAfter := fun _ _ => inferInstanceAs (Decidable (_ ≤ _))

def listBlockedByOwner (owner : Address) (limit : ℕ) (rows : List BlockedAttemptRow) :
    List BlockedAttemptRow :=
  ((rows.filter fun row => row.owner = some owner ∨ row.owner = none).insertionSort
    createdAfter).take limit

/-! ### The tables -/

/-- `intentCreatedAt` is the column `created_at` of the intents, by their primary key. -/
structure FeedTables where
  store : Store
  intentCreatedAt : Bytes32 → ℕ
  blocked : List BlockedAttemptRow

def FeedTables.empty : FeedTables := ⟨.empty, fun _ => 0, []⟩

inductive FeedWrite
  | log (l : MinedLog)
  | blocked (input : InsertBlockedAttemptInput)

/-- The rows that a statement has inserted carry the time of the insert. -/
def stampInserted (now : Time) (old new : List IntentRow) (createdAt : Bytes32 → ℕ)
    (intentHash : Bytes32) : ℕ :=
  if intentHash ∈ new.map IntentRow.intentHash ∧ intentHash ∉ old.map IntentRow.intentHash then
    now.seconds
  else createdAt intentHash

/-- A handler that throws has changed nothing. -/
def FeedTables.handle (ctx : DecodeContext) (provider : Provider) (now : Time) (l : MinedLog)
    (db : FeedTables) :
    FeedTables :=
  match handleLog ctx provider db.store l.toLog with
  | .ok r =>
    { db with
      store := r.store
      intentCreatedAt := stampInserted now db.store.intents r.store.intents db.intentCreatedAt }
  | .error _ => db

/-- One write at a time of the clock. -/
def FeedTables.step (ctx : DecodeContext) (provider : Provider) (db : FeedTables) :
    Time × FeedWrite → FeedTables
  | (now, .log l) => db.handle ctx provider now l
  | (now, .blocked input) => { db with blocked := insertBlockedAttempt now input db.blocked }

/-! ### The queries -/

/-- `ORDER BY block_number DESC, log_index DESC`; rows that tie stay in the order of the table. -/
def loggedAfter (a b : ReceiptRow) : Prop :=
  b.blockNumber < a.blockNumber ∨ b.blockNumber = a.blockNumber ∧ b.logIndex ≤ a.logIndex

instance : DecidableRel loggedAfter := fun _ _ => inferInstanceAs (Decidable (_ ∨ _))

def listReceiptsByOwner (owner : Address) (limit : ℕ) (s : Store) : List ReceiptRow :=
  ((s.receipts.filter fun row => row.owner = owner).insertionSort loggedAfter).take limit

/-- The join on the receipt's primary key. -/
def listChallengesByOwner (owner : Address) (limit : ℕ) (s : Store) : List ChallengeRow :=
  ((s.challenges.filter fun row => ∃ r ∈ s.receipts, r.receiptId = row.receiptId ∧
    r.owner = owner).insertionSort
    filedAfter).take limit

/-! ### Entries -/

/-- What the text of an entry's `id` spells. -/
inductive FeedEntryId
  | receipt (receiptId : Bytes32)
  | challenge (challengeId : ℕ)
  | intent (intentHash : Bytes32)
  | blocked (id : ℕ)
  deriving DecidableEq

structure FeedEntryBase where
  timestamp : ℕ
  id : FeedEntryId
  deriving DecidableEq

structure FeedReceiptEntry extends FeedEntryBase where
  receiptId : Bytes32
  owner : Address
  agentId : Bytes32
  intentHash : Bytes32
  target : Address
  token : Address
  amount : ℕ
  contextDigest : Bytes32
  traceURI : Option JsString
  txHash : Bytes32
  blockNumber : ℕ
  challengeable : Bool
  challengeWindowEndsAt : ℕ
  deriving DecidableEq

structure FeedChallengeEntry extends FeedEntryBase where
  challengeId : ℕ
  receiptId : Bytes32
  status : ChallengeStatus
  payout : Option ℕ
  challenger : Address
  filedAt : ℕ
  resolvedAt : Option ℕ
  deriving DecidableEq

structure FeedIntentEntry extends FeedEntryBase where
  intentHash : Bytes32
  owner : Address
  manifestURI : JsString
  active : Bool
  txHash : Bytes32
  deriving DecidableEq

structure FeedBlockedEntry extends FeedEntryBase where
  scenarioId : Option JsString
  reasonCode : JsString
  reasonLabel : Option JsString
  owner : Option Address
  agentId : Option Bytes32
  target : Option Address
  token : Option Address
  amount : Option ℤ
  deriving DecidableEq

inductive FeedEntry
  | receipt (entry : FeedReceiptEntry)
  | challenge (entry : FeedChallengeEntry)
  | intent (entry : FeedIntentEntry)
  | blocked (entry : FeedBlockedEntry)
  deriving DecidableEq

def FeedEntry.base : FeedEntry → FeedEntryBase
  | .receipt entry => entry.toFeedEntryBase
  | .challenge entry => entry.toFeedEntryBase
  | .intent entry => entry.toFeedEntryBase
  | .blocked entry => entry.toFeedEntryBase

def FeedEntry.timestamp (e : FeedEntry) : ℕ := e.base.timestamp

structure OverspendInfo where
  overspend : Bool
  cap : Option ℕ

def getOverspendInfo (manifests : List ManifestRow) (intentHash : Bytes32) (amount : ℕ) :
    OverspendInfo :=
  match getManifestByHash intentHash manifests with
  | none => { overspend := false, cap := none }
  | some manifest =>
    { overspend := manifest.maxSpendPerTx < amount, cap := some manifest.maxSpendPerTx }

section
variable (deployment : Option DeploymentManifest) (manifests : List ManifestRow)
  (db : FeedTables) (now : Time)

def challengeWindowSec : ℕ :=
  (deployment.map DeploymentManifest.challengeWindowSec).getD (72 * 60 * 60)

def receiptEntry (r : ReceiptRow) : FeedEntry :=
  let challenge := findChallengeByReceipt r.receiptId db.store
  let filed := challenge.any fun c => c.status = .FILED ∨ c.status = .UPHELD
  let windowEndsAt := toNumber (r.ts + challengeWindowSec deployment)
  let overspendInfo := getOverspendInfo manifests r.intentHash r.amount
  let overspendable := overspendInfo.overspend && !filed && decide (now.seconds < windowEndsAt)
  .receipt
    { timestamp := r.ts
      id := .receipt r.receiptId
      receiptId := r.receiptId
      owner := r.owner
      agentId := r.agentId
      intentHash := r.intentHash
      target := r.target
      token := r.token
      amount := r.amount
      contextDigest := r.contextDigest
      traceURI := r.traceUri
      txHash := r.txHash
      blockNumber := r.blockNumber
      challengeable := overspendable
      challengeWindowEndsAt := windowEndsAt }

def challengeEntry (c : ChallengeRow) : FeedEntry :=
  .challenge
    { timestamp := c.resolvedAt.getD c.filedAt
      id := .challenge c.challengeId
      challengeId := c.challengeId
      receiptId := c.receiptId
      status := c.status
      payout := c.payout
      challenger := c.challenger
      filedAt := c.filedAt
      resolvedAt := c.resolvedAt }

def intentEntry (i : IntentRow) : FeedEntry :=
  .intent
    { timestamp := db.intentCreatedAt i.intentHash
      id := .intent i.intentHash
      intentHash := i.intentHash
      owner := i.owner
      manifestURI := i.manifestUri
      active := i.active
      txHash := i.txHash }

def blockedEntry (b : BlockedAttemptRow) : FeedEntry :=
  .blocked
    { timestamp := b.createdAt
      id := .blocked b.id
      scenarioId := b.scenarioId
      reasonCode := b.reasonCode
      reasonLabel := b.reasonLabel
      owner := b.owner
      agentId := b.agentId
      target := b.target
      token := b.token
      amount := b.amount }

/-! ### The handler -/

/-- `limit` is what `Number` reads in the parameter, if it has been given: an integer, or something
else. -/
structure FeedParams where
  owner : Option JsString
  limit : Option (Option ℤ)

structure FeedQuery where
  owner : Address
  limit : Option ℕ

def FeedQuery.safeParse (params : FeedParams) : Option FeedQuery := do
  let owner ← params.owner >>= hexLiteral 40
  match params.limit with
  | none => pure { owner, limit := none }
  | some none => none
  | some (some n) => if 1 ≤ n ∧ n ≤ 500 then pure { owner, limit := some n.toNat } else none

section
variable (owner : Address) (limit : ℕ)

def receiptEntries : List FeedEntry :=
  (listReceiptsByOwner owner limit db.store).map (receiptEntry deployment manifests db now)

def challengeEntries : List FeedEntry :=
  (listChallengesByOwner owner limit db.store).map challengeEntry

def intentEntries : List FeedEntry := (listIntentsByOwner owner limit db.store).map (intentEntry db)

def blockedEntries : List FeedEntry := (listBlockedByOwner owner limit db.blocked).map blockedEntry

def feedEntries : List FeedEntry :=
  receiptEntries deployment manifests db now owner limit ++ challengeEntries db owner limit ++
    intentEntries db owner limit ++ blockedEntries db owner limit

end

/-- `entries.sort` is stable. -/
def getFeed (params : FeedParams) : Except HttpError (List FeedEntry) := do
  let parsed ← orThrow (badRequest "invalid feed query") (FeedQuery.safeParse params)
  let limit := parsed.limit.getD 100
  let entries := feedEntries deployment manifests db now parsed.owner limit
  pure ((entries.insertionSort fun a b => b.timestamp ≤ a.timestamp).take limit)

end

/-! ### No entry twice -/

/-- No two rows of a table that the feed reads share a primary key. -/
structure DistinctKeys (s : Store) : Prop where
  receipts : Table.UniqueKeys ReceiptRow.receiptId s.receipts
  challenges : Table.UniqueKeys ChallengeRow.challengeId s.challenges
  intents : Table.UniqueKeys IntentRow.intentHash s.intents

theorem unique_append {rows : List IntentRow} {input : IntentRow}
    (h : Table.UniqueKeys IntentRow.intentHash rows)
    (hnew : ¬ ∃ r ∈ rows, r.intentHash = input.intentHash) :
    Table.UniqueKeys IntentRow.intentHash (rows ++ [input]) := by
  unfold Table.UniqueKeys
  rw [List.map_append, List.nodup_append]
  refine ⟨h, List.nodup_singleton _, ?_⟩
  intro k hk k' hk' heq
  obtain ⟨r, hr, rfl⟩ := List.mem_map.1 hk
  rw [List.map_singleton, List.mem_singleton] at hk'
  exact hnew ⟨r, hr, heq.trans hk'⟩

theorem DistinctKeys.upsertReceipt {provider : Provider} {input : ReceiptRow} {s s' : Store}
    (h : DistinctKeys s) (hs : upsertReceipt provider input s = .ok s') : DistinctKeys s' := by
  unfold Infra.upsertReceipt at hs
  split_ifs at hs
  · cases provider with
    | sqlite => cases hs
    | supabase =>
      obtain rfl := Except.ok.inj hs
      exact h
  · obtain rfl := Except.ok.inj hs
    refine ⟨Table.UniqueKeys.upsert ?_ h.receipts, h.challenges, h.intents⟩
    exact fun _ _ => rfl

theorem DistinctKeys.insertIntentCommitted {provider : Provider} {input : IntentRow} {s s' : Store}
    (h : DistinctKeys s) (hs : insertIntentCommitted provider input s = .ok s') :
    DistinctKeys s' := by
  have hrows := unique_deactivate h.intents input.owner
  unfold Infra.insertIntentCommitted at hs
  cases provider with
  | sqlite =>
    dsimp only at hs
    split_ifs at hs with _ hfresh
    · obtain rfl := Except.ok.inj hs
      exact ⟨h.receipts, h.challenges, hrows⟩
    · obtain rfl := Except.ok.inj hs
      exact ⟨h.receipts, h.challenges, unique_append hrows hfresh⟩
  | supabase =>
    dsimp only at hs
    split_ifs at hs with hfresh _
    · obtain rfl := Except.ok.inj hs
      exact ⟨h.receipts, h.challenges, hrows⟩
    · obtain rfl := Except.ok.inj hs
      exact ⟨h.receipts, h.challenges, hrows⟩
    · obtain rfl := Except.ok.inj hs
      exact ⟨h.receipts, h.challenges, unique_append hrows hfresh⟩

theorem DistinctKeys.handleLog {ctx : DecodeContext} {provider : Provider} {s : Store}
    {l : MinedLog} {r : Handled} (h : DistinctKeys s)
    (hr : handleLog ctx provider s l.toLog = .ok r) : DistinctKeys r.store := by
  replace hr : handleEvent ctx l.toProvenance provider s l.event = .ok r := hr
  cases hevent : l.event <;> rw [hevent] at hr
  case ActionReceipt =>
    obtain ⟨s', hs', hr⟩ := bind_eq_ok.1 hr
    obtain rfl := Except.ok.inj hr
    exact h.upsertReceipt hs'
  case IntentCommitted =>
    obtain ⟨s', hs', hr⟩ := bind_eq_ok.1 hr
    obtain rfl := Except.ok.inj hr
    exact h.insertIntentCommitted hs'
  all_goals obtain rfl := Except.ok.inj hr
  case TraceURIStored =>
    refine ⟨Table.UniqueKeys.updateWhere ?_ h.receipts, h.challenges, h.intents⟩
    exact fun _ => rfl
  case ChallengeFiled =>
    refine ⟨h.receipts, Table.UniqueKeys.upsert ?_ h.challenges, h.intents⟩
    exact fun _ hrow => hrow
  case ChallengeResolved =>
    refine ⟨h.receipts, Table.UniqueKeys.updateWhere ?_ h.challenges, h.intents⟩
    exact fun _ => rfl
  case IntentRevoked => exact ⟨h.receipts, h.challenges, unique_deactivate h.intents _⟩
  all_goals exact ⟨h.receipts, h.challenges, h.intents⟩

section
variable {ctx : DecodeContext} {provider : Provider}

theorem store_handle (db : FeedTables) (now : Time) (l : MinedLog) :
    (∃ r, handleLog ctx provider db.store l.toLog = .ok r ∧
      (db.handle ctx provider now l).store = r.store) ∨
      db.handle ctx provider now l = db := by
  unfold FeedTables.handle
  cases hr : handleLog ctx provider db.store l.toLog with
  | error => exact .inr rfl
  | ok r => exact .inl ⟨r, rfl, rfl⟩

theorem blocked_handle (db : FeedTables) (now : Time) (l : MinedLog) :
    (db.handle ctx provider now l).blocked = db.blocked := by
  unfold FeedTables.handle
  cases handleLog ctx provider db.store l.toLog <;> rfl

theorem distinctKeys_run (inputs : List (Time × FeedWrite)) :
    DistinctKeys (run (FeedTables.step ctx provider) .empty inputs).store := by
  have hreach : Runs.Reachable (FeedTables.step ctx provider) .empty _ := reachable_run _ inputs
  apply hreach.induction (I := fun db => DistinctKeys db.store)
  · exact ⟨List.nodup_nil, List.nodup_nil, List.nodup_nil⟩
  · intro db input h
    obtain ⟨now, l | input⟩ := input
    · show DistinctKeys (db.handle ctx provider now l).store
      rcases store_handle db now l with ⟨r, hr, hstore⟩ | hsame
      · exact hstore ▸ h.handleLog hr
      · rw [hsame]
        exact h
    · exact h

theorem blocked_ids_run (inputs : List (Time × FeedWrite)) :
    (run (FeedTables.step ctx provider) .empty inputs).blocked.map BlockedAttemptRow.id =
      List.range' 1 (run (FeedTables.step ctx provider) .empty inputs).blocked.length := by
  have hreach : Runs.Reachable (FeedTables.step ctx provider) .empty _ := reachable_run _ inputs
  apply hreach.induction
    (I := fun db => db.blocked.map BlockedAttemptRow.id = List.range' 1 db.blocked.length)
  · rfl
  · intro db input h
    obtain ⟨now, l | input⟩ := input
    · show (db.handle ctx provider now l).blocked.map _ =
        List.range' 1 (db.handle ctx provider now l).blocked.length
      rw [blocked_handle]
      exact h
    · show (insertBlockedAttempt now input db.blocked).map _ =
        List.range' 1 (insertBlockedAttempt now input db.blocked).length
      unfold insertBlockedAttempt
      rw [List.map_append, h, List.length_append, List.length_singleton,
        List.range'_concat, Nat.one_mul, Nat.add_comm 1]
      rfl

end

/-! ### Prefixes -/

def FeedEntry.id (e : FeedEntry) : FeedEntryId := e.base.id

section
variable {deployment : Option DeploymentManifest} {manifests : List ManifestRow}
  {db : FeedTables} {now : Time}
variable {owner : Address}

variable (deployment manifests db now owner) in
/-- The four lists, in the order in which the handler goes through them. -/
def feedLists (limit : ℕ) : List (List FeedEntry) :=
  [receiptEntries deployment manifests db now owner limit, challengeEntries db owner limit,
    intentEntries db owner limit, blockedEntries db owner limit]

theorem feedEntries_eq (limit : ℕ) :
    feedEntries deployment manifests db now owner limit =
      (feedLists deployment manifests db now owner limit).flatten := by
  simp [feedEntries, feedLists]

theorem feedLists_take {n m : ℕ} (h : n ≤ m) :
    (feedLists deployment manifests db now owner m).map (List.take n) =
      feedLists deployment manifests db now owner n := by
  simp [feedLists, receiptEntries, challengeEntries, intentEntries, blockedEntries,
    listReceiptsByOwner, listChallengesByOwner, listIntentsByOwner, listBlockedByOwner,
      ← List.map_take, List.take_take, Nat.min_eq_left h]

theorem getFeed_eq {ownerText : JsString} (howner : hexLiteral 40 ownerText = some owner) {n : ℕ}
    (hpos : 1 ≤ n) (hle : n ≤ 500) :
    getFeed deployment manifests db now ⟨some ownerText, some (some n)⟩ =
      .ok (NewestFirst.top FeedEntry.timestamp n
        (feedLists deployment manifests db now owner 500)) := by
  have hparsed : FeedQuery.safeParse ⟨some ownerText, some (some n)⟩ = some ⟨owner, some n⟩ := by
    have hrange : (1 : ℤ) ≤ n ∧ (n : ℤ) ≤ 500 := by omega
    simp [FeedQuery.safeParse, howner, hrange]
  unfold getFeed NewestFirst.top
  rw [hparsed, feedLists_take hle, ← feedEntries_eq]
  rfl

/-- Keys of rows that a query lists. -/
theorem nodup_listed {ρ κ : Type} {key : ρ → κ} {rows : List ρ} (h : Table.UniqueKeys key rows)
    (p : ρ → Bool) (r : ρ → ρ → Prop) [DecidableRel r] (limit : ℕ) :
    ((((rows.filter p).insertionSort r).take limit).map key).Nodup := by
  have hsorted : (((rows.filter p).insertionSort r).map key).Nodup := by
    rw [((List.perm_insertionSort r (rows.filter p)).map key).nodup_iff]
    exact h.sublist (List.filter_sublist.map key)
  exact hsorted.sublist ((List.take_sublist _ _).map key)

/-- The ids of all entries, from the keys of the rows. -/
theorem map_id_feedLists (limit : ℕ) :
    (feedLists deployment manifests db now owner limit).flatten.map FeedEntry.id =
      ((listReceiptsByOwner owner limit db.store).map ReceiptRow.receiptId).map .receipt ++
        (((listChallengesByOwner owner limit db.store).map ChallengeRow.challengeId).map
          .challenge ++
          (((listIntentsByOwner owner limit db.store).map IntentRow.intentHash).map .intent ++
            ((listBlockedByOwner owner limit db.blocked).map BlockedAttemptRow.id).map
              .blocked)) := by
  simp only [feedLists, List.flatten_cons, List.flatten_nil, List.append_nil, List.map_append,
    receiptEntries, challengeEntries, intentEntries, blockedEntries, List.map_map]
  rfl

theorem feedLists_nodup (hkeys : DistinctKeys db.store)
    (hblocked : (db.blocked.map BlockedAttemptRow.id).Nodup) (limit : ℕ) :
    (feedLists deployment manifests db now owner limit).flatten.Nodup := by
  apply List.Nodup.of_map FeedEntry.id
  rw [map_id_feedLists, List.nodup_append, List.nodup_append, List.nodup_append]
  refine ⟨?_, ⟨?_, ⟨?_, ?_, ?_⟩, ?_⟩, ?_⟩
  · exact (nodup_listed hkeys.receipts _ _ limit).map fun _ _ => FeedEntryId.receipt.inj
  · exact (nodup_listed hkeys.challenges _ _ limit).map fun _ _ => FeedEntryId.challenge.inj
  · exact (nodup_listed hkeys.intents _ _ limit).map fun _ _ => FeedEntryId.intent.inj
  · exact (nodup_listed hblocked _ _ limit).map fun _ _ => FeedEntryId.blocked.inj
  all_goals
    intro id hid id' hid' heq
    subst heq
    simp only [List.mem_append, List.mem_map] at hid hid'
    grind

instance : Std.Total createdAfter := ⟨fun a b => le_total b.createdAt a.createdAt⟩

instance : IsTrans BlockedAttemptRow createdAfter := ⟨fun _ _ _ hab hbc => Nat.le_trans hbc hab⟩

/-- Blocked attempts are listed newest first. -/
theorem blockedEntries_sorted (limit : ℕ) :
    (blockedEntries db owner limit).Pairwise (NewestFirst.AsNew FeedEntry.timestamp) := by
  unfold blockedEntries
  rw [List.pairwise_map]
  exact (List.pairwise_insertionSort createdAfter _).sublist (List.take_sublist _ _)

end

variable (deployment : Option DeploymentManifest) (manifests : List ManifestRow)
  (db : FeedTables) (now : Time)

/-- A limit `n` gives the first `n` entries of what a limit `m` gives, newest first. -/
def FeedPrefixes (owner : JsString) : Prop :=
  ∀ n m : ℕ, 1 ≤ n → n ≤ m → m ≤ 500 → ∃ shorter longer,
    getFeed deployment manifests db now ⟨some owner, some (some n)⟩ = .ok shorter ∧
      getFeed deployment manifests db now ⟨some owner, some (some m)⟩ = .ok longer ∧
        shorter = longer.take n ∧ longer.Pairwise fun a b => b.timestamp ≤ a.timestamp

/-- The lists that a limit of 500 leaves are in time. -/
structure ListedInTime (owner : Address) : Prop where
  receipts : NewestFirst.InTime FeedEntry.timestamp []
    (receiptEntries deployment manifests db now owner 500)
    (challengeEntries db owner 500 ++ intentEntries db owner 500 ++ blockedEntries db owner 500)
  challenges : NewestFirst.InTime FeedEntry.timestamp
    (receiptEntries deployment manifests db now owner 500)
    (challengeEntries db owner 500) (intentEntries db owner 500 ++ blockedEntries db owner 500)
  intents : NewestFirst.InTime FeedEntry.timestamp
    (receiptEntries deployment manifests db now owner 500 ++ challengeEntries db owner 500)
      (intentEntries db owner 500)
    (blockedEntries db owner 500)

theorem listedInTime_iff (owner : Address) :
    (∀ before l after,
      (feedLists deployment manifests db now owner 500).map (List.take 500) = before ++ l :: after →
        NewestFirst.InTime FeedEntry.timestamp before.flatten l after.flatten) ↔
      ListedInTime deployment manifests db now owner := by
  rw [feedLists_take le_rfl]
  unfold feedLists
  simp only [NewestFirst.forall_split_cons, List.flatten_cons, List.flatten_nil, List.append_nil]
  constructor
  · rintro ⟨hr, hc, hi, -⟩
    exact ⟨by simpa using hr, by simpa using hc, by simpa using hi⟩
  · intro h
    refine ⟨by simpa using h.receipts, by simpa using h.challenges, by simpa using h.intents,
      NewestFirst.inTime_of_sorted (blockedEntries_sorted 500) _ _, ?_⟩
    simp

/-- The owner's rows are dated in the order in which their tables list them. -/
structure DatedAsListed (owner : Address) : Prop where
  receipts : ∀ r ∈ listReceiptsByOwner owner 500 db.store,
    ∀ r' ∈ listReceiptsByOwner owner 500 db.store,
    loggedAfter r r' → r'.ts ≤ r.ts
  challenges : ∀ c ∈ listChallengesByOwner owner 500 db.store,
    ∀ c' ∈ listChallengesByOwner owner 500 db.store,
    filedAfter c c' → c'.resolvedAt.getD c'.filedAt ≤ c.resolvedAt.getD c.filedAt
  intents : ∀ i ∈ listIntentsByOwner owner 500 db.store,
    ∀ i' ∈ listIntentsByOwner owner 500 db.store,
    committedAfter i i' → db.intentCreatedAt i'.intentHash ≤ db.intentCreatedAt i.intentHash

instance : Std.Total loggedAfter := ⟨fun a b => by unfold loggedAfter; omega⟩

instance : IsTrans ReceiptRow loggedAfter := ⟨fun a b c => by unfold loggedAfter; omega⟩

instance : Std.Total filedAfter := ⟨fun a b => by unfold filedAfter; omega⟩

instance : IsTrans ChallengeRow filedAfter := ⟨fun a b c => by unfold filedAfter; omega⟩

instance : Std.Total committedAfter := ⟨fun a b => le_total b.blockNumber a.blockNumber⟩

instance : IsTrans IntentRow committedAfter := ⟨fun _ _ _ hab hbc => Nat.le_trans hbc hab⟩

/-- Rows that are listed in the order of their dates are in time. -/
theorem inTime_of_dated {ρ : Type} {r : ρ → ρ → Prop} [DecidableRel r] [Std.Total r] [IsTrans ρ r]
    {rows : List ρ} {entry : ρ → FeedEntry}
    (h : ∀ a ∈ (rows.insertionSort r).take 500, ∀ b ∈ (rows.insertionSort r).take 500, r a b →
      (entry b).timestamp ≤ (entry a).timestamp) (before after : List FeedEntry) :
    NewestFirst.InTime FeedEntry.timestamp before
      (((rows.insertionSort r).take 500).map entry) after := by
  apply NewestFirst.inTime_of_sorted
  rw [List.pairwise_map]
  have hsorted : ((rows.insertionSort r).take 500).Pairwise r :=
    (List.pairwise_insertionSort r rows).sublist (List.take_sublist _ _)
  exact hsorted.imp_of_mem fun ha hb hab => h _ ha _ hb hab

theorem DatedAsListed.listedInTime {owner : Address} (h : DatedAsListed db owner) :
    ListedInTime deployment manifests db now owner where
  receipts := inTime_of_dated h.receipts _ _
  challenges := inTime_of_dated h.challenges _ _
  intents := inTime_of_dated h.intents _ _

/-! ### Writes in the order of the chain -/

def FeedWrite.log? : FeedWrite → Option MinedLog
  | .log l => some l
  | .blocked _ => none

def loggedIn (inputs : List (Time × FeedWrite)) : List MinedLog :=
  inputs.filterMap fun input => input.2.log?

/-- The logs come in the order of the chain, each once, with the timestamps of their blocks, and a
challenge is filed before it is resolved; the clock does not go back. -/
structure InChainOrder (ctx : DecodeContext) (inputs : List (Time × FeedWrite)) : Prop where
  clock : inputs.Pairwise fun a b => a.1.ms ≤ b.1.ms
  ordered : (loggedIn inputs).Pairwise fun l l' =>
    l.blockNumber < l'.blockNumber ∨ l.blockNumber = l'.blockNumber ∧ l.logIndex < l'.logIndex
  timestamps : Monotone ctx.blockTimestamp
  stamped : ∀ l ∈ loggedIn inputs, ∀ id r, l.event = .ActionReceipt id r →
    r.timestamp.toNat = ctx.blockTimestamp l.blockNumber
  filed : ∀ l ∈ loggedIn inputs, ∀ id uphold payout, l.event = .ChallengeResolved id uphold payout →
    ∃ l' receiptId challenger, [l', l].Sublist (loggedIn inputs) ∧
      l'.event = .ChallengeFiled id receiptId challenger

namespace LateResolution

def receipt (timestamp : UInt64) : ReceiptSummary :=
  { (default : ReceiptSummary) with owner := 5, timestamp }

def log (block : ℕ) (event : Event) : MinedLog := ⟨⟨block, block, 0⟩, event⟩

def clock : Time := ⟨6000000, by decide⟩

/-- Two payments; a challenge of each is filed, and then the first is resolved. -/
def logs : List MinedLog :=
  [log 1 (.ActionReceipt 1 (receipt 1000)), log 2 (.ActionReceipt 2 (receipt 2000)),
    log 3 (.ChallengeFiled 1 1 9), log 4 (.ChallengeFiled 2 2 9),
      log 5 (.ChallengeResolved 1 true 7)]

def inputs : List (Time × FeedWrite) := logs.map fun l => (clock, .log l)

def ctx : DecodeContext := ⟨fun block => 1000 * block, fun _ => []⟩

def owner : JsString := text "0x0000000000000000000000000000000000000005"

theorem loggedIn_inputs : loggedIn inputs = logs := rfl

theorem inChainOrder : InChainOrder ctx inputs where
  clock := by simp [inputs, logs]
  ordered := by
    rw [loggedIn_inputs]
    decide
  timestamps := fun _ _ h => Nat.mul_le_mul_left 1000 h
  stamped := by
    rw [loggedIn_inputs]
    intro l hl id r hevent
    simp only [logs, List.mem_cons, List.not_mem_nil, or_false] at hl
    rcases hl with rfl | rfl | rfl | rfl | rfl <;> cases hevent <;> rfl
  filed := by
    rw [loggedIn_inputs]
    intro l hl id uphold payout hevent
    simp only [logs, List.mem_cons, List.not_mem_nil, or_false] at hl
    rcases hl with rfl | rfl | rfl | rfl | rfl <;> cases hevent
    exact ⟨log 3 (.ChallengeFiled 1 1 9), 1, 9, by decide, rfl⟩

end LateResolution

open LateResolution

end IntentGuard.Infra
