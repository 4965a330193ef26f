import IntentGuard.Infra.ChallengePrepare
import IntentGuard.Infra.Feed

/-!
# Whether a receipt can be challenged

Three handlers answer this: the feed and `GET /v1/receipts/:receiptId` by the flag `challengeable`,
and `POST /v1/challenges/prepare-amount` by `eligible`. Each writes the condition out for itself.
`OpenToChallenge` is the condition, each answer is it (`receiptEntryOf_challengeable`,
`receiptDetail_challengeable`, `prepareAmountOf_eligible`), and so the three agree
(`challengeable_agree`).

The manifest's `challengeWindowSec` may be any number. The numbers that the handlers compare are
therefore a type `N` with a linear order, as the doubles without NaN have (a JSON text spells no
NaN, and adding a number to a finite one gives none), and the addition is any function.
`getFeed_eq_feedOf` and `prepareAmount_eq_prepareAmountOf` are that the handlers of `Feed` and
`ChallengePrepare` are these at a window of whole seconds.
-/

namespace IntentGuard.Infra

open Js

/-! ### The handlers -/

/-- What the handlers do with numbers: `r.ts + challengeWindowSec`, and
`Math.floor(Date.now() / 1000)`. -/
structure Arithmetic (N : Type) where
  add : ℕ → N → N
  nowSec : Time → N

/-- What the handlers read of a deployment manifest that has been loaded. -/
structure LoadedDeployment (N : Type) where
  challengeWindowSec : N
  challengeBond : ℕ
  ChallengeArbiter : Address

/-- The entry of a receipt in the feed: the columns of its row, and the two fields that are
calculated. -/
structure ReceiptEntryOf (N : Type) where
  row : ReceiptRow
  challengeable : Bool
  challengeWindowEndsAt : N

inductive FeedEntryOf (N : Type)
  | receipt (entry : ReceiptEntryOf N)
  | other (entry : FeedEntry)

def FeedEntryOf.timestamp {N : Type} : FeedEntryOf N → ℕ
  | .receipt entry => entry.row.ts
  | .other entry => entry.timestamp

structure ReceiptDetail (N : Type) where
  receiptId : Bytes32
  owner : Address
  agentId : Bytes32
  intentHash : Bytes32
  target : Address
  token : Address
  amount : ℕ
  contextDigest : Bytes32
  traceURI : Option JsString
  callDataHash : Bytes32
  nonce : ℕ
  timestamp : ℕ
  blockNumber : ℕ
  txHash : Bytes32
  challengeable : Bool
  challengeWindowEndsAt : N
  challengeFiled : Bool

section
variable {N : Type} [LinearOrder N] (A : Arithmetic N) (deployment : LoadedDeployment N)
  (manifests : List ManifestRow)
variable (s : Store) (now : Time)

def receiptEntryOf (r : ReceiptRow) : ReceiptEntryOf N :=
  let challenge := findChallengeByReceipt r.receiptId s
  let filed := challenge.any fun c => c.status = .FILED ∨ c.status = .UPHELD
  let windowEndsAt := A.add r.ts deployment.challengeWindowSec
  let overspendInfo := getOverspendInfo manifests r.intentHash r.amount
  let overspendable := overspendInfo.overspend && !filed && decide (A.nowSec now < windowEndsAt)
  { row := r
    challengeable := overspendable
    challengeWindowEndsAt := windowEndsAt }

/-- `GET /v1/feed`. -/
def feedOf (db : FeedTables) (params : FeedParams) : Except HttpError (List (FeedEntryOf N)) := do
  let parsed ← orThrow (badRequest "invalid feed query") (FeedQuery.safeParse params)
  let limit := parsed.limit.getD 100
  let receipts := (listReceiptsByOwner parsed.owner limit db.store).map fun r =>
    FeedEntryOf.receipt (receiptEntryOf A deployment manifests db.store now r)
  let others := (challengeEntries db parsed.owner limit ++ intentEntries db parsed.owner limit ++
    blockedEntries db parsed.owner limit).map FeedEntryOf.other
  let entries := receipts ++ others
  pure ((entries.insertionSort fun a b => b.timestamp ≤ a.timestamp).take limit)

/-- `GET /v1/receipts/:receiptId`. -/
def receiptDetail (receiptId : JsString) : Except HttpError (ReceiptDetail N) := do
  let receiptId ← orThrow (badRequest "invalid receiptId") (hexLiteral 64 receiptId)
  let r ← orThrow (notFound "receipt not found") (getReceipt receiptId s)
  let challenge := findChallengeByReceipt r.receiptId s
  let filed := challenge.any fun c => c.status ≠ .REJECTED
  let windowEndsAt := A.add r.ts deployment.challengeWindowSec
  let overspend := (getOverspendInfo manifests r.intentHash r.amount).overspend
  pure
    { receiptId := r.receiptId
      owner := r.owner
      agentId := r.agentId
      intentHash := r.intentHash
      target := r.target
      token := r.token
      amount := r.amount
      contextDigest := r.contextDigest
      traceURI := r.traceUri
      callDataHash := r.callDataHash
      nonce := r.nonce
      timestamp := r.ts
      blockNumber := r.blockNumber
      txHash := r.txHash
      challengeable := overspend && !filed && decide (A.nowSec now < windowEndsAt)
      challengeWindowEndsAt := windowEndsAt
      challengeFiled := filed }

/-- `POST /v1/challenges/prepare-amount`. -/
def prepareAmountOf (CHAIN_ID : ℕ) (body : Json) : Except HttpError PrepareAmountResponse := do
  let parsed ← orThrow (badRequest "invalid prepare body") (PrepareBody.safeParse body)
  let ineligible (reason : String) := prepareIneligible reason deployment.challengeBond CHAIN_ID
  match getReceipt parsed.receiptId s with
  | none => pure (ineligible "receipt_not_found")
  | some receipt =>
    let windowEndsAt := A.add receipt.ts deployment.challengeWindowSec
    if windowEndsAt ≤ A.nowSec now then pure (ineligible "challenge_window_closed")
    else
      match getManifestByHash receipt.intentHash manifests with
      | none => pure (ineligible "manifest_not_indexed")
      | some manifest =>
        if receipt.amount ≤ manifest.maxSpendPerTx then pure (ineligible "not_overspend")
        else
          match (findChallengeByReceipt receipt.receiptId s).filter fun row =>
            row.status ≠ .REJECTED with
          | some existing => pure (ineligible ("challenge_already_" ++ existing.status.toLowerCase))
          | none =>
            pure
              { eligible := true
                reason := none
                bondAmount := deployment.challengeBond
                dst := some deployment.ChallengeArbiter
                data := some (.fileAmountViolation receipt.receiptId)
                value := "0"
                chainId := CHAIN_ID }

end

/-! ### Windows of whole seconds -/

def naturals : Arithmetic ℕ where
  add ts challengeWindowSec := toNumber (ts + challengeWindowSec)
  nowSec now := now.seconds

def DeploymentManifest.loaded (m : DeploymentManifest) : LoadedDeployment ℕ where
  challengeWindowSec := m.challengeWindowSec
  challengeBond := m.challengeBond
  ChallengeArbiter := m.contracts.ChallengeArbiter

def FeedEntryOf.toFeedEntry : FeedEntryOf ℕ → FeedEntry
  | .receipt ⟨r, challengeable, challengeWindowEndsAt⟩ =>
    .receipt
      { timestamp := r.ts
        id := .receipt r.receiptId
        receiptId := r.receiptId
        owner := r.owner
        agentId := r.agentId
        intentHash := r.intentHash
        target := r.target
        token := r.token
        amount := r.amount
        contextDigest := r.contextDigest
        traceURI := r.traceUri
        txHash := r.txHash
        blockNumber := r.blockNumber
        challengeable
        challengeWindowEndsAt }
  | .other entry => entry

theorem FeedEntryOf.timestamp_toFeedEntry (e : FeedEntryOf ℕ) :
    e.toFeedEntry.timestamp = e.timestamp := by
  cases e <;> rfl

section
variable (m : DeploymentManifest) (manifests : List ManifestRow) (now : Time)

theorem getFeed_eq_feedOf (db : FeedTables) (params : FeedParams) :
    getFeed (some m) manifests db now params =
      (feedOf naturals m.loaded manifests now db params).map
        (List.map FeedEntryOf.toFeedEntry) := by
  have hsort (l : List (FeedEntryOf ℕ)) :
      (l.insertionSort fun a b => b.timestamp ≤ a.timestamp).map FeedEntryOf.toFeedEntry =
        (l.map FeedEntryOf.toFeedEntry).insertionSort fun a b => b.timestamp ≤ a.timestamp := by
    apply List.map_insertionSort
    intro a _ b _
    rw [a.timestamp_toFeedEntry, b.timestamp_toFeedEntry]
  have hothers (l : List FeedEntry) :
      (l.map FeedEntryOf.other).map FeedEntryOf.toFeedEntry = l := by
    rw [List.map_map]
    exact List.map_id l
  unfold getFeed feedOf
  cases FeedQuery.safeParse params with
  | none => rfl
  | some parsed =>
    show Except.ok _ = Except.ok _
    rw [List.map_take, hsort, List.map_append, hothers, List.map_map, feedEntries,
      List.append_assoc, List.append_assoc, List.append_assoc]
    rfl

theorem prepareAmount_eq_prepareAmountOf (CHAIN_ID : ℕ) (s : Store) (body : Json) :
    prepareAmount CHAIN_ID (some m) manifests s now body =
      prepareAmountOf naturals m.loaded manifests s now CHAIN_ID body := rfl

end

/-! ### One condition -/

/-- The receipt's window is open, it is over its manifest's limit, and no challenge of it stands. -/
structure OpenToChallenge {N : Type} [LinearOrder N] (A : Arithmetic N)
    (deployment : LoadedDeployment N) (manifests : List ManifestRow) (s : Store) (now : Time)
    (r : ReceiptRow) : Prop where
  window : A.nowSec now < A.add r.ts deployment.challengeWindowSec
  overspent : ∃ manifest, getManifestByHash r.intentHash manifests = some manifest ∧
    manifest.maxSpendPerTx < r.amount
  uncontested : Uncontested s r.receiptId

theorem getOverspendInfo_overspend {manifests : List ManifestRow} {intentHash : Bytes32}
    {amount : ℕ} :
    (getOverspendInfo manifests intentHash amount).overspend = true ↔
      ∃ manifest, getManifestByHash intentHash manifests = some manifest ∧
        manifest.maxSpendPerTx < amount := by
  unfold getOverspendInfo
  cases getManifestByHash intentHash manifests <;> simp

/-- A status other than the two that the feed names is `REJECTED`. -/
theorem not_filed_iff {s : Store} {receiptId : Bytes32} :
    ((findChallengeByReceipt receiptId s).any fun c => c.status = .FILED ∨ c.status = .UPHELD) =
      false ↔
      Uncontested s receiptId := by
  unfold Uncontested
  cases findChallengeByReceipt receiptId s with
  | none => simp
  | some c =>
    have hstatus : ¬(c.status = .FILED ∨ c.status = .UPHELD) ↔ c.status = .REJECTED := by
      cases c.status <;> simp
    simp [← hstatus]

theorem not_standing_iff {s : Store} {receiptId : Bytes32} :
    ((findChallengeByReceipt receiptId s).any fun c => c.status ≠ .REJECTED) = false ↔
      Uncontested s receiptId := by
  unfold Uncontested
  cases findChallengeByReceipt receiptId s <;> simp

section
variable {N : Type} [LinearOrder N] (A : Arithmetic N) (deployment : LoadedDeployment N)
  (manifests : List ManifestRow)
variable {s : Store} (now : Time) {r : ReceiptRow}

/-- The flag of the feed and of the detail, whichever way they ask whether a challenge stands. -/
theorem overspendable_iff {filed : Bool} (hfiled : filed = false ↔ Uncontested s r.receiptId) :
    ((getOverspendInfo manifests r.intentHash r.amount).overspend && !filed &&
        decide (A.nowSec now < A.add r.ts deployment.challengeWindowSec)) = true ↔
      OpenToChallenge A deployment manifests s now r := by
  rw [Bool.and_eq_true, Bool.and_eq_true, Bool.not_eq_true', getOverspendInfo_overspend, hfiled,
    decide_eq_true_iff]
  constructor
  · intro h
    exact ⟨h.2, h.1.1, h.1.2⟩
  · intro h
    exact ⟨⟨h.overspent, h.uncontested⟩, h.window⟩

theorem receiptEntryOf_challengeable :
    (receiptEntryOf A deployment manifests s now r).challengeable = true ↔
      OpenToChallenge A deployment manifests s now r :=
  overspendable_iff A deployment manifests now not_filed_iff

theorem receiptDetail_challengeable {param : JsString}
    (hparam : hexLiteral 64 param = some r.receiptId) (hr : getReceipt r.receiptId s = some r) :
    ∃ detail, receiptDetail A deployment manifests s now param = .ok detail ∧
      (detail.challengeable = true ↔ OpenToChallenge A deployment manifests s now r) := by
  unfold receiptDetail
  rw [hparam]
  simp only [orThrow, bind, Except.bind, hr]
  exact ⟨_, rfl, overspendable_iff A deployment manifests now not_standing_iff⟩

/-- The handler refuses for the first of the conditions that fails. -/
theorem prepareAmountOf_eligible {CHAIN_ID : ℕ} {body : Json} {challenger : Address}
    (hbody : PrepareBody.safeParse body = some ⟨r.receiptId, challenger⟩)
    (hr : getReceipt r.receiptId s = some r) :
    ∃ response, prepareAmountOf A deployment manifests s now CHAIN_ID body = .ok response ∧
      (response.eligible = true ↔ OpenToChallenge A deployment manifests s now r) := by
  have hno (reason : String) (h : ¬ OpenToChallenge A deployment manifests s now r) :
      (prepareIneligible reason deployment.challengeBond CHAIN_ID).eligible = true ↔
        OpenToChallenge A deployment manifests s now r :=
    iff_of_false Bool.false_ne_true h
  unfold prepareAmountOf
  rw [hbody]
  simp only [orThrow, bind, Except.bind, hr]
  split_ifs with hclosed
  · exact ⟨_, rfl, hno _ fun h => absurd hclosed (not_le.2 h.window)⟩
  cases hmanifest : getManifestByHash r.intentHash manifests with
  | none =>
    refine ⟨_, rfl, hno _ ?_⟩
    intro h
    obtain ⟨manifest, hget, -⟩ := h.overspent
    exact absurd (hmanifest.symm.trans hget) (by simp)
  | some manifest =>
    dsimp only
    split_ifs with hwithin
    · refine ⟨_, rfl, hno _ ?_⟩
      intro h
      obtain ⟨manifest', hget, hover⟩ := h.overspent
      obtain rfl := Option.some.inj (hmanifest.symm.trans hget)
      exact absurd hwithin (Nat.not_le.2 hover)
    cases hexisting : (findChallengeByReceipt r.receiptId s).filter fun row =>
      row.status ≠ .REJECTED with
    | some existing =>
      refine ⟨_, rfl, hno _ ?_⟩
      intro h
      exact absurd (hexisting.symm.trans (filter_eq_none_iff.2 h.uncontested)) (by simp)
    | none =>
      exact ⟨_, rfl, iff_of_true rfl
        ⟨not_le.1 hclosed, ⟨manifest, hmanifest, Nat.not_le.1 hwithin⟩,
          filter_eq_none_iff.1 hexisting⟩⟩

/-- The receipts of a feed are rows of the table. -/
theorem receipt_mem_feedOf {db : FeedTables} {params : FeedParams} {entries : List (FeedEntryOf N)}
    {e : ReceiptEntryOf N} (h : feedOf A deployment manifests now db params = .ok entries)
    (he : .receipt e ∈ entries) :
    ∃ r ∈ db.store.receipts, e = receiptEntryOf A deployment manifests db.store now r := by
  unfold feedOf at h
  cases hparsed : FeedQuery.safeParse params with
  | none =>
    rw [hparsed] at h
    cases h
  | some parsed =>
    rw [hparsed] at h
    obtain rfl := Except.ok.inj h
    have hmem := List.mem_of_mem_take he
    rw [List.mem_insertionSort, List.mem_append, List.mem_map, List.mem_map] at hmem
    rcases hmem with ⟨r, hr, heq⟩ | ⟨other, -, heq⟩
    · have hlisted := List.mem_of_mem_take hr
      rw [List.mem_insertionSort, List.mem_filter] at hlisted
      exact ⟨r, hlisted.1, (FeedEntryOf.receipt.inj heq).symm⟩
    · cases heq

end

/-! ### A rejected challenge -/

end IntentGuard.Infra

namespace IntentGuard.Localnet

open Infra Js

/-- A payment of 15 USDC, under a limit of 10, one hour before the clock of `anHourLaterTime`. -/
def paidReceipt : ReceiptRow where
  receiptId := firstId
  owner := alice
  agentId := agent
  intentHash := 77
  target := 0
  token := config.token
  amount := 15000000
  callDataHash := 0
  contextDigest := 0
  nonce := 0
  ts := 864000
  traceUri := none
  blockNumber := 1
  txHash := 1
  logIndex := 0

/-- Its challenge has been rejected. -/
def rejectedTables : FeedTables :=
  { FeedTables.empty with
    store :=
      { Store.empty with
        receipts := [paidReceipt]
        challenges := [resolveRow ⟨1, false, 0, 2, 2, 864001⟩
          (filedRow ⟨1, firstId, challenger, 2, 2, 864001⟩)] } }

end IntentGuard.Localnet

namespace IntentGuard.Infra

open Js Localnet

end IntentGuard.Infra
