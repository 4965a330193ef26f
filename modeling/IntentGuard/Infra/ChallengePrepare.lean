import IntentGuard.Contracts.Records
import IntentGuard.Infra.CanonicalJson
import IntentGuard.Infra.StoreMirror

/-!
# Challenge preparation

The handler of `POST /v1/challenges/prepare-amount`, which answers whether a filing for a receipt
would succeed, from the store, the stored manifests and the deployment manifest.

* `Indexed`: the store has handled every log of a state, with or without retries. Then it has the
  receipts of the state (`Indexed.getReceipt_unplaced`) and its challenges, all upheld
  (`Indexed.uncontested_iff`).
* `eligible_iff_succeeds`: for an overspent receipt the answer is the contract's exactly when
  `SameDecision` holds. The handler takes the window of the bronze tier whatever the stake, closes
  it a second early, and refuses a receipt that has been challenged, which the contract does not.
-/

namespace IntentGuard.Infra

open Js Replay

/-! ### The handler -/

structure PrepareBody where
  receiptId : Bytes32
  challenger : Address
  deriving DecidableEq

def PrepareBody.safeParse (body : Json) : Option PrepareBody := do
  let receiptId ← hexField 64 "receiptId" body
  let challenger ← hexField 40 "challenger" body
  pure { receiptId, challenger }

/-- `dst` is the field `to`, and `data` is the call that the calldata encodes. -/
structure PrepareAmountResponse where
  eligible : Bool
  reason : Option String
  bondAmount : ℕ
  dst : Option Address
  data : Option Call
  value : String
  chainId : ℕ
  deriving DecidableEq

def prepareIneligible (reason : String) (bondAmount chainId : ℕ) : PrepareAmountResponse where
  eligible := false
  reason := some reason
  bondAmount
  dst := none
  data := none
  value := "0"
  chainId

def ChallengeStatus.toLowerCase : ChallengeStatus → String
  | .FILED => "filed"
  | .UPHELD => "upheld"
  | .REJECTED => "rejected"

def prepareAmount (CHAIN_ID : ℕ) (deployment : Option DeploymentManifest)
    (manifests : List ManifestRow) (s : Store) (now : Time) (body : Json) :
    Except HttpError PrepareAmountResponse := do
  let parsed ← orThrow (badRequest "invalid prepare body") (PrepareBody.safeParse body)
  let deployment ← orThrow
    (internal "deployments/base-sepolia.json not loaded; cannot prepare challenge calldata")
      deployment
  let ineligible (reason : String) := prepareIneligible reason deployment.challengeBond CHAIN_ID
  match getReceipt parsed.receiptId s with
  | none => pure (ineligible "receipt_not_found")
  | some receipt =>
    let windowEndsAt := toNumber (receipt.ts + deployment.challengeWindowSec)
    if windowEndsAt ≤ now.seconds then pure (ineligible "challenge_window_closed")
    else
      match getManifestByHash receipt.intentHash manifests with
      | none => pure (ineligible "manifest_not_indexed")
      | some manifest =>
        if receipt.amount ≤ manifest.maxSpendPerTx then pure (ineligible "not_overspend")
        else
          match (findChallengeByReceipt receipt.receiptId s).filter fun row =>
            row.status ≠ .REJECTED with
          | some existing => pure (ineligible ("challenge_already_" ++ existing.status.toLowerCase))
          | none =>
            pure
              { eligible := true
                reason := none
                bondAmount := deployment.challengeBond
                dst := some deployment.contracts.ChallengeArbiter
                data := some (.fileAmountViolation receipt.receiptId)
                value := "0"
                chainId := CHAIN_ID }

/-- The handler answers `eligible = true`. -/
def Eligible (CHAIN_ID : ℕ) (deployment : Option DeploymentManifest) (manifests : List ManifestRow)
    (s : Store) (now : Time) (body : Json) : Prop :=
  ∃ r, prepareAmount CHAIN_ID deployment manifests s now body = .ok r ∧ r.eligible = true

/-- No challenge stands in the way of another one. -/
def Uncontested (s : Store) (receiptId : Bytes32) : Prop :=
  ∀ c, findChallengeByReceipt receiptId s = some c → c.status = .REJECTED

section
variable {CHAIN_ID : ℕ} {m : DeploymentManifest} {manifests : List ManifestRow} {s : Store}
  {now : Time} {body : Json}
variable {parsed : PrepareBody}

theorem filter_eq_none_iff {receiptId : Bytes32} :
    (findChallengeByReceipt receiptId s).filter (fun row => row.status ≠ .REJECTED) = none ↔
      Uncontested s receiptId := by
  simp [Uncontested, Option.filter_eq_none_iff]

theorem prepareAmount_eligible (hbody : PrepareBody.safeParse body = some parsed) :
    Eligible CHAIN_ID (some m) manifests s now body ↔
      ∃ receipt, getReceipt parsed.receiptId s = some receipt ∧
        now.seconds < receipt.ts + m.challengeWindowSec ∧
        ∃ manifest, getManifestByHash receipt.intentHash manifests = some manifest ∧
          manifest.maxSpendPerTx < receipt.amount ∧ Uncontested s receipt.receiptId := by
  have hno : ∀ reason, (prepareIneligible reason m.challengeBond CHAIN_ID).eligible = false :=
    fun _ => rfl
  unfold Eligible prepareAmount
  rw [hbody]
  cases hreceipt : getReceipt parsed.receiptId s with
  | none => simp [orThrow, bind, Except.bind, pure_eq_ok, hreceipt, hno]
  | some receipt =>
    simp only [orThrow, bind, Except.bind, hreceipt, Option.some.injEq, exists_eq_left']
    by_cases hclosed : toNumber (receipt.ts + m.challengeWindowSec) ≤ now.seconds
    · have hwindow : ¬ now.seconds < receipt.ts + m.challengeWindowSec := fun h =>
        Nat.not_lt.2 hclosed ((lt_toNumber_iff now.seconds_lt).2 h)
      simp [hclosed, hwindow, hno]
    have hwindow : now.seconds < receipt.ts + m.challengeWindowSec :=
      (lt_toNumber_iff now.seconds_lt).1 (Nat.not_le.1 hclosed)
    cases hmanifest : getManifestByHash receipt.intentHash manifests with
    | none => simp [hclosed, hno]
    | some manifest =>
      by_cases hwithin : receipt.amount ≤ manifest.maxSpendPerTx
      · have hover : ¬ manifest.maxSpendPerTx < receipt.amount := Nat.not_lt.2 hwithin
        simp [hclosed, hwithin, hover, hno]
      · have hover : manifest.maxSpendPerTx < receipt.amount := Nat.not_le.1 hwithin
        rw [← filter_eq_none_iff]
        cases hexisting : (findChallengeByReceipt receipt.receiptId s).filter fun row =>
          row.status ≠ .REJECTED with
        | some existing => simp [hclosed, hwithin, hno]
        | none => simp [hclosed, hwithin, hwindow, hover]

end

/-! ### The store of an indexed state -/

/-- The store has handled every log of the state, in order, with or without retries. -/
def Indexed {D : Deployment} (ctx : DecodeContext) (provider : Provider) (g : Genesis D)
    (w : World D) (s : Store) :
    Prop :=
  ∃ chain H, ValidHistory g w chain ∧ Replays chain H ∧ handleLogs ctx provider .empty H = .ok s

/-- The row without its trace URI and its place in the chain. -/
def ReceiptRow.unplaced (row : ReceiptRow) : ReceiptRow :=
  { row with traceUri := none, blockNumber := 0, txHash := 0, logIndex := 0 }

section
variable {D : Deployment} {g : Genesis D} {w : World D} {chain H : List MinedLog}
  {ctx : DecodeContext}
variable {provider : Provider} {s : Store}

theorem mirrors_of_replays (hv : ValidHistory g w chain) (hP : Replays chain H)
    (hs : handleLogs ctx provider .empty H = .ok s) : Mirrors ctx provider chain H s := by
  obtain ⟨s', hs', hM⟩ := handleLogs_mirrors ctx hv .nil (List.nil_subset _) hP.subset
  obtain rfl := Except.ok.inj (hs.symm.trans hs')
  exact hM

/-- What is handled last of a kind is what the contracts logged last of it. -/
theorem last_handled {β : Type} {f : Event → Option β} (hv : ValidHistory g w chain)
    (hP : Replays chain H) (hf : ∀ e, indexed e = false → f e = none) :
    H.reverse.findSome? (fun l => f l.event) = lastLogged f w.logs := by
  rw [hP.reverse_findSome?_eq, ← lastLogged_filter hf, ← hv.events]
  unfold lastLogged
  rw [← List.map_reverse, List.findSome?_map]
  rfl

/-- Every reachable state can be indexed. -/
theorem exists_indexed (ctx : DecodeContext) (provider : Provider) (hr : Reachable g w) :
    ∃ s, Indexed ctx provider g w s := by
  have hv := oneLogPerBlock_valid hr
  obtain ⟨s, hs, -⟩ := handleLogs_mirrors ctx hv .nil (List.nil_subset _) (List.Subset.refl _)
  exact ⟨s, _, _, hv, .refl _, hs⟩

namespace Indexed

theorem reachable (h : Indexed ctx provider g w s) : Reachable g w := by
  obtain ⟨chain, H, hv, -⟩ := h
  exact hv.reachable

/-- A receipt's row is its log's, wherever the log stands. -/
theorem getReceipt_unplaced (h : Indexed ctx provider g w s) (p : Provenance) (id : Bytes32) :
    (getReceipt id s).map ReceiptRow.unplaced =
      (recorded (w.executor.receipts id)).map fun r => (receiptRow p id r).unplaced := by
  obtain ⟨chain, H, hv, hP, hs⟩ := h
  have hM := mirrors_of_replays hv hP hs
  rw [← logged_receipt hv.reachable,
    ← last_handled hv hP (by intro e he; cases e <;> simp_all [indexed, receiptIn])]
  unfold getReceipt
  rw [hM.receipts.map_find _ ReceiptRow.unplaced (fun _ => rfl) (fun _ _ => rfl) (fun _ _ => rfl),
    List.map_findSome?, List.map_findSome?]
  congr 1
  funext l
  unfold creation receiptTouch
  cases he : l.event <;> simp only [Function.comp_apply, he, receiptIn, Option.map_none]
  case ActionReceipt id' r =>
    split_ifs with hid
    · rw [hid]
      rfl
    · rfl
  case TraceURIStored => split_ifs <;> rfl

theorem find_challenge (h : Indexed ctx provider g w s) (k : ℕ) :
    (Table.find ChallengeRow.challengeId k s.challenges).map ChallengeRow.receiptId =
      if 0 < k ∧ k ≤ w.arbiter.nextId then some (w.arbiter.challenges k).receiptId else none := by
  obtain ⟨chain, H, hv, hP, hs⟩ := h
  have hM := mirrors_of_replays hv hP hs
  rw [← logged_filing hv.reachable,
    ← last_handled hv hP (by intro e he; cases e <;> simp_all [indexed, filedIn])]
  rw [hM.challenges.map_find _ InsertChallengeInput.receiptId (fun _ => rfl) (fun _ _ => rfl)
    (fun _ _ => rfl), List.map_findSome?]
  congr 1
  funext l
  unfold creation challengeTouch
  cases he : l.event <;> simp only [Function.comp_apply, he, filedIn, Option.map_none]
  case ChallengeFiled => split_ifs <;> rfl
  case ChallengeResolved => split_ifs <;> rfl

/-- The row of a challenge shows the contract's verdict: every challenge is upheld by the call that
files it. -/
theorem upheld (h : Indexed ctx provider g w s) {c : ChallengeRow} {k : ℕ}
    (hc : Table.find ChallengeRow.challengeId k s.challenges = some c) : c.status = .UPHELD := by
  have hfiled := h.find_challenge k
  obtain ⟨chain, H, hv, hP, hs⟩ := h
  have hM := mirrors_of_replays hv hP hs
  rw [hc] at hfiled
  obtain ⟨hpos, hle⟩ : 0 < k ∧ k ≤ w.arbiter.nextId := by
    by_contra hk
    rw [if_neg hk] at hfiled
    exact absurd hfiled (by simp)
  let verdict : Write InsertChallengeInput ResolveChallengeInput → Option Bool
    | .create _ => none
    | .update u => some u.uphold
  have hlast : (H.reverse.findSome? (challengeTouch ctx k)).map verdict = some (some true) := by
    rw [← logged_verdict hv.reachable hpos hle,
      ← last_handled hv hP (by intro e he; cases e <;> simp_all [indexed, verdictIn]),
        List.map_findSome?]
    congr 1
    funext l
    unfold challengeTouch
    cases he : l.event <;> simp only [Function.comp_apply, he, verdictIn, Option.map_none]
    case ChallengeFiled => split_ifs <;> rfl
    case ChallengeResolved => split_ifs <;> rfl
  obtain ⟨touch, htouch, hverdict⟩ := Option.map_eq_some_iff.1 hlast
  cases touch with
  | create => exact absurd hverdict (by simp [verdict])
  | update u =>
    obtain ⟨r', rfl⟩ := hM.challenges.find_of_last_update htouch hc
    have huphold : u.uphold = true := Option.some.inj hverdict
    simp [resolveRow, huphold]

theorem uncontested_iff (h : Indexed ctx provider g w s) (receiptId : Bytes32) :
    Uncontested s receiptId ↔ ¬ Challenged w.arbiter receiptId := by
  have hunique : Table.UniqueKeys ChallengeRow.challengeId s.challenges := by
    obtain ⟨chain, H, hv, hP, hs⟩ := h
    exact (mirrors_of_replays hv hP hs).challenges.unique
  have hfind : ∀ c ∈ s.challenges,
      Table.find ChallengeRow.challengeId c.challengeId s.challenges = some c :=
    fun c hc => (Table.find_eq_some_iff hunique).2 ⟨hc, rfl⟩
  constructor
  · intro huncontested h
    obtain ⟨k, hpos, hle, hid⟩ := h
    have hk := h.find_challenge k
    rw [if_pos ⟨hpos, hle⟩, hid] at hk
    obtain ⟨c, hc, hcid⟩ := Option.map_eq_some_iff.1 hk
    cases hfound : findChallengeByReceipt receiptId s with
    | none => exact findChallengeByReceipt_eq_none.1 hfound c (Table.mem_of_find _ hc) hcid
    | some c' =>
      have hupheld := h.upheld (hfind c' (findChallengeByReceipt_mem hfound).1)
      rw [huncontested c' hfound] at hupheld
      exact absurd hupheld (by simp)
  · intro hno c hfound
    obtain ⟨hc, hid⟩ := findChallengeByReceipt_mem hfound
    have hk := h.find_challenge c.challengeId
    rw [hfind c hc, Option.map_some] at hk
    by_cases hallocated : 0 < c.challengeId ∧ c.challengeId ≤ w.arbiter.nextId
    · rw [if_pos hallocated] at hk
      exact absurd ⟨c.challengeId, hallocated.1, hallocated.2,
        (Option.some.inj hk).symm.trans hid⟩ hno
    · rw [if_neg hallocated] at hk
      exact absurd hk (by simp)

end Indexed

end

/-! ### The two decisions -/

/-- The row carries the intent's config. -/
structure ManifestRow.Carries (row : ManifestRow) (cfg : IntentConfig) : Prop where
  owner : row.owner = cfg.owner
  token : row.token = cfg.token
  maxSpendPerTx : row.maxSpendPerTx = cfg.maxSpendPerTx
  maxSpendPerDay : row.maxSpendPerDay = cfg.maxSpendPerDay
  expiry : row.expiry = toNumber cfg.expiry.toNat
  nonce : row.nonce = cfg.nonce
  allowedCounterparties : row.allowedCounterparties = cfg.allowedCounterparties

section
variable {D : Deployment} {g : Genesis D} {w : World D} {ctx : DecodeContext}
  {provider : Provider} {s : Store}
variable {manifests : List ManifestRow}

/-- The manifest of every committed intent is stored. -/
def ManifestsStored (w : World D) (manifests : List ManifestRow) : Prop :=
  ∀ intentHash, w.registry.intentExists intentHash = true →
    ∃ row, getManifestByHash intentHash manifests = some row ∧
      row.Carries (w.registry.intentConfig intentHash)

/-- The receipt exists and is over its intent's limit: without this both sides refuse. -/
def Overspent (w : World D) (receiptId : Bytes32) : Prop :=
  Stored w receiptId ∧
    (w.registry.intentConfig (w.executor.receipts receiptId).intentHash).maxSpendPerTx <
      (w.executor.receipts receiptId).amount

/-- The handler's decision on an indexed state. -/
theorem Indexed.eligible_iff {CHAIN_ID : ℕ} {m : DeploymentManifest} {now : Time} {body : Json}
    {parsed : PrepareBody} (h : Indexed ctx provider g w s)
    (hmanifests : ManifestsStored w manifests) (hbody : PrepareBody.safeParse body = some parsed)
    (hnow : now.seconds = w.now) :
    Eligible CHAIN_ID (some m) manifests s now body ↔
      Overspent w parsed.receiptId ∧
        w.now < (w.executor.receipts parsed.receiptId).timestamp.toNat + m.challengeWindowSec ∧
          ¬ Challenged w.arbiter parsed.receiptId := by
  have hr := h.reachable
  have hrow := h.getReceipt_unplaced ⟨0, 0, 0⟩ parsed.receiptId
  rw [prepareAmount_eligible hbody]
  by_cases hstored : Stored w parsed.receiptId
  · rw [recorded, if_neg hstored] at hrow
    obtain ⟨receipt, hreceipt, hcontent⟩ := Option.map_eq_some_iff.1 hrow
    have hid : receipt.receiptId = parsed.receiptId := congrArg ReceiptRow.receiptId hcontent
    have hintent : receipt.intentHash = (w.executor.receipts parsed.receiptId).intentHash :=
      congrArg ReceiptRow.intentHash hcontent
    have hamount : receipt.amount = (w.executor.receipts parsed.receiptId).amount :=
      congrArg ReceiptRow.amount hcontent
    have hts : receipt.ts = (w.executor.receipts parsed.receiptId).timestamp.toNat := by
      have hpast := timestamp_le_now hr parsed.receiptId
      have hnow' := now.seconds_lt
      exact (congrArg ReceiptRow.ts hcontent).trans (toNumber_of_lt (by omega))
    obtain ⟨row, hget, hcarries⟩ := hmanifests _ (hstored.intentExists hr)
    simp only [hreceipt, Option.some.injEq, exists_eq_left', hid, hintent, hamount, hts, hget,
      hcarries.maxSpendPerTx, h.uncontested_iff, hnow, Overspent]
    constructor
    · intro h
      obtain ⟨hwindow, hover, hun⟩ := h
      exact ⟨⟨hstored, hover⟩, hwindow, hun⟩
    · intro h
      obtain ⟨⟨-, hover⟩, hwindow, hun⟩ := h
      exact ⟨hwindow, hover, hun⟩
  · rw [recorded, if_pos (not_not.1 hstored)] at hrow
    have hnone : getReceipt parsed.receiptId s = none := Option.map_eq_none_iff.1 hrow
    rw [hnone]
    constructor
    · intro h
      obtain ⟨receipt, hreceipt, -⟩ := h
      exact absurd hreceipt (by simp)
    · intro h
      obtain ⟨⟨h, -⟩, -⟩ := h
      exact absurd h hstored

/-- Where the handler's decision and the contract's are the same, for an overspent receipt. -/
structure SameDecision (w : World D) (receiptId : Bytes32) : Prop where
  /-- A receipt that is open for the handler has the bronze tier behind it, or is of this very
  second. -/
  tier : ¬ Challenged w.arbiter receiptId →
    w.now < (w.executor.receipts receiptId).timestamp.toNat + 259200 →
    GuardConstants.BRONZE_TIER_THRESHOLD ≤ w.vault.stake (w.executor.receipts receiptId).agentId ∨
      w.vault.stake (w.executor.receipts receiptId).agentId ≠ 0 ∧
        w.now = (w.executor.receipts receiptId).timestamp.toNat
  /-- This is not the last second of the bronze tier's window. -/
  last_second : GuardConstants.BRONZE_TIER_THRESHOLD ≤
    w.vault.stake (w.executor.receipts receiptId).agentId →
    w.now ≠ (w.executor.receipts receiptId).timestamp.toNat + 259200
  /-- A receipt that has been challenged cannot be challenged again. -/
  challenged : Challenged w.arbiter receiptId →
    w.vault.stake (w.executor.receipts receiptId).agentId = 0 ∨
      (w.executor.receipts receiptId).timestamp.toNat +
        (AgentRegistry.challengeWindow w (w.executor.receipts receiptId).agentId).toNat < w.now

theorem challengeable_iff {receiptId : Bytes32} :
    Challengeable w receiptId ↔ Overspent w receiptId ∧
      w.now ≤ (w.executor.receipts receiptId).timestamp.toNat +
        (AgentRegistry.challengeWindow w (w.executor.receipts receiptId).agentId).toNat ∧
      w.vault.stake (w.executor.receipts receiptId).agentId ≠ 0 := by
  constructor
  · intro h
    exact ⟨⟨h.stored, h.overspend⟩, h.window, h.stake⟩
  · intro h
    obtain ⟨⟨hstored, hover⟩, hwindow, hstake⟩ := h
    exact ⟨hstored, hwindow, hover, hstake⟩

theorem sameDecision_iff (hr : Reachable g w) (receiptId : Bytes32) :
    (w.now < (w.executor.receipts receiptId).timestamp.toNat + 259200 ∧
      ¬ Challenged w.arbiter receiptId ↔
      w.now ≤ (w.executor.receipts receiptId).timestamp.toNat +
        (AgentRegistry.challengeWindow w (w.executor.receipts receiptId).agentId).toNat ∧
      w.vault.stake (w.executor.receipts receiptId).agentId ≠ 0) ↔
    SameDecision w receiptId := by
  have hpast := timestamp_le_now hr receiptId
  have hthreshold : 0 < GuardConstants.BRONZE_TIER_THRESHOLD := by decide
  have hbronze := challengeWindow_toNat w (w.executor.receipts receiptId).agentId
  constructor
  · intro hiff
    refine ⟨?_, ?_, ?_⟩
    · intro hno hopen
      obtain ⟨hle, hstake⟩ := hiff.1 ⟨hopen, hno⟩
      rw [hbronze] at hle
      split_ifs at hle with htier
      · exact Or.inl htier
      · exact Or.inr ⟨hstake, by omega⟩
    · intro htier heq
      rw [if_pos htier] at hbronze
      have hopen := (hiff.2 ⟨by omega, by omega⟩).1
      omega
    · intro hchallenged
      by_contra hcan
      obtain ⟨hstake, hle⟩ := not_or.1 hcan
      exact (hiff.2 ⟨Nat.not_lt.1 hle, hstake⟩).2 hchallenged
  · intro hsame
    constructor
    · intro h
      obtain ⟨hopen, hno⟩ := h
      rcases hsame.tier hno hopen with htier | ⟨hstake, hnow⟩
      · rw [if_pos htier] at hbronze
        exact ⟨by omega, by omega⟩
      · exact ⟨by omega, hstake⟩
    · intro h
      obtain ⟨hle, hstake⟩ := h
      constructor
      · rw [hbronze] at hle
        split_ifs at hle with htier
        · have := hsame.last_second htier
          omega
        · omega
      · intro hchallenged
        rcases hsame.challenged hchallenged with hzero | hlate
        · exact hstake hzero
        · omega

/-- The handler, on the store of an indexed state and at the state's time, answers what a filing by
a challenger that can post the bond would do, exactly when the receipt is not overspent or the
decisions are the same. -/
theorem eligible_iff_succeeds {CHAIN_ID : ℕ} {m : DeploymentManifest} {now : Time} {body : Json}
    {receiptId : Bytes32} {challenger : Address} (h : Indexed ctx provider g w s)
    (hmanifests : ManifestsStored w manifests)
    (hwindow : m.challengeWindowSec = GuardConstants.BRONZE_CHALLENGE_WINDOW.toNat)
    (hbody : PrepareBody.safeParse body = some ⟨receiptId, challenger⟩)
    (hchallenger : challenger ≠ 0 ∧ challenger ∉ D.contracts) (hready : BondReady w challenger)
    (hnow : now.seconds = w.now) :
    (Eligible CHAIN_ID (some m) manifests s now body ↔
        ∃ w', exec w challenger (.fileAmountViolation receiptId) = .ok w') ↔
      (Overspent w receiptId → SameDecision w receiptId) := by
  have hr := h.reachable
  let tx : Tx D := ⟨challenger, .fileAmountViolation receiptId, hchallenger.1, hchallenger.2⟩
  have hcall : tx.call = .fileAmountViolation receiptId := rfl
  have hfiling : (∃ w', exec w challenger (.fileAmountViolation receiptId) = .ok w') ↔
      Challengeable w receiptId :=
    (filing_passes hr hcall).trans (and_iff_left hready)
  have hseconds : m.challengeWindowSec = 259200 := hwindow
  rw [h.eligible_iff hmanifests hbody hnow, hfiling, challengeable_iff, hseconds,
    ← sameDecision_iff hr receiptId]
  by_cases hover : Overspent w receiptId
  · simp only [hover, true_and, true_imp_iff]
  · simp only [hover, false_and, false_imp_iff]

end

end IntentGuard.Infra

/-! ### An agent below the tier -/

namespace IntentGuard.Localnet

open Infra Js Runs

/-- Two payments, and an hour later the challenger has its bond approved. -/
def anHourLater (stake : ℕ) : List (Action localnet) :=
  twoPayments stake ++
    [send challenger (.usdcApprove localnet.challengeArbiter 1000000000) challenger_external,
      .elapse 3600]

def afterAnHour (stake : ℕ) : World localnet := run step (init genesis) (anHourLater stake)

def anHourLaterTime : Time := ⟨867600000, by decide⟩

def manifestRow : ManifestRow where
  intentHash := 77
  manifestUri := []
  manifestJson := []
  owner := config.owner
  token := config.token
  maxSpendPerTx := config.maxSpendPerTx
  maxSpendPerDay := config.maxSpendPerDay
  expiry := toNumber config.expiry.toNat
  nonce := config.nonce
  allowedCounterparties := config.allowedCounterparties

def prepareBody : Json :=
  .object
    [(text "receiptId", .string (toHex 64 firstId)),
      (text "challenger", .string (toHex 40 challenger))]

theorem prepareBody_parses : PrepareBody.safeParse prepareBody = some ⟨firstId, challenger⟩ := by
  decide +kernel

theorem manifestsStored {stake : ℕ}
    (h : (commits (history genesis (anHourLater stake))).map Commit.intentHash = [77])
    (hcfg : (afterAnHour stake).registry.intentConfig 77 = config) :
    ManifestsStored (afterAnHour stake) [manifestRow] := by
  intro intentHash hexists
  obtain ⟨c, hc, rfl⟩ := ((registryInv genesis (anHourLater stake)).exists_iff intentHash).1 hexists
  have hmem : c.intentHash ∈ [77] := h ▸ List.mem_map_of_mem hc
  rw [List.mem_singleton.1 hmem, hcfg]
  exact ⟨manifestRow, rfl, ⟨rfl, rfl, rfl, rfl, rfl, rfl, rfl⟩⟩

/-- The facts about the state that the readings below rest on, evaluated together. -/
theorem ready_of_facts (stake : ℕ)
    (h : ((commits (history genesis (anHourLater stake))).map Commit.intentHash = [77] ∧
        (afterAnHour stake).registry.intentConfig 77 = config) ∧
      GuardConstants.CHALLENGE_BOND ≤ (afterAnHour stake).balanceOf challenger ∧
        GuardConstants.CHALLENGE_BOND ≤
          localnet.token.allowance (afterAnHour stake).usdc challenger localnet.challengeArbiter ∧
        anHourLaterTime.seconds = (afterAnHour stake).now ∧
          (afterAnHour stake).arbiter.nextId = 0) :
    ManifestsStored (afterAnHour stake) [manifestRow] ∧ BondReady (afterAnHour stake) challenger ∧
      anHourLaterTime.seconds = (afterAnHour stake).now ∧
      ¬ Challenged (afterAnHour stake).arbiter firstId := by
  obtain ⟨⟨hcommits, hcfg⟩, hbalance, hallowance, hnow, hids⟩ := h
  exact ⟨manifestsStored hcommits hcfg, ⟨hbalance, hallowance⟩, hnow,
    not_challenged_of_nextId hids firstId⟩

theorem exists_store (stake : ℕ) :
    ∃ s, Indexed ⟨fun _ => genesis.now, fun _ => []⟩ .sqlite genesis (afterAnHour stake) s :=
  exists_indexed _ _ (reachable_run _ _)

end IntentGuard.Localnet

namespace IntentGuard.Infra

open Js Localnet Runs

/-- With a stake of 30 USDC the handler answers `eligible = true` an hour after the payment, and the
filing reverts. -/
theorem eligible_and_reverts :
    ¬ ∀ (D : Deployment) (g : Genesis D) (w : World D) (ctx : DecodeContext)
      (provider : Provider) (s : Store)
      (manifests : List ManifestRow) (CHAIN_ID : ℕ) (m : DeploymentManifest)
        (now : Time) (body : Json)
      (receiptId : Bytes32) (challenger : Address), Indexed ctx provider g w s →
        ManifestsStored w manifests →
        m.challengeWindowSec = GuardConstants.BRONZE_CHALLENGE_WINDOW.toNat →
        PrepareBody.safeParse body = some ⟨receiptId, challenger⟩ →
          challenger ≠ 0 ∧ challenger ∉ D.contracts →
        BondReady w challenger → now.seconds = w.now →
        (Eligible CHAIN_ID (some m) manifests s now body ↔
          ∃ w', exec w challenger (.fileAmountViolation receiptId) = .ok w') := by
  intro h
  obtain ⟨s, hs⟩ := exists_store 30000000
  obtain ⟨hmanifests, hready, hnow, hunchallenged⟩ := ready_of_facts 30000000 (by decide +kernel)
  have hover : Overspent (afterAnHour 30000000) firstId := by
    unfold Overspent Stored
    decide +kernel
  have hagree := h localnet genesis (afterAnHour 30000000) _ .sqlite s [manifestRow] 31337 manifest
    anHourLaterTime
    prepareBody firstId challenger hs hmanifests rfl prepareBody_parses
      challenger_external hready hnow
  rw [eligible_iff_succeeds hs hmanifests rfl prepareBody_parses challenger_external hready hnow]
    at hagree
  have htier := (hagree hover).tier hunchallenged
  revert htier
  decide +kernel

/-- With a stake of 100 USDC the answer is the contract's. -/
theorem eligible_iff_succeeds_afterAnHour :
    ∃ s, Indexed ⟨fun _ => genesis.now, fun _ => []⟩ .sqlite genesis (afterAnHour 100000000) s ∧
      (Eligible 31337 (some manifest) [manifestRow] s anHourLaterTime prepareBody ↔
        ∃ w', exec (afterAnHour 100000000) challenger (.fileAmountViolation firstId) = .ok w') := by
  obtain ⟨s, hs⟩ := exists_store 100000000
  obtain ⟨hmanifests, hready, hnow, hunchallenged⟩ := ready_of_facts 100000000 (by decide +kernel)
  refine ⟨s, hs, ?_⟩
  rw [eligible_iff_succeeds hs hmanifests rfl prepareBody_parses challenger_external hready hnow]
  intro _
  have hstake : GuardConstants.BRONZE_TIER_THRESHOLD ≤ (afterAnHour 100000000).vault.stake
      ((afterAnHour 100000000).executor.receipts firstId).agentId ∧
        (afterAnHour 100000000).now ≠
          ((afterAnHour 100000000).executor.receipts firstId).timestamp.toNat + 259200 := by
    decide +kernel
  refine ⟨?_, ?_, ?_⟩
  · intro _ _
    exact Or.inl hstake.1
  · intro _
    exact hstake.2
  · intro hchallenged
    exact absurd hchallenged hunchallenged

end IntentGuard.Infra
