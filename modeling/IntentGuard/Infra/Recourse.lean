import IntentGuard.Contracts.Lifecycle
import IntentGuard.Infra.ChallengePrepare

/-!
# From a prepared challenge to its compensation

What `POST /v1/challenges/prepare-amount` calls eligible stays a violation, whatever happens next:
the intent's config and the receipt never change. So the calldata that the handler gives goes
through at any later time at which the agent's stake is at the tier, the window is open and the
challenger has its bond ready. `recourse` follows it to the end: the owner is paid, and every store
that has indexed any later state shows the challenge upheld with that payment and calls the receipt
eligible no more.
-/

namespace IntentGuard

open Function Runs

variable {D : Deployment} {g : Genesis D} {w w' : World D} {sender : Address} {call : Call}

/-! ### What stays -/

theorem intentConfig_later (hr : Reachable g w) (as : List (Action D)) {h : Bytes32}
    (hexists : w.registry.intentExists h = true) :
    (run step w as).registry.intentConfig h = w.registry.intentConfig h := by
  let Kept (w w' : World D) : Prop := w.registry.intentExists h = true →
    w'.registry.intentExists h = true ∧ w'.registry.intentConfig h = w.registry.intentConfig h
  have hkept : Kept w (run step w as) := by
    refine later_rel (fun _ he => ⟨he, rfl⟩) ?_ (fun _ _ he => ⟨he, rfl⟩) ?_ hr as
    · intro w₁ w₂ w₃ h₁₂ h₂₃ he
      obtain ⟨he₂, hcfg₂⟩ := h₁₂ he
      obtain ⟨he₃, hcfg₃⟩ := h₂₃ he₂
      exact ⟨he₃, hcfg₃.trans hcfg₂⟩
    · intro w₁ w₂ tx _ heff he
      refine ⟨intentExists_of_effect heff he, ?_⟩
      generalize tx.sender = sender at heff
      generalize tx.call = call at heff
      cases heff with
      | @commitIntent other _ _ _ _ _ _ _ hfresh =>
        refine update_of_ne ?_ ..
        rintro rfl
        exact absurd (he.symm.trans hfresh) (by simp)
      | _ => rfl
  exact (hkept hexists).2

/-- The challenge of a filing, as its event names it. -/
def filedByIn (k : ℕ) : Event → Option (Bytes32 × Address)
  | .ChallengeFiled id receiptId challenger => if id = k then some (receiptId, challenger) else none
  | _ => none

/-- The outcome of a challenge, none yet when it is filed. -/
def outcomeIn (k : ℕ) : Event → Option (Option (Bool × ℕ))
  | .ChallengeFiled id _ _ => if id = k then some none else none
  | .ChallengeResolved id uphold payout => if id = k then some (some (uphold, payout)) else none
  | _ => none

/-- Nothing more is logged about a challenge after its filing. -/
theorem logged_later {β : Type} {f : Event → Option β} {k : ℕ}
    (hf : ∀ e, challengeEvent k e = none → f e = none) (hr : Reachable g w) (hpos : 0 < k)
    (hle : k ≤ w.arbiter.nextId) (as : List (Action D)) :
    lastLogged f (run step w as).logs = lastLogged f w.logs := by
  let Kept (w w' : World D) : Prop := k ≤ w.arbiter.nextId →
    k ≤ w'.arbiter.nextId ∧ lastLogged f w'.logs = lastLogged f w.logs
  have hkept : Kept w (run step w as) := by
    refine later_rel (fun _ hle => ⟨hle, rfl⟩) ?_ (fun _ _ hle => ⟨hle, rfl⟩) ?_ hr as
    · intro w₁ w₂ w₃ h₁₂ h₂₃ hle
      obtain ⟨hle₂, hlog₂⟩ := h₁₂ hle
      obtain ⟨hle₃, hlog₃⟩ := h₂₃ hle₂
      exact ⟨hle₃, hlog₃.trans hlog₂⟩
    · intro w₁ w₂ tx hr₁ heff hle
      have hquiet : ∀ es : List Event, w₂.logs = w₁.logs ++ es →
          (∀ e ∈ es, challengeEvent k e = none) →
          lastLogged f w₂.logs = lastLogged f w₁.logs := by
        intro es hlogs hes
        rw [hlogs]
        exact lastLogged_append_of_quiet fun e he => hf e (hes e he)
      have hopen : ∀ {id}, (w₁.arbiter.challenges id).resolved = false → id ≠ k := by
        rintro id hopen rfl
        exact absurd ((arbiterInv hr₁).resolved id hpos hle) (by simp [hopen])
      generalize tx.sender = sender at heff
      generalize tx.call = call at heff
      cases heff with
      | fileAmountViolation =>
        refine ⟨Nat.le_succ_of_le hle, hquiet _ rfl ?_⟩
        have hnew : w₁.arbiter.nextId + 1 ≠ k := by omega
        simp [challengeEvent, hnew]
      | dismiss h => exact ⟨hle, hquiet _ rfl (by simp [challengeEvent, hopen h])⟩
      | uphold h => exact ⟨hle, hquiet _ rfl (by simp [challengeEvent, hopen h])⟩
      | _ =>
        first
        | exact ⟨hle, rfl⟩
        | exact ⟨hle, hquiet _ rfl (by simp [challengeEvent])⟩
  exact (hkept hle).2

/-- What a filing logs about its challenge. -/
theorem logged_file {receiptId : Bytes32} {id : ℕ}
    (h : ChallengeArbiter.fileAmountViolation w sender receiptId = .ok (w', id)) :
    lastLogged (filedByIn id) w'.logs = some (receiptId, sender) ∧
      lastLogged (outcomeIn id) w'.logs = some (some (true, violationPayout w receiptId)) := by
  obtain ⟨-, -, rfl, u₁, u₂, u₃, -, -, -, rfl⟩ := fileAmountViolation_eq_ok.1 h
  constructor
  · show lastLogged _ (w.logs ++ _) = _
    rw [lastLogged_append]
    simp [lastLogged, List.findSome?_cons, filedByIn]
  · show lastLogged _ (w.logs ++ _) = _
    rw [lastLogged_append]
    simp [lastLogged, outcomeIn]

end IntentGuard

namespace IntentGuard.Infra

open Js Replay Runs

section
variable {D : Deployment} {g : Genesis D} {w : World D} {ctx : DecodeContext}
  {provider : Provider} {s : Store}
variable {CHAIN_ID : ℕ} {m : DeploymentManifest} {manifests : List ManifestRow}
  {now : Time} {body : Json}
variable {receiptId : Bytes32} {challenger : Address}

theorem Overspent.later (hK : Function.Injective D.keccak.words) (hr : Reachable g w)
    (h : Overspent w receiptId) (as : List (Action D)) : Overspent (run step w as) receiptId := by
  obtain ⟨hstored, hover⟩ := h
  have hreceipt := receipts_later hK hr as hstored
  have hconfig := intentConfig_later hr as (hstored.intentExists hr)
  refine ⟨?_, ?_⟩
  · rw [Stored, hreceipt]
    exact hstored
  · rw [hreceipt, hconfig]
    exact hover

/-- The outcome that a write records. -/
def outcomeOf : Write InsertChallengeInput ResolveChallengeInput → Option (Bool × ℕ)
  | .create _ => none
  | .update u => some (u.uphold, u.payout)

/-- The row of an indexed challenge, read off the logs. -/
theorem Indexed.getChallenge_eq (h : Indexed ctx provider g w s) {k : ℕ} {payout : ℕ}
    (hfiled : lastLogged (filedByIn k) w.logs = some (receiptId, challenger))
    (hout : lastLogged (outcomeIn k) w.logs = some (some (true, payout))) :
    ∃ row, getChallenge k s = some row ∧ row.receiptId = receiptId ∧ row.challenger = challenger ∧
      row.status = .UPHELD ∧ row.payout = some payout := by
  obtain ⟨chain, H, hv, hP, hs⟩ := h
  have hM := mirrors_of_replays hv hP hs
  have hrow : (Table.find ChallengeRow.challengeId k s.challenges).map
      (fun row => (row.receiptId, row.challenger)) =
      some (receiptId, challenger) := by
    rw [← hfiled, ← last_handled hv hP (by intro e he; cases e <;> simp_all [indexed, filedByIn])]
    rw [hM.challenges.map_find (fun row => (row.receiptId, row.challenger))
      (fun input : InsertChallengeInput => (input.receiptId, input.challenger)) (fun _ => rfl)
        (fun _ _ => rfl)
      (fun _ _ => rfl), List.map_findSome?]
    congr 1
    funext l
    unfold creation challengeTouch
    cases he : l.event <;> simp only [Function.comp_apply, he, filedByIn, Option.map_none]
    case ChallengeFiled => split_ifs <;> rfl
    case ChallengeResolved => split_ifs <;> rfl
  obtain ⟨row, hfind, hcolumns⟩ := Option.map_eq_some_iff.1 hrow
  obtain ⟨rfl, rfl⟩ := Prod.mk.inj hcolumns
  have hlast : (H.reverse.findSome? (challengeTouch ctx k)).map outcomeOf =
      some (some (true, payout)) := by
    rw [← hout, ← last_handled hv hP (by intro e he; cases e <;> simp_all [indexed, outcomeIn]),
      List.map_findSome?]
    congr 1
    funext l
    unfold challengeTouch
    cases he : l.event <;> simp only [Function.comp_apply, he, outcomeIn, Option.map_none]
    case ChallengeFiled => split_ifs <;> rfl
    case ChallengeResolved => split_ifs <;> rfl
  obtain ⟨touch, htouch, houtcome⟩ := Option.map_eq_some_iff.1 hlast
  cases touch with
  | create => exact absurd houtcome (by simp [outcomeOf])
  | update u =>
    obtain ⟨row', rfl⟩ := hM.challenges.find_of_last_update htouch hfind
    obtain ⟨huphold, hpayout⟩ := Prod.mk.inj (Option.some.inj houtcome)
    refine ⟨_, hfind, rfl, rfl, ?_, ?_⟩
    · simp [resolveRow, huphold]
    · simp [resolveRow, hpayout]

/-- An eligible answer carries the call that files for the receipt, for the arbiter of the
deployment manifest. -/
theorem prepareAmount_response (hbody : PrepareBody.safeParse body = some ⟨receiptId, challenger⟩)
    {response : PrepareAmountResponse}
    (h : prepareAmount CHAIN_ID (some m) manifests s now body = .ok response)
    (heligible : response.eligible = true) :
    response.dst = some m.contracts.ChallengeArbiter ∧
    response.data = some (.fileAmountViolation receiptId) := by
  unfold prepareAmount at h
  rw [hbody] at h
  simp only [orThrow, bind, Except.bind] at h
  have hno : ∀ {reason : String},
      Except.ok (ε := HttpError) (prepareIneligible reason m.challengeBond CHAIN_ID) =
      .ok response → False := by
    intro reason heq
    obtain rfl := Except.ok.inj heq
    exact absurd heligible (by simp [prepareIneligible])
  cases hreceipt : getReceipt receiptId s with
  | none => exact (hno (by rwa [hreceipt] at h)).elim
  | some receipt =>
    have hid : receipt.receiptId = receiptId := Table.key_of_find ReceiptRow.receiptId hreceipt
    rw [hreceipt] at h
    dsimp only at h
    split_ifs at h with hclosed
    · exact (hno h).elim
    split at h
    · exact (hno h).elim
    split_ifs at h with hwithin
    · exact (hno h).elim
    split at h
    · exact (hno h).elim
    · obtain rfl := Except.ok.inj h
      exact ⟨rfl, congrArg (fun id => some (Call.fileAmountViolation id)) hid⟩

/-- A manifest that is stored under the receipt's intent has the cap of the config that is committed
under it. -/
def CapStored (w : World D) (manifests : List ManifestRow) (receiptId : Bytes32) : Prop :=
  ∀ row, getManifestByHash (w.executor.receipts receiptId).intentHash manifests = some row →
    row.maxSpendPerTx =
      (w.registry.intentConfig (w.executor.receipts receiptId).intentHash).maxSpendPerTx

/-- What an indexed store calls eligible is an overspent receipt of the chain. -/
theorem Indexed.overspent (h : Indexed ctx provider g w s) (hcap : CapStored w manifests receiptId)
    (hbody : PrepareBody.safeParse body = some ⟨receiptId, challenger⟩)
    (heligible : Eligible CHAIN_ID (some m) manifests s now body) : Overspent w receiptId := by
  obtain ⟨receipt, hget, -, manifest, hmanifest, hover, -⟩ :=
    (prepareAmount_eligible hbody).1 heligible
  have hrow := h.getReceipt_unplaced ⟨0, 0, 0⟩ receiptId
  rw [show getReceipt receiptId s = some receipt from hget] at hrow
  by_cases hstored : Stored w receiptId
  · rw [recorded, if_neg hstored] at hrow
    have hcontent := Option.some.inj hrow
    have hintent : receipt.intentHash = (w.executor.receipts receiptId).intentHash :=
      congrArg ReceiptRow.intentHash hcontent
    have hamount : receipt.amount = (w.executor.receipts receiptId).amount :=
      congrArg ReceiptRow.amount hcontent
    rw [hintent] at hmanifest
    exact ⟨hstored, by rwa [← hcap manifest hmanifest, ← hamount]⟩
  · rw [recorded, if_pos (not_not.1 hstored)] at hrow
    exact absurd hrow (by simp)

/-- What a challenge brings. -/
structure Compensated (g : Genesis D) (w : World D) (challenger : Address) (receiptId : Bytes32)
    (w₁ : World D) (id : ℕ) :
    Prop extends FiledExactly w challenger receiptId w₁ id where
  shown : ∀ bs ctx provider s, Indexed ctx provider g (run step w₁ bs) s →
    ∃ row, getChallenge id s = some row ∧ row.receiptId = receiptId ∧ row.challenger = challenger ∧
      row.status = .UPHELD ∧ row.payout = some (violationPayout w receiptId)
  closed : ∀ bs ctx provider s, Indexed ctx provider g (run step w₁ bs) s →
    ∀ CHAIN_ID m manifests now body x, PrepareBody.safeParse body = some ⟨receiptId, x⟩ →
      ¬ Eligible CHAIN_ID (some m) manifests s now body

/-- The calldata of an eligible answer files at any later time at which the agent is at the tier,
the window is open and the challenger is ready, and the filing compensates the owner. -/
theorem recourse (hK : D.keccak.CollisionFree) (h : Indexed ctx provider g w s)
    (hcap : CapStored w manifests receiptId)
    (hm : m.contracts.ChallengeArbiter = D.challengeArbiter)
    (hbody : PrepareBody.safeParse body = some ⟨receiptId, challenger⟩)
    (hchallenger : challenger ≠ 0 ∧ challenger ∉ D.contracts) {response : PrepareAmountResponse}
    (hresponse : prepareAmount CHAIN_ID (some m) manifests s now body = .ok response)
    (heligible : response.eligible = true) (as : List (Action D))
    (htier : GuardConstants.BRONZE_TIER_THRESHOLD ≤
      (run step w as).vault.stake (w.executor.receipts receiptId).agentId)
    (hopen : (run step w as).now ≤ (w.executor.receipts receiptId).timestamp.toNat + 259200)
    (hready : BondReady (run step w as) challenger) :
    response.dst = some D.challengeArbiter ∧ ∃ call w₁ id, response.data = some call ∧
      exec (run step w as) challenger call = .ok w₁ ∧
      Compensated g (run step w as) challenger receiptId w₁ id := by
  obtain ⟨hdst, hdata⟩ := prepareAmount_response hbody hresponse heligible
  have hr := h.reachable
  have hr' : Reachable g (run step w as) := by
    obtain ⟨bs, rfl⟩ := hr
    exact ⟨bs ++ as, run_append _ _ _ _⟩
  have hover := h.overspent hcap hbody ⟨response, hresponse, heligible⟩
  have hreceipt := receipts_later hK.words hr as hover.1
  have hbronze := challengeWindow_toNat (run step w as) (w.executor.receipts receiptId).agentId
  rw [if_pos htier] at hbronze
  have hchallengeable : Challengeable (run step w as) receiptId := by
    refine challengeable_iff.2 ⟨hover.later hK.words hr as, ?_, ?_⟩
    · rw [hreceipt, hbronze]
      exact hopen
    · rw [hreceipt]
      have hpos : 0 < GuardConstants.BRONZE_TIER_THRESHOLD := by decide
      omega
  obtain ⟨w₁, id, hfile⟩ :=
    (fileAmountViolation_succeeds_iff hr' hchallenger.1 hchallenger.2 receiptId).2
    ⟨hchallengeable, hready⟩
  have hexact := filedExactly hr' hchallenger.2 hfile
  have hr₁ := reachable_file hr' hchallenger.1 hchallenger.2 hfile
  have hnext : w₁.arbiter.nextId = id := by rw [hexact.arbiter]
  have hpos : 0 < id := by
    rw [hexact.id_eq]
    exact Nat.succ_pos _
  have hshown : ∀ bs ctx provider s, Indexed ctx provider g (run step w₁ bs) s →
      ∃ row, getChallenge id s = some row ∧ row.receiptId = receiptId ∧
        row.challenger = challenger ∧
        row.status = .UPHELD ∧ row.payout = some (violationPayout (run step w as) receiptId) := by
    intro bs ctx provider s hs
    obtain ⟨hfiled, hout⟩ := logged_file hfile
    refine hs.getChallenge_eq ?_ ?_
    · rw [logged_later ?_ hr₁ hpos hnext.ge bs]
      · exact hfiled
      · intro e he
        cases e <;> simp_all [challengeEvent, filedByIn]
    · rw [logged_later ?_ hr₁ hpos hnext.ge bs]
      · exact hout
      · intro e he
        cases e <;> simp_all [challengeEvent, outcomeIn]
  refine ⟨hdst.trans (congrArg some hm), _, w₁, id, hdata, exec_file hfile,
    { hexact with shown := hshown, closed := ?_ }⟩
  intro bs ctx provider s hs CHAIN_ID m manifests now body x hbody heligible
  obtain ⟨row, hrow, hid, -⟩ := hshown bs ctx provider s hs
  obtain ⟨receipt, hget, -, -, -, -, huncontested⟩ := (prepareAmount_eligible hbody).1 heligible
  rw [Table.key_of_find ReceiptRow.receiptId hget] at huncontested
  refine (hs.uncontested_iff receiptId).1 huncontested ?_
  have hfiled := hs.find_challenge id
  rw [show Table.find ChallengeRow.challengeId id s.challenges = some row from hrow,
    Option.map_some] at hfiled
  by_cases hallocated : 0 < id ∧ id ≤ (run step w₁ bs).arbiter.nextId
  · rw [if_pos hallocated, hid] at hfiled
    exact ⟨id, hallocated.1, hallocated.2, (Option.some.inj hfiled).symm⟩
  · rw [if_neg hallocated] at hfiled
    exact absurd hfiled (by simp)

end

end IntentGuard.Infra

namespace IntentGuard.Infra

open Js Localnet Runs

/-- The challenger files a day after the answer, with a stake of 100 USDC behind the agent. -/
theorem recourse_afterAnHour :
    ∃ s response, Indexed ⟨fun _ => genesis.now, fun _ => []⟩ .sqlite genesis
      (afterAnHour 100000000) s ∧
      prepareAmount 31337 (some manifest) [manifestRow] s anHourLaterTime prepareBody =
        .ok response ∧
      response.dst = some localnet.challengeArbiter ∧
      ∃ call w₁ id, response.data = some call ∧
        exec (run step (afterAnHour 100000000) [.elapse 86400]) challenger call = .ok w₁ ∧
        Compensated genesis (run step (afterAnHour 100000000) [.elapse 86400]) challenger
          firstId w₁ id := by
  obtain ⟨s, hs⟩ := exists_store 100000000
  obtain ⟨hmanifests, hready, hnow, hunchallenged⟩ := ready_of_facts 100000000 (by decide +kernel)
  have hover : Overspent (afterAnHour 100000000) firstId := by
    unfold Overspent Stored
    decide +kernel
  have hcap : CapStored (afterAnHour 100000000) [manifestRow] firstId := by
    intro row hrow
    obtain ⟨row', hrow', hcarries⟩ := hmanifests _ (hover.1.intentExists hs.reachable)
    obtain rfl := Option.some.inj (hrow.symm.trans hrow')
    exact hcarries.maxSpendPerTx
  have hfacts : GuardConstants.BRONZE_TIER_THRESHOLD ≤
      (run step (afterAnHour 100000000) [.elapse 86400]).vault.stake
        ((afterAnHour 100000000).executor.receipts firstId).agentId ∧
      (run step (afterAnHour 100000000) [.elapse 86400]).now ≤
        ((afterAnHour 100000000).executor.receipts firstId).timestamp.toNat + 259200 := by
    decide +kernel
  obtain ⟨response, hresponse, heligible⟩ : Eligible 31337 (some manifest) [manifestRow] s
    anHourLaterTime prepareBody := by
    rw [hs.eligible_iff hmanifests prepareBody_parses hnow]
    refine ⟨hover, ?_, hunchallenged⟩
    decide +kernel
  have hwait : ∀ w : World localnet, BondReady w challenger →
      BondReady (run step w [.elapse 86400]) challenger :=
    fun _ h => ⟨h.balance, h.allowance⟩
  obtain ⟨hdst, hfiled⟩ :=
    recourse Keccak.numbering_collisionFree hs hcap rfl prepareBody_parses challenger_external
    hresponse heligible [.elapse 86400] hfacts.1 hfacts.2 (hwait _ hready)
  exact ⟨s, response, hs, hresponse, hdst, hfiled⟩

end IntentGuard.Infra
