import IntentGuard.Contracts.Solvency

/-!
# Challenges

* `fileAmountViolation_succeeds_iff`: a filing succeeds exactly when the receipt is challengeable
  and the challenger can post the bond; the vault can always pay, because it is solvent.
* `ArbiterInv`: challenge ids up to the counter are resolved, all others name no receipt. A filing
  resolves its own challenge, so a reviewer never finds a filed one open, and upholding an id that
  was never filed would pay the zero account, which the token refuses. Every payment is therefore a
  filing's (`paidFor_le`).
* `compensated_once_iff`: `fileAmountViolation` does not ask whether its receipt was challenged
  before. A receipt is compensated at most once in exactly the runs in which no such filing passes
  its other checks.
* `filings_independent`: one filing lowers the stake the other's window is derived from.
-/

namespace IntentGuard

open Function Runs

variable {D : Deployment} {g : Genesis D} {w w' : World D} {sender : Address} {call : Call}

/-! ### When a filing succeeds -/

/-- The challenger holds the bond and has approved it. -/
structure BondReady (w : World D) (challenger : Address) : Prop where
  balance : GuardConstants.CHALLENGE_BOND ≤ w.balanceOf challenger
  allowance : GuardConstants.CHALLENGE_BOND ≤ D.token.allowance w.usdc challenger D.challengeArbiter

theorem fileAmountViolation_succeeds_iff (hr : Reachable g w) (hne : sender ≠ 0)
    (hext : sender ∉ D.contracts) (receiptId : Bytes32) :
    (∃ w' challengeId, ChallengeArbiter.fileAmountViolation w sender receiptId =
      .ok (w', challengeId)) ↔
      Challengeable w receiptId ∧ BondReady w sender := by
  have hArbiter : sender ≠ D.challengeArbiter := fun h => hext (h ▸ D.challengeArbiter_mem)
  have hVault : D.stakeVault ≠ sender := fun h => hext (h ▸ D.stakeVault_mem)
  constructor
  · intro h
    obtain ⟨w', challengeId, h⟩ := h
    obtain ⟨hok, -, -, u₁, u₂, u₃, hbond, -, -, -⟩ := fileAmountViolation_eq_ok.1 h
    have hbounds := D.token.transferFrom_bounds D.challengeArbiter_ne_zero hbond
    exact ⟨hok, hbounds.2.1, hbounds.2.2⟩
  · intro h
    obtain ⟨hok, hready⟩ := h
    have howner := receipt_owner_external hr receiptId
    have hownerArbiter : D.challengeArbiter ≠ (w.executor.receipts receiptId).owner :=
      fun h => howner (h ▸ D.challengeArbiter_mem)
    -- the bond comes in
    obtain ⟨u₁, hu₁⟩ :=
      D.token.exists_transferFrom D.challengeArbiter_ne_zero hne D.challengeArbiter_ne_zero
      hready.balance hready.allowance
    have hbal₁ := D.token.balanceOf_transferFrom hu₁
    -- the vault pays
    have hpay : violationPayout w receiptId ≤ D.token.balanceOf u₁ D.stakeVault := by
      rw [hbal₁, moveBalance.at_other hVault D.stakeVault_ne_challengeArbiter]
      exact violationPayout_le hr receiptId
    obtain ⟨u₂, hu₂⟩ :=
      D.token.exists_transfer D.stakeVault_ne_zero (stored_owner_ne_zero hr hok.stored) hpay
    -- the bond goes back
    have hback : GuardConstants.CHALLENGE_BOND ≤ D.token.balanceOf u₂ D.challengeArbiter := by
      rw [D.token.balanceOf_transfer hu₂,
        moveBalance.at_other D.stakeVault_ne_challengeArbiter.symm hownerArbiter, hbal₁,
          moveBalance.at_dst hArbiter]
      exact Nat.le_add_left _ _
    obtain ⟨u₃, hu₃⟩ := D.token.exists_transfer D.challengeArbiter_ne_zero hne hback
    exact ⟨_, _, fileAmountViolation_eq_ok.2
      ⟨hok, (basics hr).challengeArbiter.symm, rfl, u₁, u₂, u₃, hu₁, hu₂, hu₃, rfl⟩⟩

/-- The balances after a filing: the payout has moved. -/
theorem balanceOf_file (hr : Reachable g w) (hext : sender ∉ D.contracts) {receiptId : Bytes32}
    {challengeId : ℕ}
    (h : ChallengeArbiter.fileAmountViolation w sender receiptId = .ok (w', challengeId)) :
    D.token.balanceOf w'.usdc = moveBalance (D.token.balanceOf w.usdc) D.stakeVault
      (w.executor.receipts receiptId).owner (violationPayout w receiptId) := by
  obtain ⟨-, -, -, u₁, u₂, u₃, hbond, hpay, hrefund, rfl⟩ := fileAmountViolation_eq_ok.1 h
  exact balanceOf_filed (receipt_owner_external hr _) hext hbond hpay hrefund

theorem exec_file {receiptId : Bytes32} {challengeId : ℕ}
    (h : ChallengeArbiter.fileAmountViolation w sender receiptId = .ok (w', challengeId)) :
    exec w sender (.fileAmountViolation receiptId) = .ok w' := by
  rw [exec, h]
  rfl

/-! ### Challenge ids -/

/-- A recorded challenge names the receipt. -/
def Challenged (s : ChallengeArbiter.State) (receiptId : Bytes32) : Prop :=
  ∃ id, 0 < id ∧ id ≤ s.nextId ∧ (s.challenges id).receiptId = receiptId

theorem not_challenged_of_nextId {s : ChallengeArbiter.State} (h : s.nextId = 0)
    (receiptId : Bytes32) :
    ¬ Challenged s receiptId := by
  intro hchallenged
  obtain ⟨id, hpos, hle, -⟩ := hchallenged
  omega

structure ArbiterInv (s : ChallengeArbiter.State) : Prop where
  resolved : ∀ id, 0 < id → id ≤ s.nextId → (s.challenges id).resolved = true
  unallocated : ∀ id, id = 0 ∨ s.nextId < id → (s.challenges id).receiptId = 0

namespace ArbiterInv
variable {s : ChallengeArbiter.State}

/-- What a reviewer can still resolve names no receipt. -/
theorem of_open (hI : ArbiterInv s) {id : ℕ} (h : (s.challenges id).resolved = false) :
    (s.challenges id).receiptId = 0 := by
  apply hI.unallocated id
  by_contra hid
  obtain ⟨hpos, hle⟩ := not_or.1 hid
  have := hI.resolved id (Nat.pos_of_ne_zero hpos) (Nat.not_lt.1 hle)
  rw [h] at this
  exact absurd this (by simp)

theorem file (hI : ArbiterInv s) (receiptId : Bytes32) (challenger : Address) :
    ArbiterInv
      { s with
        nextId := s.nextId + 1
        challenges := update s.challenges (s.nextId + 1) ⟨receiptId, challenger, true⟩ } := by
  refine ⟨fun id hpos hle => ?_, fun id hid => ?_⟩ <;> dsimp only at *
  · by_cases heq : id = s.nextId + 1
    · rw [heq, update_self]
    · rw [update_of_ne heq]
      exact hI.resolved id hpos (by omega)
  · rw [update_of_ne (by omega)]
    exact hI.unallocated id (by omega)

theorem resolve (hI : ArbiterInv s) (id : ℕ) :
    ArbiterInv
      { s with
        challenges := update s.challenges id { s.challenges id with resolved := true } } := by
  refine ⟨fun id' hpos hle => ?_, fun id' hid => ?_⟩ <;> dsimp only at *
  · by_cases heq : id' = id
    · rw [heq, update_self]
    · rw [update_of_ne heq]
      exact hI.resolved id' hpos hle
  · by_cases heq : id' = id
    · rw [heq, update_self]
      exact hI.unallocated id (heq ▸ hid)
    · rw [update_of_ne heq]
      exact hI.unallocated id' hid

end ArbiterInv

theorem arbiterInv (hr : Reachable g w) : ArbiterInv w.arbiter := by
  apply hr.invariant (I := fun w => ArbiterInv w.arbiter)
    ⟨fun id hpos hle => absurd hpos (Nat.not_lt.2 hle), fun _ _ => rfl⟩ (fun _ _ hI => hI)
  intro w w' tx _ hI h
  generalize tx.sender = sender at h
  generalize tx.call = call at h
  cases h with
  | fileAmountViolation => exact hI.file _ _
  | dismiss => exact hI.resolve _
  | uphold => exact hI.resolve _
  | setReviewerSigner => exact ⟨hI.resolved, hI.unallocated⟩
  | arbiterOwner => exact ⟨hI.resolved, hI.unallocated⟩
  | _ => exact hI

/-- The zero id is not a receipt's. -/
theorem not_stored_zero (hK : D.keccak.CollisionFree) (hr : Reachable g w) :
    ¬ Stored w 0 := fun hs =>
  hK.words_ne_zero _ ((receiptInv hK.words hr).id_eq 0 hs).symm

/-- No reviewer can have the vault pay: an open challenge names no receipt, so the payment would go
to the zero account. -/
theorem not_uphold (hK : D.keccak.CollisionFree) (hr : Reachable g w) {id slashAmount : ℕ}
    {sig : Bytes} :
    ¬ Effect w sender (.resolveByReviewer id true slashAmount sig) w' := by
  intro h
  cases h with
  | uphold hopen hr' _ _ _ hpay =>
    have hzero : w.executor.receipts 0 = default := by
      rcases receipt_cases hr 0 with h | h
      · exact h
      · exact absurd h.1 (not_stored_zero hK hr)
    rw [(arbiterInv hr).of_open hopen, hzero] at hr'
    subst hr'
    exact (D.token.transfer_bounds D.stakeVault_ne_zero hpay).1 rfl

/-! ### Compensation -/

def isFiling (receiptId : Bytes32) (e : World D × Tx D) : Bool :=
  e.2.call = .fileAmountViolation receiptId

/-- The successful filings for a receipt. -/
def filings (receiptId : Bytes32) (h : List (World D × Tx D)) : ℕ := h.countP (isFiling receiptId)

/-- What the vault pays in a transaction on account of a receipt. -/
def paidOf (receiptId : Bytes32) (e : World D × Tx D) : ℕ :=
  if onAccountOf e.1 e.2.call = some receiptId then vaultPaid e else 0

/-- The total the vault paid through the arbiter on account of a receipt. -/
def paidFor (receiptId : Bytes32) (h : List (World D × Tx D)) : ℕ := (h.map (paidOf receiptId)).sum

theorem filings_concat (receiptId : Bytes32) (h : List (World D × Tx D)) (e : World D × Tx D) :
    filings receiptId (h ++ [e]) = filings receiptId h + if isFiling receiptId e then 1 else 0 := by
  rw [filings, List.countP_append, List.countP_singleton, filings]

/-- What is paid on account of a receipt is paid in a filing for it, at most its amount. -/
theorem paidOf_le (hK : D.keccak.CollisionFree) (hr : Reachable g w) {tx : Tx D}
    (hx : exec w tx.sender tx.call = .ok w') (receiptId : Bytes32) :
    paidOf receiptId (w, tx) ≤
      if isFiling receiptId (w, tx) then (w.executor.receipts receiptId).amount else 0 := by
  have heff := effect_of_exec hx
  have hm := vaultMove hr tx.sender_ne_zero tx.external heff
  have hpaid : vaultPaid (w, tx) = w.balanceOf D.stakeVault - w'.balanceOf D.stakeVault := by
    rw [vaultPaid, apply_of_ok hx]
  by_cases hacc : onAccountOf w tx.call = some receiptId
  · rw [paidOf, if_pos hacc, hpaid, isFiling]
    dsimp only
    generalize tx.call = call at hm heff hacc
    cases hm with
    | keep hnone => exact absurd (hnone.symm.trans hacc) (by simp)
    | deposit => exact absurd hacc (by simp [onAccountOf])
    | @slash _ named agentId paid hsome hagent hmin _ hbal =>
      obtain rfl := Option.some.inj (hsome.symm.trans hacc)
      cases call with
      | fileAmountViolation id =>
        obtain rfl : id = named := Option.some.inj hsome
        have hle : paid ≤ (w.executor.receipts id).amount := hmin ▸ Nat.min_le_left _ _
        rw [decide_eq_true rfl, if_pos rfl]
        omega
      | resolveByReviewer id uphold slashAmount sig =>
        cases uphold with
        | true => exact absurd heff (not_uphold hK hr)
        | false =>
          have hzero : paid = 0 := hmin.symm.trans (Nat.zero_min _)
          omega
      | _ => exact absurd hsome (by simp [onAccountOf])
  · rw [paidOf, if_neg hacc]
    exact Nat.zero_le _

/-- What the history says about a receipt, against what the state records. -/
structure CompensationInv (h : List (World D × Tx D)) (w : World D) (receiptId : Bytes32) :
    Prop where
  challenged_iff : Challenged w.arbiter receiptId ↔ 0 < filings receiptId h
  stored : 0 < filings receiptId h → Stored w receiptId
  paid_le : paidFor receiptId h ≤ filings receiptId h * (w.executor.receipts receiptId).amount

theorem challenged_of_effect (h : Effect w sender call w') (hI : ArbiterInv w.arbiter)
    (receiptId : Bytes32) :
    Challenged w'.arbiter receiptId ↔
      Challenged w.arbiter receiptId ∨ call = .fileAmountViolation receiptId := by
  have hsame : ∀ {id : ℕ}, 0 < id → id ≤ w.arbiter.nextId →
      (w.arbiter.challenges id).resolved = false → False := by
    intro id hpos hle hopen
    have := hI.resolved id hpos hle
    rw [hopen] at this
    exact absurd this (by simp)
  have hresolve : ∀ {id : ℕ}, (w.arbiter.challenges id).resolved = false →
      (Challenged { w.arbiter with
        challenges := update w.arbiter.challenges id
          { w.arbiter.challenges id with resolved := true } } receiptId ↔
          Challenged w.arbiter receiptId) := by
    intro id hopen
    refine exists_congr fun id' => and_congr_right fun hpos => and_congr_right fun hle => ?_
    dsimp only at hle ⊢
    have hne : id' ≠ id := fun heq => hsame hpos hle (heq.symm ▸ hopen)
    rw [update_of_ne hne]
  cases h with
  | @fileAmountViolation id =>
    constructor
    · intro h
      obtain ⟨id', hpos, hle, heq⟩ := h
      dsimp only [filed] at hle heq
      by_cases hnew : id' = w.arbiter.nextId + 1
      · rw [hnew, update_self] at heq
        exact Or.inr (congrArg _ heq)
      · rw [update_of_ne hnew] at heq
        exact Or.inl ⟨id', hpos, by omega, heq⟩
    · rintro (⟨id', hpos, hle, heq⟩ | heq)
      · refine ⟨id', hpos, hle.trans (Nat.le_succ _), ?_⟩
        dsimp only [filed]
        rwa [update_of_ne (by omega)]
      · refine ⟨w.arbiter.nextId + 1, Nat.succ_pos _, le_rfl, ?_⟩
        dsimp only [filed]
        rw [update_self]
        exact Call.fileAmountViolation.inj heq
  | dismiss hopen => exact (hresolve hopen).trans (by simp)
  | uphold hopen => exact (hresolve hopen).trans (by simp)
  | _ => exact Iff.symm (or_iff_left (by simp))

theorem CompensationInv.next (hK : D.keccak.CollisionFree) (hr : Reachable g w)
    {h : List (World D × Tx D)} {receiptId : Bytes32} (hJ : CompensationInv h w receiptId)
    {tx : Tx D} (hx : exec w tx.sender tx.call = .ok w') :
    CompensationInv (h ++ [(w, tx)]) w' receiptId := by
  have heff := effect_of_exec hx
  have hpaid := paidOf_le hK hr hx receiptId
  have hstored : Stored w receiptId → Stored w' receiptId ∧
      (w'.executor.receipts receiptId).amount = (w.executor.receipts receiptId).amount := by
    intro hs
    rw [Stored, receipts_of_effect hK.words hr heff hs]
    exact ⟨hs, rfl⟩
  have hcount := filings_concat receiptId h (w, tx)
  have hsum : paidFor receiptId (h ++ [(w, tx)]) = paidFor receiptId h + paidOf receiptId (w, tx) :=
    sum_concat _ _ _
  by_cases hfile : tx.call = .fileAmountViolation receiptId
  · have hs : Stored w receiptId := by
      rw [hfile] at heff
      cases heff with
      | fileAmountViolation hok => exact hok.stored
    rw [isFiling, decide_eq_true hfile, if_pos rfl] at hcount hpaid
    refine ⟨?_, fun _ => (hstored hs).1, ?_⟩
    · rw [challenged_of_effect heff (arbiterInv hr), hcount]
      exact iff_of_true (Or.inr hfile) (Nat.succ_pos _)
    · rw [hsum, hcount, (hstored hs).2, Nat.succ_mul]
      exact Nat.add_le_add hJ.paid_le hpaid
  · rw [isFiling, decide_eq_false hfile, if_neg (by simp)] at hcount hpaid
    refine ⟨?_, fun hpos => (hstored (hJ.stored (by omega))).1, ?_⟩
    · rw [challenged_of_effect heff (arbiterInv hr), hcount, or_iff_left hfile]
      exact hJ.challenged_iff
    · rw [hsum, hcount, Nat.add_zero]
      have hle := hJ.paid_le
      rcases Nat.eq_zero_or_pos (filings receiptId h) with h0 | hpos
      · rw [h0] at hle ⊢
        omega
      · rw [(hstored (hJ.stored hpos)).2]
        exact Nat.add_le_add hle hpaid

theorem compensationInv_init (receiptId : Bytes32) : CompensationInv [] (init g) receiptId := by
  have hno : ¬ Challenged (init g).arbiter receiptId := not_challenged_of_nextId rfl receiptId
  exact ⟨iff_of_false hno (lt_irrefl _), fun h => absurd h (lt_irrefl _), Nat.zero_le _⟩

theorem compensationInv (hK : D.keccak.CollisionFree) (g : Genesis D) (as : List (Action D))
    (receiptId : Bytes32) :
    CompensationInv (history g as) (run step (init g) as) receiptId :=
  history_induction (C := fun _ _ => True) (J := fun h w => CompensationInv h w receiptId)
    (compensationInv_init receiptId) (fun _ _ _ hJ => ⟨hJ.challenged_iff, hJ.stored, hJ.paid_le⟩)
    (fun _ _ _ _ hr hJ _ hx => hJ.next hK hr hx) as fun _ _ => trivial

/-- No filing for a receipt that a challenge names passes the other checks. -/
def NoRefiling (w : World D) : Action D → Prop
  | .elapse _ => True
  | .send tx =>
    ∀ receiptId, tx.call = .fileAmountViolation receiptId → Challenged w.arbiter receiptId →
      ¬ (Challengeable w receiptId ∧ BondReady w tx.sender)

theorem filing_passes (hr : Reachable g w) {tx : Tx D} {receiptId : Bytes32}
    (hcall : tx.call = .fileAmountViolation receiptId) :
    (∃ w', exec w tx.sender tx.call = .ok w') ↔
      Challengeable w receiptId ∧ BondReady w tx.sender := by
  rw [← fileAmountViolation_succeeds_iff hr tx.sender_ne_zero tx.external, hcall]
  constructor
  · intro h
    obtain ⟨w', hx⟩ := h
    rw [exec, map_eq_ok] at hx
    obtain ⟨⟨w₁, id⟩, hx, -⟩ := hx
    exact ⟨w₁, id, hx⟩
  · intro h
    obtain ⟨w', id, hx⟩ := h
    exact ⟨w', exec_file hx⟩

theorem filings_le_one (hK : D.keccak.CollisionFree) (g : Genesis D) (as : List (Action D))
    (hC : ∀ v ∈ visits step (init g) as, NoRefiling v.1 v.2) (receiptId : Bytes32) :
    filings receiptId (history g as) ≤ 1 := by
  refine (history_induction (g := g) (C := fun w tx => NoRefiling w (.send tx))
    (J := fun h w => CompensationInv h w receiptId ∧ filings receiptId h ≤ 1)
    ⟨compensationInv_init receiptId, Nat.zero_le _⟩
    (fun _ _ _ hJ => ⟨⟨hJ.1.challenged_iff, hJ.1.stored, hJ.1.paid_le⟩, hJ.2⟩) ?_ as
    fun e he => hC _ (mem_visits_of_mem_history he)).2
  rintro h w w' tx hr ⟨hJ, hle⟩ hno hx
  refine ⟨hJ.next hK hr hx, ?_⟩
  have hcount := filings_concat receiptId h (w, tx)
  by_cases hfile : tx.call = .fileAmountViolation receiptId
  · have hnot : ¬ Challenged w.arbiter receiptId := fun hch =>
      hno receiptId hfile hch ((filing_passes hr hfile).1 ⟨w', hx⟩)
    rw [isFiling, decide_eq_true hfile, if_pos rfl] at hcount
    have : ¬ 0 < filings receiptId h := fun hpos => hnot (hJ.challenged_iff.2 hpos)
    omega
  · rw [isFiling, decide_eq_false hfile, if_neg (by simp)] at hcount
    omega

/-- A receipt is compensated at most once, and filed for at most once, in exactly the runs in which
no filing for an already challenged receipt passes the other checks. -/
theorem compensated_once_iff (hK : D.keccak.CollisionFree) (g : Genesis D) (as : List (Action D)) :
    (∀ receiptId, paidFor receiptId (history g as) ≤
        ((run step (init g) as).executor.receipts receiptId).amount ∧
      filings receiptId (history g as) ≤ 1) ↔
    ∀ v ∈ visits step (init g) as, NoRefiling v.1 v.2 := by
  constructor
  · rintro h ⟨w, a⟩ hv
    obtain ⟨as₁, as₂, rfl, hw⟩ := exists_split_of_mem_visits hv
    dsimp only at hw h ⊢
    subst hw
    rcases a with n | tx
    · trivial
    -- the refiling would be the second filing of the history
    intro receiptId hcall hch hok
    obtain ⟨w', hx⟩ := (filing_passes (reachable_run _ _) hcall).2 hok
    have hpos := (compensationInv hK g as₁ receiptId).challenged_iff.1 hch
    have hle := (h receiptId).2
    rw [history_append, visits_cons, List.filterMap_cons, accepted_of_ok hx, filings,
      List.countP_append, List.countP_cons, isFiling, decide_eq_true hcall] at hle
    rw [filings] at hpos
    simp only [if_true] at hle
    omega
  · intro hC receiptId
    have hle := filings_le_one hK g as hC receiptId
    refine ⟨(compensationInv hK g as receiptId).paid_le.trans ?_, hle⟩
    calc filings receiptId (history g as) *
      ((run step (init g) as).executor.receipts receiptId).amount
        ≤ 1 * ((run step (init g) as).executor.receipts receiptId).amount :=
          Nat.mul_le_mul_right _ hle
      _ = ((run step (init g) as).executor.receipts receiptId).amount := Nat.one_mul _

/-- Before the first challenge nothing is filed again. -/
theorem noRefiling_of_nextId (h : w.arbiter.nextId = 0) (a : Action D) : NoRefiling w a := by
  rcases a with n | tx
  · trivial
  · intro receiptId _ hchallenged
    exact absurd hchallenged (not_challenged_of_nextId h receiptId)

namespace Localnet

/-- Two payments, and the challenger files for the first of them. -/
def filedOnce (stake : ℕ) : List (Action localnet) :=
  twoPayments stake ++
    [send challenger (.usdcApprove localnet.challengeArbiter 1000000000),
      send challenger (.fileAmountViolation firstId)]

end Localnet

open Localnet in
/-- One filing: the receipt of 15 USDC is compensated, once. -/
theorem compensated_once_iff_filedOnce :
    filings firstId (history genesis (filedOnce 100000000)) = 1 ∧
      paidFor firstId (history genesis (filedOnce 100000000)) ≤
        ((run step (init genesis) (filedOnce 100000000)).executor.receipts firstId).amount := by
  have hids : ∀ v ∈ visits step (init genesis) (filedOnce 100000000), v.1.arbiter.nextId = 0 := by
    decide +kernel
  have h := (compensated_once_iff Keccak.numbering_collisionFree genesis (filedOnce 100000000)).2
    (fun v hv => noRefiling_of_nextId (hids v hv) v.2) firstId
  exact ⟨by decide +kernel, h.1⟩

open Localnet in
/-- Filed for again: 30 USDC are paid for an amount of 15. -/
theorem compensated_twice :
    ¬ ∀ (D : Deployment), D.keccak.CollisionFree →
      ∀ (g : Genesis D) (as : List (Action D)) (receiptId : Bytes32),
      paidFor receiptId (history g as) ≤
        ((run step (init g) as).executor.receipts receiptId).amount ∧
        filings receiptId (history g as) ≤ 1 := by
  intro h
  have h := h localnet Keccak.numbering_collisionFree genesis
    (filedOnce 100000000 ++ [send challenger (.fileAmountViolation firstId)]) firstId
  revert h
  decide +kernel

/-! ### Two filings -/

theorem challengeWindow_toNat (w : World D) (agentId : Bytes32) :
    (AgentRegistry.challengeWindow w agentId).toNat =
      if GuardConstants.BRONZE_TIER_THRESHOLD ≤ w.vault.stake agentId then 259200 else 0 := by
  unfold AgentRegistry.challengeWindow StakeVault.stakeOf
  split_ifs <;> rfl

theorem reachable_file (hr : Reachable g w) (hne : sender ≠ 0) (hext : sender ∉ D.contracts)
    {receiptId : Bytes32} {challengeId : ℕ}
    (h : ChallengeArbiter.fileAmountViolation w sender receiptId = .ok (w', challengeId)) :
    Reachable g w' := by
  have hnext := hr.next (.send ⟨sender, .fileAmountViolation receiptId, hne, hext⟩)
  rwa [step, apply_of_ok (exec_file h)] at hnext

/-- A filing leaves the next challenger its bond, and leaves its own challenger one if it had
approved two. -/
theorem BondReady.after_file (hr : Reachable g w) {x₁ x₂ : Address} (hext₁ : x₁ ∉ D.contracts)
    (hext₂ : x₂ ∉ D.contracts) {receiptId : Bytes32} {challengeId : ℕ}
    (h : ChallengeArbiter.fileAmountViolation w x₁ receiptId = .ok (w', challengeId))
    (hready : BondReady w x₂)
    (htwo : x₁ = x₂ → 2 * GuardConstants.CHALLENGE_BOND ≤
      D.token.allowance w.usdc x₁ D.challengeArbiter) :
    BondReady w' x₂ := by
  have hbal := balanceOf_file hr hext₁ h
  obtain ⟨-, -, -, u₁, u₂, u₃, hbond, hpay, hrefund, rfl⟩ := fileAmountViolation_eq_ok.1 h
  refine ⟨?_, ?_⟩
  · apply hready.balance.trans
    rw [World.balanceOf, World.balanceOf, hbal]
    exact moveBalance.le_of_ne_src fun heq => hext₂ (heq ▸ D.stakeVault_mem)
  · dsimp only [filed]
    rw [D.token.allowance_transfer hrefund, D.token.allowance_transfer hpay]
    by_cases heq : x₁ = x₂
    · have hused := (D.token.allowance_transferFrom_self hbond).2
      have := htwo heq
      rw [← heq]
      omega
    · rw [D.token.allowance_transferFrom_other hbond fun hp => heq (Prod.mk.inj hp).1.symm]
      exact hready.allowance

section
variable {x₁ x₂ : Address} {i j agentId : Bytes32} {w₁ w₂ : World D} {c₁ c₂ : ℕ}

/-- One filing takes the receipt's amount from the stake, when the stake covers it. -/
theorem stake_after_file (agentId : Bytes32)
    (h : ChallengeArbiter.fileAmountViolation w x₁ i = .ok (w₁, c₁))
    (hi : (w.executor.receipts i).agentId = agentId)
    (hle : (w.executor.receipts i).amount ≤ w.vault.stake agentId) :
    violationPayout w i = (w.executor.receipts i).amount ∧
      w₁.vault.stake = update w.vault.stake agentId
        (w.vault.stake agentId - (w.executor.receipts i).amount) := by
  obtain ⟨-, -, -, u₁, u₂, u₃, -, -, -, rfl⟩ := fileAmountViolation_eq_ok.1 h
  have hpay : violationPayout w i = (w.executor.receipts i).amount := by
    rw [violationPayout, hi, Nat.min_eq_left hle]
  refine ⟨hpay, ?_⟩
  dsimp only [filed, slashed]
  rw [hpay, hi]

theorem executor_after_file (h : ChallengeArbiter.fileAmountViolation w x₁ i = .ok (w₁, c₁)) :
    w₁.executor = w.executor ∧ w₁.registry = w.registry ∧ w₁.now = w.now := by
  obtain ⟨-, -, -, u₁, u₂, u₃, -, -, -, rfl⟩ := fileAmountViolation_eq_ok.1 h
  exact ⟨rfl, rfl, rfl⟩

/-- After a filing, another one for the same agent that would have succeeded before still does
exactly when the stake left is at the threshold or its receipt is of this very second. -/
theorem file_after_file_iff (hr : Reachable g w) (hx₁ : x₁ ≠ 0 ∧ x₁ ∉ D.contracts)
    (hx₂ : x₂ ≠ 0 ∧ x₂ ∉ D.contracts) (hi : (w.executor.receipts i).agentId = agentId)
    (hj : (w.executor.receipts j).agentId = agentId)
    (h₁ : ChallengeArbiter.fileAmountViolation w x₁ i = .ok (w₁, c₁))
    (h₂ : ChallengeArbiter.fileAmountViolation w x₂ j = .ok (w₂, c₂))
    (hstake : (w.executor.receipts i).amount + (w.executor.receipts j).amount ≤
      w.vault.stake agentId)
    (htwo : x₁ = x₂ → 2 * GuardConstants.CHALLENGE_BOND ≤
      D.token.allowance w.usdc x₁ D.challengeArbiter) :
    (∃ w₁₂ c, ChallengeArbiter.fileAmountViolation w₁ x₂ j = .ok (w₁₂, c)) ↔
      GuardConstants.BRONZE_TIER_THRESHOLD ≤ w.vault.stake agentId -
        (w.executor.receipts i).amount ∨
        (w.executor.receipts j).timestamp.toNat = w.now := by
  obtain ⟨hok, hready⟩ := (fileAmountViolation_succeeds_iff hr hx₂.1 hx₂.2 j).1 ⟨w₂, c₂, h₂⟩
  have hr₁ := reachable_file hr hx₁.1 hx₁.2 h₁
  have hready₁ : BondReady w₁ x₂ := hready.after_file hr hx₁.2 hx₂.2 h₁ htwo
  obtain ⟨hexec, hreg, hnow⟩ := executor_after_file h₁
  have hleft := (stake_after_file agentId h₁ hi (by omega)).2
  have hover := hok.overspend
  have hold := hok.window
  have hpast := timestamp_le_now hr j
  rw [challengeWindow_toNat, hj] at hold
  rw [fileAmountViolation_succeeds_iff hr₁ hx₂.1 hx₂.2 j, and_iff_left hready₁]
  constructor
  · intro hok₁
    have hwin := hok₁.window
    rw [challengeWindow_toNat, hexec, hj, hleft, update_self, hnow] at hwin
    split_ifs at hwin with hthr
    · exact Or.inl hthr
    · exact Or.inr (by omega)
  · intro hcase
    refine ⟨hexec ▸ hok.stored, ?_, ?_, ?_⟩
    · rw [challengeWindow_toNat, hexec, hj, hleft, update_self, hnow]
      rcases hcase with hthr | hsame
      · rw [if_pos hthr]
        rwa [if_pos (hthr.trans (Nat.sub_le _ _))] at hold
      · rw [hsame]
        exact Nat.le_add_right _ _
    · rw [hreg, hexec]
      exact hover
    · rw [hexec, hj, hleft, update_self]
      omega

/-- Two filings for one agent, either of which would succeed: the second still succeeds after the
first exactly when the stake that the first leaves is at the threshold, or its receipt is of this
very second; and the two orders make the same payments and leave the same balances and stakes. -/
theorem filings_independent (g : Genesis D) (w : World D) (hr : Reachable g w)
    (hx₁ : x₁ ≠ 0 ∧ x₁ ∉ D.contracts) (hx₂ : x₂ ≠ 0 ∧ x₂ ∉ D.contracts)
    (hi : (w.executor.receipts i).agentId = agentId)
    (hj : (w.executor.receipts j).agentId = agentId)
    (h₁ : ChallengeArbiter.fileAmountViolation w x₁ i = .ok (w₁, c₁))
    (h₂ : ChallengeArbiter.fileAmountViolation w x₂ j = .ok (w₂, c₂))
    (hstake : (w.executor.receipts i).amount + (w.executor.receipts j).amount ≤
      w.vault.stake agentId)
    (htwo : x₁ = x₂ → 2 * GuardConstants.CHALLENGE_BOND ≤
      D.token.allowance w.usdc x₁ D.challengeArbiter) :
    ((∃ w₁₂ c, ChallengeArbiter.fileAmountViolation w₁ x₂ j = .ok (w₁₂, c)) ↔
      GuardConstants.BRONZE_TIER_THRESHOLD ≤ w.vault.stake agentId -
        (w.executor.receipts i).amount ∨
        (w.executor.receipts j).timestamp.toNat = w.now) ∧
    ((∃ w₂₁ c, ChallengeArbiter.fileAmountViolation w₂ x₁ i = .ok (w₂₁, c)) ↔
      GuardConstants.BRONZE_TIER_THRESHOLD ≤ w.vault.stake agentId -
        (w.executor.receipts j).amount ∨
        (w.executor.receipts i).timestamp.toNat = w.now) ∧
    ∀ w₁₂ c w₂₁ c', ChallengeArbiter.fileAmountViolation w₁ x₂ j = .ok (w₁₂, c) →
      ChallengeArbiter.fileAmountViolation w₂ x₁ i = .ok (w₂₁, c') →
        (w₁.balanceOf D.stakeVault + (w.executor.receipts i).amount = w.balanceOf D.stakeVault ∧
          w₁₂.balanceOf D.stakeVault + (w.executor.receipts j).amount = w₁.balanceOf D.stakeVault ∧
          w₂.balanceOf D.stakeVault + (w.executor.receipts j).amount = w.balanceOf D.stakeVault ∧
          w₂₁.balanceOf D.stakeVault + (w.executor.receipts i).amount = w₂.balanceOf D.stakeVault) ∧
        D.token.balanceOf w₁₂.usdc = D.token.balanceOf w₂₁.usdc ∧
        w₁₂.vault.stake = w₂₁.vault.stake ∧
        w₁₂.vault.stake agentId =
          w.vault.stake agentId - (w.executor.receipts i).amount -
            (w.executor.receipts j).amount := by
  refine ⟨file_after_file_iff hr hx₁ hx₂ hi hj h₁ h₂ hstake htwo,
    file_after_file_iff hr hx₂ hx₁ hj hi h₂ h₁
    (Nat.add_comm _ _ ▸ hstake) (fun heq => heq ▸ htwo heq.symm), ?_⟩
  intro w₁₂ c w₂₁ c' h₁₂ h₂₁
  have hr₁ := reachable_file hr hx₁.1 hx₁.2 h₁
  have hr₂ := reachable_file hr hx₂.1 hx₂.2 h₂
  obtain ⟨hexec₁, -, -⟩ := executor_after_file h₁
  obtain ⟨hexec₂, -, -⟩ := executor_after_file h₂
  obtain ⟨hpay₁, hleft₁⟩ := stake_after_file agentId h₁ hi (by omega)
  obtain ⟨hpay₂, hleft₂⟩ := stake_after_file agentId h₂ hj (by omega)
  obtain ⟨hpay₁₂, hleft₁₂⟩ := stake_after_file agentId h₁₂ (by rw [hexec₁, hj])
    (by rw [hexec₁, hleft₁, update_self]; omega)
  obtain ⟨hpay₂₁, hleft₂₁⟩ := stake_after_file agentId h₂₁ (by rw [hexec₂, hi])
    (by rw [hexec₂, hleft₂, update_self]; omega)
  have hb₁ := balanceOf_file hr hx₁.2 h₁
  have hb₂ := balanceOf_file hr hx₂.2 h₂
  have hb₁₂ := balanceOf_file hr₁ hx₂.2 h₁₂
  have hb₂₁ := balanceOf_file hr₂ hx₁.2 h₂₁
  rw [hexec₁] at hpay₁₂ hleft₁₂ hb₁₂
  rw [hexec₂] at hpay₂₁ hleft₂₁ hb₂₁
  rw [hpay₁] at hb₁
  rw [hpay₂] at hb₂
  rw [hpay₁₂] at hb₁₂
  rw [hpay₂₁] at hb₂₁
  rw [hleft₁, update_self, update_idem] at hleft₁₂
  rw [hleft₂, update_self, update_idem] at hleft₂₁
  have hvi : D.stakeVault ≠ (w.executor.receipts i).owner := fun h =>
    receipt_owner_external hr i (h ▸ D.stakeVault_mem)
  have hvj : D.stakeVault ≠ (w.executor.receipts j).owner := fun h =>
    receipt_owner_external hr j (h ▸ D.stakeVault_mem)
  have hcover := stake_le_balance hr agentId
  simp only [World.balanceOf] at hcover ⊢
  refine ⟨⟨?_, ?_, ?_, ?_⟩, ?_, ?_, ?_⟩
  · rw [hb₁, moveBalance.at_src hvi]
    omega
  · rw [hb₁₂, moveBalance.at_src hvj, hb₁, moveBalance.at_src hvi]
    omega
  · rw [hb₂, moveBalance.at_src hvj]
    omega
  · rw [hb₂₁, moveBalance.at_src hvi, hb₂, moveBalance.at_src hvj]
    omega
  · rw [hb₁₂, hb₁, hb₂₁, hb₂, moveBalance.swap hvi hvj]
  · rw [hleft₁₂, hleft₂₁, Nat.sub_right_comm]
  · rw [hleft₁₂, update_self]

end

namespace Localnet

/-- Two payments, ten seconds, and the challenger approves its bonds. -/
def twoChallengeable (stake : ℕ) : World localnet :=
  run step (init genesis)
    (twoPayments stake ++ [.elapse 10,
      send challenger (.usdcApprove localnet.challengeArbiter 1000000000)])

theorem exists_file (w : World localnet) (x : Address) (id : Bytes32)
    (h : (ChallengeArbiter.fileAmountViolation w x id).isOk = true) :
    ∃ w' c, ChallengeArbiter.fileAmountViolation w x id = .ok (w', c) := by
  rcases hf : ChallengeArbiter.fileAmountViolation w x id with e | ⟨w', c⟩
  · rw [hf] at h
    exact absurd h (by simp [Except.isOk, Except.toBool])
  · exact ⟨w', c, rfl⟩

/-- Both receipts can be filed for, they are of one agent, the bonds of both are approved and its
stake covers both amounts. -/
def BothFilable (w : World localnet) : Prop :=
  ((ChallengeArbiter.fileAmountViolation w challenger firstId).isOk = true ∧
      (ChallengeArbiter.fileAmountViolation w challenger secondId).isOk = true) ∧
    ((w.executor.receipts firstId).agentId = agent ∧
      (w.executor.receipts secondId).agentId = agent) ∧
      firstId ≠ secondId ∧
        2 * GuardConstants.CHALLENGE_BOND ≤
          localnet.token.allowance w.usdc challenger localnet.challengeArbiter ∧
          (w.executor.receipts firstId).amount + (w.executor.receipts secondId).amount ≤
            w.vault.stake agent

instance (w : World localnet) : Decidable (BothFilable w) := inferInstanceAs (Decidable (_ ∧ _))

end Localnet

open Localnet in
/-- With a stake of 100 USDC the second filing succeeds after the first. -/
theorem filings_independent_localnet :
    ∃ w₁ c₁, ChallengeArbiter.fileAmountViolation (twoChallengeable 100000000) challenger firstId =
      .ok (w₁, c₁) ∧
      ∃ w₁₂ c, ChallengeArbiter.fileAmountViolation w₁ challenger secondId = .ok (w₁₂, c) := by
  have hfilable : BothFilable (twoChallengeable 100000000) := by decide +kernel
  obtain ⟨⟨hok₁, hok₂⟩, ⟨hi, hj⟩, -, hbonds, hstake⟩ := hfilable
  obtain ⟨w₁, c₁, h₁⟩ := exists_file _ challenger firstId hok₁
  obtain ⟨w₂, c₂, h₂⟩ := exists_file _ challenger secondId hok₂
  refine ⟨w₁, c₁, h₁, ?_⟩
  exact (filings_independent genesis (twoChallengeable 100000000) (reachable_run _ _) (by decide)
    (by decide) hi hj
    h₁ h₂ hstake fun _ => hbonds).1.2 (by decide +kernel)

open Localnet in
/-- With a stake of 60 USDC the first filing leaves 45, below the threshold: ten seconds after the
payments the second one reverts, though it would have succeeded before the first. -/
theorem filing_disables_another :
    ¬ ∀ (D : Deployment) (g : Genesis D) (w : World D), Reachable g w →
      ∀ (x : Address) (i j : Bytes32) (w₁ w₂ : World D) (c₁ c₂ : ℕ), x ≠ 0 ∧ x ∉ D.contracts →
        i ≠ j →
        (w.executor.receipts i).agentId = (w.executor.receipts j).agentId →
        2 * GuardConstants.CHALLENGE_BOND ≤ D.token.allowance w.usdc x D.challengeArbiter →
        ChallengeArbiter.fileAmountViolation w x i = .ok (w₁, c₁) →
        ChallengeArbiter.fileAmountViolation w x j = .ok (w₂, c₂) →
        (w.executor.receipts i).amount + (w.executor.receipts j).amount ≤
          w.vault.stake (w.executor.receipts j).agentId →
        ∃ w₁₂ c, ChallengeArbiter.fileAmountViolation w₁ x j = .ok (w₁₂, c) := by
  intro h
  have hfilable : BothFilable (twoChallengeable 60000000) := by decide +kernel
  obtain ⟨⟨hok₁, hok₂⟩, ⟨hi, hj⟩, hne, hbonds, hstake⟩ := hfilable
  obtain ⟨w₁, c₁, h₁⟩ := exists_file _ challenger firstId hok₁
  obtain ⟨w₂, c₂, h₂⟩ := exists_file _ challenger secondId hok₂
  have hr : Reachable genesis (twoChallengeable 60000000) := reachable_run _ _
  have hx : challenger ≠ 0 ∧ challenger ∉ localnet.contracts := by decide
  have h :=
    h localnet genesis (twoChallengeable 60000000) hr challenger firstId secondId w₁ w₂ c₁ c₂ hx
    hne (hi.trans hj.symm) hbonds h₁ h₂ (hj ▸ hstake)
  rw [file_after_file_iff hr hx hx hi hj h₁ h₂ hstake fun _ => hbonds] at h
  exact absurd h (by decide +kernel)

end IntentGuard
