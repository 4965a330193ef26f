import IntentGuard.Contracts.Records

/-!
# The life of a challenge

* `file_exact`: what one `fileAmountViolation` does, in full, and exactly when it succeeds.
* `resolveByReviewer_succeeds_iff`: a reviewer's call succeeds on any id that is not resolved, also
  on one that no filing has allocated yet.
* `orderly_iff`: the logs of a run tell of every challenge that it was filed and then resolved, once
  each, in exactly the runs in which no reviewer resolves an unallocated id. Such a resolution comes
  before the filing, which later overwrites the record and resolves the id again.
-/

namespace IntentGuard

open Function Runs

variable {D : Deployment} {g : Genesis D} {w w' : World D} {sender : Address} {call : Call}

/-! ### One filing -/

/-- The state after a filing for a receipt, as challenge `id`: the payout has moved from the agent's
stake to the receipt's owner, and the challenge is recorded as resolved. -/
structure FiledExactly (w : World D) (x : Address) (receiptId : Bytes32) (w' : World D)
    (id : ℕ) : Prop where
  id_eq : id = w.arbiter.nextId + 1
  arbiter : w'.arbiter =
    { w.arbiter with nextId := id,
                     challenges := update w.arbiter.challenges id ⟨receiptId, x, true⟩ }
  stake : w'.vault.stake (w.executor.receipts receiptId).agentId + violationPayout w receiptId =
    w.vault.stake (w.executor.receipts receiptId).agentId
  otherStakes : ∀ a, a ≠ (w.executor.receipts receiptId).agentId →
    w'.vault.stake a = w.vault.stake a
  wiring : w'.vault.agentRegistry = w.vault.agentRegistry ∧
    w'.vault.challengeArbiter = w.vault.challengeArbiter
  vaultBalance : w'.balanceOf D.stakeVault + violationPayout w receiptId = w.balanceOf D.stakeVault
  ownerBalance : w'.balanceOf (w.executor.receipts receiptId).owner =
    w.balanceOf (w.executor.receipts receiptId).owner + violationPayout w receiptId
  challengerBalance : x ≠ (w.executor.receipts receiptId).owner → w'.balanceOf x = w.balanceOf x
  arbiterBalance : w'.balanceOf D.challengeArbiter = w.balanceOf D.challengeArbiter
  otherBalances : ∀ a, a ≠ D.stakeVault → a ≠ (w.executor.receipts receiptId).owner →
    w'.balanceOf a = w.balanceOf a
  executor : w'.executor = w.executor
  registry : w'.registry = w.registry
  agents : w'.agents = w.agents
  now : w'.now = w.now

theorem filedExactly (hr : Reachable g w) (hext : sender ∉ D.contracts)
    {receiptId : Bytes32} {id : ℕ}
    (h : ChallengeArbiter.fileAmountViolation w sender receiptId = .ok (w', id)) :
    FiledExactly w sender receiptId w' id := by
  have hbal := balanceOf_file hr hext h
  have howner := receipt_owner_external hr receiptId
  have hvo : D.stakeVault ≠ (w.executor.receipts receiptId).owner :=
    fun h => howner (h ▸ D.stakeVault_mem)
  have hao : D.challengeArbiter ≠ (w.executor.receipts receiptId).owner := fun h =>
    howner (h ▸ D.challengeArbiter_mem)
  have hxv : sender ≠ D.stakeVault := fun h => hext (h ▸ D.stakeVault_mem)
  have hcover := violationPayout_le hr receiptId
  have hother : ∀ a, a ≠ D.stakeVault → a ≠ (w.executor.receipts receiptId).owner →
      w'.balanceOf a = w.balanceOf a := by
    intro a hv ho
    rw [World.balanceOf, hbal]
    exact moveBalance.at_other hv ho
  have hvault : w'.balanceOf D.stakeVault = w.balanceOf D.stakeVault -
      violationPayout w receiptId := by
    rw [World.balanceOf, hbal]
    exact moveBalance.at_src hvo
  have howned : w'.balanceOf (w.executor.receipts receiptId).owner =
      w.balanceOf (w.executor.receipts receiptId).owner + violationPayout w receiptId := by
    rw [World.balanceOf, hbal]
    exact moveBalance.at_dst hvo
  obtain ⟨-, -, rfl, u₁, u₂, u₃, -, -, -, rfl⟩ := fileAmountViolation_eq_ok.1 h
  have hstake : violationPayout w receiptId ≤
      w.vault.stake (w.executor.receipts receiptId).agentId :=
    Nat.min_le_right _ _
  refine ⟨rfl, rfl, ?_, ?_, ⟨rfl, rfl⟩, ?_, howned, fun ho => hother _ hxv ho,
    hother _ D.stakeVault_ne_challengeArbiter.symm hao, hother, rfl, rfl, rfl, rfl⟩
  · dsimp only [filed, slashed]
    rw [update_self]
    omega
  · intro a ha
    exact update_of_ne ha _ _
  · omega

/-- A filing succeeds exactly when the receipt exists, its window is open, it overspends, the
challenger holds and has approved the bond, and the agent has stake left; it then does what
`FiledExactly` says and nothing else, and otherwise it does nothing. -/
theorem file_exact (g : Genesis D) (w : World D) (hr : Reachable g w) (x : Address) (hne : x ≠ 0)
    (hext : x ∉ D.contracts) (receiptId : Bytes32) :
    ((∃ w' id, ChallengeArbiter.fileAmountViolation w x receiptId = .ok (w', id)) ↔
      Stored w receiptId ∧
        w.now ≤ (w.executor.receipts receiptId).timestamp.toNat +
          (AgentRegistry.challengeWindow w (w.executor.receipts receiptId).agentId).toNat ∧
        (w.registry.intentConfig (w.executor.receipts receiptId).intentHash).maxSpendPerTx <
          (w.executor.receipts receiptId).amount ∧
        GuardConstants.CHALLENGE_BOND ≤ w.balanceOf x ∧
        GuardConstants.CHALLENGE_BOND ≤ D.token.allowance w.usdc x D.challengeArbiter ∧
        w.vault.stake (w.executor.receipts receiptId).agentId ≠ 0) ∧
    (∀ w' id, ChallengeArbiter.fileAmountViolation w x receiptId = .ok (w', id) →
      FiledExactly w x receiptId w' id ∧
        apply w ⟨x, .fileAmountViolation receiptId, hne, hext⟩ = w') ∧
    ∀ e, ChallengeArbiter.fileAmountViolation w x receiptId = .error e →
      apply w ⟨x, .fileAmountViolation receiptId, hne, hext⟩ = w := by
  refine ⟨?_, ?_, ?_⟩
  · rw [fileAmountViolation_succeeds_iff hr hne hext]
    constructor
    · intro h
      obtain ⟨hok, hready⟩ := h
      exact ⟨hok.stored, hok.window, hok.overspend, hready.balance, hready.allowance, hok.stake⟩
    · intro h
      obtain ⟨hstored, hwindow, hover, hbalance, hallowance, hstake⟩ := h
      exact ⟨⟨hstored, hwindow, hover, hstake⟩, hbalance, hallowance⟩
  · intro w' id h
    exact ⟨filedExactly hr hext h, apply_of_ok (exec_file h)⟩
  · intro e h
    apply apply_of_error (e := e)
    rw [exec, h]
    rfl

open Localnet in
/-- The challenger files for the receipt of 15 USDC. -/
theorem file_exact_localnet :
    ∃ w' id, ChallengeArbiter.fileAmountViolation (twoChallengeable 100000000) challenger firstId =
      .ok (w', id) := by
  refine (file_exact genesis (twoChallengeable 100000000) (reachable_run _ _) challenger
    (by decide) (by decide)
    firstId).1.2 ?_
  unfold Stored
  decide +kernel

/-! ### A reviewer's resolution -/

/-- What `resolveByReviewer` checks. -/
structure ReviewerPasses (w : World D) (id : ℕ) (uphold : Bool) (slashAmount : ℕ)
    (sig : Bytes) : Prop where
  unresolved : (w.arbiter.challenges id).resolved = false
  signer : w.arbiter.reviewerSigner ≠ 0
  signature : D.tryRecover
    (D.keccak.ethSignedMessage (ChallengeArbiter.reviewerInnerHash D id uphold slashAmount))
    sig = some w.arbiter.reviewerSigner
  payout : uphold = true → slashAmount ≠ 0 ∧
    w.vault.stake (w.executor.receipts (w.arbiter.challenges id).receiptId).agentId ≠ 0 ∧
    (w.executor.receipts (w.arbiter.challenges id).receiptId).owner ≠ 0

theorem resolveByReviewer_succeeds_iff (hr : Reachable g w) {id : ℕ} {uphold : Bool}
    {slashAmount : ℕ} {sig : Bytes} :
    (∃ w', ChallengeArbiter.resolveByReviewer w id uphold slashAmount sig = .ok w') ↔
      ReviewerPasses w id uphold slashAmount sig := by
  unfold ChallengeArbiter.resolveByReviewer GuardedExecutor.getReceipt
  simp only [bind_eq_ok, revertIf_eq_ok, exists_const]
  constructor
  · intro h
    obtain ⟨w', hopen, hsigner, hsig, h⟩ := h
    refine ⟨by simpa using hopen, hsigner, not_not.1 hsig, fun huphold => ?_⟩
    rw [if_pos huphold, bind_eq_ok] at h
    obtain ⟨⟨w₁, paid⟩, hslash, -⟩ := h
    obtain ⟨-, hamount, hstake, -, u, hpay, -⟩ := slash_eq_ok.1 hslash
    exact ⟨hamount, hstake, (D.token.transfer_bounds D.stakeVault_ne_zero hpay).1⟩
  · intro h
    cases huphold : uphold with
    | false =>
      subst huphold
      exact ⟨_, by simpa using h.unresolved, h.signer, not_not.2 h.signature,
        by rw [if_neg (by simp)]; rfl⟩
    | true =>
      subst huphold
      obtain ⟨hamount, hstake, howner⟩ := h.payout rfl
      -- the vault can pay, because it is solvent
      obtain ⟨u, hu⟩ := D.token.exists_transfer (v := min slashAmount (w.vault.stake
        (w.executor.receipts (w.arbiter.challenges id).receiptId).agentId))
          D.stakeVault_ne_zero howner
        ((Nat.min_le_right _ _).trans (stake_le_balance hr _))
      simp only [if_true, bind_eq_ok, Prod.exists, slash_eq_ok, pure_eq_ok]
      exact ⟨_, by simpa using h.unresolved, h.signer, not_not.2 h.signature, _, _,
        ⟨(basics hr).challengeArbiter.symm, hamount, hstake, rfl, u, hu, rfl⟩, rfl⟩

/-- An open challenge is one that no filing has allocated. -/
theorem ArbiterInv.unallocated_of_open {s : ChallengeArbiter.State} (hI : ArbiterInv s) {id : ℕ}
    (h : (s.challenges id).resolved = false) : id = 0 ∨ s.nextId < id := by
  by_contra hid
  obtain ⟨hpos, hle⟩ := not_or.1 hid
  have hresolved := hI.resolved id (Nat.pos_of_ne_zero hpos) (Nat.not_lt.1 hle)
  rw [h] at hresolved
  exact absurd hresolved (by simp)

/-! ### The order of a challenge's logs -/

inductive ChallengeEvent
  | filed | resolved
  deriving DecidableEq

/-- What an event says about a challenge. -/
def challengeEvent (id : ℕ) : Event → Option ChallengeEvent
  | .ChallengeFiled k _ _ => if k = id then some .filed else none
  | .ChallengeResolved k _ _ => if k = id then some .resolved else none
  | _ => none

/-- What the logs say about a challenge, in order. -/
def lifecycle (id : ℕ) (logs : List Event) : List ChallengeEvent :=
  logs.filterMap (challengeEvent id)

theorem lifecycle_append (id : ℕ) (logs es : List Event) :
    lifecycle id (logs ++ es) = lifecycle id logs ++ lifecycle id es := List.filterMap_append

/-- No reviewer's call for an id that has not been allocated passes the other checks. -/
def NoOrphan (w : World D) : Action D → Prop
  | .elapse _ => True
  | .send tx =>
    ∀ id uphold slashAmount sig, tx.call = .resolveByReviewer id uphold slashAmount sig →
      id = 0 ∨ w.arbiter.nextId < id → ¬ ReviewerPasses w id uphold slashAmount sig

/-- Allocated challenges have been filed and resolved, nothing is known of any other id. -/
structure LifecycleInv (w : World D) : Prop where
  allocated : ∀ id, 0 < id → id ≤ w.arbiter.nextId → lifecycle id w.logs = [.filed, .resolved]
  unallocated : ∀ id, id = 0 ∨ w.arbiter.nextId < id → lifecycle id w.logs = []

/-- A call that logs nothing about challenges and files none. -/
theorem LifecycleInv.quiet (hI : LifecycleInv w) {es : List Event} (hlogs : w'.logs = w.logs ++ es)
    (hnext : w'.arbiter.nextId = w.arbiter.nextId) (hquiet : ∀ id, lifecycle id es = []) :
    LifecycleInv w' := by
  refine ⟨?_, ?_⟩
  · intro id hpos hle
    rw [hlogs, lifecycle_append, hquiet, List.append_nil]
    exact hI.allocated id hpos (hnext ▸ hle)
  · intro id hid
    rw [hlogs, lifecycle_append, hquiet, List.append_nil]
    exact hI.unallocated id (hnext ▸ hid)

theorem LifecycleInv.file (hI : LifecycleInv w) (x : Address) (receiptId : Bytes32)
    (u : D.token.State) :
    LifecycleInv (filed w x receiptId u) := by
  have hnew : ∀ id, lifecycle id (filed w x receiptId u).logs =
      lifecycle id w.logs ++ if w.arbiter.nextId + 1 = id then [.filed, .resolved] else [] := by
    intro id
    dsimp only [filed]
    rw [lifecycle_append]
    by_cases hid : w.arbiter.nextId + 1 = id
    · simp [lifecycle, List.filterMap_cons, challengeEvent, hid]
    · simp [lifecycle, List.filterMap_cons, challengeEvent, hid]
  refine ⟨?_, ?_⟩
  · intro id hpos hle
    rw [hnew]
    by_cases hid : w.arbiter.nextId + 1 = id
    · rw [if_pos hid, hI.unallocated id (by omega)]
      rfl
    · have hle : id ≤ w.arbiter.nextId + 1 := hle
      rw [if_neg hid, List.append_nil]
      exact hI.allocated id hpos (by omega)
  · intro id hid
    have hid : id = 0 ∨ w.arbiter.nextId + 1 < id := hid
    rw [hnew, if_neg (by omega), List.append_nil]
    exact hI.unallocated id (by omega)

theorem LifecycleInv.next (hr : Reachable g w) (hI : LifecycleInv w) {tx : Tx D}
    (hno : NoOrphan w (.send tx)) (hx : exec w tx.sender tx.call = .ok w') : LifecycleInv w' := by
  have heff := effect_of_exec hx
  have hnil : w.logs = w.logs ++ [] := (List.append_nil _).symm
  -- a resolution finds an open challenge, which nobody has allocated
  have hresolve : ∀ id uphold slashAmount sig,
      tx.call = .resolveByReviewer id uphold slashAmount sig →
      (w.arbiter.challenges id).resolved = false → False := by
    intro id uphold slashAmount sig hcall hopen
    rw [hcall] at hx
    exact hno id uphold slashAmount sig hcall ((arbiterInv hr).unallocated_of_open hopen)
      ((resolveByReviewer_succeeds_iff hr).1 ⟨w', hx⟩)
  generalize tx.sender = sender at heff
  generalize tx.call = call at heff hresolve
  cases heff with
  | fileAmountViolation => exact hI.file _ _ _
  | dismiss hopen => exact absurd hopen fun h => hresolve _ _ _ _ rfl h
  | uphold hopen => exact absurd hopen fun h => hresolve _ _ _ _ rfl h
  | commitIntent => exact hI.quiet rfl rfl fun _ => rfl
  | revokeIntent => exact hI.quiet rfl rfl fun _ => rfl
  | registerAgent => exact hI.quiet rfl rfl fun _ => rfl
  | stake => exact hI.quiet rfl rfl fun _ => rfl
  | deposit => exact hI.quiet rfl rfl fun _ => rfl
  | slash => exact hI.quiet rfl rfl fun _ => rfl
  | setAgentDelegate => exact hI.quiet rfl rfl fun _ => rfl
  | executeWithGuard => exact hI.quiet rfl rfl fun _ => rfl
  | setTraceAckSigner => exact hI.quiet rfl rfl fun _ => rfl
  | setReviewerSigner => exact hI.quiet rfl rfl fun _ => rfl
  | _ => exact hI.quiet hnil rfl fun _ => rfl

theorem lifecycleInv (g : Genesis D) (as : List (Action D))
    (hC : ∀ v ∈ visits step (init g) as, NoOrphan v.1 v.2) :
    LifecycleInv (run step (init g) as) := by
  refine history_induction (g := g) (C := fun w tx => NoOrphan w (.send tx))
    (J := fun _ w => LifecycleInv w)
    ⟨fun id hpos hle => absurd hpos (Nat.not_lt.2 hle), fun _ _ => rfl⟩
    (fun _ _ _ hI => ⟨hI.allocated, hI.unallocated⟩) ?_ as fun e he =>
      hC _ (mem_visits_of_mem_history he)
  intro _ w w' tx hr hI hno hx
  exact hI.next hr hno hx

theorem logs_later (hr : Reachable g w) (as : List (Action D)) :
    w.logs <+: (run step w as).logs := by
  refine later_rel (R := fun w w' => w.logs <+: w'.logs) (fun _ => List.prefix_rfl)
    (fun _ _ _ h h' => h.trans h') (fun _ _ => List.prefix_rfl) ?_ hr as
  intro w w' tx _ h
  obtain ⟨es, hnew⟩ := newLogs_of_effect h
  exact ⟨es, hnew.logs_eq.symm⟩

/-- A filed challenge has been resolved. -/
theorem resolved_of_filed (hr : Reachable g w) {id : ℕ} (h : .filed ∈ lifecycle id w.logs) :
    .resolved ∈ lifecycle id w.logs := by
  obtain ⟨e, he, hf⟩ := List.mem_filterMap.1 h
  cases e with
  | ChallengeFiled k receiptId x =>
    have hk : k = id := by
      by_contra hk
      simp [challengeEvent, hk] at hf
    subst hk
    obtain ⟨uphold, payout, hl⟩ := (logInv hr).resolved _ _ _ he
    have hmem : Event.ChallengeResolved k uphold payout ∈ w.logs := hl.subset (by simp)
    exact List.mem_filterMap.2 ⟨_, hmem, by simp [challengeEvent]⟩
  | ChallengeResolved k uphold payout => simp [challengeEvent] at hf
  | _ => simp [challengeEvent] at hf

/-- After a reviewer's resolution the logs are out of order, whatever follows. -/
theorem not_orderly_of_resolve (hr : Reachable g w) {id : ℕ} {uphold : Bool}
    {slashAmount : ℕ} {sig : Bytes}
    (h : Effect w sender (.resolveByReviewer id uphold slashAmount sig) w') :
    ¬ lifecycle id w'.logs <+: [.filed, .resolved] := by
  have hlogs : lifecycle id w'.logs = lifecycle id w.logs ++ [.resolved] := by
    cases h with
    | dismiss =>
      dsimp only
      rw [lifecycle_append]
      simp [lifecycle, challengeEvent]
    | uphold =>
      dsimp only
      rw [lifecycle_append]
      simp [lifecycle, List.filterMap_cons, challengeEvent]
  intro hprefix
  rw [hlogs] at hprefix
  -- what comes before the verdict is one filing, but that has been resolved before
  have hbefore : lifecycle id w.logs = [.filed] := by
    obtain ⟨rest, hrest⟩ := hprefix
    match hl : lifecycle id w.logs with
    | [] =>
      rw [hl] at hrest
      simp at hrest
    | [a] =>
      rw [hl] at hrest
      simp at hrest
      rw [hrest.1]
    | a :: b :: l =>
      rw [hl] at hrest
      simp at hrest
  have hresolved : .resolved ∈ lifecycle id w.logs := by
    apply resolved_of_filed hr
    rw [hbefore]
    exact List.mem_singleton_self _
  rw [hbefore] at hresolved
  exact absurd (List.mem_singleton.1 hresolved) (by simp)

/-- Every challenge is filed before it is resolved, and both at most once, in exactly the runs in
which no reviewer resolves an id that has not been allocated. -/
theorem orderly_iff (g : Genesis D) (as : List (Action D)) :
    (∀ id, lifecycle id (run step (init g) as).logs <+: [.filed, .resolved]) ↔
      ∀ v ∈ visits step (init g) as, NoOrphan v.1 v.2 := by
  constructor
  · intro h v hv
    obtain ⟨w, a⟩ := v
    obtain ⟨as₁, as₂, rfl, hw⟩ := exists_split_of_mem_visits hv
    dsimp only at hw h ⊢
    subst hw
    rcases a with n | tx
    · trivial
    intro id uphold slashAmount sig hcall _ hpasses
    have hr : Reachable g (run step (init g) as₁) := reachable_run _ _
    obtain ⟨w', hx⟩ := (resolveByReviewer_succeeds_iff hr).2 hpasses
    have hx : exec (run step (init g) as₁) tx.sender tx.call = .ok w' := by
      rw [hcall]
      exact hx
    have heff := effect_of_exec hx
    rw [hcall] at heff
    apply not_orderly_of_resolve hr heff
    have hr' := hr.next (.send tx)
    rw [step, apply_of_ok hx] at hr'
    have hlater := logs_later hr' as₂
    have hall := h id
    rw [run_append, run_cons, step, apply_of_ok hx] at hall
    exact (hlater.filterMap _).trans hall
  · intro hC id
    have hI := lifecycleInv g as hC
    rcases Nat.eq_zero_or_pos id with hzero | hpos
    · rw [hI.unallocated id (.inl hzero)]
      exact List.nil_prefix
    rcases Nat.lt_or_ge (run step (init g) as).arbiter.nextId id with hlt | hle
    · rw [hI.unallocated id (.inr hlt)]
      exact List.nil_prefix
    · rw [hI.allocated id hpos hle]

namespace Localnet

/-- The reviewer's dismissal of challenge 1. -/
def dismissal : Call :=
  .resolveByReviewer 1 false 0
    (reviewerKey.sign
      (localnet.keccak.ethSignedMessage (ChallengeArbiter.reviewerInnerHash localnet 1 false 0)))

/-- Challenge 1 is dismissed before anyone has filed it, then filed. -/
def dismissedFirst : List (Action localnet) :=
  twoPayments 100000000 ++
    [send challenger dismissal challenger_external,
      send challenger (.usdcApprove localnet.challengeArbiter 1000000000) challenger_external,
      send challenger (.fileAmountViolation firstId) challenger_external]

end Localnet

open Localnet in
/-- The logs say of challenge 1 that it was resolved, filed and resolved again. -/
theorem dismissedFirst_disorderly :
    ¬ ∀ (D : Deployment) (g : Genesis D) (as : List (Action D)) (id : ℕ),
      lifecycle id (run step (init g) as).logs <+: [.filed, .resolved] := by
  intro h
  have h := h localnet genesis dismissedFirst 1
  have hlogs : lifecycle 1 (run step (init genesis) dismissedFirst).logs =
      [.resolved, .filed, .resolved] := by
    decide +kernel
  rw [hlogs] at h
  exact absurd h (by decide)

end IntentGuard
