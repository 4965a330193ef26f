import IntentGuard.Contracts.CommittedIntents
import IntentGuard.Contracts.Preflight

/-!
# From simulation to execution

An agent simulates a payment and sends it later; in between the chain moves on. `Unaffected` lists
what the guard and the payment read that transactions can change, and `LeavesAlone` the transactions
that change none of it: all but the owner's own, payments for the owner, debits of the owner's
balance and a rotation of the trace service's key. `simulated_execution` says what then becomes of
the simulated payment: it goes through under the simulated id until the intent or the
acknowledgement expires, on whatever day that is.
-/

namespace IntentGuard

open Function Runs

variable {D : Deployment} {g : Genesis D} {w w' : World D} {sender d o : Address} {call : Call}
  {agentId : Bytes32}
  {req : ExecutionRequest}

/-! ### What the transaction of a payment reads -/

/-- The two states are the same to `d`'s payments for `o` through the agent, but for the clock and
for what the owner may have received. -/
structure Unaffected (o : Address) (agentId : Bytes32) (d : Address) (w w' : World D) : Prop where
  delegate : w'.executor.delegates o agentId d = w.executor.delegates o agentId d
  active : w'.registry.activeIntentHash o = w.registry.activeIntentHash o
  config : activeConfig w' o = activeConfig w o
  spent : w'.executor.spentByDay o = w.executor.spentByDay o
  nonce : w'.executor.execNonce o = w.executor.execNonce o
  signer : w'.executor.traceAckSigner = w.executor.traceAckSigner
  balance : w.balanceOf o ≤ w'.balanceOf o
  allowance : D.token.allowance w'.usdc o D.guardedExecutor =
    D.token.allowance w.usdc o D.guardedExecutor
  now : w.now ≤ w'.now

/-- Nothing of `d`'s payments for `o` through the agent depends on the transaction. -/
structure LeavesAlone (o : Address) (agentId : Bytes32) (d : Address) (e : World D × Tx D) :
    Prop where
  quiet : QuietOf o e
  delegate : e.2.sender = o → ∀ approved, e.2.call ≠ .setAgentDelegate agentId d approved
  payment : ∀ req, e.2.call = .executeWithGuard req → req.owner ≠ o
  debit : ¬ OtherDebit e.1 o e.2.sender e.2.call
  approval : e.2.sender = o → ∀ spender value, e.2.call ≠ .usdcApprove spender value
  signer : ∀ key, e.2.call ≠ .setTraceAckSigner key

namespace Unaffected

theorem refl (o : Address) (agentId : Bytes32) (d : Address) (w : World D) :
    Unaffected o agentId d w w :=
  ⟨rfl, rfl, rfl, rfl, rfl, rfl, le_rfl, rfl, le_rfl⟩

theorem trans {w₁ w₂ w₃ : World D} (h : Unaffected o agentId d w₁ w₂)
    (h' : Unaffected o agentId d w₂ w₃) :
    Unaffected o agentId d w₁ w₃ where
  delegate := h'.delegate.trans h.delegate
  active := h'.active.trans h.active
  config := h'.config.trans h.config
  spent := h'.spent.trans h.spent
  nonce := h'.nonce.trans h.nonce
  signer := h'.signer.trans h.signer
  balance := h.balance.trans h'.balance
  allowance := h'.allowance.trans h.allowance
  now := h.now.trans h'.now

end Unaffected

theorem stakeVault_ne_guardedExecutor : D.stakeVault ≠ D.guardedExecutor := by
  have h := D.nodup
  simp only [List.nodup_cons, List.mem_cons, not_or] at h
  exact h.2.2.1.1

theorem challengeArbiter_ne_guardedExecutor : D.challengeArbiter ≠ D.guardedExecutor := by
  have h := D.nodup
  simp only [List.nodup_cons, List.mem_cons, not_or] at h
  exact fun heq => h.2.2.2.1.2.1 heq.symm

/-- Only the owner's approval and payments for the owner move what the executor may draw. -/
theorem allowance_of_effect (hI : Basics w) (hext : sender ∉ D.contracts)
    (h : Effect w sender call w') (hpayment : ∀ req, call = .executeWithGuard req → req.owner ≠ o)
    (happroval : sender = o → ∀ spender value, call ≠ .usdcApprove spender value) :
    D.token.allowance w'.usdc o D.guardedExecutor =
      D.token.allowance w.usdc o D.guardedExecutor := by
  have hpull : ∀ {u u' : D.token.State} {sp src dst v},
      D.token.transferFrom u sp src dst v = some u' →
      sp ≠ D.guardedExecutor →
        D.token.allowance u' o D.guardedExecutor = D.token.allowance u o D.guardedExecutor :=
    fun hu hsp => D.token.allowance_transferFrom_other hu fun heq => hsp (Prod.mk.inj heq).2.symm
  cases h with
  | stake _ _ _ _ hu => exact hpull hu stakeVault_ne_guardedExecutor
  | deposit hs => exact absurd hs (hI.not_agentRegistry hext)
  | slash hs => exact absurd hs (hI.not_challengeArbiter hext)
  | @executeWithGuard req u _ hu =>
    exact D.token.allowance_transferFrom_other hu fun heq =>
      hpayment req rfl (Prod.mk.inj heq).1.symm
  | fileAmountViolation _ _ hbond hpay hrefund =>
    simp only [filed, D.token.allowance_transfer hrefund, D.token.allowance_transfer hpay]
    exact hpull hbond challengeArbiter_ne_guardedExecutor
  | uphold _ _ _ _ _ hpay => simp only [D.token.allowance_transfer hpay]
  | usdcTransfer hu => simp only [D.token.allowance_transfer hu]
  | usdcTransferFrom hu =>
    refine hpull hu ?_
    rintro rfl
    exact hext (by simp [Deployment.contracts])
  | usdcApprove hu =>
    refine D.token.allowance_approve_other hu ?_
    rintro rfl
    exact happroval rfl _ _ rfl
  | usdcMint hu => simp only [D.token.allowance_mint hu]
  | _ => rfl

theorem signer_of_effect (h : Effect w sender call w')
    (hcall : ∀ key, call ≠ .setTraceAckSigner key) :
    w'.executor.traceAckSigner = w.executor.traceAckSigner := by
  cases h with
  | setTraceAckSigner => exact absurd rfl (hcall _)
  | _ => rfl

/-- Only a payment for the owner adds to its daily totals and counts its executions up. -/
theorem totals_of_effect (h : Effect w sender call w')
    (hpayment : ∀ req, call = .executeWithGuard req → req.owner ≠ o) :
    w'.executor.spentByDay o = w.executor.spentByDay o ∧
    w'.executor.execNonce o = w.executor.execNonce o := by
  cases h with
  | @executeWithGuard req =>
    have hne : o ≠ req.owner := (hpayment req rfl).symm
    exact ⟨update_of_ne hne .., update_of_ne hne ..⟩
  | _ => exact ⟨rfl, rfl⟩

theorem unaffected_of_effect (hr : Reachable g w) {tx : Tx D} (h : Effect w tx.sender tx.call w')
    (hactive : w.registry.activeIntentHash o ≠ 0) (hleaves : LeavesAlone o agentId d (w, tx)) :
    Unaffected o agentId d w w' := by
  obtain ⟨as, rfl⟩ := hr
  -- the active intent was committed, so nobody else's commit replaces its config
  obtain ⟨c, hc, -, hhash⟩ := (registryInv g as).active o hactive
  have htaken := ((registryInv g as).exists_iff _).2 ⟨c, hc, rfl⟩
  rw [hhash] at htaken
  have hheld := Held.effect ⟨rfl, rfl, rfl, htaken⟩ hleaves.quiet h
  have htotals := totals_of_effect h hleaves.payment
  exact
    { delegate := by
        by_contra hne
        obtain ⟨hsender, approved, hcall, -⟩ := delegates_of_effect h hne
        exact hleaves.delegate hsender approved hcall
      active := hheld.active
      config := by
        rw [activeConfig, hheld.active]
        exact hheld.config
      spent := htotals.1
      nonce := htotals.2
      signer := signer_of_effect h hleaves.signer
      balance := by
        by_contra hlt
        rcases debit_of_effect (reachable_run _ as) tx.sender_ne_zero tx.external h
          (Nat.not_le.1 hlt) with h | h
        · obtain ⟨req, hcall, -, howner, -⟩ := h
          exact hleaves.payment req hcall howner
        · exact hleaves.debit h
      allowance := allowance_of_effect (basics (reachable_run _ as)) tx.external h hleaves.payment
        hleaves.approval
      now := (now_of_effect h).ge }

theorem unaffected_run (hr : Reachable g w) (hactive : w.registry.activeIntentHash o ≠ 0)
    (as : List (Action D))
    (hleaves : ∀ e ∈ (visits step w as).filterMap accepted, LeavesAlone o agentId d e) :
    Unaffected o agentId d w (run step w as) := by
  refine Runs.history_induction (C := fun w a => ∀ e, accepted (w, a) = some e →
    LeavesAlone o agentId d e)
    (J := fun _ w' => Unaffected o agentId d w w') (.refl o agentId d w) ?_ as
    fun v hv e he => hleaves e (List.mem_filterMap.2 ⟨v, hv, he⟩)
  intro _ w₁ a hreach hsame hC
  rcases a with n | tx
  · exact hsame.trans { Unaffected.refl o agentId d w₁ with now := Nat.le_add_right _ _ }
  rcases hx : exec w₁ tx.sender tx.call with err | w₂
  · rwa [step, apply_of_error hx]
  rw [step, apply_of_ok hx]
  have hr₁ : Reachable g w₁ := by
    obtain ⟨as, rfl⟩ := hr
    obtain ⟨bs, rfl⟩ := hreach
    exact ⟨as ++ bs, run_append _ _ _ _⟩
  refine hsame.trans (unaffected_of_effect hr₁ (effect_of_exec hx) ?_ (hC _ (accepted_of_ok hx)))
  rwa [hsame.active]

/-! ### The guard -/

theorem spentByDay_of_lt (hr : Reachable g w) (o : Address) :
    ∀ day, w.now / days1 < day → w.executor.spentByDay o day = 0 := by
  refine hr.invariant (I := fun w => ∀ day, w.now / days1 < day → w.executor.spentByDay o day = 0)
    (fun _ _ => rfl) ?_ ?_
  · intro w n hI day hday
    exact hI day ((Nat.div_le_div_right (Nat.le_add_right _ _)).trans_lt hday)
  · intro w w' tx _ hI h day hday
    rw [now_of_effect h] at hday
    rcases executor_of_effect h with ⟨req, -, -, heq⟩ | ⟨-, -, hspent, -⟩
    · rw [heq, executed_spentByDay, hI day hday, if_neg fun h => hday.ne h.2]
    · rw [hspent]
      exact hI day hday

/-- The day's sum is no larger later, when nothing has been paid for the owner since. -/
theorem spent_le (hr : Reachable g w) (h : Unaffected o agentId d w w') :
    w'.executor.spentByDay o (w'.now / days1) ≤ w.executor.spentByDay o (w.now / days1) := by
  rw [h.spent]
  rcases (Nat.div_le_div_right (c := days1) h.now).eq_or_lt with hday | hday
  · rw [hday]
  · rw [spentByDay_of_lt hr o _ hday]
    exact Nat.zero_le _

theorem checkGuard_of_expired (hreq : Addressed w sender req)
    (hactive : w.registry.activeIntentHash req.owner ≠ 0)
    (hexpiry : (activeConfig w req.owner).expiry.toNat ≤ w.now) :
    GuardedExecutor._checkGuard w sender req =
      .ok (.RED, GuardConstants.INTENT_EXPIRED D.keccak) := by
  rw [activeConfig] at hexpiry
  simp [GuardedExecutor._checkGuard, IntentRegistry.getActiveIntentHash, IntentRegistry.getIntent,
    hreq.delegate, hreq.token, hactive, hexpiry]

/-- The guard's answer is the acknowledgement's when everything before it passes. -/
theorem checkGuard_of_allowed (h : Allowed w sender req)
    (hcap : w.executor.spentByDay req.owner (w.now / days1) + req.amount ≤
      (activeConfig w req.owner).maxSpendPerDay) :
    GuardedExecutor._checkGuard w sender req = .ok (GuardedExecutor.checkTraceAck w req) := by
  have hexpiry := Nat.not_le.2 h.notExpired
  have htarget := h.counterparty
  have hsum := checkedAdd_eq_ok.2 ⟨h.noOverflow, rfl⟩
  rw [activeConfig] at hexpiry htarget hcap
  simp only [GuardedExecutor._checkGuard, IntentRegistry.getActiveIntentHash,
    IntentRegistry.getIntent, h.delegate, h.token, h.active, hexpiry, htarget, hsum,
    Nat.not_lt.2 hcap, bind, Except.bind, pure, Except.pure, ne_eq,
    not_true_eq_false, reduceCtorEq, if_false]

/-- Of an acknowledgement that the guard has taken, only the expiry can change. -/
theorem checkTraceAck_later (hack : GuardedExecutor.checkTraceAck w req = (.GREEN, 0))
    (hsigner : w'.executor.traceAckSigner = w.executor.traceAckSigner) :
    GuardedExecutor.checkTraceAck w' req =
      if req.traceAck.expiresAt.toNat ≤ w'.now then
        (.RED, GuardConstants.TRACE_ACK_EXPIRED D.keccak) else (.GREEN, 0) := by
  simp only [GuardedExecutor.checkTraceAck] at hack ⊢
  split_ifs at hack with hexpired huri hrecover
  · exact absurd (Prod.mk.inj hack).1 (by simp)
  · exact absurd (Prod.mk.inj hack).1 (by simp)
  · exact absurd (Prod.mk.inj hack).1 (by simp)
  · rw [hsigner, if_neg huri, if_neg hrecover]

/-! ### The simulated payment -/

/-- What `executeWithGuard` returns or reverts with. -/
def executionResult (w : World D) (sender : Address) (req : ExecutionRequest) :
    Except Revert Bytes32 :=
  Prod.snd <$> GuardedExecutor.executeWithGuard w sender req

/-- A payment that a simulation accepts is executed under the simulated id at any later time before
its intent and its acknowledgement expire, and is rejected for the one that expired from then on, if
the transactions in between leave it alone. -/
theorem simulated_execution (hr : Reachable g w) {id : Bytes32}
    (hsim : executionResult w d req = .ok id) (as : List (Action D))
    (hleaves : ∀ e ∈ (visits step w as).filterMap accepted, LeavesAlone req.owner req.agentId d e) :
    executionResult (run step w as) d req =
      if (activeConfig w req.owner).expiry.toNat ≤ (run step w as).now then
        .error (.GuardRejected (GuardConstants.INTENT_EXPIRED D.keccak))
      else if req.traceAck.expiresAt.toNat ≤ (run step w as).now then
        .error (.GuardRejected (GuardConstants.TRACE_ACK_EXPIRED D.keccak))
      else .ok id := by
  obtain ⟨⟨w₁, _⟩, hexec, rfl⟩ := map_eq_ok.1 hsim
  obtain ⟨hg, hid, u, hpay, -⟩ := executeWithGuard_eq_ok.1 hexec
  have hsame := unaffected_run hr hg.active as hleaves
  generalize run step w as = w' at hsame ⊢
  have hreq : Addressed w' d req := ⟨hsame.delegate.trans hg.delegate, hg.token⟩
  have hactive : w'.registry.activeIntentHash req.owner ≠ 0 := hsame.active.symm ▸ hg.active
  have hred : ∀ {c}, GuardedExecutor._checkGuard w' d req = .ok (.RED, c) →
      executionResult w' d req = .error (.GuardRejected c) := by
    intro c h
    rw [executionResult, execute_of_red h]
    rfl
  have hspent := Nat.add_le_add_right (spent_le hr hsame) req.amount
  split_ifs with hexpiry hexpired
  · apply hred
    apply checkGuard_of_expired hreq hactive
    rwa [hsame.config]
  all_goals
    have hallowed : Allowed w' d req :=
      ⟨hreq, hactive, by rw [hsame.config]; exact Nat.not_le.1 hexpiry,
        by rw [hsame.config]; exact hg.counterparty,
        hspent.trans_lt hg.noOverflow⟩
    have hcap : w'.executor.spentByDay req.owner (w'.now / days1) + req.amount ≤
        (activeConfig w' req.owner).maxSpendPerDay := by
      rw [hsame.config]
      exact hspent.trans hg.dayCap
    have hguard := checkGuard_of_allowed hallowed hcap
    rw [checkTraceAck_later hg.ack hsame.signer] at hguard
  · rw [if_pos hexpired] at hguard
    exact hred hguard
  · rw [if_neg hexpired] at hguard
    have hg' := (checkGuard_green.1 hguard).1
    obtain ⟨htarget, hbalance, hallowance⟩ :=
      D.token.transferFrom_bounds D.guardedExecutor_ne_zero hpay
    obtain ⟨u', hpay'⟩ :=
      D.token.exists_transferFrom D.guardedExecutor_ne_zero (D.token.from_ne_zero hpay) htarget
      (hbalance.trans hsame.balance) (hallowance.trans hsame.allowance.ge)
    rw [executionResult, executeWithGuard_eq_ok.2 ⟨hg', rfl, u', hpay', rfl⟩]
    simp only [nextReceiptId, hsame.nonce] at hid ⊢
    exact congrArg Except.ok hid

namespace Localnet

/-- The challenger sends alice money, and two days pass. -/
def meanwhile : List (Action localnet) :=
  [send challenger (.usdcTransfer alice 5000000) challenger_external, .elapse (2 * days1)]

end Localnet

open Localnet in
theorem simulated_execution_meanwhile :
    executionResult (run step (run step (init genesis) (setUp 50000000)) meanwhile) delegate
      (payment 15000000) =
      .ok firstId := by
  have hr : Reachable genesis (run step (init genesis) (setUp 50000000)) := reachable_run _ _
  have hsim : executionResult (run step (init genesis) (setUp 50000000)) delegate
      (payment 15000000) = .ok firstId := by
    decide +kernel
  have h := simulated_execution hr hsim meanwhile ?_
  · rw [h, if_neg (by decide +kernel), if_neg (by decide +kernel)]
  intro e he
  obtain ⟨v, hv, hacc⟩ := List.mem_filterMap.1 he
  simp only [meanwhile, visits_cons, visits_nil, List.mem_cons, List.not_mem_nil, or_false] at hv
  rcases hv with rfl | rfl
  · simp only [accepted, send, Option.ite_none_right_eq_some, Option.some.injEq] at hacc
    obtain ⟨-, rfl⟩ := hacc
    have hne : challenger ≠ alice := by decide
    refine ⟨⟨fun h => hne h.1, fun h => hne h.1⟩, fun h => absurd h hne, ?_, ?_,
      fun h => absurd h hne, ?_⟩
    · simp
    · intro h
      cases h with
      | transfer h => exact hne h
      | slash ho => exact absurd ho (by decide)
    · simp
  · simp [accepted] at hacc

end IntentGuard
