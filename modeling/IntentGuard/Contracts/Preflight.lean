import IntentGuard.Contracts.History

/-!
# Preflight

`preflightCheck` answers what the guard of `executeWithGuard` decides, without executing. The guard
adds the request's amount to what was spent that day in checked arithmetic, so the one thing it can
do besides deciding is to panic: `checkGuard_error` says when, `checkGuard_cases` that nothing else
happens, and `preflight_agrees_iff` that the two entry points agree on every request that does not
reach the panic.
-/

namespace IntentGuard

open Function

variable {D : Deployment} {w w' : World D} {sender : Address} {req : ExecutionRequest}

/-- The request passes every check before the day cap, and the day's sum does not fit a
`uint256`. -/
structure DaySumOverflows (w : World D) (sender : Address) (req : ExecutionRequest) : Prop where
  delegate : w.executor.delegates req.owner req.agentId sender = true
  token : req.token = D.USDC
  active : w.registry.activeIntentHash req.owner ≠ 0
  notExpired : w.now <
    (w.registry.intentConfig (w.registry.activeIntentHash req.owner)).expiry.toNat
  counterparty :
    req.target ∈
      (w.registry.intentConfig (w.registry.activeIntentHash req.owner)).allowedCounterparties
  overflow : 2 ^ 256 ≤ w.executor.spentByDay req.owner (w.now / days1) + req.amount

theorem checkedAdd_eq_error {a b : ℕ} {e : Revert} :
    checkedAdd a b = .error e ↔ 2 ^ 256 ≤ a + b ∧ e = .ArithmeticOverflow := by
  rw [checkedAdd]
  split_ifs with h
  · exact ⟨fun hc => absurd hc (by simp), fun hc => absurd h (Nat.not_lt.2 hc.1)⟩
  · exact ⟨fun hc => ⟨Nat.not_lt.1 h, (Except.error.inj hc).symm⟩,
      fun hc => congrArg Except.error hc.2.symm⟩

/-- A check that answers RED when `c` holds fails only where the rest does. -/
theorem red_else_eq_error {c : Prop} [Decidable c] {red : Bytes32} {e : Revert}
    {rest : Except Revert (GuardDecision × Bytes32)} :
    (if c then .ok (.RED, red) else rest) = .error e ↔ ¬ c ∧ rest = .error e := by
  by_cases h : c <;> simp [h]

theorem bind_pure_eq_error {α β ε : Type} {x : Except ε α} {f : α → β} {e : ε} :
    (x >>= fun a => pure (f a)) = .error e ↔ x = .error e := by
  cases x <;> simp [bind, Except.bind, pure, Except.pure]

/-- The guard fails in one way only. -/
theorem checkGuard_error {e : Revert} :
    GuardedExecutor._checkGuard w sender req = .error e ↔
      DaySumOverflows w sender req ∧ e = .ArithmeticOverflow := by
  have hsum : ∀ {b : Bytes32} {n m : ℕ} {t : GuardDecision × Bytes32},
      ((checkedAdd n req.amount >>= fun spent =>
        if spent > m then pure (.RED, b) else pure t) = Except.error e) ↔
        2 ^ 256 ≤ n + req.amount ∧ e = .ArithmeticOverflow := by
    intro b n m t
    simp only [← apply_ite pure]
    rw [bind_pure_eq_error, checkedAdd_eq_error]
  unfold GuardedExecutor._checkGuard IntentRegistry.getActiveIntentHash IntentRegistry.getIntent
  simp only [red_else_eq_error, hsum]
  constructor
  · intro h
    obtain ⟨hdelegate, htoken, hactive, hexpiry, htarget, hover, rfl⟩ := h
    exact ⟨⟨by simpa using hdelegate, not_not.1 htoken, hactive, Nat.not_le.1 hexpiry,
      not_not.1 htarget, hover⟩, rfl⟩
  · intro h
    obtain ⟨ho, rfl⟩ := h
    exact ⟨by simp [ho.delegate], not_not.2 ho.token, ho.active, Nat.not_le.2 ho.notExpired,
      not_not.2 ho.counterparty, ho.overflow, rfl⟩

theorem checkTraceAck_cases (w : World D) (req : ExecutionRequest) :
    (∃ c, GuardedExecutor.checkTraceAck w req = (.RED, c)) ∨ GuardedExecutor.checkTraceAck w req =
      (.GREEN, 0) := by
  simp only [GuardedExecutor.checkTraceAck]
  split_ifs
  · exact .inl ⟨_, rfl⟩
  · exact .inl ⟨_, rfl⟩
  · exact .inl ⟨_, rfl⟩
  · exact .inr rfl

/-- The guard decides RED with a reason, decides GREEN, or panics. -/
theorem checkGuard_cases (w : World D) (sender : Address) (req : ExecutionRequest) :
    (∃ c, GuardedExecutor._checkGuard w sender req = .ok (.RED, c)) ∨
      GuardedExecutor._checkGuard w sender req = .ok (.GREEN, 0) ∨
      GuardedExecutor._checkGuard w sender req = .error .ArithmeticOverflow := by
  rcases hcheck : GuardedExecutor._checkGuard w sender req with e | ⟨decision, c⟩
  · obtain ⟨-, rfl⟩ := checkGuard_error.1 hcheck
    exact .inr (.inr rfl)
  cases decision with
  | RED => exact .inl ⟨c, rfl⟩
  | GREEN =>
    obtain ⟨-, rfl⟩ := checkGuard_green.1 hcheck
    exact .inr (.inl rfl)
  | YELLOW =>
    exfalso
    unfold GuardedExecutor._checkGuard at hcheck
    have hyellow :
        ∀ {p : Prop} [Decidable p] {b : Bytes32} {rest : Except Revert (GuardDecision × Bytes32)},
        (if p then .ok (.RED, b) else rest) = .ok (.YELLOW, c) → rest = .ok (.YELLOW, c) := by
      intro p _ b rest h
      split_ifs at h with hp
      · exact absurd h (by simp)
      · exact h
    have hack := hyellow (hyellow (hyellow (hyellow (hyellow hcheck))))
    obtain ⟨spent, -, hack⟩ := bind_eq_ok.1 hack
    have hack := hyellow hack
    rcases checkTraceAck_cases w req with ⟨b, hb⟩ | hb
    · rw [hb] at hack
      exact absurd (Except.ok.inj hack) (by simp)
    · rw [hb] at hack
      exact absurd (Except.ok.inj hack) (by simp)

/-! ### The two entry points -/

theorem execute_of_red {c : Bytes32}
    (h : GuardedExecutor._checkGuard w sender req = .ok (.RED, c)) :
    GuardedExecutor.executeWithGuard w sender req = .error (.GuardRejected c) := by
  unfold GuardedExecutor.executeWithGuard
  rw [h]
  rfl

/-- Once the guard has passed, only the payment can fail. -/
theorem execute_of_green (h : GuardedExecutor._checkGuard w sender req = .ok (.GREEN, 0))
    (c : Bytes32) :
    GuardedExecutor.executeWithGuard w sender req ≠ .error (.GuardRejected c) := by
  have hg := (checkGuard_green.1 h).1
  cases hpay : D.token.transferFrom w.usdc D.guardedExecutor req.owner req.target req.amount with
  | some u =>
    rw [executeWithGuard_eq_ok.2 ⟨hg, rfl, u, hpay, rfl⟩]
    simp
  | none =>
    have hadd := checkedAdd_eq_ok.2 ⟨hg.noOverflow, rfl⟩
    unfold GuardedExecutor.executeWithGuard
    rw [h]
    intro herr
    simp only [bind, Except.bind, revertIf, hadd, World.safeTransferFrom, World.emit, hpay,
      orRevert] at herr
    simp at herr

theorem execute_of_panic
    (h : GuardedExecutor._checkGuard w sender req = .error .ArithmeticOverflow) :
    GuardedExecutor.executeWithGuard w sender req = .error .ArithmeticOverflow := by
  unfold GuardedExecutor.executeWithGuard
  rw [h]
  rfl

/-- `preflightCheck` answers, RED exactly with the reason that `executeWithGuard` is rejected for,
GREEN without a reason; and a request that is not executed changes nothing. -/
structure PreflightAgrees (w : World D) (sender : Address) (req : ExecutionRequest) : Prop where
  answers : ∃ decision reasonCode, GuardedExecutor.preflightCheck w sender req =
    .ok (decision, reasonCode)
  red_iff : ∀ c, GuardedExecutor.preflightCheck w sender req = .ok (.RED, c) ↔
    GuardedExecutor.executeWithGuard w sender req = .error (.GuardRejected c)
  green : ∀ c, GuardedExecutor.preflightCheck w sender req = .ok (.GREEN, c) → c = 0
  unchanged : ∀ e, GuardedExecutor.executeWithGuard w sender req = .error e →
    ∀ tx : Tx D, tx.sender = sender → tx.call = .executeWithGuard req → apply w tx = w

theorem red_iff_rejected (c : Bytes32) :
    GuardedExecutor.preflightCheck w sender req = .ok (.RED, c) ↔
      GuardedExecutor.executeWithGuard w sender req = .error (.GuardRejected c) := by
  unfold GuardedExecutor.preflightCheck
  rcases checkGuard_cases w sender req with ⟨c', h⟩ | h | h
  · rw [execute_of_red h, h]
    simp
  · rw [h]
    exact iff_of_false (by simp) (execute_of_green h c)
  · rw [execute_of_panic h, h]
    simp

theorem apply_of_execute_error {e : Revert}
    (h : GuardedExecutor.executeWithGuard w sender req = .error e) {tx : Tx D}
    (hsender : tx.sender = sender) (hcall : tx.call = .executeWithGuard req) : apply w tx = w := by
  apply apply_of_error (e := e)
  rw [hsender, hcall, exec, h]
  rfl

/-- Preflight and execution agree, and preflight answers, on exactly the requests whose day's sum
the guard does not reach or fits a `uint256`. -/
theorem preflight_agrees_iff (w : World D) (sender : Address) (req : ExecutionRequest) :
    PreflightAgrees w sender req ↔ ¬ DaySumOverflows w sender req := by
  constructor
  · intro h ho
    obtain ⟨decision, c, hok⟩ := h.answers
    rw [GuardedExecutor.preflightCheck, checkGuard_error.2 ⟨ho, rfl⟩] at hok
    exact absurd hok (by simp)
  · intro hno
    refine ⟨?_, red_iff_rejected, ?_, fun e he tx => apply_of_execute_error he⟩
    · rcases checkGuard_cases w sender req with ⟨c, h⟩ | h | h
      · exact ⟨.RED, c, h⟩
      · exact ⟨.GREEN, 0, h⟩
      · exact absurd (checkGuard_error.1 h).1 hno
    · intro c h
      exact (checkGuard_green.1 h).2

open Localnet in
/-- After a payment of 15 USDC the largest `uint256` amount makes preflight panic. -/
theorem preflight_panics :
    ¬ ∀ (D : Deployment) (g : Genesis D) (w : World D), Runs.Reachable step (init g) w →
      ∀ (sender : Address) (req : ExecutionRequest), req.amount < 2 ^ 256 →
        PreflightAgrees w sender req := by
  intro h
  have h := h localnet genesis _ (Runs.reachable_run _ (twoPayments 100000000)) delegate
    (payment (2 ^ 256 - 1))
    (by decide)
  rw [preflight_agrees_iff] at h
  apply h
  refine ⟨?_, ?_, ?_, ?_, ?_, ?_⟩ <;> decide +kernel

end IntentGuard
