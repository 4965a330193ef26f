import IntentGuard.Contracts.Effect

/-!
# Histories and the basic invariants

The history of a run is the list of its successful transactions, each with the state it ran in. A
reverted transaction and the passing of time leave no entry.

* `Reachable.invariant` and `history_induction`: the rules of `Runs` with the step taken apart into
  time passing and an `Effect`. Every invariant of the system is proved by one of the two.
* `Basics`: the vault stays wired to the two contracts of the deployment, no contract ever approves
  a spender, and an account with a delegate is not a contract. All three rest on the same fact, that
  no contract of the system is ever the sender of a transaction.
-/

namespace IntentGuard

open Function Runs

variable {D : Deployment} {g : Genesis D} {w w' : World D}

/-! ### Histories -/

/-- The transaction of a visit, when it succeeds. -/
def accepted : World D × Action D → Option (World D × Tx D)
  | (_, .elapse _) => none
  | (w, .send tx) => if (exec w tx.sender tx.call).isOk then some (w, tx) else none

/-- The successful transactions of a run, in order, each with the state it ran in. -/
def history (g : Genesis D) (as : List (Action D)) : List (World D × Tx D) :=
  (visits step (init g) as).filterMap accepted

theorem history_append (as bs : List (Action D)) :
    history g (as ++ bs) = history g as ++
    (visits step (run step (init g) as) bs).filterMap accepted := by
  simp only [history, visits_append, List.filterMap_append]

theorem apply_of_ok {tx : Tx D} (h : exec w tx.sender tx.call = .ok w') : apply w tx = w' := by
  simp only [apply, h]

theorem apply_of_error {tx : Tx D} {e : Revert} (h : exec w tx.sender tx.call = .error e) :
    apply w tx = w := by
  simp only [apply, h]

theorem accepted_of_ok {tx : Tx D} (h : exec w tx.sender tx.call = .ok w') :
    accepted (w, .send tx) = some (w, tx) := by
  simp only [accepted, h, Except.isOk, Except.toBool, if_true]

theorem accepted_of_error {tx : Tx D} {e : Revert} (h : exec w tx.sender tx.call = .error e) :
    accepted (w, .send tx) = none := by
  simp only [accepted, h, Except.isOk, Except.toBool, Bool.false_eq_true, if_false]

theorem mem_visits_of_mem_history {as : List (Action D)} {e : World D × Tx D}
    (he : e ∈ history g as) :
    (e.1, .send e.2) ∈ visits step (init g) as := by
  obtain ⟨⟨w, a⟩, hv, ha⟩ := List.mem_filterMap.1 he
  rcases a with n | tx
  · simp [accepted] at ha
  rcases hx : exec w tx.sender tx.call with err | w'
  · rw [accepted_of_error hx] at ha
    exact absurd ha (by simp)
  · rw [accepted_of_ok hx] at ha
    obtain rfl := Option.some.inj ha
    exact hv

/-! ### The two rules -/

/-- An invariant that time and every effect keep holds in every reachable state. -/
theorem Reachable.invariant {I : World D → Prop} (hr : Reachable g w) (hinit : I (init g))
    (helapse : ∀ w n, I w → I { w with now := w.now + n })
    (heffect : ∀ w w' (tx : Tx D), Reachable g w → I w → Effect w tx.sender tx.call w' → I w') :
    I w := by
  refine (Runs.Reachable.induction (I := fun w => Reachable g w ∧ I w) hr ⟨.refl _, hinit⟩ ?_).2
  intro w a h
  obtain ⟨hw, hI⟩ := h
  refine ⟨hw.next a, ?_⟩
  rcases a with n | tx
  · exact helapse w n hI
  rcases hx : exec w tx.sender tx.call with err | w'
  · rwa [step, apply_of_error hx]
  · rw [step, apply_of_ok hx]
    exact heffect w w' tx hw hI (effect_of_exec hx)

/-- A property of the history and the state, along the runs whose every successful transaction meets
`C`. -/
theorem history_induction {C : World D → Tx D → Prop} {J : List (World D × Tx D) → World D → Prop}
    (hinit : J [] (init g)) (helapse : ∀ h w n, J h w → J h { w with now := w.now + n })
    (heffect : ∀ h w w' (tx : Tx D), Reachable g w → J h w → C w tx →
      exec w tx.sender tx.call = .ok w' → J (h ++ [(w, tx)]) w')
    (as : List (Action D)) (hC : ∀ e ∈ history g as, C e.1 e.2) :
    J (history g as) (run step (init g) as) := by
  refine Runs.history_induction (C := fun w a => ∀ e, accepted (w, a) = some e → C e.1 e.2)
    (J := fun vs w => J (vs.filterMap accepted) w) hinit ?_ as fun v hv e he =>
      hC e (List.mem_filterMap.2 ⟨v, hv, he⟩)
  intro vs w a hw hJ hCa
  simp only [List.filterMap_append, List.filterMap_cons, List.filterMap_nil]
  rcases a with n | tx
  · simp only [accepted, List.append_nil]
    exact helapse _ w n hJ
  rcases hx : exec w tx.sender tx.call with err | w'
  · simp only [accepted_of_error hx, List.append_nil]
    rwa [step, apply_of_error hx]
  · simp only [accepted_of_ok hx]
    rw [step, apply_of_ok hx]
    exact heffect _ w w' tx hw hJ (hCa (w, tx) (accepted_of_ok hx)) hx

/-- A reflexive and transitive relation that time and every effect satisfy holds between any
reachable state and any later one. -/
theorem later_rel {R : World D → World D → Prop} (hrefl : ∀ w, R w w)
    (htrans : ∀ w₁ w₂ w₃, R w₁ w₂ → R w₂ w₃ → R w₁ w₃)
    (helapse : ∀ w n, R w { w with now := w.now + n })
    (heffect : ∀ w w' (tx : Tx D), Reachable g w → Effect w tx.sender tx.call w' → R w w')
    (hr : Reachable g w) (as : List (Action D)) : R w (run step w as) := by
  induction as generalizing w with
  | nil => exact hrefl w
  | cons a as ih =>
    refine htrans _ _ _ ?_ (ih (hr.next a))
    rcases a with n | tx
    · exact helapse w n
    rcases hx : exec w tx.sender tx.call with err | w'
    · rw [step, apply_of_error hx]
      exact hrefl w
    · rw [step, apply_of_ok hx]
      exact heffect w w' tx hr (effect_of_exec hx)

/-! ### The basic invariants -/

structure Basics (w : World D) : Prop where
  now_pos : 0 < w.now
  agentRegistry : w.vault.agentRegistry = D.agentRegistry
  challengeArbiter : w.vault.challengeArbiter = D.challengeArbiter
  approves_nobody : ∀ c ∈ D.contracts, ∀ a, D.token.allowance w.usdc c a = 0
  owner_external : ∀ o agentId d, w.executor.delegates o agentId d = true → o ≠ 0 ∧ o ∉ D.contracts

section
variable {sender : Address} {call : Call}

/-- Time passes between transactions only. -/
theorem now_of_effect (h : Effect w sender call w') : w'.now = w.now := by cases h <;> rfl

/-- The two entry points of the vault are closed to every account. -/
theorem Basics.not_agentRegistry (hI : Basics w) (hext : sender ∉ D.contracts) :
    sender ≠ w.vault.agentRegistry := by
  rw [hI.agentRegistry]
  exact fun h => hext (h ▸ D.agentRegistry_mem)

theorem Basics.not_challengeArbiter (hI : Basics w) (hext : sender ∉ D.contracts) :
    sender ≠ w.vault.challengeArbiter := by
  rw [hI.challengeArbiter]
  exact fun h => hext (h ▸ D.challengeArbiter_mem)

/-- `setWiring` has been called. -/
theorem Basics.wired (hI : Basics w) :
    ¬ (w.vault.agentRegistry = 0 ∧ w.vault.challengeArbiter = 0) := by
  rw [hI.agentRegistry]
  exact fun h => D.agentRegistry_ne_zero h.1

theorem approves_nobody_of_effect (hI : Basics w) (hext : sender ∉ D.contracts)
    (h : Effect w sender call w') : ∀ c ∈ D.contracts, ∀ a, D.token.allowance w'.usdc c a = 0 := by
  intro c hc a
  have hold := hI.approves_nobody c hc a
  have hpull : ∀ {u u' : D.token.State} {sp src dst v},
      D.token.transferFrom u sp src dst v = some u' →
      D.token.allowance u c a = 0 → D.token.allowance u' c a = 0 := fun hu h0 =>
    Nat.eq_zero_of_le_zero ((D.token.allowance_transferFrom_le hu c a).trans h0.le)
  cases h with
  | stake _ _ _ _ hu => exact hpull hu hold
  | deposit hsender => exact absurd hsender (hI.not_agentRegistry hext)
  | slash hsender => exact absurd hsender (hI.not_challengeArbiter hext)
  | executeWithGuard _ hu => exact hpull hu hold
  | fileAmountViolation _ _ hbond hpay hrefund =>
    simp only [filed, D.token.allowance_transfer hrefund, D.token.allowance_transfer hpay]
    exact hpull hbond hold
  | uphold _ _ _ _ _ hpay => simpa only [D.token.allowance_transfer hpay] using hold
  | usdcTransfer hu => simpa only [D.token.allowance_transfer hu] using hold
  | usdcTransferFrom hu => exact hpull hu hold
  | usdcApprove hu =>
    -- the approving account is the sender, which is not a contract
    have hne : c ≠ sender := fun heq => hext (heq ▸ hc)
    exact (D.token.allowance_approve_other hu hne).trans hold
  | usdcMint hu => simpa only [D.token.allowance_mint hu] using hold
  | _ => exact hold

/-- The only writer of a delegation is the owner whose delegation it is. -/
theorem delegates_of_effect (h : Effect w sender call w') {o : Address}
    {agentId : Bytes32} {d : Address}
    (hd : w'.executor.delegates o agentId d ≠ w.executor.delegates o agentId d) :
    sender = o ∧ ∃ approved, call = .setAgentDelegate agentId d approved ∧
      w'.executor.delegates o agentId d = approved := by
  cases h with
  | @setAgentDelegate agent delegate approved =>
    simp only [GuardedExecutor.setAgentDelegate, World.emit] at hd ⊢
    by_cases ho : o = sender
    · subst ho
      by_cases ha : agentId = agent
      · subst ha
        by_cases hdel : d = delegate
        · subst hdel
          exact ⟨rfl, approved, rfl, by simp⟩
        · simp [hdel] at hd
      · simp [ha] at hd
    · simp [ho] at hd
  | _ => exact absurd rfl hd

theorem Basics.effect (hI : Basics w) (hne : sender ≠ 0) (hext : sender ∉ D.contracts)
    (h : Effect w sender call w') : Basics w' where
  now_pos := by cases h <;> exact hI.now_pos
  agentRegistry := by
    cases h with
    | setWiring _ hunset => exact absurd hunset hI.wired
    | _ => exact hI.agentRegistry
  challengeArbiter := by
    cases h with
    | setWiring _ hunset => exact absurd hunset hI.wired
    | _ => exact hI.challengeArbiter
  approves_nobody := approves_nobody_of_effect hI hext h
  owner_external := by
    intro o agentId d hd
    by_cases hw : w.executor.delegates o agentId d = true
    · exact hI.owner_external o agentId d hw
    · have hsender : sender = o := (delegates_of_effect h (by rw [hd]; exact Ne.symm hw)).1
      exact hsender ▸ ⟨hne, hext⟩

end

theorem basics (hr : Reachable g w) : Basics w := by
  refine hr.invariant ⟨g.now_pos, rfl, rfl, g.allowance_contracts, by simp [init]⟩ ?_ ?_
  · intro w n h
    obtain ⟨h1, h2, h3, h4, h5⟩ := h
    exact ⟨Nat.add_pos_left h1 n, h2, h3, h4, h5⟩
  · intro w w' tx _ hI h
    exact hI.effect tx.sender_ne_zero tx.external h

end IntentGuard
