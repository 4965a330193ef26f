import IntentGuard.Contracts.Stability
import IntentGuard.Lib.Budget

/-!
# What an owner has at stake

`exposure` is what the daily cap of the active intent leaves to be spent on the days until it
expires. It is a potential: payments take their amounts from it, the clock and everybody else can
only lower it, a revocation clears it, and nothing but a commit of the owner's own raises it.

`exposure_covers`: over any run in which the owner commits nothing, whatever agents, delegates, the
trace service and strangers do, all that is paid for the owner comes out of the exposure at the
start. With the token's other ways to the owner's balance closed, the balance falls by no more than
that.
-/

namespace IntentGuard

open Function Runs Budget

variable {D : Deployment} {g : Genesis D} {w w' : World D} {o : Address}

/-- The days on which the active intent of `o` may still pay. -/
def daysLeft (w : World D) (o : Address) : Finset ℕ :=
  if w.now < (activeConfig w o).expiry.toNat then
    Finset.Ico (w.now / days1) (((activeConfig w o).expiry.toNat + days1 - 1) / days1)
  else ∅

/-- What may still be paid for `o`. -/
def exposure (w : World D) (o : Address) : ℕ :=
  if w.registry.activeIntentHash o = 0 then 0
  else remaining (activeConfig w o).maxSpendPerDay (w.executor.spentByDay o) (daysLeft w o)

/-- What a transaction pays for `o`, when it succeeds. -/
def paymentFor (o : Address) (e : World D × Tx D) : ℕ :=
  match e.2.call with
  | .executeWithGuard req => if req.owner = o then req.amount else 0
  | _ => 0

theorem paymentFor_of_ne {e : World D × Tx D}
    (h : ∀ req, e.2.call = .executeWithGuard req → req.owner ≠ o) :
    paymentFor o e = 0 := by
  unfold paymentFor
  split
  · next req hcall => exact if_neg (h req hcall)
  · rfl

/-! ### The potential -/

theorem daysLeft_elapse (n : ℕ) : daysLeft { w with now := w.now + n } o ⊆ daysLeft w o := by
  have hconfig : activeConfig { w with now := w.now + n } o = activeConfig w o := rfl
  unfold daysLeft
  rw [hconfig]
  dsimp only
  by_cases h : w.now + n < (activeConfig w o).expiry.toNat
  · rw [if_pos h, if_pos (show w.now < _ by omega)]
    exact Finset.Ico_subset_Ico_left (Nat.div_le_div_right (Nat.le_add_right _ _))
  · rw [if_neg h]
    exact Finset.empty_subset _

theorem exposure_elapse (n : ℕ) : exposure { w with now := w.now + n } o ≤ exposure w o := by
  unfold exposure
  dsimp only
  split_ifs
  · exact le_rfl
  · exact remaining_mono (daysLeft_elapse n)

theorem mem_daysLeft (h : w.now < (activeConfig w o).expiry.toNat) :
    w.now / days1 ∈ daysLeft w o := by
  unfold daysLeft
  rw [if_pos h, Finset.mem_Ico]
  unfold days1
  omega

theorem exposure_congr (hactive : w'.registry.activeIntentHash o = w.registry.activeIntentHash o)
    (hconfig : activeConfig w' o = activeConfig w o)
    (hspent : w'.executor.spentByDay o = w.executor.spentByDay o) (hnow : w'.now = w.now) :
    exposure w' o = exposure w o := by
  unfold exposure daysLeft
  rw [hactive, hconfig, hspent, hnow]

theorem intentExists_active (hr : Reachable g w) (hactive : w.registry.activeIntentHash o ≠ 0) :
    w.registry.intentExists (w.registry.activeIntentHash o) = true := by
  obtain ⟨as, rfl⟩ := hr
  obtain ⟨c, hc, -, hhash⟩ := (registryInv g as).active o hactive
  rw [← hhash]
  exact ((registryInv g as).exists_iff _).2 ⟨c, hc, rfl⟩

/-- A payment takes its amount from the exposure. -/
theorem exposure_executed {sender : Address} {req : ExecutionRequest}
    (hg : GuardPasses w sender req) (hregistry : w'.registry = w.registry)
    (hexecutor : w'.executor = executed w req) (hnow : w'.now = w.now) :
    exposure w' req.owner + req.amount = exposure w req.owner := by
  have hconfig : activeConfig w' req.owner = activeConfig w req.owner := by
    rw [activeConfig, hregistry, activeConfig]
  have hdays : daysLeft w' req.owner = daysLeft w req.owner := by
    rw [daysLeft, daysLeft, hconfig, hnow]
  have hmeter : w'.executor.spentByDay req.owner =
      update (w.executor.spentByDay req.owner) (w.now / days1)
      (w.executor.spentByDay req.owner (w.now / days1) + req.amount) := by
    rw [hexecutor]
    exact update_self ..
  unfold exposure
  rw [hregistry, if_neg hg.active, if_neg hg.active, hconfig, hdays, hmeter]
  exact remaining_charge (mem_daysLeft hg.notExpired) hg.dayCap

/-- A successful transaction that is no commit of the owner's is paid for out of the exposure. -/
theorem exposure_of_effect (hr : Reachable g w) {tx : Tx D} (he : Effect w tx.sender tx.call w')
    (hcommit : ¬ IsCommitBy o (w, tx)) : exposure w' o + paymentFor o (w, tx) ≤ exposure w o := by
  by_cases hpayment : ∃ req, tx.call = .executeWithGuard req ∧ req.owner = o
  · obtain ⟨req, hcall, rfl⟩ := hpayment
    have hpaid : paymentFor req.owner (w, tx) = req.amount := by simp [paymentFor, hcall]
    rw [hcall] at he
    cases he with
    | executeWithGuard hguard =>
      rw [hpaid]
      exact le_of_eq (exposure_executed hguard rfl rfl rfl)
  have hother : ∀ req, tx.call = .executeWithGuard req → req.owner ≠ o := fun req hcall howner =>
    hpayment ⟨req, hcall, howner⟩
  rw [paymentFor_of_ne hother, Nat.add_zero]
  by_cases hcleared : w'.registry.activeIntentHash o = 0
  · rw [exposure, if_pos hcleared]
    exact Nat.zero_le _
  have hrevoke : ¬ IsRevokeBy o (w, tx) := by
    rintro ⟨hsender, hcall⟩
    dsimp only at hsender hcall
    rw [hcall] at he
    cases he with
    | revokeIntent => exact hcleared (hsender ▸ update_self ..)
  have hquiet : QuietOf o (w, tx) := ⟨hcommit, hrevoke⟩
  have hsame : w'.registry.activeIntentHash o = w.registry.activeIntentHash o := by
    by_contra hne
    obtain ⟨hsender, hcall | hcall⟩ := active_of_effect he hne
    · exact hrevoke ⟨hsender, hcall⟩
    · exact hcommit ⟨hsender, hcall⟩
  have hheld := Held.effect ⟨rfl, rfl, rfl, intentExists_active hr (hsame ▸ hcleared)⟩ hquiet he
  have hconfig : activeConfig w' o = activeConfig w o := by
    rw [activeConfig, hsame]
    exact hheld.config
  exact (exposure_congr hsame hconfig (totals_of_effect he hother).1 (now_of_effect he)).le

/-! ### Runs -/

/-- What the successful transactions of a run pay for `o`. -/
def totalPaid (o : Address) (w : World D) (as : List (Action D)) : ℕ :=
  (((visits step w as).filterMap accepted).map (paymentFor o)).sum

/-- A step's successful transaction, if it is one, or the time that it lets pass. -/
theorem step_cases (w : World D) (a : Action D) :
    (accepted (w, a) = none ∧ ∃ n, step w a = { w with now := w.now + n }) ∨
      ∃ tx, accepted (w, a) = some (w, tx) ∧ Effect w tx.sender tx.call (step w a) := by
  rcases a with n | tx
  · exact .inl ⟨rfl, n, rfl⟩
  rcases hx : exec w tx.sender tx.call with err | w'
  · exact .inl ⟨accepted_of_error hx, 0, by rw [step, apply_of_error hx]; rfl⟩
  · refine .inr ⟨tx, accepted_of_ok hx, ?_⟩
    rw [step, apply_of_ok hx]
    exact effect_of_exec hx

theorem exposure_run (hr : Reachable g w) (as : List (Action D))
    (hcommit : ∀ e ∈ (visits step w as).filterMap accepted, ¬ IsCommitBy o e) :
    exposure (run step w as) o + totalPaid o w as ≤ exposure w o := by
  have hsum : ∀ vs : List (World D × Action D),
      ((vs.filterMap accepted).map (paymentFor o)).sum =
        (vs.map fun v => (accepted v).elim 0 (paymentFor o)).sum := by
    intro vs
    induction vs with
    | nil => rfl
    | cons v vs ih =>
      cases hv : accepted v <;> simp [hv, ih]
  unfold totalPaid
  rw [hsum]
  refine potential_run (C := fun w a => ∀ e ∈ accepted (w, a), ¬ IsCommitBy o e)
    (Φ := fun w => exposure w o) ?_ as ?_
  · rintro s a ⟨bs, rfl⟩ hC
    obtain ⟨cs, rfl⟩ := hr
    rcases step_cases (run step (run step (init g) cs) bs) a with ⟨hnone, n, hstep⟩ |
      ⟨tx, hsome, heffect⟩
    · rw [hstep, hnone]
      exact exposure_elapse n
    · rw [hsome]
      rw [← run_append] at *
      exact exposure_of_effect (reachable_run _ _) heffect (hC _ hsome)
  · intro v hv e he
    exact hcommit e (List.mem_filterMap.2 ⟨v, hv, he⟩)

/-- The balance falls by what is paid, where nothing else takes from it. -/
theorem balance_run (hr : Reachable g w) (as : List (Action D))
    (hdebit : ∀ e ∈ (visits step w as).filterMap accepted, ¬ OtherDebit e.1 o e.2.sender e.2.call) :
    w.balanceOf o ≤ (run step w as).balanceOf o + totalPaid o w as := by
  unfold totalPaid
  refine Runs.history_induction (C := fun w a => ∀ e ∈ accepted (w, a),
    ¬ OtherDebit e.1 o e.2.sender e.2.call)
    (J := fun h w' => w.balanceOf o ≤ w'.balanceOf o +
      ((h.filterMap accepted).map (paymentFor o)).sum) (by simp) ?_ as
    fun v hv e he => hdebit e (List.mem_filterMap.2 ⟨v, hv, he⟩)
  rintro h s a ⟨bs, rfl⟩ hJ hC
  obtain ⟨cs, rfl⟩ := hr
  rw [← run_append] at *
  rw [List.filterMap_append, List.map_append, List.sum_append]
  rcases step_cases (run step (init g) (cs ++ bs)) a with ⟨hnone, n, hstep⟩ | ⟨tx, hsome, heffect⟩
  · rw [hstep]
    simp only [List.filterMap_cons, hnone, List.filterMap_nil, List.map_nil,
      List.sum_nil, Nat.add_zero]
    exact hJ
  · simp only [List.filterMap_cons, hsome, List.filterMap_nil, List.map_cons, List.map_nil,
      List.sum_cons, List.sum_nil]
    by_cases hlt : (step (run step (init g) (cs ++ bs)) a).balanceOf o <
      (run step (init g) (cs ++ bs)).balanceOf o
    · rcases debit_of_effect (reachable_run _ _) tx.sender_ne_zero tx.external heffect hlt with
        ⟨req, hcall, -, howner, hpaid, -⟩ | hother
      · have hcost : paymentFor o (run step (init g) (cs ++ bs), tx) = req.amount := by
          simp [paymentFor, hcall, howner]
        omega
      · exact absurd hother (hC _ hsome)
    · omega

theorem exposure_le :
    exposure w o ≤
      (((activeConfig w o).expiry.toNat + days1 - 1) / days1 - w.now / days1) *
        (activeConfig w o).maxSpendPerDay := by
  unfold exposure
  split_ifs
  · exact Nat.zero_le _
  · refine remaining_le.trans (Nat.mul_le_mul_right _ ?_)
    unfold daysLeft
    split_ifs
    · rw [Nat.card_Ico]
    · exact Nat.zero_le _

/-- What is paid for an owner that commits nothing comes out of its exposure: at most its daily cap
for every day from today to the expiry of its intent. -/
theorem exposure_covers (hr : Reachable g w) (as : List (Action D))
    (hcommit : ∀ e ∈ (visits step w as).filterMap accepted, ¬ IsCommitBy o e) :
    totalPaid o w as + exposure (run step w as) o ≤ exposure w o ∧
      exposure w o ≤ (((activeConfig w o).expiry.toNat + days1 - 1) / days1 - w.now / days1) *
        (activeConfig w o).maxSpendPerDay ∧
      ((∀ e ∈ (visits step w as).filterMap accepted, ¬ OtherDebit e.1 o e.2.sender e.2.call) →
        w.balanceOf o ≤ (run step w as).balanceOf o + exposure w o) := by
  have hcovers := exposure_run hr as hcommit
  refine ⟨by omega, exposure_le, fun hdebit => ?_⟩
  have hbalance := balance_run hr as hdebit
  omega

namespace Localnet

/-- The delegate pays, and pays again on the next day, and alice revokes. -/
def spree : List (Action localnet) :=
  [send delegate (.executeWithGuard (payment 15000000)) delegate_external, .elapse 86400,
    send delegate (.executeWithGuard (payment 12000000)) delegate_external,
      send alice .revokeIntent alice_external]

end Localnet

open Localnet in
/-- Of the 100 USDC a day for thirty days. -/
theorem exposure_covers_spree :
    totalPaid alice (run step (init genesis) (setUp 50000000)) spree = 27000000 ∧
      27000000 + exposure (run step (run step (init genesis) (setUp 50000000)) spree) alice ≤
        3000000000 := by
  have hpaid : totalPaid alice (run step (init genesis) (setUp 50000000)) spree = 27000000 := by
    decide +kernel
  have hstart : exposure (run step (init genesis) (setUp 50000000)) alice = 3000000000 := by
    decide +kernel
  have hcommit :
      ∀ e ∈ (visits step (run step (init genesis) (setUp 50000000)) spree).filterMap accepted,
      ¬ IsCommitBy alice e := by
    rintro e he ⟨-, intentHash, cfg, manifestURI, hcall⟩
    obtain ⟨⟨w, a⟩, hv, hacc⟩ := List.mem_filterMap.1 he
    have ha : a ∈ spree := snd_mem_of_mem_visits hv
    simp only [spree, List.mem_cons, List.not_mem_nil, or_false] at ha
    rcases ha with rfl | rfl | rfl | rfl
    all_goals
      simp only [accepted, send, Option.ite_none_right_eq_some, Option.some.injEq,
        reduceCtorEq] at hacc
    all_goals
      obtain ⟨-, rfl⟩ := hacc
      simp at hcall
  have h := (exposure_covers (reachable_run _ _) spree hcommit).1
  rw [hpaid, hstart] at h
  exact ⟨hpaid, h⟩

end IntentGuard
