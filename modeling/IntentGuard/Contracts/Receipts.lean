import IntentGuard.Contracts.Intents
import IntentGuard.Lib.FiniteSum

/-!
# Receipts

A receipt is stored when its timestamp is not zero, which is what the arbiter asks.
`executeWithGuard` is the only call that writes a receipt, a nonce or a daily total, and it writes
all three together (`executed`).

* `ReceiptInv`: every receipt lies under the id computed from its own fields, below its owner's
  counter, and every number below the counter is the nonce of exactly one receipt. If the hash is
  injective, the id of the next receipt is therefore free (`ReceiptInv.fresh`), so nothing stored is
  ever overwritten.
* `spentByDay_eq`: the daily total is the sum over the stored receipts; freshness makes each
  execution add one summand.
* `JustifiedBy`: the execution that wrote a receipt and the commit it was checked against, both
  found in the history. The history only grows and the registry keeps committed configs, so the
  justification lasts.
-/

namespace IntentGuard

open Function Runs

variable {D : Deployment} {g : Genesis D} {w w' : World D} {sender : Address} {call : Call}

def Stored (w : World D) (id : Bytes32) : Prop := (w.executor.receipts id).timestamp ≠ 0

/-- The timestamp of a receipt is the block's: the guard compares it with a `uint64` expiry. -/
theorem GuardPasses.timestamp_toNat {req : ExecutionRequest} (hg : GuardPasses w sender req) :
    (receiptOf w req).timestamp.toNat = w.now := by
  have hlt := hg.notExpired.trans (UInt64.toNat_lt _)
  exact UInt64.toNat_ofNat_of_lt' hlt

theorem GuardPasses.timestamp_ne_zero {req : ExecutionRequest} (hg : GuardPasses w sender req)
    (hnow : 0 < w.now) : (receiptOf w req).timestamp ≠ 0 := by
  intro h
  have := hg.timestamp_toNat
  rw [h] at this
  exact hnow.ne this

/-- The executor's records change in `executeWithGuard` only, and there together. -/
theorem executor_of_effect (h : Effect w sender call w') :
    (∃ req, call = .executeWithGuard req ∧ GuardPasses w sender req ∧
      w'.executor = executed w req) ∨
      ((∀ req, call ≠ .executeWithGuard req) ∧ w'.executor.receipts = w.executor.receipts ∧
        w'.executor.spentByDay = w.executor.spentByDay ∧
          w'.executor.execNonce = w.executor.execNonce) := by
  cases h with
  | executeWithGuard hguard => exact Or.inl ⟨_, rfl, hguard, rfl⟩
  | _ => exact Or.inr ⟨by simp, rfl, rfl, rfl⟩

section
variable {req : ExecutionRequest}

theorem executed_receipts_self :
    (executed w req).receipts (nextReceiptId w req) = receiptOf w req :=
  update_self ..

theorem executed_receipts_of_ne {id : Bytes32} (h : id ≠ nextReceiptId w req) :
    (executed w req).receipts id = w.executor.receipts id := update_of_ne h ..

theorem executed_execNonce_self :
    (executed w req).execNonce req.owner = w.executor.execNonce req.owner + 1 :=
  update_self ..

theorem executed_execNonce_of_ne {o : Address} (h : o ≠ req.owner) :
    (executed w req).execNonce o = w.executor.execNonce o := update_of_ne h ..

theorem le_executed_execNonce (o : Address) :
    w.executor.execNonce o ≤ (executed w req).execNonce o := by
  by_cases h : o = req.owner
  · rw [h, executed_execNonce_self]
    exact Nat.le_succ _
  · rw [executed_execNonce_of_ne h]

end

/-- A storage slot for a receipt is empty or holds a stored receipt, whose owner has a delegate and
is therefore an account. -/
theorem receipt_cases (hr : Reachable g w) (id : Bytes32) :
    w.executor.receipts id = default ∨ Stored w id ∧ (w.executor.receipts id).owner ≠ 0 ∧
      (w.executor.receipts id).owner ∉ D.contracts := by
  apply hr.invariant
    (I := fun w => w.executor.receipts id = default ∨ Stored w id ∧
      (w.executor.receipts id).owner ≠ 0 ∧
      (w.executor.receipts id).owner ∉ D.contracts) (Or.inl rfl) (fun _ _ hI => hI)
  intro w w' tx hr hI h
  rcases executor_of_effect h with ⟨req, -, hg, heq⟩ | ⟨-, h1, -, -⟩
  · rw [Stored, heq]
    by_cases hid : id = nextReceiptId w req
    · rw [hid, executed_receipts_self]
      have howner := (basics hr).owner_external _ _ _ hg.delegate
      exact Or.inr ⟨hg.timestamp_ne_zero (basics hr).now_pos, howner.1, howner.2⟩
    · rw [executed_receipts_of_ne hid]
      exact hI
  · rwa [Stored, h1]

theorem receipt_owner_external (hr : Reachable g w) (id : Bytes32) :
    (w.executor.receipts id).owner ∉ D.contracts := by
  rcases receipt_cases hr id with h | h
  · rw [h]
    exact fun hmem => D.contract_ne_zero hmem rfl
  · exact h.2.2

theorem stored_owner_ne_zero (hr : Reachable g w) {id : Bytes32} (hs : Stored w id) :
    (w.executor.receipts id).owner ≠ 0 := by
  rcases receipt_cases hr id with h | h
  · exact absurd (congrArg ReceiptSummary.timestamp h) hs
  · exact h.2.1

/-- A receipt is not from the future. -/
theorem timestamp_le_now (hr : Reachable g w) (id : Bytes32) :
    (w.executor.receipts id).timestamp.toNat ≤ w.now := by
  apply hr.invariant (I := fun w => (w.executor.receipts id).timestamp.toNat ≤ w.now)
    (Nat.zero_le _)
    (fun _ _ hI => hI.trans (Nat.le_add_right _ _))
  intro w w' tx hr hI h
  rw [now_of_effect h]
  rcases executor_of_effect h with ⟨req, -, hg, heq⟩ | ⟨-, h1, -, -⟩
  · rw [heq]
    by_cases hid : id = nextReceiptId w req
    · rw [hid, executed_receipts_self, hg.timestamp_toNat]
    · rwa [executed_receipts_of_ne hid]
  · rwa [h1]

/-! ### Ids and nonces -/

structure ReceiptInv (s : GuardedExecutor.State) (D : Deployment) : Prop where
  id_eq : ∀ id, (s.receipts id).timestamp ≠ 0 →
    id = GuardedExecutor.receiptIdOf D (s.receipts id).owner (s.receipts id).agentId
      (s.receipts id).nonce
  nonce_lt : ∀ id, (s.receipts id).timestamp ≠ 0 →
    (s.receipts id).nonce < s.execNonce (s.receipts id).owner
  nonce_surj : ∀ o n, n < s.execNonce o →
    ∃ id, (s.receipts id).timestamp ≠ 0 ∧ (s.receipts id).owner = o ∧ (s.receipts id).nonce = n
  nonce_inj : ∀ id id', (s.receipts id).timestamp ≠ 0 → (s.receipts id').timestamp ≠ 0 →
    (s.receipts id).owner = (s.receipts id').owner →
      (s.receipts id).nonce = (s.receipts id').nonce → id = id'

theorem receiptIdOf_injective (hK : Injective D.keccak.words) {o o' : Address}
    {a a' : Bytes32} {n n' : ℕ}
    (h : GuardedExecutor.receiptIdOf D o a n = GuardedExecutor.receiptIdOf D o' a' n') :
    o = o' ∧ a = a' ∧ n = n' := by
  have h := hK h
  simp only [List.cons.injEq, and_true] at h
  exact h

namespace ReceiptInv
variable {req : ExecutionRequest}

/-- The id `executeWithGuard` writes to is free. -/
theorem fresh (hI : ReceiptInv w.executor D) (hK : Injective D.keccak.words)
    (req : ExecutionRequest) :
    ¬ Stored w (nextReceiptId w req) := by
  intro hs
  have hlt := hI.nonce_lt _ hs
  obtain ⟨howner, -, hnonce⟩ := receiptIdOf_injective hK (hI.id_eq _ hs)
  have hlt' : w.executor.execNonce req.owner < w.executor.execNonce req.owner := by
    calc w.executor.execNonce req.owner = (w.executor.receipts (nextReceiptId w req)).nonce :=
      hnonce
      _ < w.executor.execNonce (w.executor.receipts (nextReceiptId w req)).owner := hlt
      _ = w.executor.execNonce req.owner := congrArg _ howner.symm
  exact lt_irrefl _ hlt'

theorem execute (hI : ReceiptInv w.executor D) (hK : Injective D.keccak.words) (hnow : 0 < w.now)
    (hg : GuardPasses w sender req) : ReceiptInv (executed w req) D := by
  have hfresh := hI.fresh hK req
  have hne : ∀ {id}, Stored w id → id ≠ nextReceiptId w req := fun hs heq => hfresh (heq ▸ hs)
  have hold : ∀ {id}, Stored w id → (executed w req).receipts id = w.executor.receipts id :=
    fun hs => executed_receipts_of_ne (hne hs)
  -- a receipt of the new state is the new one or an old one
  have hcases : ∀ id, ((executed w req).receipts id).timestamp ≠ 0 → id = nextReceiptId w req ∨
      Stored w id := by
    intro id hs
    by_cases h : id = nextReceiptId w req
    · exact Or.inl h
    · rw [executed_receipts_of_ne h] at hs
      exact Or.inr hs
  refine ⟨?_, ?_, ?_, ?_⟩
  · intro id hs
    rcases hcases id hs with rfl | hs
    · rw [executed_receipts_self]
      rfl
    · rw [hold hs]
      exact hI.id_eq id hs
  · intro id hs
    rcases hcases id hs with rfl | hs
    · rw [executed_receipts_self]
      exact executed_execNonce_self.ge
    · rw [hold hs]
      exact (hI.nonce_lt id hs).trans_le (le_executed_execNonce _)
  · intro o n hn
    by_cases hlast : o = req.owner ∧ n = w.executor.execNonce req.owner
    · obtain ⟨rfl, rfl⟩ := hlast
      refine ⟨nextReceiptId w req, ?_⟩
      rw [executed_receipts_self]
      exact ⟨hg.timestamp_ne_zero hnow, rfl, rfl⟩
    · have hn' : n < w.executor.execNonce o := by
        by_cases ho : o = req.owner
        · subst ho
          rw [executed_execNonce_self] at hn
          have : n ≠ w.executor.execNonce req.owner := fun h => hlast ⟨rfl, h⟩
          omega
        · rwa [executed_execNonce_of_ne ho] at hn
      obtain ⟨id, hs, h⟩ := hI.nonce_surj o n hn'
      exact ⟨id, by rwa [hold hs], by rwa [hold hs]⟩
  · -- the new nonce is the old counter, above every nonce of an old receipt of that owner
    have hnew : ∀ {id}, Stored w id → (w.executor.receipts id).owner = req.owner →
        (w.executor.receipts id).nonce ≠ w.executor.execNonce req.owner := by
      intro id hs ho hn
      have hlt := hI.nonce_lt id hs
      rw [ho, hn] at hlt
      exact lt_irrefl _ hlt
    intro id id' hs hs' ho hn
    rcases hcases id hs with rfl | hs <;> rcases hcases id' hs' with rfl | hs'
    · rfl
    · rw [executed_receipts_self, hold hs'] at ho hn
      exact absurd hn.symm (hnew hs' ho.symm)
    · rw [executed_receipts_self, hold hs] at ho hn
      exact absurd hn (hnew hs ho)
    · rw [hold hs, hold hs'] at ho hn
      exact hI.nonce_inj id id' hs hs' ho hn

end ReceiptInv

theorem receiptInv (hK : Injective D.keccak.words) (hr : Reachable g w) :
    ReceiptInv w.executor D := by
  refine hr.invariant (I := fun w => ReceiptInv w.executor D) ?_ (fun _ _ hI => hI) ?_
  · exact ⟨fun _ h => absurd rfl h, fun _ h => absurd rfl h,
      fun _ _ h => absurd h (Nat.not_lt_zero _), fun _ _ h => absurd rfl h⟩
  · intro w w' tx hr hI h
    rcases executor_of_effect h with ⟨req, -, hg, heq⟩ | ⟨-, h1, -, h3⟩
    · rw [heq]
      exact hI.execute hK (basics hr).now_pos hg
    · exact ⟨by simpa only [h1] using hI.id_eq, by simpa only [h1, h3] using hI.nonce_lt,
        by simpa only [h1, h3] using hI.nonce_surj, by simpa only [h1] using hI.nonce_inj⟩

/-- No effect changes a stored receipt. -/
theorem receipts_of_effect (hK : Injective D.keccak.words) (hr : Reachable g w)
    (h : Effect w sender call w') {id : Bytes32} (hs : Stored w id) :
    w'.executor.receipts id = w.executor.receipts id := by
  rcases executor_of_effect h with ⟨req, -, -, heq⟩ | ⟨-, h1, -, -⟩
  · rw [heq]
    exact executed_receipts_of_ne fun h => (receiptInv hK hr).fresh hK req (h ▸ hs)
  · rw [h1]

/-- A stored receipt is the same in every later state. -/
theorem receipts_later (hK : Injective D.keccak.words) (hr : Reachable g w) (as : List (Action D))
    {id : Bytes32} (hs : Stored w id) :
    (run step w as).executor.receipts id = w.executor.receipts id := by
  have h :=
    later_rel (R := fun w w' => ∀ id, Stored w id →
      w'.executor.receipts id = w.executor.receipts id)
    (fun _ _ _ => rfl) ?_ (fun _ _ _ _ => rfl)
      (fun _ _ _ hr h _ hs => receipts_of_effect hK hr h hs) hr as
  · exact h id hs
  · intro w₁ w₂ w₃ h12 h23 id hs
    have hs₂ : Stored w₂ id := by rwa [Stored, h12 id hs]
    rw [h23 id hs₂, h12 id hs]

/-- The id a successful execution returns. -/
def producedId (e : World D × Tx D) : Option Bytes32 :=
  match e.2.call with
  | .executeWithGuard req =>
    (GuardedExecutor.executeWithGuard e.1 e.2.sender req).toOption.map Prod.snd
  | _ => none

/-- The ids the executions of a history returned, in order. -/
def producedIds (h : List (World D × Tx D)) : List Bytes32 := h.filterMap producedId

theorem producedId_of_exec {tx : Tx D} {req : ExecutionRequest}
    (hcall : tx.call = .executeWithGuard req) (hx : exec w tx.sender tx.call = .ok w') :
    producedId (w, tx) = some (nextReceiptId w req) := by
  rw [hcall, exec, map_eq_ok] at hx
  obtain ⟨⟨w₁, id⟩, hx, -⟩ := hx
  simp only [producedId, hcall, hx, Except.toOption, Option.map_some]
  rw [(executeWithGuard_eq_ok.1 hx).2.1]

theorem producedId_of_ne {tx : Tx D} (hcall : ∀ req, tx.call ≠ .executeWithGuard req) :
    producedId (w, tx) = none := by
  unfold producedId
  split
  · next req h => exact absurd h (hcall req)
  · rfl

/-- The stored ids are those the executions returned, and no two executions returned the same. -/
theorem producedIds_nodup (hK : Injective D.keccak.words) (g : Genesis D) (as : List (Action D)) :
    (producedIds (history g as)).Nodup ∧
      ∀ id, Stored (run step (init g) as) id ↔ id ∈ producedIds (history g as) := by
  refine history_induction (C := fun _ _ => True)
    (J := fun h w => (producedIds h).Nodup ∧ ∀ id, Stored w id ↔ id ∈ producedIds h)
    ⟨List.nodup_nil, fun _ => ⟨fun h => absurd rfl h, fun h => absurd h (by simp [producedIds])⟩⟩
    (fun _ _ _ hJ => hJ) ?_ as fun _ _ => trivial
  rintro h w w' tx hr ⟨hnodup, hmem⟩ - hx
  rcases executor_of_effect (effect_of_exec hx) with ⟨req, hcall, hg, heq⟩ | ⟨hcall, h1, -, -⟩
  · have hids : producedIds (h ++ [(w, tx)]) = producedIds h ++ [nextReceiptId w req] := by
      simp only [producedIds, List.filterMap_append, List.filterMap_cons,
        producedId_of_exec hcall hx, List.filterMap_nil]
    have hfresh : nextReceiptId w req ∉ producedIds h := fun hin =>
      (receiptInv hK hr).fresh hK req ((hmem _).2 hin)
    rw [hids]
    refine ⟨List.nodup_append.2 ⟨hnodup, List.nodup_singleton _, ?_⟩, fun id => ?_⟩
    · intro a ha b hb hab
      obtain rfl := List.mem_singleton.1 hb
      exact hfresh (hab ▸ ha)
    · rw [List.mem_append, List.mem_singleton, ← hmem, Stored, heq]
      by_cases hid : id = nextReceiptId w req
      · rw [hid, executed_receipts_self]
        simpa using hg.timestamp_ne_zero (basics hr).now_pos
      · rw [executed_receipts_of_ne hid]
        simp [hid, Stored]
  · have hids : producedIds (h ++ [(w, tx)]) = producedIds h := by
      simp only [producedIds, List.filterMap_append, List.filterMap_cons, producedId_of_ne hcall,
        List.filterMap_nil, List.append_nil]
    rw [hids]
    exact ⟨hnodup, fun id => by rw [Stored, h1]; exact hmem id⟩

/-- Ids and nonces: the nonces of an owner's receipts are the numbers below its counter, each once;
a receipt lies under the hash of its fields; two executions never return one id; a stored receipt
never changes. -/
theorem receipt_integrity (hK : Injective D.keccak.words) (g : Genesis D) (as : List (Action D)) :
    (∀ o n, n < (run step (init g) as).executor.execNonce o →
      ∃! id, Stored (run step (init g) as) id ∧
        ((run step (init g) as).executor.receipts id).owner = o ∧
        ((run step (init g) as).executor.receipts id).nonce = n) ∧
    (∀ id, Stored (run step (init g) as) id →
      ((run step (init g) as).executor.receipts id).nonce <
        (run step (init g) as).executor.execNonce
          ((run step (init g) as).executor.receipts id).owner) ∧
    (∀ id, Stored (run step (init g) as) id →
      id = D.keccak.words
        [((run step (init g) as).executor.receipts id).owner,
          ((run step (init g) as).executor.receipts id).agentId,
            ((run step (init g) as).executor.receipts id).nonce, D.chainid, D.guardedExecutor]) ∧
    (producedIds (history g as)).Nodup ∧
    (∀ id, Stored (run step (init g) as) id ↔ id ∈ producedIds (history g as)) ∧
    (∀ a id, Stored (run step (init g) as) id →
      (step (run step (init g) as) a).executor.receipts id =
        (run step (init g) as).executor.receipts id) := by
  have hr : Reachable g (run step (init g) as) := reachable_run _ _
  have hI := receiptInv hK hr
  obtain ⟨hnodup, hmem⟩ := producedIds_nodup hK g as
  refine ⟨fun o n hn => ?_, hI.nonce_lt, hI.id_eq, hnodup, hmem,
    fun a id hs => receipts_later hK hr [a] hs⟩
  obtain ⟨id, hs, ho, hnonce⟩ := hI.nonce_surj o n hn
  refine ⟨id, ⟨hs, ho, hnonce⟩, ?_⟩
  intro id' h
  obtain ⟨hs', ho', hnonce'⟩ := h
  exact hI.nonce_inj id' id hs' hs (ho'.trans ho.symm) (hnonce'.trans hnonce.symm)

open Localnet in
/-- Two payments by one agent: the second nonce belongs to exactly one receipt. -/
theorem receipt_integrity_twoPayments :
    ∃! id, Stored (run step (init genesis) (twoPayments 60000000)) id ∧
      ((run step (init genesis) (twoPayments 60000000)).executor.receipts id).owner = alice ∧
      ((run step (init genesis) (twoPayments 60000000)).executor.receipts id).nonce = 1 :=
  (receipt_integrity Keccak.numbering_collisionFree.words genesis (twoPayments 60000000)).1 alice 1
    (by decide +kernel)

/-! ### Daily totals -/

/-- What a receipt adds to owner `o`'s total of day `d`. -/
def dayAmount (o : Address) (d : ℕ) (r : ReceiptSummary) : ℕ :=
  if r.timestamp ≠ 0 ∧ r.owner = o ∧ r.timestamp.toNat / days1 = d then r.amount else 0

theorem dayAmount_of_not_stored {o : Address} {d : ℕ} {id : Bytes32} (h : ¬ Stored w id) :
    dayAmount o d (w.executor.receipts id) = 0 := if_neg fun hr => h hr.1

/-- The sum of the amounts of the stored receipts of `o` on day `d`. -/
noncomputable def daySum (s : GuardedExecutor.State) (o : Address) (d : ℕ) : ℕ :=
  ∑ᶠ id, dayAmount o d (s.receipts id)

/-- The summands of a daily total after an execution: one more. -/
theorem dayAmount_executed {req : ExecutionRequest} (o : Address) (d : ℕ) :
    (fun id => dayAmount o d ((executed w req).receipts id)) =
      update (fun id => dayAmount o d (w.executor.receipts id)) (nextReceiptId w req)
        (dayAmount o d (receiptOf w req)) := by
  funext id
  by_cases h : id = nextReceiptId w req
  · subst h
    rw [executed_receipts_self, update_self]
  · rw [executed_receipts_of_ne h, update_of_ne h]

theorem dayAmount_receiptOf {req : ExecutionRequest} (hg : GuardPasses w sender req)
    (hnow : 0 < w.now) (o : Address) (d : ℕ) :
    dayAmount o d (receiptOf w req) = if req.owner = o ∧ w.now / days1 = d then
      req.amount else 0 := by
  have hts := hg.timestamp_toNat
  have hne := hg.timestamp_ne_zero hnow
  simp only [dayAmount, hts, ne_eq, hne, not_false_eq_true, true_and]
  rfl

theorem executed_spentByDay {req : ExecutionRequest} (o : Address) (d : ℕ) :
    (executed w req).spentByDay o d =
      w.executor.spentByDay o d + if req.owner = o ∧ w.now / days1 = d then req.amount else 0 := by
  by_cases ho : req.owner = o
  · subst ho
    by_cases hd : w.now / days1 = d
    · subst hd
      simp [executed]
    · simp [executed, hd, Ne.symm hd]
  · simp [executed, ho, Ne.symm ho]

theorem spentByDay_eq (hK : Injective D.keccak.words) (hr : Reachable g w) (o : Address) (d : ℕ) :
    (support fun id => dayAmount o d (w.executor.receipts id)).Finite ∧
      w.executor.spentByDay o d = daySum w.executor o d := by
  refine hr.invariant
    (I := fun w => (support fun id => dayAmount o d (w.executor.receipts id)).Finite ∧
      w.executor.spentByDay o d = daySum w.executor o d) ?_ (fun _ _ hI => hI) ?_
  · have hzero : (fun id => dayAmount o d ((init g).executor.receipts id)) = fun _ => 0 :=
      funext fun _ => dayAmount_of_not_stored fun h => h rfl
    rw [daySum, hzero]
    exact ⟨by simp, finsum_zero.symm⟩
  · rintro w w' tx hr ⟨hfin, hsum⟩ h
    rcases executor_of_effect h with ⟨req, -, hg, heq⟩ | ⟨-, h1, h2, -⟩
    · have hfree := dayAmount_of_not_stored (o := o) (d := d) ((receiptInv hK hr).fresh hK req)
      rw [heq, daySum, dayAmount_executed]
      refine ⟨FiniteSum.support_update_finite hfin _ _, ?_⟩
      rw [FiniteSum.finsum_update_of_zero _ hfin hfree, executed_spentByDay,
        dayAmount_receiptOf hg (basics hr).now_pos, hsum, daySum]
    · rw [daySum, h1, h2]
      exact ⟨hfin, hsum⟩

/-- The daily totals are the sums over the stored receipts, and right after an execution the sum of
that day is within the cap of the intent the new receipt names. -/
theorem day_cap (hK : Injective D.keccak.words) (g : Genesis D) (w : World D) (hr : Reachable g w) :
    (∀ o d, {id | dayAmount o d (w.executor.receipts id) ≠ 0}.Finite ∧
      w.executor.spentByDay o d = daySum w.executor o d) ∧
    (∀ (tx : Tx D) (req : ExecutionRequest) (w' : World D) (id : Bytes32),
      tx.call = .executeWithGuard req →
      GuardedExecutor.executeWithGuard w tx.sender req = .ok (w', id) →
      daySum w'.executor req.owner (w.now / days1) ≤
        (w'.registry.intentConfig (w'.executor.receipts id).intentHash).maxSpendPerDay) := by
  refine ⟨fun o d => spentByDay_eq hK hr o d, ?_⟩
  intro tx req w' id hcall hx
  have hexec : exec w tx.sender tx.call = .ok w' := by rw [hcall, exec, hx]; rfl
  have hr' : Reachable g w' := by
    have h := hr.next (.send tx)
    rwa [step, apply_of_ok hexec] at h
  obtain ⟨hg, rfl, u, -, rfl⟩ := executeWithGuard_eq_ok.1 hx
  rw [← (spentByDay_eq hK hr' _ _).2]
  dsimp only
  rw [executed_spentByDay, if_pos ⟨rfl, rfl⟩, executed_receipts_self]
  exact hg.dayCap

open Localnet in
/-- The second payment of the day: 15 and 12 USDC are within the 100 of the intent. -/
theorem day_cap_twoPayments :
    (run step (init genesis) (twoPayments 60000000)).executor.spentByDay alice 10 =
      daySum (run step (init genesis) (twoPayments 60000000)).executor alice 10 :=
  ((day_cap Keccak.numbering_collisionFree.words genesis _
    (reachable_run _ (twoPayments 60000000))).1 alice 10).2

/-! ### Justification -/

/-- The execution `e` stored the receipt `r` under `id`. -/
def Executes (e : World D × Tx D) (id : Bytes32) (r : ReceiptSummary) : Prop :=
  ∃ req w', e.2.call = .executeWithGuard req ∧
    GuardedExecutor.executeWithGuard e.1 e.2.sender req = .ok (w', id) ∧ w'.executor.receipts id = r

/-- A config a receipt can be paid under. -/
structure Allows (D : Deployment) (cfg : IntentConfig) (r : ReceiptSummary) : Prop where
  owner : cfg.owner = r.owner
  token : cfg.token = D.USDC
  receipt_token : r.token = D.USDC
  target : r.target ∈ cfg.allowedCounterparties
  unexpired : r.timestamp.toNat < cfg.expiry.toNat

/-- The receipt was stored by an execution of the history, and its owner had committed the config it
was paid under before that. -/
def JustifiedBy (h : List (World D × Tx D)) (id : Bytes32) (r : ReceiptSummary)
    (cfg : IntentConfig) : Prop :=
  ∃ h₁ e h₂, h = h₁ ++ e :: h₂ ∧ Executes e id r ∧
    ∃ c ∈ commits h₁, c.owner = r.owner ∧ c.intentHash = r.intentHash ∧ c.cfg = cfg ∧ Allows D cfg r

theorem JustifiedBy.append {h : List (World D × Tx D)} {id : Bytes32} {r : ReceiptSummary}
    {cfg : IntentConfig} (hj : JustifiedBy h id r cfg) (h' : List (World D × Tx D)) :
    JustifiedBy (h ++ h') id r cfg := by
  obtain ⟨h₁, e, h₂, rfl, hx, hc⟩ := hj
  exact ⟨h₁, e, h₂ ++ h', by simp, hx, hc⟩

theorem JustifiedBy.of_execute {h : List (World D × Tx D)} {tx : Tx D} {req : ExecutionRequest}
    {id : Bytes32} (hI : RegistryInv D (commits h) w.registry)
    (hcall : tx.call = .executeWithGuard req)
    (hx : GuardedExecutor.executeWithGuard w tx.sender req = .ok (w', id)) :
    ∃ cfg, JustifiedBy (h ++ [(w, tx)]) id (w'.executor.receipts id) cfg := by
  have hx' := hx
  obtain ⟨hg, rfl, u, -, rfl⟩ := executeWithGuard_eq_ok.1 hx
  obtain ⟨c, hc, howner, hhash⟩ := hI.active req.owner hg.active
  have hcfg : w.registry.intentConfig (w.registry.activeIntentHash req.owner) = c.cfg := by
    rw [← hhash]
    exact (hI.stored c hc).1
  refine ⟨c.cfg, h, (w, tx), [], rfl, ⟨req, _, hcall, hx', rfl⟩, c, hc, ?_⟩
  dsimp only
  rw [executed_receipts_self]
  refine ⟨howner, hhash, rfl, (hI.owned c hc).1.trans howner, (hI.owned c hc).2, hg.token, ?_, ?_⟩
  · exact hcfg ▸ hg.counterparty
  · rw [hg.timestamp_toNat, ← hcfg]
    exact hg.notExpired

theorem justified (g : Genesis D) (as : List (Action D)) :
    ∀ id, Stored (run step (init g) as) id →
      ∃ cfg, JustifiedBy (history g as) id ((run step (init g) as).executor.receipts id) cfg := by
  have h := history_induction (g := g) (C := fun _ _ => True)
    (J := fun h w => RegistryInv D (commits h) w.registry ∧
      ∀ id, Stored w id → ∃ cfg, JustifiedBy h id (w.executor.receipts id) cfg)
    ⟨.start, fun _ hs => absurd rfl hs⟩ (fun _ _ _ hJ => hJ) ?_ as fun _ _ => trivial
  · exact h.2
  rintro h w w' tx hr ⟨hI, hJ⟩ - hx
  refine ⟨registryInv_of_effect hI (effect_of_exec hx), fun id hs => ?_⟩
  have hold : Stored w id → w'.executor.receipts id = w.executor.receipts id →
      ∃ cfg, JustifiedBy (h ++ [(w, tx)]) id (w'.executor.receipts id) cfg := by
    intro hs heq
    obtain ⟨cfg, hj⟩ := hJ id hs
    exact ⟨cfg, heq ▸ hj.append _⟩
  rcases executor_of_effect (effect_of_exec hx) with ⟨req, hcall, hg, heq⟩ | ⟨-, h1, -, -⟩
  · by_cases hid : id = nextReceiptId w req
    · subst hid
      rw [hcall, exec, map_eq_ok] at hx
      obtain ⟨⟨w₁, id⟩, hx, rfl⟩ := hx
      obtain ⟨-, hid, -⟩ := executeWithGuard_eq_ok.1 hx
      rw [hid]
      exact JustifiedBy.of_execute hI hcall hx
    · have hrec := (congrFun (congrArg GuardedExecutor.State.receipts heq) id).trans
        (executed_receipts_of_ne hid)
      rw [Stored, hrec] at hs
      exact hold hs hrec
  · have hrec := congrFun h1 id
    rw [Stored, hrec] at hs
    exact hold hs hrec

/-- A receipt stored at any time is justified at any later time by the config then under its intent
hash, which its owner committed before it; no hash is committed twice, the nonces of an owner
increase, and an active hash names a committed config of its owner. -/
theorem receipts_justified (g : Genesis D) (as bs : List (Action D)) :
    (∀ id, Stored (run step (init g) as) id →
      JustifiedBy (history g (as ++ bs)) id ((run step (init g) as).executor.receipts id)
        ((run step (init g) (as ++ bs)).registry.intentConfig
          ((run step (init g) as).executor.receipts id).intentHash)) ∧
    ((commits (history g as)).map Commit.intentHash).Nodup ∧
    (∀ o, (((commits (history g as)).filter fun c => c.owner = o).map fun c => c.cfg.nonce).Pairwise
      (· < ·)) ∧
    (∀ o, (run step (init g) as).registry.activeIntentHash o ≠ 0 →
      ∃ c ∈ commits (history g as), c.owner = o ∧
        c.intentHash = (run step (init g) as).registry.activeIntentHash o ∧
        (run step (init g) as).registry.intentConfig c.intentHash = c.cfg ∧ c.cfg.owner = o) := by
  have hI := registryInv g as
  refine ⟨fun id hs => ?_, hI.nodup, hI.nonces_increasing, fun o ho => ?_⟩
  · obtain ⟨cfg, hj⟩ := justified g as id hs
    have hj := hj.append ((visits step (run step (init g) as) bs).filterMap accepted)
    rw [← history_append] at hj
    -- the commit is still in the longer history, so its config is still the registry's
    obtain ⟨h₁, e, h₂, hsplit, hx, c, hc, howner, hhash, rfl, hallows⟩ := hj
    have hmem : c ∈ commits (history g (as ++ bs)) := by
      rw [hsplit, commits_append]
      exact List.mem_append_left _ hc
    have hcfg := ((registryInv g (as ++ bs)).stored c hmem).1
    rw [hhash] at hcfg
    rw [hcfg]
    exact ⟨h₁, e, h₂, hsplit, hx, c, hc, howner, hhash, rfl, hallows⟩
  · obtain ⟨c, hc, howner, hhash⟩ := hI.active o ho
    exact ⟨c, hc, howner, hhash, (hI.stored c hc).1, (hI.owned c hc).1.trans howner⟩

end IntentGuard
