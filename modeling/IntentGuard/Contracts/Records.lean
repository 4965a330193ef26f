import IntentGuard.Contracts.Challenges
import IntentGuard.Contracts.Logs

/-!
# What the logs record

The receipts and the challenges of a state, read off its logs. Nothing is assumed of the hash.

* `logged_receipt`: the last receipt logged under an id is the stored one.
* `logged_filing`: the last filing logged under a challenge id names its receipt.
* `logged_verdict`: the last thing logged about a filed challenge is that it was upheld.
* `Stored.intentExists`: the intent of a stored receipt has been committed.
-/

namespace IntentGuard

open Function Runs

variable {D : Deployment} {g : Genesis D} {w w' : World D} {sender : Address} {call : Call}

/-- The last thing of a kind in the logs. -/
def lastLogged {β : Type} (f : Event → Option β) (logs : List Event) : Option β :=
  logs.reverse.findSome? f

section
variable {β : Type} {f : Event → Option β}

theorem lastLogged_append (logs es : List Event) :
    lastLogged f (logs ++ es) = (lastLogged f es).or (lastLogged f logs) := by
  unfold lastLogged
  rw [List.reverse_append, List.findSome?_append]

theorem lastLogged_of_quiet {es : List Event} (h : ∀ e ∈ es, f e = none) :
    lastLogged f es = none := by
  unfold lastLogged
  rw [List.findSome?_eq_none_iff]
  intro e he
  exact h e (List.mem_reverse.1 he)

theorem lastLogged_append_of_quiet {logs es : List Event} (h : ∀ e ∈ es, f e = none) :
    lastLogged f (logs ++ es) = lastLogged f logs := by
  rw [lastLogged_append, lastLogged_of_quiet h, Option.none_or]

theorem lastLogged_filter {p : Event → Bool} (hp : ∀ e, p e = false → f e = none)
    (logs : List Event) :
    lastLogged f (logs.filter p) = lastLogged f logs := by
  unfold lastLogged
  rw [← List.filter_reverse]
  induction logs.reverse with
  | nil => rfl
  | cons e es ih =>
    cases hpe : p e with
    | true => rw [List.filter_cons_of_pos hpe, List.findSome?_cons, List.findSome?_cons, ih]
    | false => rw [List.filter_cons_of_neg (by simp [hpe]), List.findSome?_cons, hp e hpe, ih]

end

/-! ### Receipts -/

/-- The receipt that an event logs under the id. -/
def receiptIn (id : Bytes32) : Event → Option ReceiptSummary
  | .ActionReceipt id' r => if id' = id then some r else none
  | _ => none

/-- A storage slot as a receipt, or none: an empty slot has no timestamp. -/
def recorded (r : ReceiptSummary) : Option ReceiptSummary :=
  if r.timestamp = 0 then none else some r

theorem logged_receipt (hr : Reachable g w) (id : Bytes32) :
    lastLogged (receiptIn id) w.logs = recorded (w.executor.receipts id) := by
  apply hr.invariant (I := fun w => lastLogged (receiptIn id) w.logs =
    recorded (w.executor.receipts id)) rfl
    (fun _ _ hI => hI)
  intro w w' tx hr hI h
  generalize tx.sender = sender at h
  generalize tx.call = call at h
  have hquiet : ∀ es : List Event, w'.logs = w.logs ++ es → (∀ e ∈ es, receiptIn id e = none) →
      w'.executor.receipts = w.executor.receipts →
        lastLogged (receiptIn id) w'.logs = recorded (w'.executor.receipts id) := by
    intro es hlogs hes hsame
    rw [hlogs, lastLogged_append_of_quiet hes, hI, hsame]
  cases h with
  | @executeWithGuard req u hguard =>
    show lastLogged _ (w.logs ++ _) = recorded ((executed w req).receipts id)
    rw [lastLogged_append]
    by_cases hid : nextReceiptId w req = id
    · subst hid
      rw [executed_receipts_self, recorded, if_neg (hguard.timestamp_ne_zero (basics hr).now_pos)]
      simp [lastLogged, receiptIn, List.findSome?_cons]
    · rw [executed_receipts_of_ne (Ne.symm hid), ← hI,
        lastLogged_of_quiet (by simp [receiptIn, hid]), Option.none_or]
  | _ =>
    first
    | exact hI
    | exact hquiet _ rfl (by simp [receiptIn]) rfl

/-- A receipt's intent has been committed. -/
theorem Stored.intentExists (hr : Reachable g w) {id : Bytes32} (hs : Stored w id) :
    w.registry.intentExists (w.executor.receipts id).intentHash = true := by
  refine (hr.invariant
    (I := fun w => (∀ o, w.registry.activeIntentHash o ≠ 0 →
        w.registry.intentExists (w.registry.activeIntentHash o) = true) ∧
      (Stored w id → w.registry.intentExists (w.executor.receipts id).intentHash = true))
    ?_ (fun _ _ hI => hI) ?_).2 hs
  · exact ⟨fun _ h => absurd rfl h, fun h => absurd rfl h⟩
  intro w w' tx hr hI h
  obtain ⟨hactive, hreceipt⟩ := hI
  constructor
  · intro o ho
    generalize tx.sender = sender at h
    generalize tx.call = call at h
    have h' := h
    cases h' with
    | @commitIntent intentHash =>
      by_cases hsender : o = sender
      · simp [hsender]
      · have hold : w.registry.activeIntentHash o ≠ 0 := by simpa [hsender] using ho
        have := intentExists_of_effect h (hactive o hold)
        simpa [hsender] using this
    | revokeIntent =>
      by_cases hsender : o = sender
      · exact absurd (by simp [hsender]) ho
      · have hold : w.registry.activeIntentHash o ≠ 0 := by simpa [hsender] using ho
        simpa [hsender] using hactive o hold
    | _ => exact hactive o ho
  · rcases executor_of_effect h with ⟨req, -, hguard, hexec⟩ | ⟨-, hsame, -, -⟩
    · unfold Stored
      rw [hexec]
      intro hs
      by_cases hid : id = nextReceiptId w req
      · rw [hid, executed_receipts_self]
        exact intentExists_of_effect h (hactive req.owner hguard.active)
      · rw [executed_receipts_of_ne hid] at hs ⊢
        exact intentExists_of_effect h (hreceipt hs)
    · unfold Stored
      rw [hsame]
      intro hs
      exact intentExists_of_effect h (hreceipt hs)

/-! ### Challenges -/

/-- The receipt that an event files the challenge for. -/
def filedIn (k : ℕ) : Event → Option Bytes32
  | .ChallengeFiled id receiptId _ => if id = k then some receiptId else none
  | _ => none

/-- The verdict that an event gives on the challenge, none yet when it is filed. -/
def verdictIn (k : ℕ) : Event → Option (Option Bool)
  | .ChallengeFiled id _ _ => if id = k then some none else none
  | .ChallengeResolved id uphold _ => if id = k then some (some uphold) else none
  | _ => none

theorem logged_filing (hr : Reachable g w) (k : ℕ) :
    lastLogged (filedIn k) w.logs =
      if 0 < k ∧ k ≤ w.arbiter.nextId then some (w.arbiter.challenges k).receiptId else none := by
  refine hr.invariant
    (I := fun w => lastLogged (filedIn k) w.logs =
      if 0 < k ∧ k ≤ w.arbiter.nextId then some (w.arbiter.challenges k).receiptId
        else none) ?_ (fun _ _ hI => hI) ?_
  · have hnone : ¬ (0 < k ∧ k ≤ 0) := by omega
    exact (if_neg hnone).symm
  intro w w' tx hr hI h
  generalize tx.sender = sender at h
  generalize tx.call = call at h
  have hquiet : ∀ es : List Event, w'.logs = w.logs ++ es → (∀ e ∈ es, filedIn k e = none) →
      w'.arbiter.nextId = w.arbiter.nextId →
      (w'.arbiter.challenges k).receiptId = (w.arbiter.challenges k).receiptId →
        lastLogged (filedIn k) w'.logs =
          if 0 < k ∧ k ≤ w'.arbiter.nextId then
            some (w'.arbiter.challenges k).receiptId
          else none := by
    intro es hlogs hes hnext hsame
    rw [hlogs, lastLogged_append_of_quiet hes, hI, hnext, hsame]
  have hresolve : ∀ id,
      ((update w.arbiter.challenges id { w.arbiter.challenges id with resolved := true })
        k).receiptId =
        (w.arbiter.challenges k).receiptId := by
    intro id
    by_cases hid : k = id
    · rw [hid, update_self]
    · rw [update_of_ne hid]
  cases h with
  | @fileAmountViolation receiptId =>
    show lastLogged _ (w.logs ++ _) = if 0 < k ∧ k ≤ w.arbiter.nextId + 1 then
      some (update w.arbiter.challenges (w.arbiter.nextId + 1)
        ⟨receiptId, sender, true⟩ k).receiptId else none
    rw [lastLogged_append]
    by_cases hk : w.arbiter.nextId + 1 = k
    · subst hk
      rw [update_self, if_pos ⟨Nat.succ_pos _, le_rfl⟩]
      simp [lastLogged, filedIn, List.findSome?_cons]
    · rw [update_of_ne (Ne.symm hk), lastLogged_of_quiet (by simp [filedIn, hk]),
        Option.none_or, hI]
      have hiff : k ≤ w.arbiter.nextId + 1 ↔ k ≤ w.arbiter.nextId := by omega
      simp only [hiff]
  | dismiss => exact hquiet _ rfl (by simp [filedIn]) rfl (hresolve _)
  | uphold => exact hquiet _ rfl (by simp [filedIn]) rfl (hresolve _)
  | _ =>
    first
    | exact hI
    | exact hquiet _ rfl (by simp [filedIn]) rfl rfl

/-- A filing upholds its own challenge, and no reviewer finds it open after that. -/
theorem logged_verdict (hr : Reachable g w) {k : ℕ} (hpos : 0 < k) (hle : k ≤ w.arbiter.nextId) :
    lastLogged (verdictIn k) w.logs = some (some true) := by
  refine hr.invariant (I := fun w => k ≤ w.arbiter.nextId →
    lastLogged (verdictIn k) w.logs = some (some true)) ?_
    (fun _ _ hI => hI) ?_ hle
  · intro hle
    exact absurd hpos (Nat.not_lt.2 hle)
  intro w w' tx hr hI h
  generalize tx.sender = sender at h
  generalize tx.call = call at h
  have hquiet : ∀ es : List Event, w'.logs = w.logs ++ es → w'.arbiter.nextId = w.arbiter.nextId →
      (k ≤ w.arbiter.nextId → ∀ e ∈ es, verdictIn k e = none) →
        k ≤ w'.arbiter.nextId → lastLogged (verdictIn k) w'.logs = some (some true) := by
    intro es hlogs hnext hes hle
    rw [hnext] at hle
    rw [hlogs, lastLogged_append_of_quiet (hes hle), hI hle]
  have hopen : ∀ {id}, (w.arbiter.challenges id).resolved = false →
      k ≤ w.arbiter.nextId → id ≠ k := by
    rintro id hopen hle rfl
    rw [(arbiterInv hr).resolved id hpos hle] at hopen
    exact absurd hopen (by simp)
  cases h with
  | @fileAmountViolation receiptId =>
    show k ≤ w.arbiter.nextId + 1 → lastLogged _ (w.logs ++ _) = _
    intro hle
    rw [lastLogged_append]
    by_cases hk : w.arbiter.nextId + 1 = k
    · subst hk
      simp [lastLogged, verdictIn]
    · rw [lastLogged_of_quiet (by simp [verdictIn, hk]), Option.none_or]
      exact hI (by omega)
  | dismiss h => exact hquiet _ rfl rfl fun hle => by simp [verdictIn, hopen h hle]
  | uphold h => exact hquiet _ rfl rfl fun hle => by simp [verdictIn, hopen h hle]
  | _ =>
    first
    | exact hI
    | exact hquiet _ rfl rfl fun _ => by simp [verdictIn]

end IntentGuard
