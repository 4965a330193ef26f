import IntentGuard.Contracts.History

/-!
# The order of the logs

What a reader of the logs may rely on, whatever has been called: an intent hash is committed at most
once, every `ActionReceipt` is followed by the `TraceURIStored` of its receipt, every
`ChallengeFiled` by a `ChallengeResolved` of its challenge, and every `AgentStaked` is preceded by
the `AgentRegistered` of its agent.

`NewLogs` says what one call appends; `logInv` follows by the invariant rule.
-/

namespace IntentGuard

open Function Runs

variable {D : Deployment} {g : Genesis D} {w w' : World D} {sender : Address} {call : Call}

/-- Two logs that commit the same hash. -/
def SameIntent (e e' : Event) : Prop :=
  ∃ o o' intentHash uri uri', e = .IntentCommitted o intentHash uri ∧
    e' = .IntentCommitted o' intentHash uri'

structure LogOrder (logs : List Event) : Prop where
  committed_once : logs.Pairwise fun e e' => ¬ SameIntent e e'
  traced : ∀ id r, .ActionReceipt id r ∈ logs →
    ∃ uri, [Event.ActionReceipt id r, .TraceURIStored id uri].Sublist logs
  resolved : ∀ challengeId id challenger, .ChallengeFiled challengeId id challenger ∈ logs →
    ∃ uphold payout,
      [Event.ChallengeFiled challengeId id challenger,
        .ChallengeResolved challengeId uphold payout].Sublist logs
  registered : ∀ agentId amount newStake, .AgentStaked agentId amount newStake ∈ logs →
    ∃ operator uri,
      [Event.AgentRegistered agentId operator uri,
        .AgentStaked agentId amount newStake].Sublist logs

/-- What a call appends to the logs. -/
structure NewLogs (w w' : World D) (es : List Event) : Prop where
  logs_eq : w'.logs = w.logs ++ es
  committed_once : es.Pairwise fun e e' => ¬ SameIntent e e'
  committed : ∀ o intentHash uri, .IntentCommitted o intentHash uri ∈ es →
    w.registry.intentExists intentHash = false ∧ w'.registry.intentExists intentHash = true
  traced : ∀ id r, .ActionReceipt id r ∈ es →
    ∃ uri, [Event.ActionReceipt id r, .TraceURIStored id uri].Sublist es
  resolved : ∀ challengeId id challenger, .ChallengeFiled challengeId id challenger ∈ es →
    ∃ uphold payout,
      [Event.ChallengeFiled challengeId id challenger,
        .ChallengeResolved challengeId uphold payout].Sublist es
  staked : ∀ agentId amount newStake, .AgentStaked agentId amount newStake ∈ es →
    (w.agents.agents agentId).registered = true
  registered : ∀ agentId, (w'.agents.agents agentId).registered = true →
    (w.agents.agents agentId).registered = true ∨ ∃ operator uri,
      .AgentRegistered agentId operator uri ∈ es

/-- Commits are never forgotten. -/
theorem intentExists_of_effect (h : Effect w sender call w') {intentHash : Bytes32}
    (hexists : w.registry.intentExists intentHash = true) :
    w'.registry.intentExists intentHash = true := by
  cases h with
  | @commitIntent newHash =>
    by_cases heq : intentHash = newHash
    · simp [heq]
    · simpa [heq] using hexists
  | _ => exact hexists

/-- A call that commits nothing, registers nothing and stores nothing, by its logs. -/
theorem newLogs_of_quiet {es : List Event} (hlogs : w'.logs = w.logs ++ es)
    (hagents : w'.agents = w.agents)
    (hquiet : ∀ e ∈ es, (∀ o h uri, e ≠ .IntentCommitted o h uri) ∧
      (∀ id r, e ≠ .ActionReceipt id r) ∧ (∀ c id a, e ≠ .ChallengeFiled c id a) ∧ ∀ a n s,
        e ≠ .AgentStaked a n s) : NewLogs w w' es where
  logs_eq := hlogs
  committed_once := by
    apply List.pairwise_of_forall_mem_list
    intro e he e' _ ⟨o, o', intentHash, uri, uri', heq, _⟩
    exact (hquiet e he).1 _ _ _ heq
  committed := fun _ _ _ he => absurd rfl ((hquiet _ he).1 _ _ _)
  traced := fun _ _ he => absurd rfl ((hquiet _ he).2.1 _ _)
  resolved := fun _ _ _ he => absurd rfl ((hquiet _ he).2.2.1 _ _ _)
  staked := fun _ _ _ he => absurd rfl ((hquiet _ he).2.2.2 _ _ _)
  registered := fun _ h => .inl (hagents ▸ h)

theorem newLogs_of_effect (h : Effect w sender call w') : ∃ es, NewLogs w w' es := by
  have hnil : w.logs = w.logs ++ [] := (List.append_nil _).symm
  cases h with
  | @commitIntent intentHash cfg uri _ _ _ _ _ hfresh =>
    refine ⟨[.IntentCommitted sender intentHash uri], rfl, List.pairwise_singleton _ _, ?_, by simp,
      by simp, by simp,
      fun _ h => .inl h⟩
    intro o intentHash' uri' he
    obtain ⟨-, rfl, -⟩ := Event.IntentCommitted.inj (List.mem_singleton.1 he)
    exact ⟨hfresh, update_self ..⟩
  | @registerAgent agentId operator uri =>
    refine ⟨[.AgentRegistered agentId operator uri], rfl, List.pairwise_singleton _ _, by simp,
      by simp, by simp,
      by simp, ?_⟩
    intro agentId' hregistered
    by_cases heq : agentId' = agentId
    · subst heq
      exact .inr ⟨operator, uri, List.mem_singleton_self _⟩
    · exact .inl (by simpa [heq] using hregistered)
  | @stake agentId amount u hregistered =>
    refine ⟨[.Deposited agentId sender amount (w.vault.stake agentId + amount),
      .AgentStaked agentId amount (w.vault.stake agentId + amount)], rfl, ?_, by simp,
      by simp, by simp, ?_,
      fun _ h => .inl h⟩
    · simp [SameIntent]
    · intro agentId' amount' newStake he
      simp only [List.mem_cons, Event.AgentStaked.injEq, List.not_mem_nil, or_false, reduceCtorEq,
        false_or] at he
      rw [he.1]
      exact hregistered
  | @executeWithGuard req =>
    refine ⟨[.ActionReceipt (nextReceiptId w req) (receiptOf w req),
      .ReceiptStored (nextReceiptId w req) req.owner (w.registry.activeIntentHash req.owner),
      .TraceURIStored (nextReceiptId w req) req.traceURI], rfl, ?_, by simp, ?_, by simp, by simp,
        fun _ h => .inl h⟩
    · simp [SameIntent]
    · intro id r he
      simp only [List.mem_cons, Event.ActionReceipt.injEq, List.not_mem_nil, or_false,
        reduceCtorEq] at he
      obtain ⟨rfl, rfl⟩ := he
      exact ⟨req.traceURI, (List.sublist_cons_self _ _).cons_cons _⟩
  | @fileAmountViolation receiptId =>
    refine ⟨[.ChallengeFiled (w.arbiter.nextId + 1) receiptId sender,
      .Slashed (w.executor.receipts receiptId).agentId (w.executor.receipts receiptId).owner
        (w.executor.receipts receiptId).amount (violationPayout w receiptId),
      .ChallengeResolved (w.arbiter.nextId + 1) true (violationPayout w receiptId)], rfl, ?_,
      by simp, by simp, ?_,
      by simp, fun _ h => .inl h⟩
    · simp [SameIntent]
    · intro challengeId id challenger he
      simp only [List.mem_cons, Event.ChallengeFiled.injEq, List.not_mem_nil, or_false,
        reduceCtorEq] at he
      obtain ⟨rfl, rfl, rfl⟩ := he
      exact ⟨true, violationPayout w id, (List.sublist_cons_self _ _).cons_cons _⟩
  | revokeIntent => exact ⟨_, newLogs_of_quiet rfl rfl (by simp)⟩
  | deposit => exact ⟨_, newLogs_of_quiet rfl rfl (by simp)⟩
  | slash => exact ⟨_, newLogs_of_quiet rfl rfl (by simp)⟩
  | setAgentDelegate => exact ⟨_, newLogs_of_quiet rfl rfl (by simp)⟩
  | setTraceAckSigner => exact ⟨_, newLogs_of_quiet rfl rfl (by simp)⟩
  | dismiss => exact ⟨_, newLogs_of_quiet rfl rfl (by simp)⟩
  | uphold => exact ⟨_, newLogs_of_quiet rfl rfl (by simp)⟩
  | setReviewerSigner => exact ⟨_, newLogs_of_quiet rfl rfl (by simp)⟩
  | _ => exact ⟨[], newLogs_of_quiet hnil rfl (by simp)⟩

structure LogInv (w : World D) : Prop extends LogOrder w.logs where
  committed_exists : ∀ o intentHash uri, .IntentCommitted o intentHash uri ∈ w.logs →
    w.registry.intentExists intentHash = true
  registered_logged : ∀ agentId, (w.agents.agents agentId).registered = true →
    ∃ operator uri, .AgentRegistered agentId operator uri ∈ w.logs

theorem LogInv.effect (hI : LogInv w) (h : Effect w sender call w') : LogInv w' := by
  obtain ⟨es, hnew⟩ := newLogs_of_effect h
  have hleft : ∀ {l : List Event}, l.Sublist w.logs → l.Sublist w'.logs := fun hl =>
    hnew.logs_eq ▸ hl.trans (List.sublist_append_left _ _)
  have hright : ∀ {l : List Event}, l.Sublist es → l.Sublist w'.logs := fun hl =>
    hnew.logs_eq ▸ hl.trans (List.sublist_append_right _ _)
  have hmem : ∀ {e : Event}, e ∈ w'.logs → e ∈ w.logs ∨ e ∈ es := fun he =>
    List.mem_append.1 (hnew.logs_eq ▸ he)
  refine ⟨⟨?_, ?_, ?_, ?_⟩, ?_, ?_⟩
  · rw [hnew.logs_eq, List.pairwise_append]
    refine ⟨hI.committed_once, hnew.committed_once, ?_⟩
    intro e he e' he' h
    obtain ⟨o, o', intentHash, uri, uri', rfl, rfl⟩ := h
    have hold := hI.committed_exists _ _ _ he
    rw [(hnew.committed _ _ _ he').1] at hold
    exact absurd hold (by simp)
  · intro id r he
    rcases hmem he with he | he
    · obtain ⟨uri, hl⟩ := hI.traced _ _ he
      exact ⟨uri, hleft hl⟩
    · obtain ⟨uri, hl⟩ := hnew.traced _ _ he
      exact ⟨uri, hright hl⟩
  · intro challengeId id challenger he
    rcases hmem he with he | he
    · obtain ⟨uphold, payout, hl⟩ := hI.resolved _ _ _ he
      exact ⟨uphold, payout, hleft hl⟩
    · obtain ⟨uphold, payout, hl⟩ := hnew.resolved _ _ _ he
      exact ⟨uphold, payout, hright hl⟩
  · intro agentId amount newStake he
    rcases hmem he with he | he
    · obtain ⟨operator, uri, hl⟩ := hI.registered _ _ _ he
      exact ⟨operator, uri, hleft hl⟩
    · obtain ⟨operator, uri, hreg⟩ := hI.registered_logged _ (hnew.staked _ _ _ he)
      refine ⟨operator, uri, ?_⟩
      rw [hnew.logs_eq]
      exact (List.singleton_sublist.2 hreg).append (List.singleton_sublist.2 he)
  · intro o intentHash uri he
    rcases hmem he with he | he
    · exact intentExists_of_effect h (hI.committed_exists _ _ _ he)
    · exact (hnew.committed _ _ _ he).2
  · intro agentId hregistered
    rcases hnew.registered agentId hregistered with hold | ⟨operator, uri, he⟩
    · obtain ⟨operator, uri, he⟩ := hI.registered_logged _ hold
      exact ⟨operator, uri, hnew.logs_eq ▸ List.mem_append_left _ he⟩
    · exact ⟨operator, uri, hnew.logs_eq ▸ List.mem_append_right _ he⟩

theorem logInv (hr : Reachable g w) : LogInv w := by
  refine hr.invariant (I := LogInv) ⟨⟨List.Pairwise.nil, ?_, ?_, ?_⟩, ?_, ?_⟩ ?_ ?_
  · simp [init]
  · simp [init]
  · simp [init]
  · simp [init]
  · intro agentId h
    exact absurd h Bool.false_ne_true
  · intro w n h
    obtain ⟨⟨h1, h2, h3, h4⟩, h5, h6⟩ := h
    exact ⟨⟨h1, h2, h3, h4⟩, h5, h6⟩
  · intro w w' tx _ hI h
    exact hI.effect h

end IntentGuard
