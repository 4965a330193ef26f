import IntentGuard.Contracts.Logs
import IntentGuard.Infra.Decoder
import IntentGuard.Lib.Mirror

/-!
# Chain histories

`ValidHistory` is a list of mined logs that the contracts can emit: the indexed logs of a reachable
state, in order, each at its own place in the chain. A hash is committed in one of its logs only
(`eq_of_commit`).

The rows of four tables are created and updated under a key, by the logs that `receiptTouch` and its
siblings name. In a valid history these rows are settled: a receipt's URI, a challenge's resolution
and an agent's stake are logged after what creates the row.
-/

namespace IntentGuard.Infra

open Replay

variable {D : Deployment} {g : Genesis D} {w : World D} {chain X : List MinedLog} {l : MinedLog}

/-- The events that the poller asks for. -/
def indexed : Event → Bool
  | .ActionReceipt .. | .ReceiptStored .. | .TraceURIStored .. | .AgentDelegateSet ..
  | .ChallengeFiled .. |
    .ChallengeResolved .. | .IntentCommitted .. | .IntentRevoked .. | .AgentRegistered
      .. | .AgentStaked .. => true
  | _ => false

structure ValidHistory (g : Genesis D) (w : World D) (chain : List MinedLog) : Prop where
  reachable : Reachable g w
  events : chain.map MinedLog.event = w.logs.filter indexed
  distinct : (chain.map fun l => (l.transactionHash, l.logIndex)).Nodup
  ordered : chain.Pairwise fun l l' => l.blockNumber ≤ l'.blockNumber
  /-- The genesis block has no transactions. -/
  block_pos : ∀ l ∈ chain, 0 < l.blockNumber

namespace ValidHistory

theorem nodup (hv : ValidHistory g w chain) : chain.Nodup := hv.distinct.of_map

theorem eq_of_place (hv : ValidHistory g w chain) {l l' : MinedLog} (hl : l ∈ chain)
    (hl' : l' ∈ chain) (htx : l.transactionHash = l'.transactionHash)
    (hindex : l.logIndex = l'.logIndex) : l = l' :=
  List.inj_on_of_nodup_map hv.distinct hl hl' (Prod.ext htx hindex)

/-- A hash is committed in one log. -/
theorem eq_of_commit (hv : ValidHistory g w chain) {l l' : MinedLog} {o o' : Address}
    {intentHash : Bytes32} {uri uri' : Bytes} (hl : l ∈ chain) (hl' : l' ∈ chain)
    (h : l.event = .IntentCommitted o intentHash uri)
    (h' : l'.event = .IntentCommitted o' intentHash uri') : l = l' := by
  have honce : (chain.map MinedLog.event).Pairwise fun e e' => ¬ SameIntent e e' := by
    rw [hv.events]
    exact (logInv hv.reachable).committed_once.filter _
  rw [List.pairwise_map] at honce
  by_contra hne
  have hsymm : Std.Symm fun l l' : MinedLog => ¬ SameIntent l.event l'.event := by
    constructor
    intro a b hab ⟨o, o', h, uri, uri', h₁, h₂⟩
    exact hab ⟨o', o, h, uri', uri, h₂, h₁⟩
  exact honce.forall hl hl' hne ⟨o, o', intentHash, uri, uri', h, h'⟩

/-- Two indexed events in the order of the contracts' logs are two logs of the history in that
order. -/
theorem pair (hv : ValidHistory g w chain) {e e' : Event} (he : indexed e = true)
    (he' : indexed e' = true) (h : [e, e'].Sublist w.logs) :
    ∃ a b, [a, b].Sublist chain ∧ a.event = e ∧ b.event = e' := by
  have hsub := h.filter indexed
  rw [← hv.events, List.filter_cons_of_pos he, List.filter_cons_of_pos he', List.filter_nil,
    List.sublist_map_iff] at hsub
  obtain ⟨ls, hls, hmap⟩ := hsub
  match ls, hmap with
  | [a, b], hmap =>
    obtain ⟨ha, hb⟩ := List.cons.inj hmap
    exact ⟨a, b, hls, ha.symm, (List.cons.inj hb).1.symm⟩

/-- An event of the history is among the contracts' logs. -/
theorem event_mem (hv : ValidHistory g w chain) (hl : l ∈ chain) : l.event ∈ w.logs :=
  List.mem_of_mem_filter (hv.events ▸ List.mem_map_of_mem hl)

end ValidHistory

/-- The events as logs, each alone in its block. -/
def oneLogPerBlock (block : ℕ) : List Event → List MinedLog
  | [] => []
  | event :: events => ⟨⟨block, block, 0⟩, event⟩ :: oneLogPerBlock (block + 1) events

theorem le_of_mem_oneLogPerBlock {events : List Event} {block : ℕ}
    (hl : l ∈ oneLogPerBlock block events) :
    block ≤ l.blockNumber ∧ l.transactionHash = l.blockNumber := by
  induction events generalizing block with
  | nil => exact absurd hl List.not_mem_nil
  | cons event events ih =>
    rcases List.mem_cons.1 hl with rfl | hl
    · exact ⟨le_rfl, rfl⟩
    · obtain ⟨hle, hplace⟩ := ih hl
      exact ⟨(Nat.le_succ block).trans hle, hplace⟩

theorem pairwise_oneLogPerBlock (events : List Event) (block : ℕ) :
    (oneLogPerBlock block events).Pairwise fun l l' => l.blockNumber < l'.blockNumber := by
  induction events generalizing block with
  | nil => exact List.Pairwise.nil
  | cons event events ih =>
    apply List.Pairwise.cons _ (ih _)
    intro l hl
    exact (le_of_mem_oneLogPerBlock hl).1

theorem map_event_oneLogPerBlock (events : List Event) (block : ℕ) :
    (oneLogPerBlock block events).map MinedLog.event = events := by
  induction events generalizing block with
  | nil => rfl
  | cons event events ih => exact congrArg (event :: ·) (ih _)

/-- Every reachable state has a valid history. -/
theorem oneLogPerBlock_valid (hr : Reachable g w) :
    ValidHistory g w (oneLogPerBlock 1 (w.logs.filter indexed)) where
  reachable := hr
  events := map_event_oneLogPerBlock _ _
  distinct := by
    unfold List.Nodup
    rw [List.pairwise_map]
    apply (pairwise_oneLogPerBlock _ _).imp_of_mem
    intro l l' hl hl' hlt heq
    have htx : l.transactionHash = l'.transactionHash := (Prod.mk.inj heq).1
    rw [(le_of_mem_oneLogPerBlock hl).2, (le_of_mem_oneLogPerBlock hl').2] at htx
    exact hlt.ne htx
  ordered := (pairwise_oneLogPerBlock _ _).imp Nat.le_of_lt
  block_pos := fun _ hl => (le_of_mem_oneLogPerBlock hl).1

/-! ### What a log does to the rows of the four tables -/

variable (ctx : DecodeContext)

def receiptTouch (k : Bytes32) (l : MinedLog) : Option (Write ReceiptRow Js.JsString) :=
  match l.event with
  | .ActionReceipt id r => if id = k then some (.create (receiptRow l.toProvenance id r)) else none
  | .TraceURIStored id uri => if id = k then some (.update (ctx.toText uri)) else none
  | _ => none

def mergeReceipt (input row : ReceiptRow) : ReceiptRow := { input with traceUri := row.traceUri }

def setTraceUri (uri : Js.JsString) (row : ReceiptRow) : ReceiptRow :=
  { row with traceUri := some uri }

def challengeTouch (k : ℕ) (l : MinedLog) :
    Option (Write InsertChallengeInput ResolveChallengeInput) :=
  match l.event with
  | .ChallengeFiled id receiptId challenger =>
    if id = k then some (.create (filingOf ctx l.toProvenance id receiptId challenger)) else none
  | .ChallengeResolved id uphold payout =>
    if id = k then some (.update (resolutionOf ctx l.toProvenance id uphold payout)) else none
  | _ => none

def agentTouch (k : Bytes32) (l : MinedLog) : Option (Write AgentRow ℕ) :=
  match l.event with
  | .AgentRegistered id operator uri =>
    if id = k then some (.create (agentRow ctx l.toProvenance id operator uri)) else none
  | .AgentStaked id _ newStake => if id = k then some (.update newStake) else none
  | _ => none

def mergeAgent (provider : Provider) (input row : AgentRow) : AgentRow :=
  match provider with
  | .sqlite => { row with operator := input.operator, metadataUri := input.metadataUri }
  | .supabase => input

theorem mergeAgent_key (provider : Provider) (input row : AgentRow)
    (h : row.agentId = input.agentId) :
    (mergeAgent provider input row).agentId = input.agentId := by
  cases provider with
  | sqlite => exact h
  | supabase => rfl

def setStake (newStake : ℕ) (row : AgentRow) : AgentRow := { row with totalStake := newStake }

def delegateTouch (k : Address × Bytes32 × Address × ℕ × Bytes32) (l : MinedLog) :
    Option (Write DelegateRow Empty) :=
  match l.event with
  | .AgentDelegateSet owner agentId delegate approved =>
    let row := delegateRow l.toProvenance owner agentId delegate approved
    if row.key = k then some (.create row) else none
  | _ => none

theorem receiptLaws : RowLaws id mergeReceipt setTraceUri :=
  ⟨fun _ => rfl, fun _ _ _ => rfl, fun _ _ _ => rfl, fun _ _ _ => rfl⟩

theorem challengeLaws : RowLaws filedRow (refile .sqlite) resolveRow :=
  ⟨fun _ => rfl, fun _ _ _ => rfl, fun _ _ _ => rfl, fun _ _ _ => rfl⟩

theorem agentLaws : RowLaws id (mergeAgent .sqlite) setStake :=
  ⟨fun _ => rfl, fun _ _ _ => rfl, fun _ _ _ => rfl, fun _ _ _ => rfl⟩

theorem delegateLaws :
    RowLaws id (fun input _ => input) (Empty.elim : Empty → DelegateRow → DelegateRow) :=
  ⟨fun _ => rfl, fun _ _ _ => rfl, fun _ u => u.elim, fun u => u.elim⟩

section
variable {ctx}

theorem receiptTouch_create {k : Bytes32} {c : ReceiptRow}
    (h : receiptTouch ctx k l = some (.create c)) :
    ∃ r, l.event = .ActionReceipt k r ∧ c = receiptRow l.toProvenance k r := by
  unfold receiptTouch at h
  cases he : l.event <;> simp only [he, reduceCtorEq] at h
  case ActionReceipt id r =>
    split_ifs at h with hid
    subst hid
    obtain rfl := Write.create.inj (Option.some.inj h)
    exact ⟨r, rfl, rfl⟩
  case TraceURIStored =>
    split_ifs at h
    simp at h

theorem challengeTouch_create {k : ℕ} {c : InsertChallengeInput}
    (h : challengeTouch ctx k l = some (.create c)) :
    ∃ receiptId challenger, l.event = .ChallengeFiled k receiptId challenger := by
  unfold challengeTouch at h
  cases he : l.event <;> simp only [he, reduceCtorEq] at h
  case ChallengeFiled id receiptId challenger =>
    split_ifs at h with hid
    subst hid
    exact ⟨receiptId, challenger, rfl⟩
  case ChallengeResolved =>
    split_ifs at h
    simp at h

theorem agentTouch_create {k : Bytes32} {c : AgentRow} (h : agentTouch ctx k l = some (.create c)) :
    ∃ operator uri, l.event = .AgentRegistered k operator uri ∧
      c = agentRow ctx l.toProvenance k operator uri := by
  unfold agentTouch at h
  cases he : l.event <;> simp only [he, reduceCtorEq] at h
  case AgentRegistered id operator uri =>
    split_ifs at h with hid
    subst hid
    obtain rfl := Write.create.inj (Option.some.inj h)
    exact ⟨operator, uri, rfl, rfl⟩
  case AgentStaked =>
    split_ifs at h
    simp at h

theorem agentTouch_update {k : Bytes32} {newStake : ℕ}
    (h : agentTouch ctx k l = some (.update newStake)) :
    ∃ amount, l.event = .AgentStaked k amount newStake := by
  unfold agentTouch at h
  cases he : l.event <;> simp only [he, reduceCtorEq] at h
  case AgentRegistered =>
    split_ifs at h
    simp at h
  case AgentStaked id amount newStake' =>
    split_ifs at h with hid
    subst hid
    obtain rfl := Write.update.inj (Option.some.inj h)
    exact ⟨amount, rfl⟩

end

namespace ValidHistory

/-- A receipt's URI is logged after the receipt. -/
theorem receipt_settled (hv : ValidHistory g w chain) (k : Bytes32) :
    Settled (receiptTouch ctx k) chain := by
  intro hc _
  obtain ⟨c, hc⟩ := Option.ne_none_iff_exists'.1 hc
  obtain ⟨l, hl, hc⟩ := List.exists_of_findSome?_eq_some hc
  obtain ⟨r, he, -⟩ := receiptTouch_create (creation_eq_some.1 hc)
  obtain ⟨uri, hsub⟩ := (logInv hv.reachable).traced k r (he ▸ hv.event_mem hl)
  obtain ⟨a, b, hab, ha, hb⟩ := hv.pair rfl rfl hsub
  exact ⟨a, b, hab, by simp [creation, receiptTouch, ha], by simp [updating, receiptTouch, hb]⟩

/-- A challenge is resolved by the call that files it. -/
theorem challenge_settled (hv : ValidHistory g w chain) (k : ℕ) :
    Settled (challengeTouch ctx k) chain := by
  intro hc _
  obtain ⟨c, hc⟩ := Option.ne_none_iff_exists'.1 hc
  obtain ⟨l, hl, hc⟩ := List.exists_of_findSome?_eq_some hc
  obtain ⟨receiptId, challenger, he⟩ := challengeTouch_create (creation_eq_some.1 hc)
  obtain ⟨uphold, payout, hsub⟩ := (logInv hv.reachable).resolved _ _ _ (he ▸ hv.event_mem hl)
  obtain ⟨a, b, hab, ha, hb⟩ := hv.pair rfl rfl hsub
  exact ⟨a, b, hab, by simp [creation, challengeTouch, ha], by simp [updating, challengeTouch, hb]⟩

/-- An agent is registered before anyone stakes for it. -/
theorem agent_settled (hv : ValidHistory g w chain) (k : Bytes32) :
    Settled (agentTouch ctx k) chain := by
  intro _ hu
  obtain ⟨u, hu⟩ := Option.ne_none_iff_exists'.1 hu
  obtain ⟨l, hl, hu⟩ := List.exists_of_findSome?_eq_some hu
  obtain ⟨amount, he⟩ := agentTouch_update (updating_eq_some.1 hu)
  obtain ⟨operator, uri, hsub⟩ := (logInv hv.reachable).registered _ _ _ (he ▸ hv.event_mem hl)
  obtain ⟨a, b, hab, ha, hb⟩ := hv.pair rfl rfl hsub
  exact ⟨a, b, hab, by simp [creation, agentTouch, ha], by simp [updating, agentTouch, hb]⟩

end ValidHistory

/-- Delegations are never updated. -/
theorem delegate_settled (k : Address × Bytes32 × Address × ℕ × Bytes32) :
    Settled (delegateTouch k) chain := by
  intro _ hu
  obtain ⟨u, -⟩ := Option.ne_none_iff_exists'.1 hu
  exact u.elim

end IntentGuard.Infra
