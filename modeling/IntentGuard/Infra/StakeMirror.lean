import IntentGuard.Infra.ChallengePrepare

/-!
# The indexed stake

`agents.total_stake` follows the `AgentStaked` logs, and the vault's stake moves with deposits and
slashes. The vault is not among the contracts the poller asks for, so a slash reaches no handler:
`indexed_stake_iff` says that the two agree for an agent exactly as long as it has not been slashed
since it last staked.

* `logged_stake`: the vault's stake by the last thing logged about it.
* `logged_agent`: what is logged about a registered agent is its registration first and its stakes
  after it.
* `totalStake_eq`: the row's stake is that of the last `AgentStaked`, or 0.
-/

namespace IntentGuard

open Function Runs

variable {D : Deployment} {g : Genesis D} {w w' : World D} {sender : Address} {call : Call}

/-! ### What the logs say about a stake -/

inductive StakeMove
  | staked (newStake : ℕ)
  | slashed
  deriving DecidableEq

def stakeMove (a : Bytes32) : Event → Option StakeMove
  | .AgentStaked agentId _ newStake => if agentId = a then some (.staked newStake) else none
  | .Slashed agentId _ _ _ => if agentId = a then some .slashed else none
  | _ => none

def stakedTo (a : Bytes32) : Event → Option ℕ
  | .AgentStaked agentId _ newStake => if agentId = a then some newStake else none
  | _ => none

/-- The agent has been slashed since it last staked. -/
def SlashedSince (a : Bytes32) (logs : List Event) : Prop :=
  lastLogged (stakeMove a) logs = some .slashed

instance (a : Bytes32) (logs : List Event) : Decidable (SlashedSince a logs) :=
  inferInstanceAs (Decidable (_ = _))

/-- The vault's stake, read off the logs. -/
inductive StakeLogged (a : Bytes32) (logs : List Event) (stake : ℕ) : Prop
  | never (hmove : lastLogged (stakeMove a) logs = none)
      (hstaked : lastLogged (stakedTo a) logs = none)
      (h : stake = 0)
  | staked (hmove : lastLogged (stakeMove a) logs = some (.staked stake))
      (hstaked : lastLogged (stakedTo a) logs = some stake)
  | slashed {n : ℕ} (hmove : SlashedSince a logs) (hstaked : lastLogged (stakedTo a) logs = some n)
      (h : stake < n)

variable {a : Bytes32} {logs es : List Event} {stake : ℕ}

theorem stakedTo_eq_none {e : Event} (h : stakeMove a e = none) : stakedTo a e = none := by
  cases e <;> simp_all [stakeMove, stakedTo]

theorem StakeLogged.quiet (h : StakeLogged a logs stake) (hes : ∀ e ∈ es, stakeMove a e = none) :
    StakeLogged a (logs ++ es) stake := by
  have hmove : lastLogged (stakeMove a) (logs ++ es) = lastLogged (stakeMove a) logs :=
    lastLogged_append_of_quiet hes
  have hstaked : lastLogged (stakedTo a) (logs ++ es) = lastLogged (stakedTo a) logs :=
    lastLogged_append_of_quiet fun e he => stakedTo_eq_none (hes e he)
  cases h with
  | never h₁ h₂ h => exact .never (hmove.trans h₁) (hstaked.trans h₂) h
  | staked h₁ h₂ => exact .staked (hmove.trans h₁) (hstaked.trans h₂)
  | slashed h₁ h₂ h => exact .slashed (hmove.trans h₁) (hstaked.trans h₂) h

/-- A slash takes something from what the last stake left. -/
theorem StakeLogged.slash (h : StakeLogged a logs stake) (hstake : stake ≠ 0) {paid : ℕ}
    (hpaid : 0 < paid) (hmove : lastLogged (stakeMove a) es = some .slashed)
    (hstaked : lastLogged (stakedTo a) es = none) :
    StakeLogged a (logs ++ es) (stake - paid) := by
  have hmove' : SlashedSince a (logs ++ es) := by
    rw [SlashedSince, lastLogged_append, hmove]
    rfl
  have hstaked' : lastLogged (stakedTo a) (logs ++ es) = lastLogged (stakedTo a) logs := by
    rw [lastLogged_append, hstaked, Option.none_or]
  cases h with
  | never _ _ h => exact absurd h hstake
  | staked _ h => exact .slashed hmove' (hstaked'.trans h) (by omega)
  | slashed _ h hlt => exact .slashed hmove' (hstaked'.trans h) (by omega)

theorem logged_stake (hr : Reachable g w) (a : Bytes32) :
    StakeLogged a w.logs (w.vault.stake a) := by
  apply hr.invariant (I := fun w => StakeLogged a w.logs (w.vault.stake a)) (.never rfl rfl rfl)
    (fun _ _ hI => hI)
  intro w w' tx hr hI h
  have hsender := (basics hr).not_agentRegistry tx.external
  have hslasher := (basics hr).not_challengeArbiter tx.external
  generalize tx.sender = sender at h hsender hslasher
  generalize tx.call = call at h
  have hquiet : ∀ es : List Event, w'.logs = w.logs ++ es → (∀ e ∈ es, stakeMove a e = none) →
      w'.vault.stake a = w.vault.stake a → StakeLogged a w'.logs (w'.vault.stake a) := by
    intro es hlogs hes hsame
    rw [hlogs, hsame]
    exact hI.quiet hes
  have hslash : ∀ {agentId : Bytes32} {paid : ℕ} (es : List Event), w'.logs = w.logs ++ es →
      w'.vault = slashed w agentId paid → w.vault.stake agentId ≠ 0 → 0 < paid →
        lastLogged (stakeMove agentId) es = some .slashed →
          lastLogged (stakedTo agentId) es = none →
          (agentId ≠ a → ∀ e ∈ es, stakeMove a e = none) →
            StakeLogged a w'.logs (w'.vault.stake a) := by
    intro agentId paid es hlogs hvault hstake hpaid hmove hstaked hother
    by_cases ha : agentId = a
    · subst ha
      rw [hlogs, hvault, slashed]
      dsimp only
      rw [update_self]
      exact hI.slash hstake hpaid hmove hstaked
    · refine hquiet es hlogs (hother ha) ?_
      rw [hvault, slashed]
      exact update_of_ne (Ne.symm ha) ..
  cases h with
  | @stake agentId amount u =>
    by_cases ha : agentId = a
    · subst ha
      refine .staked ?_ ?_
      · simp [lastLogged, stakeMove]
      · simp [lastLogged, stakedTo]
    · exact hquiet _ rfl (by simp [stakeMove, ha]) (update_of_ne (Ne.symm ha) ..)
  | deposit hs => exact absurd hs hsender
  | slash hs => exact absurd hs hslasher
  | @fileAmountViolation receiptId _ _ _ hok =>
    have hpaid : 0 < violationPayout w receiptId :=
      lt_min (Nat.zero_lt_of_lt hok.overspend) (Nat.pos_of_ne_zero hok.stake)
    refine hslash _ rfl rfl hok.stake hpaid ?_ ?_ ?_
    · simp [lastLogged, stakeMove, List.findSome?_cons]
    · simp [lastLogged, stakedTo]
    · intro hne
      simp [stakeMove, hne]
  | @uphold challengeId slashAmount _ r _ _ hr' _ hamount hstake =>
    have hpaid : 0 < min slashAmount (w.vault.stake r.agentId) :=
      lt_min (Nat.pos_of_ne_zero hamount) (Nat.pos_of_ne_zero hstake)
    refine hslash _ rfl rfl hstake hpaid ?_ ?_ ?_
    · simp [lastLogged, stakeMove, List.findSome?_cons]
    · simp [lastLogged, stakedTo]
    · intro hne
      simp [stakeMove, hne]
  | _ =>
    first
    | exact hI
    | exact hquiet _ rfl (by simp [stakeMove]) rfl

/-- What an event says about an agent: that it is registered, or its new stake. -/
def agentIn (a : Bytes32) : Event → Option (Option ℕ)
  | .AgentRegistered agentId _ _ => if agentId = a then some none else none
  | .AgentStaked agentId _ newStake => if agentId = a then some (some newStake) else none
  | _ => none

theorem stakedTo_eq_none_of_agentIn {e : Event} (h : agentIn a e = none) : stakedTo a e = none := by
  cases e <;> simp_all [agentIn, stakedTo]

theorem logged_agent (hr : Reachable g w) (a : Bytes32) :
    lastLogged (agentIn a) w.logs =
      if (w.agents.agents a).registered then some (lastLogged (stakedTo a) w.logs) else none := by
  apply hr.invariant (I := fun w => lastLogged (agentIn a) w.logs =
    if (w.agents.agents a).registered then some (lastLogged (stakedTo a) w.logs)
      else none) rfl (fun _ _ hI => hI)
  intro w w' tx hr hI h
  generalize tx.sender = sender at h
  generalize tx.call = call at h
  have hquiet : ∀ es : List Event, w'.logs = w.logs ++ es → (∀ e ∈ es, agentIn a e = none) →
      (w'.agents.agents a).registered = (w.agents.agents a).registered →
        lastLogged (agentIn a) w'.logs =
          if (w'.agents.agents a).registered then
            some (lastLogged (stakedTo a) w'.logs)
          else none := by
    intro es hlogs hes hsame
    rw [hlogs, lastLogged_append_of_quiet hes, hsame,
      lastLogged_append_of_quiet fun e he => stakedTo_eq_none_of_agentIn (hes e he)]
    exact hI
  cases h with
  | @registerAgent agentId operator uri _ hfresh =>
    by_cases ha : agentId = a
    · subst ha
      -- nothing has been logged about the agent yet
      rw [hfresh] at hI
      have hnone : lastLogged (stakedTo agentId) w.logs = none := by
        unfold lastLogged at hI ⊢
        rw [List.findSome?_eq_none_iff]
        intro e he
        exact stakedTo_eq_none_of_agentIn (List.findSome?_eq_none_iff.1 hI e he)
      have hagent : lastLogged (agentIn agentId) [.AgentRegistered agentId operator uri] =
          some none := by
        simp [lastLogged, agentIn]
      have hstaked : lastLogged (stakedTo agentId) [.AgentRegistered agentId operator uri] =
          none := by
        simp [lastLogged, stakedTo]
      dsimp only
      rw [lastLogged_append, lastLogged_append, hagent, hstaked, hnone]
      simp
    · refine hquiet _ rfl (by simp [agentIn, ha]) ?_
      dsimp only
      rw [update_of_ne (Ne.symm ha)]
  | @stake agentId amount u hregistered =>
    by_cases ha : agentId = a
    · subst ha
      simp [hregistered, lastLogged, agentIn, stakedTo]
    · exact hquiet _ rfl (by simp [agentIn, ha]) rfl
  | _ =>
    first
    | exact hI
    | exact hquiet _ rfl (by simp [agentIn]) rfl

end IntentGuard

namespace IntentGuard.Infra

open Replay Runs

variable {D : Deployment} {g : Genesis D} {w : World D} {chain H : List MinedLog}
  {ctx : DecodeContext}
variable {provider : Provider} {s : Store} {a : Bytes32}

/-! ### The row -/

/-- The stake that a write leaves, if it says. -/
def writtenStake : Write AgentRow ℕ → Option ℕ
  | .create _ => none
  | .update newStake => some newStake

theorem map_writtenStake (ctx : DecodeContext) (a : Bytes32) (l : MinedLog) :
    (agentTouch ctx a l).map writtenStake = agentIn a l.event := by
  unfold agentTouch agentIn
  cases l.event
  case AgentRegistered id _ _ => by_cases hid : id = a <;> simp [hid, writtenStake]
  case AgentStaked id _ _ => by_cases hid : id = a <;> simp [hid, writtenStake]
  all_goals rfl

/-- The last write to a registered agent's row. -/
theorem last_write (hv : ValidHistory g w chain) (hP : Replays chain H)
    (hregistered : (w.agents.agents a).registered = true) :
    ∃ write, H.reverse.findSome? (agentTouch ctx a) = some write ∧
      writtenStake write = lastLogged (stakedTo a) w.logs := by
  have hlast :=
    last_handled hv hP (f := agentIn a) (by intro e he; cases e <;> simp_all [indexed, agentIn])
  have hwritten : (fun l : MinedLog => agentIn a l.event) = fun l =>
      (agentTouch ctx a l).map writtenStake := by
    funext l
    rw [map_writtenStake]
  rw [logged_agent hv.reachable, if_pos hregistered, hwritten] at hlast
  have hmap := List.map_findSome? (l := H.reverse) (f := agentTouch ctx a) (g := writtenStake)
  exact Option.map_eq_some_iff.1 (hmap.trans hlast)

/-- A registered agent has a row. -/
theorem exists_getAgent (h : Indexed ctx provider g w s)
    (hregistered : (w.agents.agents a).registered = true) :
    ∃ row, getAgent a s = some row := by
  obtain ⟨chain, H, hv, hP, hs⟩ := h
  obtain ⟨operator, uri, hlog⟩ := (logInv hv.reachable).registered_logged a hregistered
  have hevent : Event.AgentRegistered a operator uri ∈ chain.map MinedLog.event := by
    rw [hv.events]
    exact List.mem_filter.2 ⟨hlog, rfl⟩
  obtain ⟨l, hl, hevent⟩ := List.mem_map.1 hevent
  have hfind :=
    (mirrors_of_replays hv hP hs).agents.map_find (fun _ => ()) (fun _ => ()) (fun _ => rfl)
    (fun _ _ => rfl) (fun _ _ => rfl) a
  apply Option.ne_none_iff_exists'.1
  intro hnone
  rw [show Table.find AgentRow.agentId a s.agents = none from hnone] at hfind
  have hcreation := List.findSome?_eq_none_iff.1 (Option.map_eq_none_iff.1 hfind.symm) l
    (List.mem_reverse.2 (hP.sublist.subset hl))
  simp [creation, agentTouch, hevent] at hcreation

theorem totalStake_eq (h : Indexed ctx provider g w s)
    (hregistered : (w.agents.agents a).registered = true) :
    ∃ row, getAgent a s = some row ∧ row.totalStake = (lastLogged (stakedTo a) w.logs).getD 0 := by
  obtain ⟨chain, H, hv, hP, hs⟩ := h
  obtain ⟨row, hrow⟩ := exists_getAgent ⟨chain, H, hv, hP, hs⟩ hregistered
  have hM := (mirrors_of_replays hv hP hs).agents
  obtain ⟨write, hwrite, hstake⟩ : ∃ write, H.reverse.findSome? (agentTouch ctx a) = some write ∧
    _ :=
    last_write hv hP hregistered
  refine ⟨row, hrow, ?_⟩
  rw [← hstake]
  cases write with
  | update newStake =>
    obtain ⟨row', rfl⟩ := hM.find_of_last_update hwrite hrow
    rfl
  | create c =>
    -- nobody has staked for the agent, so no handled log sets the stake
    have hnever : ∀ amount newStake, Event.AgentStaked a amount newStake ∉ w.logs := by
      intro amount newStake he
      have hnone := List.findSome?_eq_none_iff.1 hstake.symm _ (List.mem_reverse.2 he)
      simp [stakedTo] at hnone
    refine row_induction (P := fun row => row.totalStake = 0) ?_ ?_ ((hM.find_eq a).symm.trans hrow)
    · intro l _ c hc
      obtain ⟨operator, uri, -, rfl⟩ := agentTouch_create hc
      refine ⟨rfl, ?_⟩
      intro r hr
      cases provider with
      | sqlite => exact hr
      | supabase => rfl
    · intro l hl newStake hu
      obtain ⟨amount, hevent⟩ := agentTouch_update hu
      exact absurd (hevent ▸ hv.event_mem (hP.subset hl)) (hnever amount newStake)

/-- The indexed stake is the vault's exactly as long as the agent has not been slashed since it last
staked. -/
theorem indexed_stake_iff {D : Deployment} {g : Genesis D} {w : World D} (ctx : DecodeContext)
    (provider : Provider) (s : Store) (h : Indexed ctx provider g w s) (a : Bytes32)
    (hregistered : (w.agents.agents a).registered = true) :
    (∃ row, getAgent a s = some row ∧ row.totalStake = w.vault.stake a) ↔
      ¬ SlashedSince a w.logs := by
  obtain ⟨row, hrow, hstake⟩ := totalStake_eq h hregistered
  have hagree : (∃ row, getAgent a s = some row ∧ row.totalStake = w.vault.stake a) ↔
      (lastLogged (stakedTo a) w.logs).getD 0 = w.vault.stake a := by
    simp [hrow, hstake]
  rw [hagree]
  cases logged_stake h.reachable a with
  | never hmove hstaked hzero => simp [SlashedSince, hmove, hstaked, hzero]
  | staked hmove hstaked => simp [SlashedSince, hmove, hstaked]
  | slashed hmove hstaked hlt =>
    simp [hmove, hstaked]
    omega

open Localnet

/-- A slash that no handler sees. -/
theorem slashed_not_mirrored :
    ¬ ∀ (D : Deployment) (g : Genesis D) (w : World D) (ctx : DecodeContext)
      (provider : Provider) (s : Store),
      Indexed ctx provider g w s → ∀ a, (w.agents.agents a).registered = true →
        ∃ row, getAgent a s = some row ∧ row.totalStake = w.vault.stake a := by
  intro h
  let w := run step (init genesis) (filedOnce 100000000)
  have hr : IntentGuard.Reachable genesis w := reachable_run _ _
  obtain ⟨s, hs⟩ := exists_indexed ⟨fun _ => 0, fun _ => []⟩ .sqlite hr
  have hfacts : (w.agents.agents agent).registered = true ∧ SlashedSince agent w.logs := by
    decide +kernel
  obtain ⟨row, hrow, hstake⟩ := h localnet genesis w _ _ s hs agent hfacts.1
  obtain ⟨row', hrow', hindexed⟩ := totalStake_eq hs hfacts.1
  obtain rfl : row = row' := Option.some.inj (hrow.symm.trans hrow')
  have hdiffer : (lastLogged (stakedTo agent) w.logs).getD 0 ≠ w.vault.stake agent := by
    decide +kernel
  exact hdiffer (hindexed.symm.trans hstake)

/-- Two payments and no challenge. -/
theorem indexed_stake_iff_twoPayments :
    ∃ s row, Indexed ⟨fun _ => 0, fun _ => []⟩ .supabase genesis
        (run step (init genesis) (twoPayments 100000000)) s ∧
      getAgent agent s = some row ∧ row.totalStake = 100000000 := by
  have hr : IntentGuard.Reachable genesis (run step (init genesis) (twoPayments 100000000)) :=
    reachable_run _ _
  obtain ⟨s, hs⟩ := exists_indexed ⟨fun _ => 0, fun _ => []⟩ .supabase hr
  have hfacts : ((run step (init genesis) (twoPayments 100000000)).agents.agents agent).registered =
      true ∧
      ¬ SlashedSince agent (run step (init genesis) (twoPayments 100000000)).logs ∧
        (run step (init genesis) (twoPayments 100000000)).vault.stake agent = 100000000 := by
    decide +kernel
  obtain ⟨row, hrow, hstake⟩ := (indexed_stake_iff _ _ s hs agent hfacts.1).2 hfacts.2.1
  exact ⟨s, row, hs, hrow, hstake.trans hfacts.2.2⟩

end IntentGuard.Infra
