import IntentGuard.Contracts.History

/-!
# The deployment

The constructors, and the module of `ignition/modules/Deploy.ts`: six contracts, each created after
those whose addresses its constructor takes, and the one call that wires the vault. `Ignition` waits
for a future before it starts those that depend on it, and the chain is open to everybody meanwhile:
a contract that is there already takes transactions, one to an address without code does nothing.

`deployed`: the state right after `setWiring` is one that the system reaches from `init`, whatever
was sent in between; until then nothing is staked and nobody can file a challenge; and the
deployment comes to its end exactly when the signer and the owner that it was given are not zero.
-/

namespace IntentGuard

open Function Runs

variable {D : Deployment} {g : Genesis D}

/-! ### The constructors -/

/-- What the constructors revert with; the first is `Ownable`'s. -/
inductive ConstructorRevert
  | OwnableInvalidOwner (owner : Address)
  | ZeroAddress
  deriving DecidableEq

def IntentRegistry.construct (usdc : Address) : Except ConstructorRevert IntentRegistry.State :=
  if usdc = 0 then .error .ZeroAddress
  else .ok ⟨fun _ => 0, fun _ => 0, fun _ => default, fun _ => [], fun _ => false⟩

def StakeVault.construct (usdc : Address) : Except ConstructorRevert StakeVault.State :=
  if usdc = 0 then .error .ZeroAddress else .ok ⟨0, 0, fun _ => 0⟩

def GuardedExecutor.construct (usdc intentRegistry traceAckSigner initialOwner : Address) :
    Except ConstructorRevert GuardedExecutor.State :=
  if initialOwner = 0 then .error (.OwnableInvalidOwner initialOwner)
  else if usdc = 0 ∨ intentRegistry = 0 ∨ traceAckSigner = 0 ∨ initialOwner = 0 then
    .error .ZeroAddress
  else .ok ⟨initialOwner, traceAckSigner, fun _ _ _ => false, fun _ _ => 0, fun _ => 0,
    fun _ => default⟩

def AgentRegistry.construct (usdc stakeVault : Address) :
    Except ConstructorRevert AgentRegistry.State :=
  if usdc = 0 ∨ stakeVault = 0 then .error .ZeroAddress else .ok ⟨fun _ => default⟩

/-- The reviewer's signer may be zero. -/
def ChallengeArbiter.construct
    (usdc stakeVault agentRegistry intentRegistry guardedExecutor reviewerSigner
      initialOwner : Address) :
    Except ConstructorRevert ChallengeArbiter.State :=
  if initialOwner = 0 then .error (.OwnableInvalidOwner initialOwner)
  else if usdc = 0 ∨ stakeVault = 0 ∨ agentRegistry = 0 ∨ intentRegistry = 0 ∨ guardedExecutor = 0 ∨
    initialOwner = 0 then
    .error .ZeroAddress
  else .ok ⟨initialOwner, reviewerSigner, 0, fun _ => default⟩

namespace Deploy

/-! ### The module -/

/-- `MockUSDC` or the contract at the address given for it, the contracts, and the call. -/
inductive Future
  | usdc | intentRegistry | stakeVault | guardedExecutor | agentRegistry
  | challengeArbiter | setWiring
  deriving DecidableEq

/-- The futures among a future's arguments and in its `after`. -/
def Future.dependencies : Future → List Future
  | .usdc => []
  | .intentRegistry => [.usdc]
  | .stakeVault => [.usdc]
  | .guardedExecutor => [.usdc, .intentRegistry]
  | .agentRegistry => [.usdc, .stakeVault]
  | .challengeArbiter => [.usdc, .stakeVault, .agentRegistry, .intentRegistry, .guardedExecutor]
  | .setWiring => [.stakeVault, .agentRegistry, .challengeArbiter]

/-- The contract that a transaction goes to. -/
def receiver : Call → Future
  | .commitIntent _ _ _ | .revokeIntent => .intentRegistry
  | .registerAgent _ _ _ | .stake _ _ => .agentRegistry
  | .setWiring _ _ | .deposit _ _ _ | .slash _ _ _ => .stakeVault
  | .setAgentDelegate _ _ _ | .executeWithGuard _ | .setTraceAckSigner _ | .executorOwner _ =>
    .guardedExecutor
  | .fileAmountViolation _ | .resolveByReviewer _ _ _ _ | .setReviewerSigner _ | .arbiterOwner _ =>
    .challengeArbiter
  | .usdcTransfer _ _ | .usdcTransferFrom _ _ _ | .usdcApprove _ _ | .usdcMint _ _ => .usdc

/-- The storage of all addresses, and the futures that are confirmed. -/
structure State (D : Deployment) where
  world : World D
  confirmed : List Future

inductive Action (D : Deployment)
  | chain (a : IntentGuard.Action D)
  | execute (f : Future)

/-- The transaction of a future; the parameters of the module are those of the genesis. `MockUSDC`
has no storage of its own to set up. -/
def Future.deploy (g : Genesis D) (w : World D) : Future → Option (World D)
  | .usdc => some w
  | .intentRegistry =>
    (IntentRegistry.construct D.USDC).toOption.map fun registry => { w with registry }
  | .stakeVault => (StakeVault.construct D.USDC).toOption.map fun vault => { w with vault }
  | .guardedExecutor =>
    (GuardedExecutor.construct D.USDC D.intentRegistry g.traceAckSigner g.initialOwner).toOption.map
      fun executor => { w with executor }
  | .agentRegistry =>
    (AgentRegistry.construct D.USDC D.stakeVault).toOption.map fun agents => { w with agents }
  | .challengeArbiter =>
    (ChallengeArbiter.construct D.USDC D.stakeVault D.agentRegistry D.intentRegistry
      D.guardedExecutor g.reviewerSigner
      g.initialOwner).toOption.map fun arbiter => { w with arbiter }
  | .setWiring => (StakeVault.setWiring w D.deployer D.agentRegistry D.challengeArbiter).toOption

/-- A future is executed once, when all that it depends on is confirmed; one whose transaction
reverts is not confirmed. -/
def step (g : Genesis D) (s : State D) : Action D → State D
  | .chain (.elapse seconds) => { s with world := { s.world with now := s.world.now + seconds } }
  | .chain (.send tx) =>
    if receiver tx.call ∈ s.confirmed then { s with world := apply s.world tx } else s
  | .execute f =>
    if f ∈ s.confirmed ∨ ¬ f.dependencies ⊆ s.confirmed then s
    else
      match f.deploy g s.world with
      | some world => ⟨world, f :: s.confirmed⟩
      | none => s

/-- Before the deployment there is no storage at the addresses, but for a token that is there
already. -/
def start (g : Genesis D) (external : Bool) : State D where
  world :=
    { now := g.now
      usdc := g.usdc
      registry := ⟨fun _ => 0, fun _ => 0, fun _ => default, fun _ => [], fun _ => false⟩
      agents := ⟨fun _ => default⟩
      vault := ⟨0, 0, fun _ => 0⟩
      executor := ⟨0, 0, fun _ _ _ => false, fun _ _ => 0, fun _ => 0, fun _ => default⟩
      arbiter := ⟨0, 0, 0, fun _ => default⟩
      logs := [] }
  confirmed := if external then [.usdc] else []

def Action.future : Action D → Option Future
  | .chain _ => none
  | .execute f => some f

/-- The futures of a run, in the order of their execution. -/
def executions (as : List (Action D)) : List Future := as.filterMap Action.future

/-- Every future comes after those that it depends on. -/
def InOrder (fs : List Future) : Prop := ∀ before f, before ++ [f] <+: fs → f.dependencies ⊆ before

/-! ### The storage that the rest of the deployment will leave -/

/-- The constructors that have not run have run, and the vault is wired. -/
def complete (g : Genesis D) (confirmed : List Future) (w : World D) : World D :=
  { w with
    registry := if .intentRegistry ∈ confirmed then w.registry else (init g).registry
    agents := if .agentRegistry ∈ confirmed then w.agents else (init g).agents
    vault :=
      { w.vault with
        agentRegistry := D.agentRegistry
        challengeArbiter := D.challengeArbiter }
    executor := if .guardedExecutor ∈ confirmed then w.executor else (init g).executor
    arbiter := if .challengeArbiter ∈ confirmed then w.arbiter else (init g).arbiter }

section
variable {w w' : World D} {f : Future}

/-- What the transaction of a future does when it succeeds. -/
inductive Deploys (g : Genesis D) (w : World D) : Future → World D → Prop
  | usdc : Deploys g w .usdc w
  | intentRegistry : Deploys g w .intentRegistry { w with registry := (init g).registry }
  | stakeVault : Deploys g w .stakeVault { w with vault := ⟨0, 0, fun _ => 0⟩ }
  | guardedExecutor (hsigner : g.traceAckSigner ≠ 0) (howner : g.initialOwner ≠ 0) :
      Deploys g w .guardedExecutor { w with executor := (init g).executor }
  | agentRegistry : Deploys g w .agentRegistry { w with agents := (init g).agents }
  | challengeArbiter (howner : g.initialOwner ≠ 0) :
      Deploys g w .challengeArbiter { w with arbiter := (init g).arbiter }
  | setWiring (hunset : w.vault.agentRegistry = 0 ∧ w.vault.challengeArbiter = 0) :
      Deploys g w .setWiring
        { w with
          vault :=
            { w.vault with
              agentRegistry := D.agentRegistry
              challengeArbiter := D.challengeArbiter } }

theorem toOption_eq_some {ε α : Type*} {x : Except ε α} {a : α} :
    x.toOption = some a ↔ x = .ok a := by
  cases x <;> simp [Except.toOption]

/-- The addresses that the module passes on are those of contracts. -/
theorem deploy_eq_some : f.deploy g w = some w' ↔ Deploys g w f w' := by
  have hne : ∀ c ∈ D.contracts, c ≠ 0 := D.ne_zero
  simp only [Deployment.contracts, List.forall_mem_cons] at hne
  obtain ⟨husdc, hintents, hvault, hexecutor, hagents, harbiter, -⟩ := hne
  constructor
  · intro h
    cases f with
    | usdc =>
      obtain rfl := Option.some.inj h
      exact .usdc
    | intentRegistry =>
      simp only [Future.deploy, IntentRegistry.construct, if_neg husdc] at h
      obtain rfl := Option.some.inj h
      exact .intentRegistry
    | stakeVault =>
      simp only [Future.deploy, StakeVault.construct, if_neg husdc] at h
      obtain rfl := Option.some.inj h
      exact .stakeVault
    | guardedExecutor =>
      simp only [Future.deploy, GuardedExecutor.construct, husdc, hintents, false_or] at h
      split_ifs at h with howner hzero
      · simp [Except.toOption] at h
      · simp [Except.toOption] at h
      · obtain rfl := Option.some.inj h
        exact .guardedExecutor (not_or.1 hzero).1 howner
    | agentRegistry =>
      simp only [Future.deploy, AgentRegistry.construct, husdc, hvault, or_self, if_false] at h
      obtain rfl := Option.some.inj h
      exact .agentRegistry
    | challengeArbiter =>
      simp only [Future.deploy, ChallengeArbiter.construct, husdc, hvault, hagents, hintents,
        hexecutor, false_or] at h
      split_ifs at h with howner
      · simp [Except.toOption] at h
      · obtain rfl := Option.some.inj h
        exact .challengeArbiter howner
    | setWiring =>
      simp only [Future.deploy, toOption_eq_some, StakeVault.setWiring, bind_eq_ok, revertIf_eq_ok,
        pure_eq_ok, exists_const, not_or, not_not] at h
      obtain ⟨-, hunset, -, rfl⟩ := h
      exact .setWiring hunset
  · intro h
    cases h with
    | usdc => rfl
    | intentRegistry => simp [Future.deploy, IntentRegistry.construct, husdc, Except.toOption, init]
    | stakeVault => simp [Future.deploy, StakeVault.construct, husdc, Except.toOption]
    | guardedExecutor hsigner howner =>
      simp [Future.deploy, GuardedExecutor.construct, husdc, hintents, hsigner, howner,
        Except.toOption, init]
    | agentRegistry =>
      simp [Future.deploy, AgentRegistry.construct, husdc, hvault, Except.toOption, init]
    | challengeArbiter howner =>
      simp [Future.deploy, ChallengeArbiter.construct, husdc, hvault, hagents, hintents,
        hexecutor, howner, Except.toOption, init]
    | setWiring hunset =>
      simp only [Future.deploy, toOption_eq_some, StakeVault.setWiring, bind_eq_ok, revertIf_eq_ok,
        pure_eq_ok, exists_const, not_or, not_not]
      exact ⟨trivial, hunset, ⟨hagents, harbiter⟩, trivial⟩

end

section
variable {confirmed : List Future} {w w' : World D} {sender : Address} {call : Call}

/-- Before the wiring, what succeeds on the storage as it is succeeds on the storage completed. The
calls that reach the vault are refused: `stake`, `fileAmountViolation` and an upheld review because
the vault knows neither of its callers, the others because no account is a contract. -/
theorem exec_complete (hvault : w.vault = ⟨0, 0, fun _ => 0⟩) (hne : sender ≠ 0)
    (hdeployer : ∀ a c, call = .setWiring a c → sender ≠ D.deployer)
    (hreceiver : receiver call ∈ confirmed) (hclosed : ∀ f ∈ confirmed, f.dependencies ⊆ confirmed)
    (h : exec w sender call = .ok w') :
    exec (complete g confirmed w) sender call = .ok (complete g confirmed w') ∧ w'.vault = w.vault ∧
      w'.arbiter.nextId = w.arbiter.nextId := by
  cases call with
  | commitIntent intentHash cfg manifestURI =>
    simp only [receiver] at hreceiver
    simp only [exec, IntentRegistry.commitIntent, bind_eq_ok, revertIf_eq_ok, pure_eq_ok,
      exists_const, complete, if_pos hreceiver] at h ⊢
    obtain ⟨howner, htoken, hlength, hexpiry, hnonce, hfresh, rfl⟩ := h
    exact ⟨⟨howner, htoken, hlength, hexpiry, hnonce, hfresh, rfl⟩, rfl, rfl⟩
  | revokeIntent =>
    simp only [receiver] at hreceiver
    simp only [exec, IntentRegistry.revokeIntent, bind_eq_ok, revertIf_eq_ok, pure_eq_ok,
      exists_const, complete, if_pos hreceiver] at h ⊢
    obtain ⟨hactive, rfl⟩ := h
    exact ⟨⟨hactive, rfl⟩, rfl, rfl⟩
  | registerAgent agentId operator metadataURI =>
    simp only [receiver] at hreceiver
    simp only [exec, AgentRegistry.registerAgent, bind_eq_ok, revertIf_eq_ok, pure_eq_ok,
      exists_const, complete, if_pos hreceiver] at h ⊢
    obtain ⟨hoperator, hfresh, rfl⟩ := h
    exact ⟨⟨hoperator, hfresh, rfl⟩, rfl, rfl⟩
  | stake agentId amount =>
    cases effect_of_exec h with
    | stake _ _ _ hwired =>
      exact absurd (hwired.trans (congrArg StakeVault.State.agentRegistry hvault))
        D.agentRegistry_ne_zero
  | setWiring agentRegistry challengeArbiter =>
    cases effect_of_exec h with
    | setWiring hsender => exact absurd hsender (hdeployer _ _ rfl)
  | deposit agentId src amount =>
    cases effect_of_exec h with
    | deposit hsender =>
      exact absurd (hsender.trans (congrArg StakeVault.State.agentRegistry hvault)) hne
  | slash agentId dst amount =>
    cases effect_of_exec h with
    | slash hsender =>
      exact absurd (hsender.trans (congrArg StakeVault.State.challengeArbiter hvault)) hne
  | setAgentDelegate agentId delegate approved =>
    simp only [receiver] at hreceiver
    simp only [exec, Except.ok.injEq, GuardedExecutor.setAgentDelegate, complete,
      if_pos hreceiver] at h ⊢
    obtain rfl := h
    exact ⟨rfl, rfl, rfl⟩
  | executeWithGuard req =>
    simp only [receiver] at hreceiver
    have hregistry : .intentRegistry ∈ confirmed :=
      hclosed _ hreceiver (by simp [Future.dependencies])
    simp only [exec, map_eq_ok, Prod.exists, executeWithGuard_eq_ok, complete, if_pos hreceiver,
      if_pos hregistry] at h ⊢
    obtain ⟨_, id, ⟨hguard, hid, u, hpay, rfl⟩, rfl⟩ := h
    have hguard' : GuardPasses (complete g confirmed w) sender req := by
      simp only [complete, if_pos hreceiver, if_pos hregistry]
      exact ⟨hguard.delegate, hguard.token, hguard.active, hguard.notExpired, hguard.counterparty,
        hguard.noOverflow, hguard.dayCap, hguard.ack⟩
    simp only [complete, if_pos hreceiver, if_pos hregistry] at hguard'
    exact ⟨⟨_, id, ⟨hguard', hid, u, hpay, rfl⟩, rfl⟩, rfl, rfl⟩
  | setTraceAckSigner signer =>
    simp only [receiver] at hreceiver
    simp only [exec, GuardedExecutor.setTraceAckSigner, bind_eq_ok, revertIf_eq_ok, pure_eq_ok,
      exists_const, complete, if_pos hreceiver] at h ⊢
    obtain ⟨howner, hsigner, rfl⟩ := h
    exact ⟨⟨howner, hsigner, rfl⟩, rfl, rfl⟩
  | executorOwner newOwner =>
    simp only [receiver] at hreceiver
    simp only [exec, Except.ok.injEq, complete, if_pos hreceiver] at h ⊢
    obtain rfl := h
    exact ⟨rfl, rfl, rfl⟩
  | fileAmountViolation receiptId =>
    cases effect_of_exec h with
    | fileAmountViolation _ hwired =>
      exact absurd (hwired.trans (congrArg StakeVault.State.challengeArbiter hvault))
        D.challengeArbiter_ne_zero
  | resolveByReviewer challengeId uphold slashAmount reviewerSig =>
    cases uphold with
    | true =>
      cases effect_of_exec h with
      | uphold _ _ hwired =>
        exact absurd (hwired.trans (congrArg StakeVault.State.challengeArbiter hvault))
          D.challengeArbiter_ne_zero
    | false =>
      simp only [receiver] at hreceiver
      simp only [exec, ChallengeArbiter.resolveByReviewer, bind_eq_ok, revertIf_eq_ok, pure_eq_ok,
        exists_const, complete, if_pos hreceiver, Bool.false_eq_true, if_false] at h ⊢
      obtain ⟨hopen, hsigner, hsig, rfl⟩ := h
      exact ⟨⟨hopen, hsigner, hsig, rfl⟩, rfl, rfl⟩
  | setReviewerSigner signer =>
    simp only [receiver] at hreceiver
    simp only [exec, ChallengeArbiter.setReviewerSigner, bind_eq_ok, revertIf_eq_ok, pure_eq_ok,
      exists_const, complete, if_pos hreceiver] at h ⊢
    obtain ⟨howner, hsigner, rfl⟩ := h
    exact ⟨⟨howner, hsigner, rfl⟩, rfl, rfl⟩
  | arbiterOwner newOwner =>
    simp only [receiver] at hreceiver
    simp only [exec, Except.ok.injEq, complete, if_pos hreceiver] at h ⊢
    obtain rfl := h
    exact ⟨rfl, rfl, rfl⟩
  | usdcTransfer | usdcTransferFrom =>
    simp only [exec, safeTransfer_eq_ok, safeTransferFrom_eq_ok, complete] at h ⊢
    obtain ⟨u, hu, rfl⟩ := h
    exact ⟨⟨u, hu, rfl⟩, rfl, rfl⟩
  | usdcApprove | usdcMint =>
    simp only [exec, bind_eq_ok, orRevert_eq_ok, pure_eq_ok, complete] at h ⊢
    obtain ⟨u, hu, rfl⟩ := h
    exact ⟨⟨u, hu, rfl⟩, rfl, rfl⟩

/-- What a future's transaction leaves has less to complete, and is completed to the same. -/
theorem complete_deploy {f : Future} (hfresh : f ∉ confirmed) (hstake : w.vault.stake = fun _ => 0)
    (h : Deploys g w f w') : complete g (f :: confirmed) w' = complete g confirmed w := by
  cases h with
  | usdc | setWiring => simp [complete]
  | stakeVault => simp [complete, hstake]
  | _ => simp [complete, hfresh]

/-- When everything is confirmed there is nothing to complete. -/
theorem complete_eq (hclosed : ∀ f ∈ confirmed, f.dependencies ⊆ confirmed)
    (hwired : .setWiring ∈ confirmed) (hregistry : w.vault.agentRegistry = D.agentRegistry)
    (harbiter : w.vault.challengeArbiter = D.challengeArbiter) :
    complete g confirmed w = w ∧ ∀ f, f ∈ confirmed := by
  have hagents : .agentRegistry ∈ confirmed := hclosed _ hwired (by simp [Future.dependencies])
  have harbiters : .challengeArbiter ∈ confirmed := hclosed _ hwired (by simp [Future.dependencies])
  have hneeds : ∀ f ∈ Future.dependencies .challengeArbiter, f ∈ confirmed :=
    fun f hf => hclosed _ harbiters hf
  simp only [Future.dependencies, List.forall_mem_cons] at hneeds
  obtain ⟨husdc, hvault, -, hintents, hexecutor, -⟩ := hneeds
  constructor
  · simp only [complete, if_pos hagents, if_pos harbiters, if_pos hintents, if_pos hexecutor,
      ← hregistry, ← harbiter]
  · intro f
    cases f <;> assumption

end

/-! ### Along a deployment -/

/-- The deployer wires nothing but its own deployment. -/
def Alone (a : Action D) : Prop := ∀ tx, a = .chain (.send tx) → ∀ r c, tx.call = .setWiring r c →
    tx.sender ≠ D.deployer

structure Inv (g : Genesis D) (s : State D) : Prop where
  closed : ∀ f ∈ s.confirmed, f.dependencies ⊆ s.confirmed
  reachable : Reachable g (complete g s.confirmed s.world)
  unwired : .setWiring ∉ s.confirmed → s.world.vault = ⟨0, 0, fun _ => 0⟩ ∧
    s.world.arbiter.nextId = 0
  wired : .setWiring ∈ s.confirmed →
    s.world.vault.agentRegistry = D.agentRegistry ∧
    s.world.vault.challengeArbiter = D.challengeArbiter
  constructed : .guardedExecutor ∈ s.confirmed → g.traceAckSigner ≠ 0 ∧ g.initialOwner ≠ 0

variable {s : State D}

theorem inv_start (g : Genesis D) (external : Bool) : Inv g (start g external) where
  closed := by cases external <;> simp [start, Future.dependencies]
  reachable := by
    refine ⟨[], ?_⟩
    cases external <;> rfl
  unwired _ := ⟨rfl, rfl⟩
  wired h := by cases external <;> simp [start] at h
  constructed h := by cases external <;> simp [start] at h

/-- The chain moves on. -/
theorem inv_chain (hI : Inv g s) (a : IntentGuard.Action D) (ha : Alone (.chain a)) :
    Inv g (step g s (.chain a)) := by
  cases a with
  | elapse seconds =>
    exact ⟨hI.closed, hI.reachable.next (.elapse seconds), hI.unwired, hI.wired, hI.constructed⟩
  | send tx =>
    simp only [step]
    split_ifs with hreceiver
    · rcases hx : exec s.world tx.sender tx.call with e | w'
      · rw [apply_of_error hx]
        exact hI
      rw [apply_of_ok hx]
      by_cases hwiring : .setWiring ∈ s.confirmed
      · obtain ⟨hregistry, harbiter⟩ := hI.wired hwiring
        have hr : Reachable g w' := by
          have hnext := hI.reachable.next (.send tx)
          rwa [(complete_eq hI.closed hwiring hregistry harbiter).1, IntentGuard.step,
            apply_of_ok hx] at hnext
        have hb := basics hr
        refine ⟨hI.closed, ?_, fun h => absurd hwiring h,
          fun _ => ⟨hb.agentRegistry, hb.challengeArbiter⟩, hI.constructed⟩
        rw [(complete_eq hI.closed hwiring hb.agentRegistry hb.challengeArbiter).1]
        exact hr
      · obtain ⟨hvault, hnextId⟩ := hI.unwired hwiring
        obtain ⟨hcomplete, hvault', hnextId'⟩ :=
          exec_complete (g := g) hvault tx.sender_ne_zero (ha tx rfl) hreceiver hI.closed hx
        refine ⟨hI.closed, ?_, fun _ => ⟨hvault'.trans hvault, hnextId'.trans hnextId⟩,
          fun h => absurd h hwiring, hI.constructed⟩
        have hnext := hI.reachable.next (.send tx)
        rwa [IntentGuard.step, apply_of_ok hcomplete] at hnext
    · exact hI

/-- A future is executed, or refused. -/
theorem execute_cases (s : State D) (f : Future) :
    step g s (.execute f) = s ∨
      ∃ w', f ∉ s.confirmed ∧ f.dependencies ⊆ s.confirmed ∧ Deploys g s.world f w' ∧
        step g s (.execute f) = ⟨w', f :: s.confirmed⟩ := by
  simp only [step]
  split_ifs with hdue
  · exact .inl rfl
  · rw [not_or, not_not] at hdue
    rcases hdeploy : f.deploy g s.world with _ | w'
    · exact .inl rfl
    · exact .inr ⟨w', hdue.1, hdue.2, deploy_eq_some.1 hdeploy, rfl⟩

theorem inv_execute (hI : Inv g s) (f : Future) : Inv g (step g s (.execute f)) := by
  rcases execute_cases (g := g) s f with heq | ⟨w', hfresh, hdeps, hdeploys, heq⟩
  · rw [heq]
    exact hI
  rw [heq]
  have hwiring : .setWiring ∉ s.confirmed := by
    intro h
    obtain ⟨hregistry, harbiter⟩ := hI.wired h
    exact hfresh ((complete_eq (g := g) hI.closed h hregistry harbiter).2 f)
  obtain ⟨hvault, hnextId⟩ := hI.unwired hwiring
  have hcomplete := complete_deploy hfresh (by rw [hvault]) hdeploys
  refine ⟨?_, hcomplete ▸ hI.reachable, ?_, ?_, ?_⟩
  · intro f' hf'
    rcases List.mem_cons.1 hf' with rfl | hf'
    · exact List.subset_cons_of_subset _ hdeps
    · exact List.subset_cons_of_subset _ (hI.closed f' hf')
  · intro hnot
    cases hdeploys with
    | setWiring => exact absurd List.mem_cons_self hnot
    | challengeArbiter => exact ⟨hvault, rfl⟩
    | stakeVault => exact ⟨rfl, hnextId⟩
    | _ => exact ⟨hvault, hnextId⟩
  · intro hmem
    cases hdeploys with
    | setWiring => exact ⟨rfl, rfl⟩
    | _ => exact absurd (List.mem_of_ne_of_mem (by decide) hmem) hwiring
  · intro hmem
    cases hdeploys with
    | guardedExecutor hsigner howner => exact ⟨hsigner, howner⟩
    | _ => exact hI.constructed (List.mem_of_ne_of_mem (by decide) hmem)

/-- A future that is due is confirmed, when the parameters are not zero. -/
theorem mem_confirmed_execute (hI : Inv g s) {f : Future} (hdeps : f.dependencies ⊆ s.confirmed)
    (hsigner : g.traceAckSigner ≠ 0) (howner : g.initialOwner ≠ 0) :
    f ∈ (step g s (.execute f)).confirmed := by
  by_cases hf : f ∈ s.confirmed
  · simp only [step, if_pos (Or.inl hf)]
    exact hf
  have hdeploys : ∃ w', Deploys g s.world f w' := by
    cases f with
    | usdc => exact ⟨_, .usdc⟩
    | intentRegistry => exact ⟨_, .intentRegistry⟩
    | stakeVault => exact ⟨_, .stakeVault⟩
    | guardedExecutor => exact ⟨_, .guardedExecutor hsigner howner⟩
    | agentRegistry => exact ⟨_, .agentRegistry⟩
    | challengeArbiter => exact ⟨_, .challengeArbiter howner⟩
    | setWiring =>
      have hvault := (hI.unwired hf).1
      exact ⟨_, .setWiring (by rw [hvault]; exact ⟨rfl, rfl⟩)⟩
  obtain ⟨w', hw'⟩ := hdeploys
  have hdue : ¬ (f ∈ s.confirmed ∨ ¬ f.dependencies ⊆ s.confirmed) := not_or.2 ⟨hf, not_not.2 hdeps⟩
  simp only [step, if_neg hdue, deploy_eq_some.2 hw']
  exact List.mem_cons_self

/-- What is confirmed stays so. -/
theorem confirmed_subset (s : State D) (a : Action D) : s.confirmed ⊆ (step g s a).confirmed := by
  cases a with
  | chain a =>
    cases a with
    | elapse => exact List.Subset.refl _
    | send tx =>
      simp only [step]
      split_ifs <;> exact List.Subset.refl _
  | execute f =>
    rcases execute_cases (g := g) s f with heq | ⟨w', -, -, -, heq⟩
    · rw [heq]
      exact List.Subset.refl _
    · rw [heq]
      exact List.subset_cons_self f s.confirmed

theorem inv_run (as : List (Action D)) (halone : ∀ a ∈ as, Alone a) (external : Bool) :
    Inv g (run (step g) (start g external) as) := by
  induction as using List.reverseRecOn with
  | nil => exact inv_start g external
  | append_singleton as a ih =>
    have hI := ih fun b hb => halone b (List.mem_append_left _ hb)
    rw [run_concat]
    cases a with
    | chain a => exact inv_chain hI a (halone _ (by simp))
    | execute f => exact inv_execute hI f

/-- In order, everything that is executed is confirmed. -/
theorem executions_subset (hsigner : g.traceAckSigner ≠ 0) (howner : g.initialOwner ≠ 0)
    (as : List (Action D)) (halone : ∀ a ∈ as, Alone a) (external : Bool)
    (horder : InOrder (executions as)) :
    executions as ⊆ (run (step g) (start g external) as).confirmed := by
  induction as using List.reverseRecOn with
  | nil => exact List.nil_subset _
  | append_singleton as a ih =>
    have halone' : ∀ b ∈ as, Alone b := fun b hb => halone b (List.mem_append_left _ hb)
    have happend : executions (as ++ [a]) = executions as ++ executions [a] := List.filterMap_append
    rw [happend] at horder ⊢
    have hsubset := ih halone' fun before f hpre =>
      horder before f (hpre.trans (List.prefix_append _ _))
    rw [run_concat]
    apply List.append_subset.2
    refine ⟨List.Subset.trans hsubset (confirmed_subset _ a), ?_⟩
    cases a with
    | chain a => exact List.nil_subset _
    | execute f =>
      apply List.cons_subset.2
      refine ⟨mem_confirmed_execute (inv_run as halone' external) ?_ hsigner howner,
        List.nil_subset _⟩
      exact List.Subset.trans (horder (executions as) f List.prefix_rfl) hsubset

/-- The deployment: what it leaves is a state of the system, and it leaves it unless it was given a
zero. -/
theorem deployed (external : Bool) (as : List (Action D)) (halone : ∀ a ∈ as, Alone a) {s : State D}
    (hs : run (step g) (start g external) as = s) :
    (.setWiring ∈ s.confirmed → Reachable g s.world) ∧
    (.setWiring ∉ s.confirmed → (∀ agentId, s.world.vault.stake agentId = 0) ∧
      s.world.arbiter.nextId = 0) ∧
    (InOrder (executions as) → (∀ f, f ∈ executions as) →
      (.setWiring ∈ s.confirmed ↔ g.traceAckSigner ≠ 0 ∧ g.initialOwner ≠ 0)) := by
  subst hs
  have hI := inv_run (g := g) as halone external
  refine ⟨?_, ?_, ?_⟩
  · intro hwiring
    obtain ⟨hregistry, harbiter⟩ := hI.wired hwiring
    have hr := hI.reachable
    rwa [(complete_eq hI.closed hwiring hregistry harbiter).1] at hr
  · intro hwiring
    obtain ⟨hvault, hnextId⟩ := hI.unwired hwiring
    refine ⟨?_, hnextId⟩
    intro agentId
    rw [hvault]
  · intro horder hall
    constructor
    · intro hwiring
      obtain ⟨hregistry, harbiter⟩ := hI.wired hwiring
      exact hI.constructed ((complete_eq (g := g) hI.closed hwiring hregistry harbiter).2 _)
    · intro hparameters
      exact executions_subset hparameters.1 hparameters.2 as halone external horder (hall _)

namespace Rollout
open Localnet

/-- While the contracts are put in place alice commits and delegates, her agent's delegate pays, and
a stranger tries to wire the vault first. -/
def rollout : List (Action localnet) :=
  [.execute .usdc, .execute .stakeVault, .execute .intentRegistry,
    .chain (send alice (.commitIntent 77 config []) alice_external),
    .chain (send challenger (.setWiring challenger challenger) challenger_external),
    .execute .guardedExecutor,
    .chain (send alice (.setAgentDelegate agent delegate true) alice_external),
    .chain (send alice (.usdcApprove localnet.guardedExecutor 1000000000) alice_external),
    .chain (send delegate (.executeWithGuard (payment 15000000)) delegate_external),
    .execute .agentRegistry, .chain (.elapse 60), .execute .challengeArbiter, .execute .setWiring]

end Rollout

open Localnet Rollout in
/-- The payment made before the wiring is one of the system's. -/
theorem deployed_rollout :
    Reachable genesis (run (step genesis) (start genesis false) rollout).world ∧
      (run (step genesis) (start genesis false) rollout).world.executor.execNonce alice = 1 := by
  have halone : ∀ a ∈ rollout, Alone a := by
    rintro a ha tx rfl r c hcall
    simp only [rollout, List.mem_cons, List.not_mem_nil, or_false, reduceCtorEq, false_or,
      Action.chain.injEq, send, IntentGuard.Action.send.injEq] at ha
    rcases ha with rfl | rfl | rfl | rfl | rfl
    case inr.inl => exact (by decide : challenger ≠ localnet.deployer)
    all_goals simp at hcall
  have hwiring : .setWiring ∈ (run (step genesis) (start genesis false) rollout).confirmed := by
    decide +kernel
  exact ⟨(deployed false rollout halone rfl).1 hwiring, by decide +kernel⟩

end Deploy

end IntentGuard
