import IntentGuard.Contracts.NextNonce
import IntentGuard.Contracts.Stability

/-!
# The bootstrap script

`scripts/bootstrap-agent.ts` against the contracts. The script calls the chain one call at a time,
and between any two calls the chain moves on: `Chain.ahead` is what everybody else will do, given in
advance and arbitrary. `viem` estimates the gas of a transaction before it is sent, so a call that
would revert at the latest block stops the script; what is mined later may still revert, and the
script does not look at the status of a receipt.

`bootstrapped`: when the script gets to its end, and others have left its two accounts, the agent's
stake and the intent's hash alone, the agent is staked and the owner's policy is in force, so a
payment to the merchant goes through exactly when the day's cap, the balance and the acknowledgement
allow it.
-/

namespace IntentGuard.Bootstrap

open Function Runs

variable {D : Deployment} {g : Genesis D}

/-! ### The script -/

/-- A private-key account. -/
structure Account (D : Deployment) where
  address : Address
  ne_zero : address ≠ 0
  external : address ∉ D.contracts

def Account.of {address : Address} (h : address ≠ 0 ∧ address ∉ D.contracts) : Account D :=
  ⟨address, h.1, h.2⟩

def Account.tx (a : Account D) (call : Call) : Tx D := ⟨a.address, call, a.ne_zero, a.external⟩

/-- The environment and the deployment file; the contracts are those of the deployment. -/
structure Setup (D : Deployment) where
  operatorAccount : Account D
  ownerAccount : Account D
  agentId : Bytes32
  agentMetadataUri : Bytes
  merchantAddress : Address
  chainId : ℕ
  maxSpendPerTx : ℕ
  maxSpendPerDay : ℕ

def STAKE_AMOUNT : ℕ := 50000000

def OWNER_BUFFER_AMOUNT : ℕ := 100000000

def INTENT_EXPIRY_BUFFER_SECONDS : ℕ := 7 * 24 * 60 * 60

/-- The chain as the script finds it: its latest state, what others do between the script's calls,
and the transactions of theirs that have succeeded so far. -/
structure Chain (D : Deployment) where
  world : World D
  ahead : List (List (Action D))
  others : List (World D × Tx D)

namespace Chain

/-- Others act. -/
def advance (c : Chain D) : Chain D :=
  match c.ahead with
  | [] => c
  | as :: ahead =>
    { world := run step c.world as
      ahead
      others := c.others ++ (visits step c.world as).filterMap accepted }

def mine (c : Chain D) (tx : Tx D) : Chain D := { c with world := apply c.world tx }

end Chain

inductive Failure
  /-- The gas estimation of a transaction. -/
  | reverted (e : Revert)
  /-- `viem`'s `IntegerOutOfRangeError`. -/
  | integerOutOfRange
  deriving DecidableEq

abbrev Script (D : Deployment) := StateT (Chain D) (Except Failure)

def readContract {α : Type} (view : World D → α) : Script D α :=
  fun c => .ok (view c.advance.world, c.advance)

/-- `writeContract` and `waitForTransactionReceipt`. -/
def writeContract (tx : Tx D) : Script D Unit := fun c =>
  match exec c.advance.world tx.sender tx.call with
  | .error e => .error (.reverted e)
  | .ok _ => .ok ((), c.advance.advance.mine tx)

def ensureLocalMockUsdcBalance (wallet : Account D) (owner : Address) (minimumBalance : ℕ) :
    Script D Unit := do
  let balance ← readContract fun w => w.balanceOf owner
  if minimumBalance ≤ balance then
    pure ()
  else writeContract (wallet.tx (.usdcMint owner (minimumBalance - balance)))

/-- `resolveNextIntentNonce`, of the blocks that are latest at its two reads. -/
def nextIntentNonce (owner : Address) : Script D ℕ := do
  let activeIntentHash ← readContract fun w => IntentRegistry.getActiveIntentHash w owner
  if activeIntentHash = 0 then pure 1
  else do
    let cfg ← readContract fun w => (IntentRegistry.getIntent w activeIntentHash).1
    pure (cfg.nonce + 1)

/-- A word of an ABI encoding. -/
def abiWord (n : ℕ) : Bytes := (List.range 32).map fun i => UInt8.ofNat (n / 256 ^ (31 - i))

/-- `encodeAbiParameters` of the eight parameters, the array and the string behind the eight words
of the head. -/
def encodeAbiParameters (cfg : IntentConfig) (manifestURI : Bytes) : Bytes :=
  let counterparties := cfg.allowedCounterparties
  abiWord cfg.owner ++ abiWord cfg.token ++ abiWord cfg.maxSpendPerTx ++
    abiWord cfg.maxSpendPerDay ++ abiWord (8 * 32) ++ abiWord cfg.expiry.toNat ++
    abiWord cfg.nonce ++ abiWord (8 * 32 + 32 + 32 * counterparties.length) ++
    abiWord counterparties.length ++ counterparties.flatMap abiWord ++
    abiWord manifestURI.length ++ manifestURI ++
    List.replicate ((32 - manifestURI.length % 32) % 32) 0

def computeDemoIntentHash (K : Keccak) (cfg : IntentConfig) (manifestURI : Bytes) : Bytes32 :=
  K.bytes (encodeAbiParameters cfg manifestURI)

variable (S : Setup D)

def intentConfig (now nonce : ℕ) : IntentConfig where
  owner := S.ownerAccount.address
  token := D.USDC
  maxSpendPerTx := S.maxSpendPerTx
  maxSpendPerDay := S.maxSpendPerDay
  allowedCounterparties := [S.merchantAddress]
  expiry := UInt64.ofNat (now + INTENT_EXPIRY_BUFFER_SECONDS)
  nonce := nonce

/-- Steps 1 and 2: the stake that the agent has when it is registered, or has been found
registered. -/
def register : Script D ℕ := do
  let (existingOperator, existingStakeAmount) ← readContract fun w =>
    ((w.agents.agents S.agentId).operator, StakeVault.stakeOf w S.agentId)
  if existingOperator = 0 then
    writeContract
      (S.operatorAccount.tx (.registerAgent S.agentId S.operatorAccount.address S.agentMetadataUri))
  pure existingStakeAmount

/-- Step 2b. -/
def fund : Script D Unit := do
  if S.chainId = 31337 then do
    ensureLocalMockUsdcBalance S.operatorAccount S.operatorAccount.address STAKE_AMOUNT
    ensureLocalMockUsdcBalance S.ownerAccount S.ownerAccount.address OWNER_BUFFER_AMOUNT

/-- Steps 3 and 4. -/
def stake (existingStakeAmount : ℕ) : Script D Unit := do
  let remainingStake := STAKE_AMOUNT - existingStakeAmount
  if 0 < remainingStake then
    writeContract (S.operatorAccount.tx (.usdcApprove D.stakeVault remainingStake))
  if 0 < remainingStake then
    writeContract (S.operatorAccount.tx (.stake S.agentId remainingStake))

/-- Step 5. -/
def commit (now : ℕ) : Script D Bytes32 := do
  let nonce ← nextIntentNonce S.ownerAccount.address
  if 2 ^ 64 ≤ now + INTENT_EXPIRY_BUFFER_SECONDS ∨ 2 ^ 256 ≤ S.maxSpendPerTx ∨
    2 ^ 256 ≤ S.maxSpendPerDay ∨
      2 ^ 256 ≤ nonce then
    throw .integerOutOfRange
  let intentHash := computeDemoIntentHash D.keccak (intentConfig S now nonce) S.agentMetadataUri
  writeContract
    (S.ownerAccount.tx (.commitIntent intentHash (intentConfig S now nonce) S.agentMetadataUri))
  pure intentHash

/-- Steps 6 and 7. -/
def authorize : Script D Unit := do
  writeContract (S.ownerAccount.tx (.setAgentDelegate S.agentId S.operatorAccount.address true))
  writeContract (S.ownerAccount.tx (.usdcApprove D.guardedExecutor S.maxSpendPerDay))

/-- The script, with the clock of the machine that it runs on; it prints the hash. -/
def main (now : ℕ) : Script D Bytes32 := do
  let existingStakeAmount ← register S
  fund S
  stake S existingStakeAmount
  let intentHash ← commit S now
  authorize S
  let _ ← readContract fun w =>
    ((w.agents.agents S.agentId).operator, StakeVault.stakeOf w S.agentId)
  pure intentHash

/-! ### Running it -/

section
variable {α β : Type} {c c' : Chain D}

theorem bind_run {x : Script D α} {f : α → Script D β} {r : β × Chain D} :
    (x >>= f) c = .ok r ↔ ∃ a c₁, x c = .ok (a, c₁) ∧ f a c₁ = .ok r := by
  show (x c >>= fun p => f p.1 p.2) = .ok r ↔ _
  rw [bind_eq_ok]
  exact ⟨fun ⟨p, h⟩ => ⟨p.1, p.2, h⟩, fun ⟨a, c₁, h⟩ => ⟨(a, c₁), h⟩⟩

theorem pure_run {a a' : α} : (pure a : Script D α) c = .ok (a', c') ↔ a = a' ∧ c = c' := by
  show Except.ok (a, c) = Except.ok (a', c') ↔ _
  rw [Except.ok.injEq, Prod.mk.injEq]

theorem readContract_run {view : World D → α} {a : α} :
    readContract view c = .ok (a, c') ↔ view c.advance.world = a ∧ c.advance = c' := by
  unfold readContract
  rw [Except.ok.injEq, Prod.mk.injEq]

theorem writeContract_run {tx : Tx D} {u : Unit} :
    writeContract tx c = .ok (u, c') ↔
      (∃ w, exec c.advance.world tx.sender tx.call = .ok w) ∧ c.advance.advance.mine tx = c' := by
  unfold writeContract
  cases hexec : exec c.advance.world tx.sender tx.call with
  | error e => simp
  | ok w => simp

end

/-! ### From one point of the script to a later one -/

/-- The chain gets from one point to the other by transactions that others have made by then, the
script's own, which are of this kind, and time. -/
structure Leads (own : Call → Prop) (c c' : Chain D) : Prop where
  others : c.others ⊆ c'.others
  run : ∃ as, c'.world = run step c.world as ∧
    ∀ e ∈ (visits step c.world as).filterMap accepted, e ∈ c'.others ∨ own e.2.call

section
variable {own own' : Call → Prop} {c c' c₁ c₂ c₃ : Chain D}

theorem Leads.refl (c : Chain D) : Leads own c c :=
  ⟨fun _ he => he, [], rfl, fun _ he => absurd he List.not_mem_nil⟩

theorem Leads.mono (h : Leads own c c') (hown : ∀ call, own call → own' call) :
    Leads own' c c' := by
  obtain ⟨as, hworld, hevents⟩ := h.run
  exact ⟨h.others, as, hworld, fun e he => (hevents e he).imp id (hown _)⟩

theorem Leads.trans (h : Leads own c₁ c₂) (h' : Leads own c₂ c₃) : Leads own c₁ c₃ := by
  obtain ⟨as, hworld, hevents⟩ := h.run
  obtain ⟨bs, hworld', hevents'⟩ := h'.run
  refine ⟨fun e he => h'.others (h.others he), as ++ bs, ?_, ?_⟩
  · rw [run_append, ← hworld, hworld']
  · intro e he
    rw [visits_append, List.filterMap_append, ← hworld] at he
    rcases List.mem_append.1 he with he | he
    · exact (hevents e he).imp (h'.others ·) id
    · exact hevents' e he

theorem Leads.advance (c : Chain D) : Leads own c c.advance := by
  unfold Chain.advance
  cases c.ahead with
  | nil => exact .refl c
  | cons as ahead =>
    exact ⟨List.subset_append_left _ _, as, rfl, fun e he => .inl (List.mem_append_right _ he)⟩

theorem Leads.mine (c : Chain D) {tx : Tx D} (hown : own tx.call) : Leads own c (c.mine tx) := by
  refine ⟨fun _ he => he, [.send tx], rfl, ?_⟩
  intro e he
  rw [visits_cons, visits_nil, List.filterMap_cons, List.filterMap_nil] at he
  rcases hx : exec c.world tx.sender tx.call with err | w
  · rw [accepted_of_error hx] at he
    exact absurd he List.not_mem_nil
  · rw [accepted_of_ok hx] at he
    obtain rfl := List.mem_singleton.1 he
    exact .inr hown

theorem Leads.write (c : Chain D) {tx : Tx D} (hown : own tx.call) :
    Leads own c (c.advance.advance.mine tx) :=
  (Leads.advance c).trans ((Leads.advance _).trans (.mine _ hown))

theorem Leads.reachable (h : Leads own c c') (hr : Reachable g c.world) : Reachable g c'.world := by
  obtain ⟨as, hworld, -⟩ := h.run
  obtain ⟨bs, hbs⟩ := hr
  exact ⟨bs ++ as, by rw [run_append, hbs, hworld]⟩

/-- What time, the others' transactions and the script's own of this kind keep. -/
theorem Leads.keeps {P : World D → Prop} (h : Leads own c c') (hr : Reachable g c.world)
    (hP : P c.world) (htime : ∀ w n, P w → P { w with now := w.now + n })
    (hkeep : ∀ w w' (tx : Tx D), Reachable g w → exec w tx.sender tx.call = .ok w' →
      (w, tx) ∈ c'.others ∨ own tx.call → P w → P w') : P c'.world := by
  obtain ⟨as, hworld, hevents⟩ := h.run
  rw [hworld]
  refine Runs.history_induction
    (C := fun w a => ∀ e, accepted (w, a) = some e → e ∈ c'.others ∨ own e.2.call)
      (J := fun _ w => P w) hP ?_ as
    fun v hv e he => hevents e (List.mem_filterMap.2 ⟨v, hv, he⟩)
  intro _ w a hreach hw hC
  rcases a with n | tx
  · exact htime w n hw
  rcases hx : exec w tx.sender tx.call with err | w'
  · rwa [step, apply_of_error hx]
  · rw [step, apply_of_ok hx]
    obtain ⟨bs, hbs⟩ := hr
    obtain ⟨cs, hcs⟩ := hreach
    have hr' : Reachable g w := ⟨bs ++ cs, by rw [run_append, hbs, hcs]⟩
    exact hkeep w w' tx hr' hx (hC _ (accepted_of_ok hx)) hw

theorem Leads.now_le (h : Leads own c c') (hr : Reachable g c.world) : c.world.now ≤ c'.world.now :=
  h.keeps (P := fun w => c.world.now ≤ w.now) hr le_rfl
    (fun _ _ hw => hw.trans (Nat.le_add_right _ _))
    fun _ _ _ _ hx _ hw => (now_of_effect (effect_of_exec hx)).symm ▸ hw

end

/-- A piece of the script leads from where it starts to where it ends. -/
def Moves {α : Type} (x : Script D α) : Prop :=
  ∀ c a c', x c = .ok (a, c') → Leads (fun _ => True) c c'

namespace Moves
variable {α β : Type}

theorem bind {x : Script D α} {f : α → Script D β} (hx : Moves x) (hf : ∀ a, Moves (f a)) :
    Moves (x >>= f) := by
  intro c b c' h
  obtain ⟨a, c₁, ha, hb⟩ := bind_run.1 h
  exact (hx c a c₁ ha).trans (hf a c₁ b c' hb)

theorem pure (a : α) : Moves (Pure.pure a : Script D α) := by
  intro c a' c' h
  obtain ⟨-, rfl⟩ := pure_run.1 h
  exact .refl c

theorem throw (e : Failure) : Moves (MonadExcept.throw e : Script D α) :=
  fun _ _ _ h => absurd h nofun

theorem ite {p : Prop} [Decidable p] {x y : Script D α} (hx : Moves x) (hy : Moves y) :
    Moves (if p then x else y) := by
  split_ifs
  · exact hx
  · exact hy

theorem read (view : World D → α) : Moves (readContract view) := by
  intro c a c' h
  obtain ⟨-, rfl⟩ := readContract_run.1 h
  exact .advance c

theorem write (tx : Tx D) : Moves (writeContract tx) := by
  intro c a c' h
  obtain ⟨-, rfl⟩ := writeContract_run.1 h
  exact .write c trivial

end Moves

/-! ### The agent -/

/-- The others keep their hands off the two accounts, and nothing they do costs the operator's
balance or the agent's stake. -/
structure Undisturbed (e : World D × Tx D) : Prop where
  owner : e.2.sender ≠ S.ownerAccount.address
  operator : e.2.sender ≠ S.operatorAccount.address
  payment : ∀ req, e.2.call = .executeWithGuard req → req.owner ≠ S.ownerAccount.address
  funds : ∀ w', exec e.1 e.2.sender e.2.call = .ok w' →
    e.1.balanceOf S.operatorAccount.address ≤ w'.balanceOf S.operatorAccount.address ∧
      e.1.vault.stake S.agentId ≤ w'.vault.stake S.agentId

/-- The script's calls other than the one that stakes. -/
def Call.NotStake : Call → Prop
  | .registerAgent .. | .usdcMint .. | .usdcApprove .. | .commitIntent .. | .setAgentDelegate .. =>
    True
  | _ => False

section
variable {S} {w w' : World D} {sender : Address} {call : Call} {own : Call → Prop} {c c' : Chain D}

theorem agents_of_effect (h : Effect w sender call w') {agentId : Bytes32}
    (hregistered : (w.agents.agents agentId).registered = true) :
    w'.agents.agents agentId = w.agents.agents agentId := by
  cases h with
  | @registerAgent other _ _ _ hfresh =>
    have hne : agentId ≠ other := by
      rintro rfl
      exact absurd (hregistered.symm.trans hfresh) (by simp)
    exact update_of_ne hne ..
  | _ => rfl

theorem vault_of_effect (h : Effect w sender call w') (hcall : Call.NotStake call) :
    w'.vault = w.vault := by
  cases h <;> first | rfl | exact hcall.elim

/-- Only its operator raises an agent's stake. -/
theorem stake_of_effect (hI : Basics w) (hext : sender ∉ D.contracts) (h : Effect w sender call w')
    {agentId : Bytes32} (hlt : w.vault.stake agentId < w'.vault.stake agentId) :
    sender = (w.agents.agents agentId).operator := by
  have hslashed : ∀ agent actual,
      (slashed w agent actual).stake agentId ≤ w.vault.stake agentId := by
    intro agent actual
    by_cases hagent : agentId = agent
    · subst hagent
      simp [slashed]
    · exact (update_of_ne hagent ..).le
  cases h with
  | @stake other amount _ _ hoperator =>
    by_cases hagent : agentId = other
    · rw [hagent]
      exact hoperator
    · exact absurd ((update_of_ne hagent ..).symm.trans_gt hlt) (lt_irrefl _)
  | deposit hs => exact absurd hs (hI.not_agentRegistry hext)
  | slash hs => exact absurd hs (hI.not_challengeArbiter hext)
  | fileAmountViolation => exact absurd hlt (Nat.not_lt.2 (hslashed _ _))
  | uphold => exact absurd hlt (Nat.not_lt.2 (hslashed _ _))
  | _ => exact absurd hlt (lt_irrefl _)

/-- Only the account itself moves what the vault may draw from it. -/
theorem vault_allowance_of_effect (hI : Basics w) (hext : sender ∉ D.contracts)
    (h : Effect w sender call w') {o : Address} (hsender : sender ≠ o) :
    D.token.allowance w'.usdc o D.stakeVault = D.token.allowance w.usdc o D.stakeVault := by
  have hpull : ∀ {u u' : D.token.State} {sp src dst v},
      D.token.transferFrom u sp src dst v = some u' →
      (o, D.stakeVault) ≠ (src, sp) →
        D.token.allowance u' o D.stakeVault = D.token.allowance u o D.stakeVault :=
    D.token.allowance_transferFrom_other
  cases h with
  | stake _ _ _ _ hu => exact hpull hu fun heq => hsender (Prod.mk.inj heq).1.symm
  | deposit hs => exact absurd hs (hI.not_agentRegistry hext)
  | slash hs => exact absurd hs (hI.not_challengeArbiter hext)
  | executeWithGuard _ hu =>
    exact hpull hu fun heq => stakeVault_ne_guardedExecutor (Prod.mk.inj heq).2
  | fileAmountViolation _ _ hbond hpay hrefund =>
    simp only [filed, D.token.allowance_transfer hrefund, D.token.allowance_transfer hpay]
    exact hpull hbond fun heq => hsender (Prod.mk.inj heq).1.symm
  | uphold _ _ _ _ _ hpay => simp only [D.token.allowance_transfer hpay]
  | usdcTransfer hu => simp only [D.token.allowance_transfer hu]
  | usdcTransferFrom hu =>
    refine hpull hu fun heq => ?_
    have hspender : D.stakeVault = sender := (Prod.mk.inj heq).2
    exact hext (hspender ▸ D.stakeVault_mem)
  | usdcApprove hu => exact D.token.allowance_approve_other hu hsender.symm
  | usdcMint hu => simp only [D.token.allowance_mint hu]
  | _ => rfl

theorem stake_eq_ok {agentId : Bytes32} {amount : ℕ} :
    (∃ w', exec w sender (.stake agentId amount) = .ok w') ↔
      (w.agents.agents agentId).registered = true ∧ sender = (w.agents.agents agentId).operator ∧
      amount ≠ 0 ∧
        D.agentRegistry = w.vault.agentRegistry ∧ w.vault.stake agentId + amount < 2 ^ 256 ∧
          ∃ u, D.token.transferFrom w.usdc D.stakeVault sender D.stakeVault amount = some u := by
  simp only [exec, AgentRegistry.stake, StakeVault.deposit, safeTransferFrom_eq_ok, bind_eq_ok,
    revertIf_eq_ok, checkedAdd_eq_ok, pure_eq_ok, not_not, Bool.not_eq_false, World.emit]
  constructor
  · rintro ⟨_, _, hregistered, _, hoperator, _, hne, _,
      ⟨_, hwired, _, -, _, ⟨u, hu, rfl⟩, _, ⟨hlt, -⟩, -⟩, -⟩
    exact ⟨hregistered, hoperator, hne, hwired, hlt, u, hu⟩
  · rintro ⟨hregistered, hoperator, hne, hwired, hlt, u, hu⟩
    exact ⟨_, (), hregistered, (), hoperator, (), hne, _,
      ⟨(), hwired, (), hne, _, ⟨u, hu, rfl⟩, _, ⟨hlt, rfl⟩, rfl⟩, rfl⟩

/-- An agent without an operator is not registered. -/
theorem operator_eq_zero (hr : Reachable g w) (agentId : Bytes32)
    (h : (w.agents.agents agentId).registered = false) :
    (w.agents.agents agentId).operator = 0 := by
  refine hr.invariant (I := fun w => (w.agents.agents agentId).registered = false →
    (w.agents.agents agentId).operator = 0)
    (fun _ => rfl) (fun _ _ hI => hI) ?_ h
  intro w w' tx _ hI he hregistered
  obtain ⟨sender, call, hne, hext⟩ := tx
  cases he with
  | @registerAgent other operator metadataURI =>
    by_cases hagent : agentId = other
    · subst hagent
      exact absurd ((congrArg AgentRegistry.AgentRecord.registered (update_self ..)).symm.trans
        hregistered) (by simp)
    · dsimp only at hregistered ⊢
      rw [update_of_ne hagent] at hregistered ⊢
      exact hI hregistered
  | _ => exact hI hregistered

theorem Leads.registered (h : Leads own c c') (hr : Reachable g c.world)
    (hregistered : (c.world.agents.agents S.agentId).registered = true) :
    (c'.world.agents.agents S.agentId).registered = true := by
  refine h.keeps (P := fun w => (w.agents.agents S.agentId).registered = true) hr hregistered
    (fun _ _ hw => hw) ?_
  intro w w' tx _ hx _ hw
  rw [agents_of_effect (effect_of_exec hx) hw]
  exact hw

/-- The stake that the agent has had. -/
theorem Leads.stake_le (h : Leads Call.NotStake c c') (hr : Reachable g c.world)
    (hothers : ∀ e ∈ c'.others, Undisturbed S e) :
    c.world.vault.stake S.agentId ≤ c'.world.vault.stake S.agentId := by
  refine h.keeps (P := fun w => c.world.vault.stake S.agentId ≤ w.vault.stake S.agentId) hr le_rfl
    (fun _ _ hw => hw) ?_
  rintro w w' tx _ hx (hother | hown) hw
  · exact hw.trans ((hothers _ hother).funds _ hx).2
  · rwa [vault_of_effect (effect_of_exec hx) hown]

theorem register_spec (hr : Reachable g c.world) {existing : ℕ}
    (hrun : register S c = .ok (existing, c')) (hothers : ∀ e ∈ c'.others, Undisturbed S e) :
    Leads Call.NotStake c c' ∧ (c'.world.agents.agents S.agentId).registered = true ∧
      existing ≤ c'.world.vault.stake S.agentId := by
  unfold register at hrun
  obtain ⟨_, c₁, hread, hrun⟩ := bind_run.1 hrun
  obtain ⟨rfl, rfl⟩ := readContract_run.1 hread
  have hlead : Leads Call.NotStake c c.advance := .advance c
  have hr₁ := hlead.reachable hr
  dsimp only at hrun
  split_ifs at hrun with hnone
  · obtain ⟨_, c₂, hwrite, hrun⟩ := bind_run.1 hrun
    obtain ⟨-, rfl⟩ := writeContract_run.1 hwrite
    obtain ⟨rfl, rfl⟩ := pure_run.1 hrun
    have hlead₂ : Leads Call.NotStake c.advance (c.advance.advance.advance.mine
        (S.operatorAccount.tx (.registerAgent S.agentId S.operatorAccount.address
          S.agentMetadataUri))) := .write _ trivial
    refine ⟨hlead.trans hlead₂, ?_, hlead₂.stake_le hr₁ hothers⟩
    -- when the transaction reverts, somebody else has registered the agent
    show ((apply _ _).agents.agents S.agentId).registered = true
    generalize c.advance.advance.advance.world = w
    cases hx : exec w S.operatorAccount.address
        (.registerAgent S.agentId S.operatorAccount.address S.agentMetadataUri) with
    | ok w' =>
      rw [apply_of_ok hx]
      cases effect_of_exec hx
      show (update w.agents.agents S.agentId _ S.agentId).registered = true
      rw [update_self]
    | error e =>
      rw [apply_of_error hx]
      by_contra hregistered
      simp [exec, AgentRegistry.registerAgent, revertIf, S.operatorAccount.ne_zero, hregistered,
        bind, Except.bind, pure, Except.pure] at hx
  · obtain ⟨rfl, rfl⟩ := pure_run.1 hrun
    refine ⟨hlead, ?_, le_rfl⟩
    by_contra hregistered
    exact hnone (operator_eq_zero hr₁ S.agentId (Bool.not_eq_true _ ▸ hregistered))

theorem ensureLocalMockUsdcBalance_spec {wallet : Account D} {owner : Address}
    {minimumBalance : ℕ} {u : Unit}
    (hrun : ensureLocalMockUsdcBalance wallet owner minimumBalance c = .ok (u, c')) :
    Leads Call.NotStake c c' := by
  unfold ensureLocalMockUsdcBalance at hrun
  obtain ⟨_, c₁, hread, hrun⟩ := bind_run.1 hrun
  obtain ⟨rfl, rfl⟩ := readContract_run.1 hread
  split_ifs at hrun
  · obtain ⟨-, rfl⟩ := pure_run.1 hrun
    exact .advance c
  · obtain ⟨-, rfl⟩ := writeContract_run.1 hrun
    exact (Leads.advance c).trans (.write _ trivial)

theorem fund_spec {u : Unit} (hrun : fund S c = .ok (u, c')) : Leads Call.NotStake c c' := by
  unfold fund at hrun
  split_ifs at hrun
  · obtain ⟨_, c₁, hoperator, howner⟩ := bind_run.1 hrun
    exact (ensureLocalMockUsdcBalance_spec hoperator).trans (ensureLocalMockUsdcBalance_spec howner)
  · obtain ⟨-, rfl⟩ := pure_run.1 hrun
    exact .refl c

/-! ### The stake -/

/-- What the estimate of the stake has seen is still there when it is mined. -/
theorem stake_mined (hr : Reachable g c.world)
    (hregistered : (c.world.agents.agents S.agentId).registered = true) {amount : ℕ}
    (hestimate : ∃ w, exec c.world S.operatorAccount.address (.stake S.agentId amount) = .ok w)
    (hothers : ∀ e ∈ c.advance.others, Undisturbed S e) :
    (apply c.advance.world (S.operatorAccount.tx (.stake S.agentId amount))).vault.stake S.agentId =
      c.world.vault.stake S.agentId + amount := by
  have hlead : Leads (fun _ => False) c c.advance := .advance c
  obtain ⟨-, hoperator, hne, -, hlt, u, hpull⟩ := stake_eq_ok.1 hestimate
  obtain ⟨-, hbalance, hallowance⟩ := D.token.transferFrom_bounds D.stakeVault_ne_zero hpull
  -- one account of all that others leave as it is
  have hsame : c.advance.world.agents.agents S.agentId = c.world.agents.agents S.agentId ∧
      c.advance.world.vault.stake S.agentId = c.world.vault.stake S.agentId ∧
      c.world.balanceOf S.operatorAccount.address ≤
        c.advance.world.balanceOf S.operatorAccount.address ∧
      D.token.allowance c.advance.world.usdc S.operatorAccount.address D.stakeVault =
        D.token.allowance c.world.usdc S.operatorAccount.address D.stakeVault := by
    refine hlead.keeps (P := fun w => w.agents.agents S.agentId = c.world.agents.agents S.agentId ∧
      w.vault.stake S.agentId = c.world.vault.stake S.agentId ∧
      c.world.balanceOf S.operatorAccount.address ≤ w.balanceOf S.operatorAccount.address ∧
      D.token.allowance w.usdc S.operatorAccount.address D.stakeVault =
        D.token.allowance c.world.usdc S.operatorAccount.address D.stakeVault) hr
          ⟨rfl, rfl, le_rfl, rfl⟩
      (fun _ _ hw => hw) ?_
    rintro w w' tx hrw hx (hother | hown) ⟨hagent, hstake, hfunds, hallow⟩
    · have hquiet := hothers _ hother
      have he := effect_of_exec hx
      obtain ⟨hbalance', hstake'⟩ := hquiet.funds _ hx
      have hregistered' : (w.agents.agents S.agentId).registered = true := hagent ▸ hregistered
      have hagent' := agents_of_effect he hregistered'
      refine ⟨hagent'.trans hagent, ?_, hfunds.trans hbalance',
        (vault_allowance_of_effect (basics hrw) tx.external he hquiet.operator).trans hallow⟩
      refine le_antisymm (Nat.not_lt.1 fun hraised => hquiet.operator ?_) (hstake ▸ hstake')
      rw [stake_of_effect (basics hrw) tx.external he (hstake ▸ hraised), hagent, ← hoperator]
    · exact hown.elim
  obtain ⟨hagent, hstake, hfunds, hallow⟩ := hsame
  obtain ⟨u', hpull'⟩ :=
    D.token.exists_transferFrom D.stakeVault_ne_zero S.operatorAccount.ne_zero D.stakeVault_ne_zero
    (hbalance.trans hfunds) (hallowance.trans hallow.ge)
  have hwired : D.agentRegistry = c.advance.world.vault.agentRegistry :=
    (basics (hlead.reachable hr)).agentRegistry.symm
  obtain ⟨w', hx⟩ := stake_eq_ok.2 ⟨hagent ▸ hregistered, hagent ▸ hoperator, hne, hwired,
    hstake ▸ hlt, u', hpull'⟩
  have happly : apply c.advance.world (S.operatorAccount.tx (.stake S.agentId amount)) = w' :=
    apply_of_ok hx
  rw [happly]
  cases effect_of_exec hx
  exact (update_self ..).trans (by rw [hstake])

theorem stake_spec (hr : Reachable g c.world)
    (hregistered : (c.world.agents.agents S.agentId).registered = true) {existing : ℕ}
    (hexisting : existing ≤ c.world.vault.stake S.agentId) {u : Unit}
    (hrun : stake S existing c = .ok (u, c')) (hothers : ∀ e ∈ c'.others, Undisturbed S e) :
    STAKE_AMOUNT ≤ c'.world.vault.stake S.agentId := by
  unfold stake at hrun
  dsimp only at hrun
  split_ifs at hrun with hremaining
  · obtain ⟨_, c₁, happrove, hstake⟩ := bind_run.1 hrun
    obtain ⟨-, rfl⟩ := writeContract_run.1 happrove
    obtain ⟨hestimate, rfl⟩ := writeContract_run.1 hstake
    generalize hc₁ : c.advance.advance.mine
      (S.operatorAccount.tx (.usdcApprove D.stakeVault (STAKE_AMOUNT - existing))) = c₁ at *
    have hlead₁ : Leads Call.NotStake c c₁ := hc₁ ▸ .write c trivial
    have hlead₂ : Leads Call.NotStake c c₁.advance := hlead₁.trans (.advance c₁)
    have hothers₂ : ∀ e ∈ c₁.advance.advance.others, Undisturbed S e := hothers
    have hnext : Leads Call.NotStake c₁.advance c₁.advance.advance := .advance _
    have hstake₂ := hlead₂.stake_le hr fun e he => hothers₂ e (hnext.others he)
    have hmined :=
      stake_mined (hlead₂.reachable hr) (hlead₂.registered hr hregistered) hestimate hothers₂
    calc STAKE_AMOUNT ≤ c₁.advance.world.vault.stake S.agentId + (STAKE_AMOUNT - existing) := by
          omega
      _ = _ := hmined.symm
  · obtain ⟨-, rfl⟩ := pure_run.1 hrun
    omega

/-! ### The intent -/

/-- What can refuse the commit when it is mined. -/
theorem commitIntent_mined (hr : Reachable g c.world) {nonce now : ℕ} {intentHash : Bytes32}
    {manifestURI : Bytes}
    (hestimate : ∃ w, exec c.world S.ownerAccount.address
      (.commitIntent intentHash (intentConfig S now nonce) manifestURI) =
      .ok w)
    (hothers : ∀ e ∈ c.advance.others, Undisturbed S e)
    (hfresh : ∀ e ∈ c.advance.others, ∀ cfg uri, e.2.call ≠ .commitIntent intentHash cfg uri)
    (htime : c.advance.world.now < (intentConfig S now nonce).expiry.toNat) :
    Held (apply c.advance.world
        (S.ownerAccount.tx
          (.commitIntent intentHash (intentConfig S now nonce) manifestURI))).registry
      S.ownerAccount.address intentHash (intentConfig S now nonce) manifestURI := by
  have hlead : Leads (fun _ => False) c c.advance := .advance c
  obtain ⟨w₁, hestimate⟩ := hestimate
  cases effect_of_exec hestimate with
  | commitIntent howner htoken hlength hexpiry hnonce hunused =>
  have hsame : c.advance.world.registry.lastNonce S.ownerAccount.address <
      (intentConfig S now nonce).nonce ∧
      c.advance.world.registry.intentExists intentHash = false := by
    refine hlead.keeps (P := fun w => w.registry.lastNonce S.ownerAccount.address <
      (intentConfig S now nonce).nonce ∧
      w.registry.intentExists intentHash = false) hr ⟨hnonce, hunused⟩ (fun _ _ hw => hw) ?_
    rintro w w' tx - hx (hother | hown) hw
    · have hquiet := hothers _ hother
      have hcall := hfresh _ hother
      obtain ⟨sender, call, hne, hext⟩ := tx
      cases effect_of_exec hx with
      | @commitIntent other cfg uri =>
        have hhash : intentHash ≠ other := by
          rintro rfl
          exact hcall cfg uri rfl
        have hsender : S.ownerAccount.address ≠ sender := Ne.symm hquiet.owner
        dsimp only
        rw [update_of_ne hsender, update_of_ne hhash]
        exact hw
      | _ => exact hw
    · exact hown.elim
  obtain ⟨hnonce', hunused'⟩ := hsame
  have hpositive : (intentConfig S now nonce).expiry ≠ 0 := by
    intro hzero
    rw [hzero] at htime
    exact absurd htime (Nat.not_lt_zero _)
  have hexec : ∃ w', exec c.advance.world S.ownerAccount.address
      (.commitIntent intentHash (intentConfig S now nonce) manifestURI) = .ok w' := by
    simp only [exec, IntentRegistry.commitIntent, bind_eq_ok, revertIf_eq_ok, pure_eq_ok, not_or,
      not_not, Nat.not_le, gt_iff_lt, Nat.not_lt, Bool.not_eq_true]
    exact ⟨_, (), howner, (), htoken, (), hlength, (), ⟨hpositive, htime⟩, (), hnonce', (),
      hunused', rfl⟩
  obtain ⟨w', hx⟩ := hexec
  have happly : apply c.advance.world
      (S.ownerAccount.tx (.commitIntent intentHash (intentConfig S now nonce) manifestURI)) = w' :=
    apply_of_ok hx
  rw [happly]
  exact held_of_commit (effect_of_exec hx)

theorem nextIntentNonce_spec {owner : Address} {nonce : ℕ}
    (hrun : nextIntentNonce owner c = .ok (nonce, c')) :
    Leads own c c' := by
  unfold nextIntentNonce at hrun
  obtain ⟨_, c₁, hread, hrun⟩ := bind_run.1 hrun
  obtain ⟨-, rfl⟩ := readContract_run.1 hread
  split_ifs at hrun
  · obtain ⟨-, rfl⟩ := pure_run.1 hrun
    exact .advance c
  · obtain ⟨_, c₂, hread, hrun⟩ := bind_run.1 hrun
    obtain ⟨-, rfl⟩ := readContract_run.1 hread
    obtain ⟨-, rfl⟩ := pure_run.1 hrun
    exact (Leads.advance c).trans (.advance _)

theorem commit_spec (hr : Reachable g c.world) {now : ℕ} {intentHash : Bytes32}
    (hrun : commit S now c = .ok (intentHash, c')) (hothers : ∀ e ∈ c'.others, Undisturbed S e)
    (hfresh : ∀ e ∈ c'.others, ∀ cfg uri, e.2.call ≠ .commitIntent intentHash cfg uri)
    (htime : c'.world.now < now + INTENT_EXPIRY_BUFFER_SECONDS) :
    Leads Call.NotStake c c' ∧ S.maxSpendPerDay < 2 ^ 256 ∧ ∃ nonce,
      (intentConfig S now nonce).expiry.toNat = now + INTENT_EXPIRY_BUFFER_SECONDS ∧
        Held c'.world.registry S.ownerAccount.address intentHash
          (intentConfig S now nonce) S.agentMetadataUri := by
  unfold commit at hrun
  obtain ⟨nonce, c₁, hnonce, hrun⟩ := bind_run.1 hrun
  have hlead₁ : Leads Call.NotStake c c₁ := nextIntentNonce_spec hnonce
  dsimp only at hrun
  split_ifs at hrun with hrange
  · obtain ⟨_, _, hthrow, -⟩ := bind_run.1 hrun
    exact absurd hthrow nofun
  obtain ⟨_, c₂, hwrite, hrun⟩ := bind_run.1 hrun
  obtain ⟨hestimate, rfl⟩ := writeContract_run.1 hwrite
  obtain ⟨rfl, rfl⟩ := pure_run.1 hrun
  simp only [not_or, Nat.not_le] at hrange
  obtain ⟨hexpiry, -, hday, -⟩ := hrange
  have hlead₂ : Leads Call.NotStake c₁ c₁.advance := .advance c₁
  have hr₂ := hlead₂.reachable (hlead₁.reachable hr)
  have htoNat : (intentConfig S now nonce).expiry.toNat = now + INTENT_EXPIRY_BUFFER_SECONDS := by
    unfold intentConfig
    rw [UInt64.toNat_ofNat_of_lt' hexpiry]
  have hmine : Leads (fun _ => True) c₁.advance.advance (c₁.advance.advance.mine
      (S.ownerAccount.tx (.commitIntent
        (computeDemoIntentHash D.keccak (intentConfig S now nonce) S.agentMetadataUri)
          (intentConfig S now nonce)
          S.agentMetadataUri))) := .mine _ trivial
  have hadvance : Leads (fun _ => True) c₁.advance c₁.advance.advance := .advance _
  have hnow := hmine.now_le (hadvance.reachable hr₂)
  refine ⟨hlead₁.trans (.write c₁ trivial), hday, nonce, htoNat, ?_⟩
  exact commitIntent_mined hr₂ hestimate hothers hfresh (htoNat ▸ hnow.trans_lt htime)

/-! ### The policy in force -/

theorem Leads.held (h : Leads own c c') (hothers : ∀ e ∈ c'.others, Undisturbed S e)
    (hown : ∀ call, own call → call ≠ .revokeIntent ∧ ∀ h cfg uri, call ≠ .commitIntent h cfg uri)
    {intentHash : Bytes32} {cfg : IntentConfig} {manifestURI : Bytes}
    (hheld : Held c.world.registry S.ownerAccount.address intentHash cfg manifestURI) :
    Held c'.world.registry S.ownerAccount.address intentHash cfg manifestURI := by
  obtain ⟨as, hworld, hevents⟩ := h.run
  rw [hworld]
  apply hheld.run as
  intro e he
  rcases hevents e he with hother | howned
  · exact ⟨fun hcommit => (hothers e hother).owner hcommit.1,
      fun hrevoke => (hothers e hother).owner hrevoke.1⟩
  · obtain ⟨hrevoke, hcommit⟩ := hown _ howned
    exact ⟨fun ⟨_, _, _, _, hcall⟩ => hcommit _ _ _ hcall, fun h => hrevoke h.2⟩

/-- The owner's approval of the delegate stays while the owner's account sets no other. -/
theorem Leads.delegate (h : Leads own c c') (hr : Reachable g c.world)
    (hothers : ∀ e ∈ c'.others, Undisturbed S e)
    (hown : ∀ call, own call → ∀ agentId d approved, call ≠ .setAgentDelegate agentId d approved)
    {d : Address}
    (hdelegate : c.world.executor.delegates S.ownerAccount.address S.agentId d = true) :
    c'.world.executor.delegates S.ownerAccount.address S.agentId d = true := by
  refine h.keeps (P := fun w => w.executor.delegates S.ownerAccount.address S.agentId d = true) hr
    hdelegate
    (fun _ _ hw => hw) ?_
  intro w w' tx _ hx hby hw
  by_contra hne
  rw [← hw] at hne
  obtain ⟨hsender, approved, hcall, -⟩ := delegates_of_effect (effect_of_exec hx) hne
  rcases hby with hother | howned
  · exact (hothers _ hother).owner hsender
  · exact hown _ howned _ _ _ hcall

theorem Leads.allowance (h : Leads (fun _ => False) c c') (hr : Reachable g c.world)
    (hothers : ∀ e ∈ c'.others, Undisturbed S e) :
    D.token.allowance c'.world.usdc S.ownerAccount.address D.guardedExecutor =
      D.token.allowance c.world.usdc S.ownerAccount.address D.guardedExecutor := by
  refine h.keeps (P := fun w => D.token.allowance w.usdc S.ownerAccount.address D.guardedExecutor =
    D.token.allowance c.world.usdc S.ownerAccount.address D.guardedExecutor) hr rfl
      (fun _ _ hw => hw) ?_
  rintro w w' tx hrw hx (hother | hown) hw
  · have hquiet := hothers _ hother
    exact (allowance_of_effect (basics hrw) tx.external (effect_of_exec hx) hquiet.payment
      fun hsender => absurd hsender hquiet.owner).trans hw
  · exact hown.elim

/-- An approval by one account for another sets what the other may spend. -/
structure Approves (T : Erc20 Address) : Prop where
  isSome : ∀ {s owner spender v}, owner ≠ 0 → spender ≠ 0 → (T.approve s owner spender v).isSome
  allowance : ∀ {s owner spender v s'}, T.approve s owner spender v = some s' →
    T.allowance s' owner spender = v

theorem authorize_spec (hT : Approves D.token) (hr : Reachable g c.world) {u : Unit}
    (hrun : authorize S c = .ok (u, c')) (hothers : ∀ e ∈ c'.others, Undisturbed S e)
    {intentHash : Bytes32} {cfg : IntentConfig} {manifestURI : Bytes}
    (hheld : Held c.world.registry S.ownerAccount.address intentHash cfg manifestURI) :
    Leads Call.NotStake c c' ∧
    Held c'.world.registry S.ownerAccount.address intentHash cfg manifestURI ∧
      c'.world.executor.delegates S.ownerAccount.address S.agentId S.operatorAccount.address =
        true ∧
        D.token.allowance c'.world.usdc S.ownerAccount.address D.guardedExecutor =
          S.maxSpendPerDay := by
  unfold authorize at hrun
  obtain ⟨_, c₁, hdelegate, happrove⟩ := bind_run.1 hrun
  obtain ⟨-, rfl⟩ := writeContract_run.1 hdelegate
  obtain ⟨-, rfl⟩ := writeContract_run.1 happrove
  generalize hc₁ : c.advance.advance.mine
    (S.ownerAccount.tx (.setAgentDelegate S.agentId S.operatorAccount.address true)) = c₁ at *
  let own (call : Call) : Prop :=
    (∃ agentId d approved, call = .setAgentDelegate agentId d approved) ∨
    ∃ spender value, call = .usdcApprove spender value
  have hlead₁ : Leads own c c₁ := hc₁ ▸ .write c (.inl ⟨_, _, _, rfl⟩)
  have hlead₂ : Leads (fun call => ∃ spender value, call = .usdcApprove spender value) c₁
      (c₁.advance.advance.mine
        (S.ownerAccount.tx (.usdcApprove D.guardedExecutor S.maxSpendPerDay))) :=
    .write c₁ ⟨_, _, rfl⟩
  have hlead := hlead₁.trans (hlead₂.mono fun _ hcall => .inr hcall)
  refine ⟨hlead.mono ?_, hlead.held hothers ?_ hheld,
    hlead₂.delegate (hlead₁.reachable hr) hothers ?_ ?_, ?_⟩
  · rintro _ (⟨_, _, _, rfl⟩ | ⟨_, _, rfl⟩) <;> trivial
  · rintro _ (⟨_, _, _, rfl⟩ | ⟨_, _, rfl⟩) <;> exact ⟨nofun, nofun⟩
  · rintro _ ⟨_, _, rfl⟩
    exact nofun
  · rw [← hc₁]
    show (apply _ _).executor.delegates _ _ _ = true
    rw [apply_of_ok rfl]
    simp [GuardedExecutor.setAgentDelegate, World.emit, Account.tx]
  · have hsome :
        (D.token.approve c₁.advance.advance.world.usdc S.ownerAccount.address D.guardedExecutor
        S.maxSpendPerDay).isSome :=
      hT.isSome S.ownerAccount.ne_zero D.guardedExecutor_ne_zero
    obtain ⟨usdc, husdc⟩ := Option.isSome_iff_exists.1 hsome
    have hx : exec c₁.advance.advance.world S.ownerAccount.address
        (.usdcApprove D.guardedExecutor S.maxSpendPerDay) =
        .ok { c₁.advance.advance.world with usdc } := by
      simp [exec, orRevert, husdc, bind, Except.bind, pure, Except.pure]
    have happly : apply c₁.advance.advance.world
        (S.ownerAccount.tx (.usdcApprove D.guardedExecutor S.maxSpendPerDay)) = _ := apply_of_ok hx
    show D.token.allowance (apply _ _).usdc _ _ = _
    rw [happly]
    exact hT.allowance husdc

/-! ### The whole script -/

/-- What the script has set up. -/
structure Ready (S : Setup D) (w : World D) (intentHash : Bytes32) (cfg : IntentConfig) : Prop where
  registered : (w.agents.agents S.agentId).registered = true
  staked : GuardConstants.BRONZE_TIER_THRESHOLD ≤ w.vault.stake S.agentId
  held : Held w.registry S.ownerAccount.address intentHash cfg S.agentMetadataUri
  delegate : w.executor.delegates S.ownerAccount.address S.agentId S.operatorAccount.address = true
  allowance : D.token.allowance w.usdc S.ownerAccount.address D.guardedExecutor = S.maxSpendPerDay

theorem stake_moves (existing : ℕ) : Moves (stake S existing) :=
  .ite (.bind (.write _) fun _ => .ite (.write _) (.pure _)) (.ite (.write _) (.pure _))

theorem commit_moves (now : ℕ) : Moves (commit S now) := by
  refine .bind ?_ fun nonce => .ite (.bind (.throw _) fun _ => ?_) ?_
  · exact .bind (.read _) fun _ => .ite (.pure _) (.bind (.read _) fun _ => .pure _)
  all_goals exact .bind (.write _) fun _ => .pure _

theorem authorize_moves : Moves (authorize S) := .bind (.write _) fun _ => .write _

theorem main_spec (hT : Approves D.token) (hr : Reachable g c.world) {now : ℕ}
    {intentHash : Bytes32} (hrun : main S now c = .ok (intentHash, c'))
    (hothers : ∀ e ∈ c'.others, Undisturbed S e)
    (hfresh : ∀ e ∈ c'.others, ∀ cfg uri, e.2.call ≠ .commitIntent intentHash cfg uri)
    (htime : c'.world.now < now + INTENT_EXPIRY_BUFFER_SECONDS) :
    Reachable g c'.world ∧ S.maxSpendPerDay < 2 ^ 256 ∧ ∃ nonce,
      (intentConfig S now nonce).expiry.toNat = now + INTENT_EXPIRY_BUFFER_SECONDS ∧
        Ready S c'.world intentHash (intentConfig S now nonce) := by
  unfold main at hrun
  obtain ⟨existing, c₁, hregister, hrun⟩ := bind_run.1 hrun
  obtain ⟨_, c₂, hfund, hrun⟩ := bind_run.1 hrun
  obtain ⟨_, c₃, hstake, hrun⟩ := bind_run.1 hrun
  obtain ⟨_, c₄, hcommit, hrun⟩ := bind_run.1 hrun
  obtain ⟨_, c₅, hauthorize, hrun⟩ := bind_run.1 hrun
  obtain ⟨_, c₆, hread, hrun⟩ := bind_run.1 hrun
  obtain ⟨-, rfl⟩ := readContract_run.1 hread
  obtain ⟨rfl, rfl⟩ := pure_run.1 hrun
  have hlast : Leads (fun _ => False) c₅ c₅.advance := .advance c₅
  -- every phase has seen no more than the whole script
  have h₄ := List.Subset.trans (authorize_moves _ _ _ hauthorize).others hlast.others
  have h₃ := List.Subset.trans (commit_moves now _ _ _ hcommit).others h₄
  have h₂ := List.Subset.trans (stake_moves existing _ _ _ hstake).others h₃
  have hlead₂ := fund_spec hfund
  obtain ⟨hlead₁, hregistered, hexisting⟩ := register_spec hr hregister fun e he =>
    hothers e (h₂ (hlead₂.others he))
  have hr₁ := hlead₁.reachable hr
  have hr₂ := hlead₂.reachable hr₁
  have hstill := hlead₂.stake_le hr₁ fun e he => hothers e (h₂ he)
  have hstaked := stake_spec hr₂ (hlead₂.registered hr₁ hregistered) (hexisting.trans hstill) hstake
    fun e he => hothers e (h₃ he)
  have hr₃ := (stake_moves existing _ _ _ hstake).reachable hr₂
  have hr₄ := (commit_moves now _ _ _ hcommit).reachable hr₃
  have hr₅ := (authorize_moves _ _ _ hauthorize).reachable hr₄
  have hnow := ((authorize_moves _ _ _ hauthorize).now_le hr₄).trans (hlast.now_le hr₅)
  obtain ⟨hlead₄, hday, nonce, hexpiry, hheld⟩ :=
    commit_spec hr₃ hcommit (fun e he => hothers e (h₄ he))
    (fun e he => hfresh e (h₄ he)) (hnow.trans_lt htime)
  obtain ⟨hlead₅, hheld', hdelegate, hallowance⟩ := authorize_spec hT hr₄ hauthorize
    (fun e he => hothers e (hlast.others he)) hheld
  have hstaked' := ((hlead₄.trans hlead₅).trans (.advance c₅)).stake_le hr₃ hothers
  refine ⟨hlast.reachable hr₅, hday, nonce, hexpiry, ?_, hstaked.trans hstaked', ?_, ?_, ?_⟩
  · have hregistered₃ :=
      (stake_moves existing _ _ _ hstake).registered hr₂ (hlead₂.registered hr₁ hregistered)
    have hregistered₄ := (commit_moves now _ _ _ hcommit).registered hr₃ hregistered₃
    exact hlast.registered hr₅ ((authorize_moves _ _ _ hauthorize).registered hr₄ hregistered₄)
  · exact hlast.held hothers (fun _ hcall => hcall.elim) hheld'
  · exact hlast.delegate hr₅ hothers (fun _ hcall => hcall.elim) hdelegate
  · exact (hlast.allowance hr₅ hothers).trans hallowance

/-- A payment of the operator for the owner to the merchant, when the script has set everything
up. -/
theorem Ready.pays_iff {cfg : IntentConfig} {intentHash : Bytes32} (h : Ready S w intentHash cfg)
    (hhash : intentHash ≠ 0) (hcounterparties : cfg.allowedCounterparties = [S.merchantAddress])
    (hcap : cfg.maxSpendPerDay = S.maxSpendPerDay) (hday : S.maxSpendPerDay < 2 ^ 256)
    (hexpiry : w.now < cfg.expiry.toNat) (hmerchant : S.merchantAddress ≠ 0)
    {req : ExecutionRequest} (howner : req.owner = S.ownerAccount.address)
    (hagent : req.agentId = S.agentId) (htoken : req.token = D.USDC)
    (htarget : req.target = S.merchantAddress) :
    (∃ id, executionResult w S.operatorAccount.address req = .ok id) ↔
      w.executor.spentByDay req.owner (w.now / days1) + req.amount ≤ S.maxSpendPerDay ∧
      req.amount ≤ w.balanceOf req.owner ∧
        GuardedExecutor.checkTraceAck w req = (.GREEN, 0) := by
  have hactive : w.registry.activeIntentHash req.owner = intentHash := howner ▸ h.held.active
  have hconfig : w.registry.intentConfig (w.registry.activeIntentHash req.owner) = cfg :=
    hactive ▸ h.held.config
  constructor
  · rintro ⟨id, hid⟩
    obtain ⟨⟨w', _⟩, hexec, -⟩ := map_eq_ok.1 hid
    obtain ⟨hguard, -, u, hpay, -⟩ := executeWithGuard_eq_ok.1 hexec
    obtain ⟨-, hbalance, -⟩ := D.token.transferFrom_bounds D.guardedExecutor_ne_zero hpay
    have hwithin := hguard.dayCap
    rw [hconfig, hcap] at hwithin
    exact ⟨hwithin, hbalance, hguard.ack⟩
  · rintro ⟨hwithin, hbalance, hack⟩
    have hguard : GuardPasses w S.operatorAccount.address req :=
      { delegate := by rw [howner, hagent]; exact h.delegate
        token := htoken
        active := hactive ▸ hhash
        notExpired := hconfig ▸ hexpiry
        counterparty := by rw [hconfig, hcounterparties, htarget]; exact List.mem_singleton_self _
        noOverflow := hwithin.trans_lt hday
        dayCap := by rw [hconfig, hcap]; exact hwithin
        ack := hack }
    have hallowance : req.amount ≤ D.token.allowance w.usdc req.owner D.guardedExecutor := by
      rw [howner, h.allowance]
      exact (Nat.le_add_left _ _).trans hwithin
    obtain ⟨u, hpay⟩ :=
      D.token.exists_transferFrom D.guardedExecutor_ne_zero (howner ▸ S.ownerAccount.ne_zero)
      (htarget ▸ hmerchant) hbalance hallowance
    exact ⟨_, map_eq_ok.2 ⟨_, executeWithGuard_eq_ok.2 ⟨hguard, rfl, u, hpay, rfl⟩, rfl⟩⟩

/-- What holds when the script gets to its end, while its intent lasts. -/
theorem bootstrapped (hT : Approves D.token) (hr : Reachable g c.world) {now : ℕ}
    {intentHash : Bytes32} (hrun : main S now c = .ok (intentHash, c'))
    (hothers : ∀ e ∈ c'.others, Undisturbed S e)
    (hfresh : ∀ e ∈ c'.others, ∀ cfg uri, e.2.call ≠ .commitIntent intentHash cfg uri)
    (htime : c'.world.now < now + INTENT_EXPIRY_BUFFER_SECONDS) (hhash : intentHash ≠ 0)
    (hmerchant : S.merchantAddress ≠ 0) :
    (∃ nonce, Ready S c'.world intentHash (intentConfig S now nonce)) ∧
      ∀ req : ExecutionRequest, req.owner = S.ownerAccount.address → req.agentId = S.agentId →
        req.token = D.USDC →
        req.target = S.merchantAddress →
          ((∃ id, executionResult c'.world S.operatorAccount.address req = .ok id) ↔
            c'.world.executor.spentByDay req.owner (c'.world.now / days1) + req.amount ≤
              S.maxSpendPerDay ∧
              req.amount ≤ c'.world.balanceOf req.owner ∧
                GuardedExecutor.checkTraceAck c'.world req = (.GREEN, 0)) := by
  obtain ⟨-, hday, nonce, hexpiry, hready⟩ := main_spec hT hr hrun hothers hfresh htime
  refine ⟨⟨nonce, hready⟩, fun req howner hagent htoken htarget => ?_⟩
  exact hready.pays_iff hhash rfl rfl hday (hexpiry ▸ htime) hmerchant howner hagent htoken htarget

end

end IntentGuard.Bootstrap

namespace IntentGuard.Localnet

open Runs Bootstrap

theorem operator_external : operator ≠ 0 ∧ operator ∉ localnet.contracts := by decide

def bootstrapSetup : Setup localnet where
  operatorAccount := .of operator_external
  ownerAccount := .of alice_external
  agentId := agent
  agentMetadataUri := []
  merchantAddress := merchant
  chainId := 31337
  maxSpendPerTx := 10000000
  maxSpendPerDay := 50000000

/-- Others pay alice while the agent is registered, and a minute passes. -/
def busyChain : Chain localnet where
  world := init genesis
  ahead := [[], [send challenger (.usdcTransfer alice 5) challenger_external], [.elapse 60]]
  others := []

theorem ledger_approves : Approves localnet.token where
  isSome := fun _ _ => rfl
  allowance := by
    intro s owner spender v s' h
    obtain rfl := Option.some.inj h
    simp [localnet, Erc20.ledger]

end IntentGuard.Localnet

namespace IntentGuard.Bootstrap

open Localnet

/-- After the script the operator pays the merchant. -/
theorem bootstrapped_alice :
    ∃ intentHash c', main bootstrapSetup genesis.now busyChain = .ok (intentHash, c') ∧
      (∃ nonce, Ready bootstrapSetup c'.world intentHash
        (intentConfig bootstrapSetup genesis.now nonce)) ∧
        ∃ id, executionResult c'.world operator (payment 15000000) = .ok id := by
  have hrun : (match main bootstrapSetup genesis.now busyChain with
    | .error _ => false
    | .ok (intentHash, c') =>
      decide (intentHash ≠ 0 ∧ c'.world.now < genesis.now + INTENT_EXPIRY_BUFFER_SECONDS ∧
        (∀ e ∈ c'.others, e.2.sender = challenger ∧ e.2.call = .usdcTransfer alice 5) ∧
        c'.world.executor.spentByDay alice (c'.world.now / days1) + 15000000 ≤ 50000000 ∧
        15000000 ≤ c'.world.balanceOf alice ∧
        GuardedExecutor.checkTraceAck c'.world (payment 15000000) = (.GREEN, 0))) = true := by
    decide +kernel
  cases hmain : main bootstrapSetup genesis.now busyChain with
  | error e =>
    rw [hmain] at hrun
    exact absurd hrun Bool.false_ne_true
  | ok r =>
    obtain ⟨intentHash, c'⟩ := r
    rw [hmain] at hrun
    obtain ⟨hhash, htime, hothers, hspent, hbalance, hack⟩ := of_decide_eq_true hrun
    have hundisturbed : ∀ e ∈ c'.others, Undisturbed bootstrapSetup e := by
      rintro ⟨w, tx⟩ he
      obtain ⟨hsender, hcall⟩ := hothers _ he
      dsimp only at hsender hcall
      refine ⟨by rw [hsender]; decide, by rw [hsender]; decide, by rw [hcall]; exact nofun, ?_⟩
      intro w' hx
      rw [hsender, hcall] at hx
      cases effect_of_exec hx with
      | usdcTransfer hu =>
        refine ⟨?_, le_rfl⟩
        show localnet.token.balanceOf w.usdc operator ≤ localnet.token.balanceOf _ operator
        rw [localnet.token.balanceOf_transfer hu]
        exact moveBalance.le_of_ne_src (by decide)
    have hfresh : ∀ e ∈ c'.others, ∀ cfg uri, e.2.call ≠ .commitIntent intentHash cfg uri := by
      intro e he cfg uri
      rw [(hothers e he).2]
      exact nofun
    obtain ⟨hready, hpays⟩ :=
      bootstrapped ledger_approves (.refl _) hmain hundisturbed hfresh htime hhash (by decide)
    exact ⟨intentHash, c', rfl, hready,
      (hpays (payment 15000000) rfl rfl rfl rfl).2 ⟨hspent, hbalance, hack⟩⟩

end IntentGuard.Bootstrap
