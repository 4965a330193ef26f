import IntentGuard.Contracts.System

/-!
# What a successful call does

`Effect` is the transition relation: one constructor for every call, with the guards it passed and
the state it leaves. `effect_of_exec` derives it from the code once, call by call; every invariant
after that is a case analysis over `Effect` and never unfolds a contract function.
`fileAmountViolation_eq_ok` and `executeWithGuard_eq_ok` say exactly when the two calls that are
more than a write succeed.
-/

namespace IntentGuard

open Function

variable {D : Deployment}

/-- The guard of `executeWithGuard` up to the acknowledgement. -/
structure GuardPasses (w : World D) (sender : Address) (req : ExecutionRequest) : Prop where
  delegate : w.executor.delegates req.owner req.agentId sender = true
  token : req.token = D.USDC
  active : w.registry.activeIntentHash req.owner ≠ 0
  notExpired : w.now <
    (w.registry.intentConfig (w.registry.activeIntentHash req.owner)).expiry.toNat
  counterparty :
    req.target ∈
      (w.registry.intentConfig (w.registry.activeIntentHash req.owner)).allowedCounterparties
  noOverflow : w.executor.spentByDay req.owner (w.now / days1) + req.amount < 2 ^ 256
  dayCap : w.executor.spentByDay req.owner (w.now / days1) + req.amount ≤
    (w.registry.intentConfig (w.registry.activeIntentHash req.owner)).maxSpendPerDay
  ack : GuardedExecutor.checkTraceAck w req = (.GREEN, 0)

/-- The receipt `executeWithGuard` stores. -/
def receiptOf (w : World D) (req : ExecutionRequest) : ReceiptSummary where
  owner := req.owner
  agentId := req.agentId
  intentHash := w.registry.activeIntentHash req.owner
  target := req.target
  token := req.token
  amount := req.amount
  callDataHash := D.keccak.bytes req.data
  contextDigest := req.traceAck.contextDigest
  nonce := w.executor.execNonce req.owner
  timestamp := UInt64.ofNat w.now

/-- The id it is stored under. -/
def nextReceiptId (w : World D) (req : ExecutionRequest) : Bytes32 :=
  GuardedExecutor.receiptIdOf D req.owner req.agentId (w.executor.execNonce req.owner)

/-- The executor after it. -/
def executed (w : World D) (req : ExecutionRequest) : GuardedExecutor.State :=
  { w.executor with
    spentByDay := update w.executor.spentByDay req.owner
      (update (w.executor.spentByDay req.owner) (w.now / days1)
        (w.executor.spentByDay req.owner (w.now / days1) + req.amount))
    execNonce := update w.executor.execNonce req.owner (w.executor.execNonce req.owner + 1)
    receipts := update w.executor.receipts (nextReceiptId w req) (receiptOf w req) }

/-- The vault after a slash of `actual`. -/
def slashed (w : World D) (agentId : Bytes32) (actual : ℕ) : StakeVault.State :=
  { w.vault with stake := update w.vault.stake agentId (w.vault.stake agentId - actual) }

/-- Everything but the token payments that `fileAmountViolation` checks. -/
structure Challengeable (w : World D) (receiptId : Bytes32) : Prop where
  stored : (w.executor.receipts receiptId).timestamp ≠ 0
  window : w.now ≤ (w.executor.receipts receiptId).timestamp.toNat +
    (AgentRegistry.challengeWindow w (w.executor.receipts receiptId).agentId).toNat
  overspend : (w.registry.intentConfig (w.executor.receipts receiptId).intentHash).maxSpendPerTx <
    (w.executor.receipts receiptId).amount
  stake : w.vault.stake (w.executor.receipts receiptId).agentId ≠ 0

/-- What `fileAmountViolation` has the vault pay to the receipt's owner. -/
def violationPayout (w : World D) (receiptId : Bytes32) : ℕ :=
  min (w.executor.receipts receiptId).amount (w.vault.stake (w.executor.receipts receiptId).agentId)

/-- The state `fileAmountViolation` leaves, with the token's state given. -/
def filed (w : World D) (sender : Address) (receiptId : Bytes32) (usdc : D.token.State) : World D :=
  { w with
    usdc
    vault := slashed w (w.executor.receipts receiptId).agentId (violationPayout w receiptId)
    arbiter :=
      { w.arbiter with
        nextId := w.arbiter.nextId + 1
        challenges := update w.arbiter.challenges (w.arbiter.nextId + 1) ⟨receiptId, sender, true⟩ }
    logs := w.logs ++
      [.ChallengeFiled (w.arbiter.nextId + 1) receiptId sender,
        .Slashed (w.executor.receipts receiptId).agentId (w.executor.receipts receiptId).owner
          (w.executor.receipts receiptId).amount (violationPayout w receiptId),
        .ChallengeResolved (w.arbiter.nextId + 1) true (violationPayout w receiptId)] }

inductive Effect (w : World D) (sender : Address) : Call → World D → Prop
  | commitIntent {intentHash cfg manifestURI} (howner : cfg.owner = sender)
      (htoken : cfg.token = D.USDC)
      (hlength : cfg.allowedCounterparties.length ≤ GuardConstants.MAX_COUNTERPARTIES)
      (hexpiry : w.now < cfg.expiry.toNat) (hnonce : w.registry.lastNonce sender < cfg.nonce)
      (hfresh : w.registry.intentExists intentHash = false) :
      Effect w sender (.commitIntent intentHash cfg manifestURI)
        { w with
          registry :=
            { activeIntentHash := update w.registry.activeIntentHash sender intentHash
              lastNonce := update w.registry.lastNonce sender cfg.nonce
              intentConfig := update w.registry.intentConfig intentHash cfg
              manifestURI := update w.registry.manifestURI intentHash manifestURI
              intentExists := update w.registry.intentExists intentHash true }
          logs := w.logs ++ [.IntentCommitted sender intentHash manifestURI] }
  | revokeIntent (hactive : w.registry.activeIntentHash sender ≠ 0) :
      Effect w sender .revokeIntent
        { w with
          registry :=
            { w.registry with activeIntentHash := update w.registry.activeIntentHash sender 0 }
          logs := w.logs ++ [.IntentRevoked sender (w.registry.activeIntentHash sender)] }
  | registerAgent {agentId operator metadataURI} (hoperator : operator ≠ 0)
      (hfresh : (w.agents.agents agentId).registered = false) :
      Effect w sender (.registerAgent agentId operator metadataURI)
        { w with
          agents := ⟨update w.agents.agents agentId ⟨operator, metadataURI, true⟩⟩
          logs := w.logs ++ [.AgentRegistered agentId operator metadataURI] }
  | stake {agentId amount u} (hregistered : (w.agents.agents agentId).registered = true)
      (hoperator : sender = (w.agents.agents agentId).operator) (hamount : amount ≠ 0)
      (hwired : D.agentRegistry = w.vault.agentRegistry)
      (hpull : D.token.transferFrom w.usdc D.stakeVault sender D.stakeVault amount = some u) :
      Effect w sender (.stake agentId amount)
        { w with
          usdc := u
          vault :=
            { w.vault with stake := update w.vault.stake agentId (w.vault.stake agentId + amount) }
          logs := w.logs ++
            [.Deposited agentId sender amount (w.vault.stake agentId + amount),
              .AgentStaked agentId amount (w.vault.stake agentId + amount)] }
  | setWiring {agentRegistry challengeArbiter} (hsender : sender = D.deployer)
      (hunset : w.vault.agentRegistry = 0 ∧ w.vault.challengeArbiter = 0) :
      Effect w sender (.setWiring agentRegistry challengeArbiter)
        { w with vault := { w.vault with agentRegistry, challengeArbiter } }
  | deposit {agentId src amount u} (hsender : sender = w.vault.agentRegistry) :
      Effect w sender (.deposit agentId src amount)
        { w with
          usdc := u
          vault :=
            { w.vault with stake := update w.vault.stake agentId (w.vault.stake agentId + amount) }
          logs := w.logs ++ [.Deposited agentId src amount (w.vault.stake agentId + amount)] }
  | slash {agentId dst amount u} (hsender : sender = w.vault.challengeArbiter) :
      Effect w sender (.slash agentId dst amount)
        { w with
          usdc := u
          vault := slashed w agentId (min amount (w.vault.stake agentId))
          logs := w.logs ++ [.Slashed agentId dst amount (min amount (w.vault.stake agentId))] }
  | setAgentDelegate {agentId delegate approved} :
      Effect w sender (.setAgentDelegate agentId delegate approved)
        (GuardedExecutor.setAgentDelegate w sender agentId delegate approved)
  | executeWithGuard {req u} (hguard : GuardPasses w sender req)
      (hpay : D.token.transferFrom w.usdc D.guardedExecutor req.owner req.target req.amount =
        some u) :
      Effect w sender (.executeWithGuard req)
        { w with
          usdc := u
          executor := executed w req
          logs := w.logs ++
            [.ActionReceipt (nextReceiptId w req) (receiptOf w req),
              .ReceiptStored (nextReceiptId w req) req.owner
                (w.registry.activeIntentHash req.owner),
              .TraceURIStored (nextReceiptId w req) req.traceURI] }
  | setTraceAckSigner {signer} :
      Effect w sender (.setTraceAckSigner signer)
        { w with
          executor := { w.executor with traceAckSigner := signer }
          logs := w.logs ++ [.TraceAckSignerUpdated w.executor.traceAckSigner signer] }
  | executorOwner {newOwner} :
      Effect w sender (.executorOwner newOwner)
        { w with executor := { w.executor with owner := newOwner } }
  | fileAmountViolation {receiptId u₁ u₂ u₃} (hok : Challengeable w receiptId)
      (hwired : D.challengeArbiter = w.vault.challengeArbiter)
      (hbond : D.token.transferFrom w.usdc D.challengeArbiter sender D.challengeArbiter
        GuardConstants.CHALLENGE_BOND = some u₁)
      (hpay : D.token.transfer u₁ D.stakeVault (w.executor.receipts receiptId).owner
        (violationPayout w receiptId) = some u₂)
      (hrefund : D.token.transfer u₂ D.challengeArbiter sender GuardConstants.CHALLENGE_BOND =
        some u₃) :
      Effect w sender (.fileAmountViolation receiptId) (filed w sender receiptId u₃)
  | dismiss {challengeId slashAmount reviewerSig}
      (hopen : (w.arbiter.challenges challengeId).resolved = false) :
      Effect w sender (.resolveByReviewer challengeId false slashAmount reviewerSig)
        { w with
          arbiter :=
            { w.arbiter with
              challenges := update w.arbiter.challenges challengeId
                { w.arbiter.challenges challengeId with resolved := true } }
          logs := w.logs ++ [.ChallengeResolved challengeId false 0] }
  | uphold {challengeId slashAmount reviewerSig r u}
      (hopen : (w.arbiter.challenges challengeId).resolved = false)
      (hr : r = w.executor.receipts (w.arbiter.challenges challengeId).receiptId)
      (hwired : D.challengeArbiter = w.vault.challengeArbiter) (hamount : slashAmount ≠ 0)
      (hstake : w.vault.stake r.agentId ≠ 0)
      (hpay : D.token.transfer w.usdc D.stakeVault r.owner
        (min slashAmount (w.vault.stake r.agentId)) =
        some u) :
      Effect w sender (.resolveByReviewer challengeId true slashAmount reviewerSig)
        { w with
          usdc := u
          vault := slashed w r.agentId (min slashAmount (w.vault.stake r.agentId))
          arbiter :=
            { w.arbiter with
              challenges := update w.arbiter.challenges challengeId
                { w.arbiter.challenges challengeId with resolved := true } }
          logs := w.logs ++
            [.Slashed r.agentId r.owner slashAmount (min slashAmount (w.vault.stake r.agentId)),
              .ChallengeResolved challengeId true (min slashAmount (w.vault.stake r.agentId))] }
  | setReviewerSigner {signer} :
      Effect w sender (.setReviewerSigner signer)
        { w with
          arbiter := { w.arbiter with reviewerSigner := signer }
          logs := w.logs ++ [.ReviewerSignerUpdated w.arbiter.reviewerSigner signer] }
  | arbiterOwner {newOwner} :
      Effect w sender (.arbiterOwner newOwner)
        { w with arbiter := { w.arbiter with owner := newOwner } }
  | usdcTransfer {dst value u} (h : D.token.transfer w.usdc sender dst value = some u) :
      Effect w sender (.usdcTransfer dst value) { w with usdc := u }
  | usdcTransferFrom {src dst value u}
      (h : D.token.transferFrom w.usdc sender src dst value = some u) :
      Effect w sender (.usdcTransferFrom src dst value) { w with usdc := u }
  | usdcApprove {spender value u} (h : D.token.approve w.usdc sender spender value = some u) :
      Effect w sender (.usdcApprove spender value) { w with usdc := u }
  | usdcMint {dst value u} (h : D.token.mint w.usdc dst value = some u) :
      Effect w sender (.usdcMint dst value) { w with usdc := u }

/-! ### From the code to the relation -/

section
variable {w w' : World D} {sender : Address}

@[simp] theorem safeTransfer_eq_ok {src dst : Address} {v : ℕ} :
    w.safeTransfer src dst v = .ok w' ↔
      ∃ u, D.token.transfer w.usdc src dst v = some u ∧ { w with usdc := u } = w' := by
  simp [World.safeTransfer]

@[simp] theorem safeTransferFrom_eq_ok {spender src dst : Address} {v : ℕ} :
    w.safeTransferFrom spender src dst v = .ok w' ↔
      ∃ u, D.token.transferFrom w.usdc spender src dst v = some u ∧ { w with usdc := u } = w' := by
  simp [World.safeTransferFrom]

theorem slash_eq_ok {agentId : Bytes32} {dst : Address} {amount actual : ℕ} :
    StakeVault.slash w sender agentId dst amount = .ok (w', actual) ↔
      sender = w.vault.challengeArbiter ∧ amount ≠ 0 ∧ w.vault.stake agentId ≠ 0 ∧
        min amount (w.vault.stake agentId) = actual ∧
        ∃ u, D.token.transfer w.usdc D.stakeVault dst actual = some u ∧
          { w with
            usdc := u
            vault := slashed w agentId actual
            logs := w.logs ++ [.Slashed agentId dst amount actual] } = w' := by
  have hmin : (if amount < w.vault.stake agentId then amount else w.vault.stake agentId) =
      min amount (w.vault.stake agentId) := by
    split <;> omega
  simp only [StakeVault.slash, hmin, World.emit, slashed]
  constructor
  · intro h
    simp at h
    obtain ⟨h1, h2, h3, u, hu, rfl, rfl⟩ := h
    exact ⟨h1, h2, h3, rfl, u, hu, rfl⟩
  · intro h
    obtain ⟨h1, h2, h3, rfl, u, hu, rfl⟩ := h
    simp [h1, h2, h3, hu]

theorem deposit_effect {agentId : Bytes32} {src : Address} {amount : ℕ}
    (h : StakeVault.deposit w sender agentId src amount = .ok w') :
    sender = w.vault.agentRegistry ∧
      ∃ u, D.token.transferFrom w.usdc D.stakeVault src D.stakeVault amount = some u ∧
        w' = { w with
          usdc := u
          vault :=
            { w.vault with stake := update w.vault.stake agentId (w.vault.stake agentId + amount) }
          logs := w.logs ++ [.Deposited agentId src amount (w.vault.stake agentId + amount)] } := by
  simp [StakeVault.deposit, World.emit] at h
  obtain ⟨hsender, -, u, hu, -, rfl⟩ := h
  exact ⟨hsender, u, hu, rfl⟩

theorem checkTraceAck_green {req : ExecutionRequest} {reason : Bytes32}
    (h : GuardedExecutor.checkTraceAck w req = (.GREEN, reason)) : reason = 0 := by
  simp only [GuardedExecutor.checkTraceAck] at h
  split_ifs at h
  all_goals simp_all

/-- A check that answers RED when `c` holds is passed exactly when `c` fails and the rest is. -/
theorem red_else_eq_green {c : Prop} [Decidable c] {red reason : Bytes32}
    {rest : Except Revert (GuardDecision × Bytes32)} :
    (if c then .ok (.RED, red) else rest) = .ok (.GREEN, reason) ↔
      ¬ c ∧ rest = .ok (.GREEN, reason) := by
  by_cases h : c <;> simp [h]

/-- The guard answers GREEN exactly when every check passes, and then with reason 0. -/
theorem checkGuard_green {req : ExecutionRequest} {reason : Bytes32} :
    GuardedExecutor._checkGuard w sender req = .ok (.GREEN, reason) ↔
      GuardPasses w sender req ∧ reason = 0 := by
  unfold GuardedExecutor._checkGuard IntentRegistry.getActiveIntentHash IntentRegistry.getIntent
  simp only [red_else_eq_green, bind_eq_ok, checkedAdd_eq_ok, pure, Except.pure]
  constructor
  · intro h
    obtain ⟨hdelegate, htoken, hactive, hexpiry, htarget, _, ⟨hover, rfl⟩, hcap, hack⟩ := h
    have hack := Except.ok.inj hack
    obtain rfl := checkTraceAck_green hack
    exact ⟨⟨by simpa using hdelegate, not_not.1 htoken, hactive, Nat.not_le.1 hexpiry,
      not_not.1 htarget, hover, Nat.not_lt.1 hcap, hack⟩, rfl⟩
  · intro h
    obtain ⟨hg, rfl⟩ := h
    exact ⟨by simp [hg.delegate], not_not.2 hg.token, hg.active, Nat.not_le.2 hg.notExpired,
      not_not.2 hg.counterparty, _, ⟨hg.noOverflow, rfl⟩, Nat.not_lt.2 hg.dayCap, by rw [hg.ack]⟩

theorem executeWithGuard_eq_ok {req : ExecutionRequest} {receiptId : Bytes32} :
    GuardedExecutor.executeWithGuard w sender req = .ok (w', receiptId) ↔
      GuardPasses w sender req ∧ nextReceiptId w req = receiptId ∧
        ∃ u, D.token.transferFrom w.usdc D.guardedExecutor req.owner req.target req.amount =
          some u ∧
          { w with
            usdc := u
            executor := executed w req
            logs := w.logs ++
              [.ActionReceipt (nextReceiptId w req) (receiptOf w req),
                .ReceiptStored (nextReceiptId w req) req.owner
                  (w.registry.activeIntentHash req.owner),
                .TraceURIStored (nextReceiptId w req) req.traceURI] } = w' := by
  constructor
  · intro h
    simp only [GuardedExecutor.executeWithGuard, bind_eq_ok, Prod.exists, revertIf_eq_ok, not_not,
      checkedAdd_eq_ok, safeTransferFrom_eq_ok, pure_eq_ok] at h
    obtain ⟨decision, reason, hcheck, -, rfl, _, ⟨-, rfl⟩, _, ⟨u, hu, rfl⟩, hw⟩ := h
    have hguard := (checkGuard_green.1 hcheck).1
    obtain ⟨hw, hid⟩ := Prod.mk.inj hw
    exact ⟨hguard, hid, u, hu, hw⟩
  · intro h
    obtain ⟨hguard, rfl, u, hu, rfl⟩ := h
    have hcheck : GuardedExecutor._checkGuard w sender req = .ok (.GREEN, 0) :=
      checkGuard_green.2 ⟨hguard, rfl⟩
    simp only [GuardedExecutor.executeWithGuard, bind_eq_ok, Prod.exists, revertIf_eq_ok, not_not,
      checkedAdd_eq_ok, safeTransferFrom_eq_ok, pure_eq_ok]
    exact ⟨.GREEN, 0, hcheck, (), rfl, _, ⟨hguard.noOverflow, rfl⟩, _, ⟨u, hu, rfl⟩, rfl⟩

theorem fileAmountViolation_eq_ok {receiptId : Bytes32} {challengeId : ℕ} :
    ChallengeArbiter.fileAmountViolation w sender receiptId = .ok (w', challengeId) ↔
      Challengeable w receiptId ∧ D.challengeArbiter = w.vault.challengeArbiter ∧
        w.arbiter.nextId + 1 = challengeId ∧
        ∃ u₁ u₂ u₃,
          D.token.transferFrom w.usdc D.challengeArbiter sender D.challengeArbiter
            GuardConstants.CHALLENGE_BOND = some u₁ ∧
          D.token.transfer u₁ D.stakeVault (w.executor.receipts receiptId).owner
            (violationPayout w receiptId) =
            some u₂ ∧
          D.token.transfer u₂ D.challengeArbiter sender GuardConstants.CHALLENGE_BOND = some u₃ ∧
          filed w sender receiptId u₃ = w' := by
  unfold ChallengeArbiter.fileAmountViolation GuardedExecutor.getReceipt IntentRegistry.getIntent
  simp only [bind_eq_ok, Prod.exists, revertIf_eq_ok, safeTransferFrom_eq_ok,
    safeTransfer_eq_ok, slash_eq_ok, pure_eq_ok, World.emit, exists_const]
  constructor
  · rintro ⟨hstored, hwindow, hover, _, ⟨u₁, hbond, rfl⟩, _, _,
      ⟨hwired, -, hstake, rfl, u₂, hpay, rfl⟩, _, ⟨u₃, hrefund, rfl⟩, h⟩
    obtain ⟨rfl, rfl⟩ := Prod.mk.inj h
    refine ⟨⟨hstored, Nat.not_lt.1 hwindow, Nat.not_le.1 hover, hstake⟩, hwired, rfl, u₁, u₂,
      u₃, hbond, hpay, hrefund, ?_⟩
    simp only [filed, violationPayout, slashed, List.append_assoc, List.cons_append,
      List.nil_append]
  · intro h
    obtain ⟨hok, hwired, rfl, u₁, u₂, u₃, hbond, hpay, hrefund, rfl⟩ := h
    refine ⟨hok.stored, Nat.not_lt.2 hok.window, Nat.not_le.2 hok.overspend, _,
      ⟨u₁, hbond, rfl⟩, _, _, ⟨hwired, ?_, hok.stake, rfl, u₂, hpay, rfl⟩, _,
        ⟨u₃, hrefund, rfl⟩, ?_⟩
    · exact Nat.ne_of_gt (Nat.zero_lt_of_lt hok.overspend)
    · simp only [filed, violationPayout, slashed, List.append_assoc, List.cons_append,
        List.nil_append]

/-- Every successful call has its effect. -/
theorem effect_of_exec {call : Call} (h : exec w sender call = .ok w') :
    Effect w sender call w' := by
  cases call with
  | commitIntent intentHash cfg manifestURI =>
    simp only [exec, IntentRegistry.commitIntent, bind_eq_ok, revertIf_eq_ok,
      pure_eq_ok, exists_const, not_not, World.emit] at h
    obtain ⟨howner, htoken, hlength, hexpiry, hnonce, hfresh, rfl⟩ := h
    exact .commitIntent howner htoken (Nat.not_lt.1 hlength) (Nat.not_le.1 (not_or.1 hexpiry).2)
      (Nat.not_le.1 hnonce) (by simpa using hfresh)
  | revokeIntent =>
    simp only [exec, IntentRegistry.revokeIntent, bind_eq_ok, revertIf_eq_ok,
      pure_eq_ok, exists_const, World.emit] at h
    obtain ⟨hactive, rfl⟩ := h
    exact .revokeIntent hactive
  | registerAgent agentId operator metadataURI =>
    simp only [exec, AgentRegistry.registerAgent, bind_eq_ok, revertIf_eq_ok,
      pure_eq_ok, exists_const, World.emit] at h
    obtain ⟨hoperator, hfresh, rfl⟩ := h
    exact .registerAgent hoperator (by simpa using hfresh)
  | stake agentId amount =>
    simp only [exec, AgentRegistry.stake, bind_eq_ok, revertIf_eq_ok, pure_eq_ok,
      exists_const, not_not, World.emit] at h
    obtain ⟨hregistered, hoperator, hamount, w₁, hdeposit, rfl⟩ := h
    obtain ⟨hwired, u, hpull, rfl⟩ := deposit_effect hdeposit
    have hlogs : ∀ e e' : Event, w.logs ++ [e] ++ [e'] = w.logs ++ [e, e'] := fun e e' => by simp
    simp only [StakeVault.stakeOf, update_self, hlogs]
    exact .stake (by simpa using hregistered) hoperator hamount hwired hpull
  | setWiring agentRegistry challengeArbiter =>
    simp only [exec, StakeVault.setWiring, bind_eq_ok, revertIf_eq_ok, pure_eq_ok,
      exists_const, not_or, not_not] at h
    obtain ⟨hsender, hunset, -, rfl⟩ := h
    exact .setWiring hsender hunset
  | deposit agentId src amount =>
    obtain ⟨hsender, u, -, rfl⟩ := deposit_effect h
    exact .deposit hsender
  | slash agentId dst amount =>
    simp only [exec, map_eq_ok, Prod.exists, slash_eq_ok] at h
    obtain ⟨_, _, ⟨hsender, -, -, rfl, u, -, rfl⟩, rfl⟩ := h
    exact .slash hsender
  | setAgentDelegate agentId delegate approved =>
    obtain rfl := Except.ok.inj h
    exact .setAgentDelegate
  | executeWithGuard req =>
    simp only [exec, map_eq_ok, Prod.exists, executeWithGuard_eq_ok] at h
    obtain ⟨_, _, ⟨hguard, -, u, hpay, rfl⟩, rfl⟩ := h
    exact .executeWithGuard hguard hpay
  | setTraceAckSigner signer =>
    simp only [exec, GuardedExecutor.setTraceAckSigner, bind_eq_ok, revertIf_eq_ok,
      pure_eq_ok, exists_const, World.emit] at h
    obtain ⟨-, -, rfl⟩ := h
    exact .setTraceAckSigner
  | executorOwner newOwner =>
    obtain rfl := Except.ok.inj h
    exact .executorOwner
  | fileAmountViolation receiptId =>
    simp only [exec, map_eq_ok, Prod.exists, fileAmountViolation_eq_ok] at h
    obtain ⟨_, _, ⟨hok, hwired, -, u₁, u₂, u₃, hbond, hpay, hrefund, rfl⟩, rfl⟩ := h
    exact .fileAmountViolation hok hwired hbond hpay hrefund
  | resolveByReviewer challengeId uphold slashAmount reviewerSig =>
    simp only [exec, ChallengeArbiter.resolveByReviewer, GuardedExecutor.getReceipt, bind_eq_ok,
      revertIf_eq_ok, exists_const] at h
    obtain ⟨hopen, -, -, h⟩ := h
    cases uphold with
    | false =>
      simp only [Bool.false_eq_true, if_false, pure_eq_ok, World.emit] at h
      subst h
      exact .dismiss (by simpa using hopen)
    | true =>
      simp only [if_true, bind_eq_ok, Prod.exists, slash_eq_ok, pure_eq_ok, World.emit] at h
      obtain ⟨_, _, ⟨hwired, hamount, hstake, rfl, u, hpay, rfl⟩, rfl⟩ := h
      have hlogs : ∀ e e' : Event, w.logs ++ [e] ++ [e'] = w.logs ++ [e, e'] := fun e e' => by simp
      simp only [hlogs]
      exact .uphold (by simpa using hopen) rfl hwired hamount hstake hpay
  | setReviewerSigner signer =>
    simp only [exec, ChallengeArbiter.setReviewerSigner, bind_eq_ok, revertIf_eq_ok,
      pure_eq_ok, exists_const, World.emit] at h
    obtain ⟨-, -, rfl⟩ := h
    exact .setReviewerSigner
  | arbiterOwner newOwner =>
    obtain rfl := Except.ok.inj h
    exact .arbiterOwner
  | usdcTransfer dst value =>
    obtain ⟨u, hu, rfl⟩ := safeTransfer_eq_ok.1 h
    exact .usdcTransfer hu
  | usdcTransferFrom src dst value =>
    obtain ⟨u, hu, rfl⟩ := safeTransferFrom_eq_ok.1 h
    exact .usdcTransferFrom hu
  | usdcApprove spender value =>
    simp only [exec, bind_eq_ok, orRevert_eq_ok, pure_eq_ok] at h
    obtain ⟨u, hu, rfl⟩ := h
    exact .usdcApprove hu
  | usdcMint dst value =>
    simp only [exec, bind_eq_ok, orRevert_eq_ok, pure_eq_ok] at h
    obtain ⟨u, hu, rfl⟩ := h
    exact .usdcMint hu

end

end IntentGuard
