import IntentGuard.Contracts.Effect

/-!
# What the guard rejects for

`Rejects` is `_checkGuard` as a relation: for every reason the checks that were passed before it and
the one that was not. `checkGuard_rejects` derives it from the code, for a hash that keeps the eight
reason codes apart.
-/

namespace IntentGuard

variable {D : Deployment} {w : World D} {sender : Address} {req : ExecutionRequest}

inductive Reason
  | DELEGATE_NOT_APPROVED | TOKEN_NOT_USDC | NO_ACTIVE_INTENT | INTENT_EXPIRED
  | COUNTERPARTY_NOT_ALLOWED
  | DAY_CAP_EXCEEDED | TRACE_ACK_EXPIRED | TRACE_ACK_INVALID
  deriving DecidableEq

def Reason.code (K : Keccak) : Reason → Bytes32
  | .DELEGATE_NOT_APPROVED => GuardConstants.DELEGATE_NOT_APPROVED K
  | .TOKEN_NOT_USDC => GuardConstants.TOKEN_NOT_USDC K
  | .NO_ACTIVE_INTENT => GuardConstants.NO_ACTIVE_INTENT K
  | .INTENT_EXPIRED => GuardConstants.INTENT_EXPIRED K
  | .COUNTERPARTY_NOT_ALLOWED => GuardConstants.COUNTERPARTY_NOT_ALLOWED K
  | .DAY_CAP_EXCEEDED => GuardConstants.DAY_CAP_EXCEEDED K
  | .TRACE_ACK_EXPIRED => GuardConstants.TRACE_ACK_EXPIRED K
  | .TRACE_ACK_INVALID => GuardConstants.TRACE_ACK_INVALID K

/-- The text whose hash the code is. -/
def Reason.text : Reason → String
  | .DELEGATE_NOT_APPROVED => "DELEGATE_NOT_APPROVED"
  | .TOKEN_NOT_USDC => "TOKEN_NOT_USDC"
  | .NO_ACTIVE_INTENT => "NO_ACTIVE_INTENT"
  | .INTENT_EXPIRED => "INTENT_EXPIRED"
  | .COUNTERPARTY_NOT_ALLOWED => "COUNTERPARTY_NOT_ALLOWED"
  | .DAY_CAP_EXCEEDED => "DAY_CAP_EXCEEDED"
  | .TRACE_ACK_EXPIRED => "TRACE_ACK_EXPIRED"
  | .TRACE_ACK_INVALID => "TRACE_ACK_INVALID"

theorem Reason.code_eq (K : Keccak) (r : Reason) : r.code K = K.bytes (utf8 r.text) := by
  cases r <;> rfl

theorem Reason.code_injective {K : Keccak} (hK : K.CollisionFree) :
    Function.Injective (Reason.code K) := by
  intro r r' h
  rw [Reason.code_eq, Reason.code_eq] at h
  have htext := hK.bytes h
  cases r <;> cases r' <;> first | rfl | exact absurd htext (by decide)

/-- The config of the owner's active intent. -/
def activeConfig (w : World D) (o : Address) : IntentConfig :=
  w.registry.intentConfig (w.registry.activeIntentHash o)

/-- The checks of the request itself. -/
structure Addressed (w : World D) (sender : Address) (req : ExecutionRequest) : Prop where
  delegate : w.executor.delegates req.owner req.agentId sender = true
  token : req.token = D.USDC

/-- The checks up to the counterparty. -/
structure Allowed (w : World D) (sender : Address) (req : ExecutionRequest) :
    Prop extends Addressed w sender req where
  active : w.registry.activeIntentHash req.owner ≠ 0
  notExpired : w.now < (activeConfig w req.owner).expiry.toNat
  counterparty : req.target ∈ (activeConfig w req.owner).allowedCounterparties
  noOverflow : w.executor.spentByDay req.owner (w.now / days1) + req.amount < 2 ^ 256

inductive Rejects (w : World D) (sender : Address) (req : ExecutionRequest) : Reason → Prop
  | delegate (h : w.executor.delegates req.owner req.agentId sender = false) :
      Rejects w sender req .DELEGATE_NOT_APPROVED
  | token (hdelegate : w.executor.delegates req.owner req.agentId sender = true)
      (h : req.token ≠ D.USDC) :
      Rejects w sender req .TOKEN_NOT_USDC
  | active (hreq : Addressed w sender req) (h : w.registry.activeIntentHash req.owner = 0) :
      Rejects w sender req .NO_ACTIVE_INTENT
  | expired (hreq : Addressed w sender req) (hactive : w.registry.activeIntentHash req.owner ≠ 0)
      (h : (activeConfig w req.owner).expiry.toNat ≤ w.now) : Rejects w sender req .INTENT_EXPIRED
  | counterparty (hreq : Addressed w sender req)
      (hactive : w.registry.activeIntentHash req.owner ≠ 0)
      (hexpiry : w.now < (activeConfig w req.owner).expiry.toNat)
      (h : req.target ∉ (activeConfig w req.owner).allowedCounterparties) :
      Rejects w sender req .COUNTERPARTY_NOT_ALLOWED
  | dayCap (hallowed : Allowed w sender req)
      (h : (activeConfig w req.owner).maxSpendPerDay <
        w.executor.spentByDay req.owner (w.now / days1) +
          req.amount) : Rejects w sender req .DAY_CAP_EXCEEDED
  | traceAck {r : Reason} (hallowed : Allowed w sender req)
      (hcap : w.executor.spentByDay req.owner (w.now / days1) + req.amount ≤
        (activeConfig w req.owner).maxSpendPerDay)
      (h : GuardedExecutor.checkTraceAck w req = (.RED, r.code D.keccak)) : Rejects w sender req r

/-- A check that answers RED when `c` holds answers it for its own reason, or the rest does for
its. -/
theorem red_else_eq_red {c : Prop} [Decidable c] {red reason : Bytes32}
    {rest : Except Revert (GuardDecision × Bytes32)} :
    (if c then .ok (.RED, red) else rest) = .ok (.RED, reason) ↔
      c ∧ red = reason ∨ ¬ c ∧ rest = .ok (.RED, reason) := by
  by_cases h : c <;> simp [h]

/-- The acknowledgement is rejected for one of its two reasons. -/
theorem checkTraceAck_red {reason : Bytes32}
    (h : GuardedExecutor.checkTraceAck w req = (.RED, reason)) :
    reason = Reason.TRACE_ACK_EXPIRED.code D.keccak ∨
    reason = Reason.TRACE_ACK_INVALID.code D.keccak := by
  simp only [GuardedExecutor.checkTraceAck] at h
  split_ifs at h
  · exact .inl (Prod.mk.inj h).2.symm
  · exact .inr (Prod.mk.inj h).2.symm
  · exact .inr (Prod.mk.inj h).2.symm
  · exact absurd (Prod.mk.inj h).1 (by simp)

/-- The guard rejects for exactly the reasons of `Rejects`. -/
theorem checkGuard_rejects (hK : D.keccak.CollisionFree) {r : Reason} :
    GuardedExecutor._checkGuard w sender req = .ok (.RED, r.code D.keccak) ↔
      Rejects w sender req r := by
  have hcode : ∀ r' : Reason, r'.code D.keccak = r.code D.keccak → r' = r :=
    fun _ h => Reason.code_injective hK h
  unfold GuardedExecutor._checkGuard IntentRegistry.getActiveIntentHash IntentRegistry.getIntent
  dsimp only
  rw [red_else_eq_red, red_else_eq_red, red_else_eq_red, red_else_eq_red, red_else_eq_red]
  simp only [bind_eq_ok, checkedAdd_eq_ok, pure, Except.pure, red_else_eq_red, Bool.not_eq_false,
    not_not, Nat.not_le]
  constructor
  · rintro (⟨h, hr⟩ | ⟨hdelegate,
      ⟨h, hr⟩ | ⟨htoken, ⟨h, hr⟩ | ⟨hactive, ⟨h, hr⟩ | ⟨hexpiry, ⟨h, hr⟩ | h⟩⟩⟩⟩)
    · obtain rfl := hcode .DELEGATE_NOT_APPROVED hr
      exact .delegate h
    · obtain rfl := hcode .TOKEN_NOT_USDC hr
      exact .token hdelegate h
    · obtain rfl := hcode .NO_ACTIVE_INTENT hr
      exact .active ⟨hdelegate, htoken⟩ h
    · obtain rfl := hcode .INTENT_EXPIRED hr
      exact .expired ⟨hdelegate, htoken⟩ hactive h
    · obtain rfl := hcode .COUNTERPARTY_NOT_ALLOWED hr
      exact .counterparty ⟨hdelegate, htoken⟩ hactive hexpiry h
    · obtain ⟨htarget, _, ⟨hover, rfl⟩, ⟨h, hr⟩ | ⟨hcap, h⟩⟩ := h
      · obtain rfl := hcode .DAY_CAP_EXCEEDED hr
        exact .dayCap ⟨⟨hdelegate, htoken⟩, hactive, hexpiry, htarget, hover⟩ h
      · exact .traceAck ⟨⟨hdelegate, htoken⟩, hactive, hexpiry, htarget,
          hover⟩ (Nat.not_lt.1 hcap) (Except.ok.inj h)
  · intro h
    cases h with
    | delegate h => exact .inl ⟨h, rfl⟩
    | token hdelegate h => exact .inr ⟨hdelegate, .inl ⟨h, rfl⟩⟩
    | active hreq h => exact .inr ⟨hreq.delegate, .inr ⟨hreq.token, .inl ⟨h, rfl⟩⟩⟩
    | expired hreq hactive h =>
      exact .inr ⟨hreq.delegate, .inr ⟨hreq.token, .inr ⟨hactive, .inl ⟨h, rfl⟩⟩⟩⟩
    | counterparty hreq hactive hexpiry h =>
      exact .inr ⟨hreq.delegate, .inr ⟨hreq.token, .inr ⟨hactive, .inr ⟨hexpiry, .inl ⟨h, rfl⟩⟩⟩⟩⟩
    | dayCap ha h =>
      exact .inr ⟨ha.delegate, .inr ⟨ha.token, .inr ⟨ha.active, .inr ⟨ha.notExpired,
        .inr ⟨ha.counterparty, _, ⟨ha.noOverflow, rfl⟩, .inl ⟨h, rfl⟩⟩⟩⟩⟩⟩
    | traceAck ha hcap h =>
      exact .inr ⟨ha.delegate, .inr ⟨ha.token, .inr ⟨ha.active, .inr ⟨ha.notExpired,
        .inr ⟨ha.counterparty, _, ⟨ha.noOverflow, rfl⟩,
          .inr ⟨Nat.not_lt.2 hcap, congrArg Except.ok h⟩⟩⟩⟩⟩⟩

/-- A reason of the checks before the acknowledgement is not the acknowledgement's. -/
theorem checkTraceAck_ne (hK : D.keccak.CollisionFree) {r : Reason}
    (hexpired : r ≠ .TRACE_ACK_EXPIRED) (hinvalid : r ≠ .TRACE_ACK_INVALID) :
    GuardedExecutor.checkTraceAck w req ≠ (.RED, r.code D.keccak) := by
  intro h
  rcases checkTraceAck_red h with h | h
  · exact hexpired (Reason.code_injective hK h)
  · exact hinvalid (Reason.code_injective hK h)

end IntentGuard
