import IntentGuard.Contracts.Rejections
import IntentGuard.Infra.ChallengePrepare
import IntentGuard.Infra.Executions

/-!
# The deterministic checks and the guard

Both sides apply the same intent to the same payment: `runDeterministicChecks` from the stored
manifest, `_checkGuard` from the committed config. `checks_sound_iff`: what passes the checks is not
rejected for its token, its time or its target exactly when the token is USDC, the intent does not
expire in that very second and it allows some counterparty, or when the checks fail.
-/

namespace IntentGuard.Infra

open Js

variable {D : Deployment} {w : World D} {sender : Address} {req : ExecutionRequest}
variable {manifests : List ManifestRow} {manifest : ManifestRow} {now : Time} {body : ExecutionBody}

/-- The body of an execution and a request to the executor are about the same payment under the
owner's active intent, whose manifest is stored, and the delegate that sends the request is
approved. -/
structure SamePayment (w : World D) (sender : Address) (req : ExecutionRequest)
    (manifests : List ManifestRow) (manifest : ManifestRow) (now : Time) (body : ExecutionBody) :
    Prop where
  intent : ∃ intentHash : HexText 64, body.intentHash = some intentHash ∧ intentHash.value ≠ 0 ∧
    w.registry.activeIntentHash req.owner = intentHash.value ∧
      getManifestByHash intentHash.value manifests = some manifest
  carries : manifest.Carries (activeConfig w req.owner)
  delegate : w.executor.delegates req.owner req.agentId sender = true
  target : ∃ target : HexText 40, body.target = some target ∧ target.value = req.target
  token : ∃ token : HexText 40, body.token = some token ∧ token.value = req.token
  amount : ∃ amount, body.amount = some amount ∧ stringToBigInt amount = some (req.amount : ℤ)
  time : now.seconds = w.now

/-- The checks pass. -/
def Passes (manifests : List ManifestRow) (now : Time) (body : ExecutionBody) : Prop :=
  ∃ checks, runDeterministicChecks manifests now body.checkInput = .ok checks ∧ checks.passed = true

/-- The reasons that both sides have a check for. -/
def SharedReason (r : Reason) : Prop :=
  r = .TOKEN_NOT_USDC ∨ r = .INTENT_EXPIRED ∨ r = .COUNTERPARTY_NOT_ALLOWED

theorem amountReasons_eq (manifest : ManifestRow) {amount : JsString} {n : ℕ}
    (h : stringToBigInt amount = some (n : ℤ)) :
    ∃ reasons, amountReasons manifest (some amount) = .ok reasons ∧
      (reasons = [] ↔ n ≤ manifest.maxSpendPerTx) := by
  by_cases hempty : amount = []
  · subst hempty
    have hzero : n = 0 := by
      have hread : stringToBigInt [] = some 0 := rfl
      have := Option.some.inj (hread.symm.trans h)
      omega
    exact ⟨[], rfl, by simp [hzero]⟩
  · unfold amountReasons
    dsimp only
    rw [if_neg hempty, h]
    refine ⟨_, rfl, ?_⟩
    rw [reasonIf_eq_nil]
    omega

theorem expiryReasons_eq_nil (manifest : ManifestRow) (now : Time) {expiry : ℕ}
    (h : manifest.expiry = toNumber expiry) : expiryReasons manifest now = [] ↔
      now.seconds ≤ expiry := by
  unfold expiryReasons
  rw [reasonIf_eq_nil, toNumber_lt_iff now.seconds_lt, h, toNumber_lt_iff now.seconds_lt,
    Nat.not_lt]

theorem toNumber_lt_doubleLimit {n : ℕ} (h : n < 2 ^ 64) : toNumber n < doubleLimit :=
  calc toNumber n ≤ 2 * n := toNumber_le n
    _ < 2 ^ 1024 := (Nat.mul_lt_mul_of_pos_left h (by omega)).trans (by decide +kernel)

theorem passes_iff (h : SamePayment w sender req manifests manifest now body) :
    Passes manifests now body ↔
      req.amount ≤ (activeConfig w req.owner).maxSpendPerTx ∧
        ((activeConfig w req.owner).allowedCounterparties = [] ∨
          req.target ∈ (activeConfig w req.owner).allowedCounterparties) ∧
            w.now ≤ (activeConfig w req.owner).expiry.toNat := by
  obtain ⟨intentHash, hintent, -, -, hmanifest⟩ := h.intent
  obtain ⟨target, htarget, hvalue⟩ := h.target
  obtain ⟨amount, hamount, hread⟩ := h.amount
  obtain ⟨overCap, hoverCap, hcap⟩ := amountReasons_eq manifest hread
  have hfinite : ¬ doubleLimit ≤ manifest.expiry := by
    rw [h.carries.expiry]
    exact Nat.not_le.2 (toNumber_lt_doubleLimit (activeConfig w req.owner).expiry.toNat_lt)
  have hchecks : runDeterministicChecks manifests now body.checkInput =
      .ok ⟨overCap ++ counterpartyReasons manifest (some target) ++ expiryReasons manifest now = [],
        overCap ++ counterpartyReasons manifest (some target) ++ expiryReasons manifest now⟩ := by
    simp [runDeterministicChecks, ExecutionBody.checkInput, hintent, hmanifest, htarget, hamount,
      hoverCap, throwIf, hfinite, bind, Except.bind, pure, Except.pure]
  unfold Passes
  rw [hchecks]
  simp only [Except.ok.injEq, exists_eq_left', decide_eq_true_eq, List.append_eq_nil_iff]
  rw [hcap, counterpartyReasons_eq_nil, expiryReasons_eq_nil manifest now h.carries.expiry, hvalue,
    h.carries.maxSpendPerTx, h.carries.allowedCounterparties, h.time, and_assoc]

/-- The guard rejects for one of the shared reasons. -/
theorem rejects_shared_iff (hK : D.keccak.CollisionFree)
    (h : SamePayment w sender req manifests manifest now body) :
    (∃ r, SharedReason r ∧ GuardedExecutor._checkGuard w sender req = .ok (.RED, r.code D.keccak)) ↔
      req.token ≠ D.USDC ∨ (activeConfig w req.owner).expiry.toNat ≤ w.now ∨
        req.target ∉ (activeConfig w req.owner).allowedCounterparties := by
  obtain ⟨intentHash, -, hzero, hactive, -⟩ := h.intent
  have hne : w.registry.activeIntentHash req.owner ≠ 0 := hactive ▸ hzero
  constructor
  · rintro ⟨r, hr, hred⟩
    rw [checkGuard_rejects hK] at hred
    cases hred with
    | delegate _ => exact absurd hr (by simp [SharedReason])
    | token _ htoken => exact .inl htoken
    | active _ _ => exact absurd hr (by simp [SharedReason])
    | expired _ _ hexpired => exact .inr (.inl hexpired)
    | counterparty _ _ _ htarget => exact .inr (.inr htarget)
    | dayCap _ _ => exact absurd hr (by simp [SharedReason])
    | traceAck _ _ hack =>
      refine absurd hack (checkTraceAck_ne hK ?_ ?_) <;> rintro rfl <;> simp [SharedReason] at hr
  · intro hor
    by_cases htoken : req.token = D.USDC
    · have hreq : Addressed w sender req := ⟨h.delegate, htoken⟩
      by_cases hexpired : (activeConfig w req.owner).expiry.toNat ≤ w.now
      · exact ⟨.INTENT_EXPIRED, .inr (.inl rfl),
          (checkGuard_rejects hK).2 (.expired hreq hne hexpired)⟩
      · have htarget := (hor.resolve_left (not_not.2 htoken)).resolve_left hexpired
        exact ⟨.COUNTERPARTY_NOT_ALLOWED, .inr (.inr rfl),
          (checkGuard_rejects hK).2 (.counterparty hreq hne (Nat.not_le.1 hexpired) htarget)⟩
    · exact ⟨.TOKEN_NOT_USDC, .inl rfl, (checkGuard_rejects hK).2 (.token h.delegate htoken)⟩

/-- What passes the checks is not rejected by the guard for a shared reason exactly when the token
is USDC, the intent does not expire in this second and it allows a counterparty, or the checks
fail. -/
theorem checks_sound_iff (hK : D.keccak.CollisionFree)
    (h : SamePayment w sender req manifests manifest now body) :
    (Passes manifests now body → ∀ r, SharedReason r →
        GuardedExecutor._checkGuard w sender req ≠ .ok (.RED, r.code D.keccak)) ↔
      (req.token = D.USDC ∧ w.now ≠ (activeConfig w req.owner).expiry.toNat ∧
          (activeConfig w req.owner).allowedCounterparties ≠ []) ∨
        (activeConfig w req.owner).maxSpendPerTx < req.amount ∨
          ((activeConfig w req.owner).allowedCounterparties ≠ [] ∧
            req.target ∉ (activeConfig w req.owner).allowedCounterparties) ∨
              (activeConfig w req.owner).expiry.toNat < w.now := by
  have hrejects := rejects_shared_iff hK h
  have hforall :
      (∀ r, SharedReason r →
        GuardedExecutor._checkGuard w sender req ≠ .ok (.RED, r.code D.keccak)) ↔
      ¬ ∃ r, SharedReason r ∧ GuardedExecutor._checkGuard w sender req =
        .ok (.RED, r.code D.keccak) := by
    simp only [not_exists, not_and, ne_eq]
  rw [hforall, hrejects, passes_iff h]
  generalize activeConfig w req.owner = cfg
  have hnil : cfg.allowedCounterparties = [] → req.target ∉ cfg.allowedCounterparties := by
    intro hempty
    rw [hempty]
    exact List.not_mem_nil
  by_cases hcap : req.amount ≤ cfg.maxSpendPerTx
  · by_cases hexpiry : w.now ≤ cfg.expiry.toNat
    · by_cases hempty : cfg.allowedCounterparties = []
      · simp [hcap, hexpiry, hempty]
      · by_cases htarget : req.target ∈ cfg.allowedCounterparties
        · have hboundary : cfg.expiry.toNat ≤ w.now ↔ w.now = cfg.expiry.toNat := by omega
          simp [hcap, hexpiry, hempty, htarget, hboundary, Nat.not_lt.2 hcap, Nat.not_lt.2 hexpiry]
        · simp [hempty, htarget]
    · have hexpired := Nat.not_le.1 hexpiry
      simp [hexpiry, hexpired]
  · have hover := Nat.not_le.1 hcap
    simp [hcap, hover]

end IntentGuard.Infra

namespace IntentGuard.Localnet

open Infra Js Runs

/-- The payment of one dollar in some token. -/
def paymentIn (token : Address) : ExecutionRequest := { payment 1000000 with token }

def paymentBody (token : Address) : ExecutionBody where
  owner := .spell 40 alice
  agentId := .spell 64 agent
  proposedAction := text "pay"
  trace := .string (text "t")
  target := some (.spell 40 merchant)
  token := some (.spell 40 token)
  amount := some (text "1000000")
  intentHash := some (.spell 64 77)

def committed : World localnet := run step (init genesis) (setUp 100000000)

theorem samePayment {token : Address} (htoken : token % 16 ^ 40 = token) :
    SamePayment committed delegate (paymentIn token) [manifestRow] manifestRow UnreadAmount.clock
      (paymentBody token) := by
  have hfacts : committed.registry.activeIntentHash alice = 77 ∧
      activeConfig committed alice = config ∧
      committed.executor.delegates alice agent delegate = true ∧
      UnreadAmount.clock.seconds = committed.now := by
    decide +kernel
  obtain ⟨hactive, hconfig, hdelegate, hnow⟩ := hfacts
  have hread : stringToBigInt (text "1000000") = some ((1000000 : ℕ) : ℤ) := by decide
  refine ⟨⟨_, rfl, by decide, hactive, rfl⟩, ?_, hdelegate, ⟨_, rfl, rfl⟩, ⟨_, rfl, htoken⟩,
    ⟨_, rfl, hread⟩, hnow⟩
  show manifestRow.Carries (activeConfig committed alice)
  rw [hconfig]
  exact ⟨rfl, rfl, rfl, rfl, rfl, rfl, rfl⟩

end IntentGuard.Localnet

namespace IntentGuard.Infra

open Js Localnet Runs

/-- A payment in another token passes the checks, and the guard rejects it. -/
theorem wrongToken_passes :
    ¬ ∀ (D : Deployment) (g : Genesis D) (w : World D) (sender : Address) (req : ExecutionRequest)
      (manifests : List ManifestRow) (manifest : ManifestRow) (now : Time) (body : ExecutionBody),
      D.keccak.CollisionFree → IntentGuard.Reachable g w →
        SamePayment w sender req manifests manifest now body →
        Passes manifests now body → ∀ r, SharedReason r →
          GuardedExecutor._checkGuard w sender req ≠ .ok (.RED, r.code D.keccak) := by
  intro h
  have hpasses : Passes [manifestRow] UnreadAmount.clock (paymentBody 9) :=
    (passes_iff (samePayment (by decide))).2 (by decide +kernel)
  have hred : GuardedExecutor._checkGuard committed delegate (paymentIn 9) =
      .ok (.RED, Reason.TOKEN_NOT_USDC.code localnet.keccak) := by decide +kernel
  exact h localnet genesis committed delegate (paymentIn 9) [manifestRow] manifestRow
    UnreadAmount.clock (paymentBody 9)
    Keccak.numbering_collisionFree (reachable_run _ _) (samePayment (by decide)) hpasses
      .TOKEN_NOT_USDC (.inl rfl) hred

/-- The payment in USDC. -/
theorem checks_sound_iff_usdc :
    Passes [manifestRow] UnreadAmount.clock (paymentBody 1) ∧ ∀ r, SharedReason r →
      GuardedExecutor._checkGuard committed delegate (paymentIn 1) ≠
        .ok (.RED, r.code localnet.keccak) := by
  have hpasses : Passes [manifestRow] UnreadAmount.clock (paymentBody 1) :=
    (passes_iff (samePayment (by decide))).2 (by decide +kernel)
  refine ⟨hpasses, (checks_sound_iff Keccak.numbering_collisionFree (samePayment (by decide))).2
    (.inl ⟨rfl, ?_⟩) hpasses⟩
  show committed.now ≠ (activeConfig committed alice).expiry.toNat ∧
    (activeConfig committed alice).allowedCounterparties ≠ []
  decide +kernel

end IntentGuard.Infra
