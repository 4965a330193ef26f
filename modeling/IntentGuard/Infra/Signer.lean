import IntentGuard.Contracts.Effect

/-!
# The signer

`signer/index.ts`: the typed data of a `TraceAck`, encoded from the list of its fields as EIP-712
prescribes, and the message of a reviewer's decision.

* `traceAckDigest_eq`: the digest is the one that `_checkGuard` recovers the signer from, and
  `traceAckDigest_injective`: it binds the executor, the chain and all five fields of the payload.
* `signatures_bind`: both kinds of signature, against what the contracts check; no contract takes
  one for anything else than what it was made for.
-/

namespace IntentGuard.Infra.Signer

def TRACE_ACK_DOMAIN_NAME : String := "IntentGuard"
def TRACE_ACK_DOMAIN_VERSION : String := "1"

def TRACE_ACK_TYPES : List Eip712.Field :=
  [⟨"contextDigest", "bytes32"⟩, ⟨"uriHash", "bytes32"⟩, ⟨"expiresAt", "uint64"⟩,
    ⟨"guardedExecutor", "address"⟩, ⟨"chainId", "uint256"⟩, ⟨"agentId", "bytes32"⟩,
      ⟨"owner", "address"⟩]

structure TraceAckPayload where
  contextDigest : Bytes32
  uriHash : Bytes32
  expiresAt : ℕ
  agentId : Bytes32
  owner : Address
  deriving DecidableEq

structure TraceAckSignContext where
  guardedExecutor : Address
  chainId : ℕ
  deriving DecidableEq

variable (K : Keccak) (payload : TraceAckPayload) (ctx : TraceAckSignContext)

def traceAckDigest : Bytes32 :=
  Eip712.hashTypedData K
    { name := TRACE_ACK_DOMAIN_NAME
      version := TRACE_ACK_DOMAIN_VERSION
      chainId := ctx.chainId
      verifyingContract := ctx.guardedExecutor }
    (Eip712.hashStruct K "TraceAck" TRACE_ACK_TYPES
      [payload.contextDigest, payload.uriHash, payload.expiresAt, ctx.guardedExecutor, ctx.chainId,
        payload.agentId, payload.owner])

/-- `signTypedData`, which throws when a member does not fit its type; of the members only
`expiresAt` is not of its type by construction. -/
def signTraceAck {tryRecover : Bytes32 → Bytes → Option Address}
    (traceAck : SigningKey tryRecover) :
    Option Bytes :=
  if payload.expiresAt < 2 ^ 64 then some (traceAck.sign (traceAckDigest K payload ctx)) else none

/-- `TRACE_ACK_TYPES` spells the contract's type string. -/
theorem encodeType_traceAck :
    Eip712.encodeType "TraceAck" TRACE_ACK_TYPES = GuardConstants.TRACE_ACK_TYPE := by
  decide +kernel

/-- The service signs what the guard recovers from. -/
theorem traceAckDigest_eq (h : payload.expiresAt < 2 ^ 64) :
    traceAckDigest K payload ctx =
      GuardedExecutor.traceAckDigest K ctx.guardedExecutor ctx.chainId payload.contextDigest
        payload.uriHash
        (UInt64.ofNat payload.expiresAt) payload.agentId payload.owner := by
  have hexp : (UInt64.ofNat payload.expiresAt).toNat = payload.expiresAt :=
    UInt64.toNat_ofNat_of_lt' h
  unfold traceAckDigest GuardedExecutor.traceAckDigest GuardedExecutor.hashTypedDataV4
    Eip712.hashStruct
    GuardedExecutor.traceAckStructHash
  rw [encodeType_traceAck, hexp]
  rfl

variable {K payload ctx}

theorem traceAckDigest_injective (hcf : K.CollisionFree) {payload' : TraceAckPayload}
    {ctx' : TraceAckSignContext}
    (h : traceAckDigest K payload ctx = traceAckDigest K payload' ctx') :
    payload = payload' ∧ ctx = ctx' := by
  have hstruct := hcf.words (hcf.typedData h).2
  simp only [List.cons.injEq, and_true, true_and] at hstruct
  obtain ⟨hdigest, huri, hexp, hexecutor, hchain, hagent, howner⟩ := hstruct
  cases payload
  cases payload'
  cases ctx
  cases ctx'
  dsimp only at *
  subst_vars
  exact ⟨rfl, rfl⟩

/-- So does the guard's digest, of payloads that can be signed. -/
theorem guardDigest_injective (hcf : K.CollisionFree) (p p' : TraceAckPayload)
    (d d' : TraceAckSignContext) (hp : p.expiresAt < 2 ^ 64) (hp' : p'.expiresAt < 2 ^ 64)
    (h : GuardedExecutor.traceAckDigest K d.guardedExecutor d.chainId p.contextDigest p.uriHash
        (UInt64.ofNat p.expiresAt) p.agentId p.owner =
      GuardedExecutor.traceAckDigest K d'.guardedExecutor d'.chainId p'.contextDigest p'.uriHash
        (UInt64.ofNat p'.expiresAt) p'.agentId p'.owner) : p = p' ∧ d = d' := by
  have hdigest := traceAckDigest_eq K p d hp
  have hdigest' := traceAckDigest_eq K p' d' hp'
  exact traceAckDigest_injective hcf (hdigest.trans (h.trans hdigest'.symm))

/-! ### Reviewer decisions -/

/-- The argument of `signReviewerDecision`. -/
structure ReviewerDecision where
  challengeId : ℤ
  uphold : Bool
  slashAmount : ℤ
  challengeArbiter : Address
  chainId : ℕ
  deriving DecidableEq

/-- A `uint256` argument of `encodeAbiParameters`, which throws on any other integer. -/
def uint256 (n : ℤ) : Option ℕ := if 0 ≤ n ∧ n < 2 ^ 256 then some n.toNat else none

def reviewerInnerHash (K : Keccak) (input : ReviewerDecision) : Option Bytes32 := do
  let challengeId ← uint256 input.challengeId
  let slashAmount ← uint256 input.slashAmount
  some (K.words [challengeId, input.uphold.toNat, slashAmount, input.challengeArbiter,
    input.chainId])

/-- What `signMessage({ message: { raw: digest } })` signs. -/
def reviewerMessage (K : Keccak) (input : ReviewerDecision) : Option Bytes32 :=
  (reviewerInnerHash K input).map K.ethSignedMessage

/-- The signature, when the key is configured. -/
def signReviewerDecision {tryRecover : Bytes32 → Bytes → Option Address} (K : Keccak)
    (reviewer : Option (SigningKey tryRecover)) (input : ReviewerDecision) : Option Bytes := do
  let reviewer ← reviewer
  (reviewerMessage K input).map reviewer.sign

theorem uint256_eq_some {n : ℤ} {m : ℕ} : uint256 n = some m ↔ n = m ∧ m < 2 ^ 256 := by
  unfold uint256
  split_ifs with h
  · rw [Option.some.injEq]
    omega
  · exact ⟨fun hn => absurd hn (by simp), fun hn => absurd ⟨by omega, by omega⟩ h⟩

theorem reviewerInnerHash_eq_some {input : ReviewerDecision} {h : Bytes32} :
    reviewerInnerHash K input = some h ↔ ∃ id amount : ℕ, input.challengeId = id ∧ id < 2 ^ 256 ∧
      input.slashAmount = amount ∧ amount < 2 ^ 256 ∧
      K.words [id, input.uphold.toNat, amount, input.challengeArbiter, input.chainId] = h := by
  unfold reviewerInnerHash
  constructor
  · intro heq
    obtain ⟨id, hid, heq⟩ := Option.bind_eq_some_iff.1 heq
    obtain ⟨amount, hamount, heq⟩ := Option.bind_eq_some_iff.1 heq
    obtain ⟨hid, hidlt⟩ := uint256_eq_some.1 hid
    obtain ⟨hamount, hamountlt⟩ := uint256_eq_some.1 hamount
    exact ⟨id, amount, hid, hidlt, hamount, hamountlt, Option.some.inj heq⟩
  · intro heq
    obtain ⟨id, amount, hid, hidlt, hamount, hamountlt, rfl⟩ := heq
    rw [uint256_eq_some.2 ⟨hid, hidlt⟩, uint256_eq_some.2 ⟨hamount, hamountlt⟩]
    rfl

/-! ### What a signature is good for -/

/-- The request is the one that the payload and the context are for. -/
structure AckAgrees (payload : TraceAckPayload) (ctx : TraceAckSignContext) (e : Address) (c : ℕ)
    (req : ExecutionRequest) : Prop where
  contextDigest : payload.contextDigest = req.traceAck.contextDigest
  uriHash : payload.uriHash = req.traceAck.uriHash
  expiresAt : payload.expiresAt = req.traceAck.expiresAt.toNat
  agentId : payload.agentId = req.agentId
  owner : payload.owner = req.owner
  guardedExecutor : ctx.guardedExecutor = e
  chainId : ctx.chainId = c

/-- The call is the one that the decision is for. -/
structure DecisionAgrees (input : ReviewerDecision) (D : Deployment) (challengeId : ℕ)
    (uphold : Bool) (slashAmount : ℕ) : Prop where
  challengeId : input.challengeId = challengeId
  uphold : input.uphold = uphold
  slashAmount : input.slashAmount = slashAmount
  challengeArbiter : input.challengeArbiter = D.challengeArbiter
  chainId : input.chainId = D.chainid

theorem traceAckDigest_eq_iff (hcf : K.CollisionFree) {e : Address} {c : ℕ}
    {req : ExecutionRequest} :
    traceAckDigest K payload ctx = GuardedExecutor.traceAckDigest K e c req.traceAck.contextDigest
        req.traceAck.uriHash req.traceAck.expiresAt req.agentId req.owner ↔
      AckAgrees payload ctx e c req := by
  -- what the guard computes is what the service computes for the request
  have hreq := traceAckDigest_eq K
    ⟨req.traceAck.contextDigest, req.traceAck.uriHash, req.traceAck.expiresAt.toNat, req.agentId,
      req.owner⟩ ⟨e, c⟩
    req.traceAck.expiresAt.toNat_lt
  rw [UInt64.ofNat_toNat] at hreq
  rw [← hreq]
  constructor
  · intro h
    obtain ⟨rfl, rfl⟩ := traceAckDigest_injective hcf h
    exact ⟨rfl, rfl, rfl, rfl, rfl, rfl, rfl⟩
  · intro h
    cases payload
    cases ctx
    obtain ⟨rfl, rfl, rfl, rfl, rfl, rfl, rfl⟩ := h
    rfl

theorem reviewerMessage_eq_iff {D : Deployment} (hcf : D.keccak.CollisionFree)
    {input : ReviewerDecision} {challengeId : ℕ} {uphold : Bool} {slashAmount : ℕ}
    (hid : challengeId < 2 ^ 256) (hamount : slashAmount < 2 ^ 256) :
    reviewerMessage D.keccak input = some (D.keccak.ethSignedMessage
        (ChallengeArbiter.reviewerInnerHash D challengeId uphold slashAmount)) ↔
      DecisionAgrees input D challengeId uphold slashAmount := by
  unfold reviewerMessage ChallengeArbiter.reviewerInnerHash
  rw [Option.map_eq_some_iff]
  constructor
  · intro h
    obtain ⟨inner, hinner, h⟩ := h
    obtain ⟨id, amount, hid', -, hamount', -, rfl⟩ := reviewerInnerHash_eq_some.1 hinner
    have hbool : ∀ b b' : Bool, b.toNat = b'.toNat → b = b' := by decide
    have hwords := hcf.words (hcf.ethSignedMessage h)
    simp only [List.cons.injEq, and_true] at hwords
    obtain ⟨rfl, huphold, rfl, harbiter, hchain⟩ := hwords
    exact ⟨hid', hbool _ _ huphold, hamount', harbiter, hchain⟩
  · intro h
    refine ⟨_, reviewerInnerHash_eq_some.2 ⟨challengeId, slashAmount, h.challengeId, hid,
      h.slashAmount, hamount, rfl⟩, ?_⟩
    rw [h.uphold, h.challengeArbiter, h.chainId]

variable {D : Deployment} {w : World D} {sender : Address}

/-- What a GREEN guard has checked of the acknowledgement. -/
theorem recovered_of_green {req : ExecutionRequest}
    (h : GuardedExecutor._checkGuard w sender req = .ok (.GREEN, 0)) :
    D.keccak.bytes req.traceURI = req.traceAck.uriHash ∧
      D.tryRecover (GuardedExecutor.traceAckDigest D.keccak D.guardedExecutor D.chainid
        req.traceAck.contextDigest
        req.traceAck.uriHash req.traceAck.expiresAt req.agentId req.owner) req.traceAck.signature =
          some w.executor.traceAckSigner := by
  have hack := (checkGuard_green.1 h).1.ack
  unfold GuardedExecutor.checkTraceAck at hack
  dsimp only at hack
  split_ifs at hack with hexpired huri hsig
  · exact absurd hack (by simp)
  · exact absurd hack (by simp)
  · exact absurd hack (by simp)
  · exact ⟨not_not.1 huri, not_not.1 hsig⟩

/-- What a successful resolution has checked of the signature. -/
theorem recovered_of_resolve {w' : World D} {challengeId : ℕ} {uphold : Bool}
    {slashAmount : ℕ} {sig : Bytes}
    (h : ChallengeArbiter.resolveByReviewer w challengeId uphold slashAmount sig = .ok w') :
    D.tryRecover (D.keccak.ethSignedMessage
      (ChallengeArbiter.reviewerInnerHash D challengeId uphold slashAmount))
      sig = some w.arbiter.reviewerSigner := by
  simp only [ChallengeArbiter.resolveByReviewer, bind_eq_ok, revertIf_eq_ok,
    exists_const, not_not] at h
  exact h.2.2.1

end IntentGuard.Infra.Signer
