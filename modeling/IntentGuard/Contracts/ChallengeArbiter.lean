import IntentGuard.Contracts.GuardedExecutor
import IntentGuard.Contracts.StakeVault

/-!
# ChallengeArbiter

`fileAmountViolation` files, slashes, pays and resolves in one call; `resolveByReviewer` acts on a
reviewer's signature over any challenge id that is not resolved, allocated or not.
-/

namespace IntentGuard.ChallengeArbiter

open Function

variable {D : Deployment} (w : World D) (sender : Address)

/-- Returns the challenge id. -/
def fileAmountViolation (receiptId : Bytes32) : Except Revert (World D × ℕ) := do
  let r := GuardedExecutor.getReceipt w receiptId
  revertIf (r.timestamp = 0) .ReceiptNotFound
  let window := AgentRegistry.challengeWindow w r.agentId
  revertIf (w.now > r.timestamp.toNat + window.toNat) .ChallengeWindowClosed
  let cfg := (IntentRegistry.getIntent w r.intentHash).1
  revertIf (r.amount ≤ cfg.maxSpendPerTx) .NotOverspend
  let w ← w.safeTransferFrom D.challengeArbiter sender D.challengeArbiter
    GuardConstants.CHALLENGE_BOND
  let challengeId := w.arbiter.nextId + 1
  let arbiter :=
    { w.arbiter with
      nextId := challengeId
      challenges := update w.arbiter.challenges challengeId
        { receiptId, challenger := sender, resolved := true } }
  let w := { w with arbiter }.emit [.ChallengeFiled challengeId receiptId sender]
  let (w, actual) ← StakeVault.slash w D.challengeArbiter r.agentId r.owner r.amount
  let w ← w.safeTransfer D.challengeArbiter sender GuardConstants.CHALLENGE_BOND
  pure (w.emit [.ChallengeResolved challengeId true actual], challengeId)

/-- `inner` of `resolveByReviewer`. -/
def reviewerInnerHash (D : Deployment) (challengeId : ℕ) (uphold : Bool) (slashAmount : ℕ) :
    Bytes32 :=
  D.keccak.words [challengeId, uphold.toNat, slashAmount, D.challengeArbiter, D.chainid]

def resolveByReviewer (challengeId : ℕ) (uphold : Bool) (slashAmount : ℕ) (reviewerSig : Bytes) :
    Except Revert (World D) := do
  let c := w.arbiter.challenges challengeId
  revertIf (c.resolved = true) .ChallengeAlreadyResolved
  revertIf (w.arbiter.reviewerSigner = 0) .InvalidReviewerSignature
  let digest := D.keccak.ethSignedMessage (reviewerInnerHash D challengeId uphold slashAmount)
  revertIf (D.tryRecover digest reviewerSig ≠ some w.arbiter.reviewerSigner)
    .InvalidReviewerSignature
  let arbiter :=
    { w.arbiter with
      challenges := update w.arbiter.challenges challengeId { c with resolved := true } }
  let w := { w with arbiter }
  if uphold then
    let r := GuardedExecutor.getReceipt w c.receiptId
    let (w, payout) ← StakeVault.slash w D.challengeArbiter r.agentId r.owner slashAmount
    pure (w.emit [.ChallengeResolved challengeId uphold payout])
  else pure (w.emit [.ChallengeResolved challengeId uphold 0])

def setReviewerSigner (signer : Address) : Except Revert (World D) := do
  revertIf (sender ≠ w.arbiter.owner) (.OwnableUnauthorizedAccount sender)
  revertIf (signer = 0) .ZeroSigner
  let prev := w.arbiter.reviewerSigner
  pure ({ w with arbiter := { w.arbiter with reviewerSigner := signer } }.emit
    [.ReviewerSignerUpdated prev signer])

end IntentGuard.ChallengeArbiter
