import IntentGuard.Contracts.World

/-!
# IntentRegistry

`commitIntent`, `revokeIntent` and the views other contracts call.
-/

namespace IntentGuard.IntentRegistry

open Function

variable {D : Deployment} (w : World D) (sender : Address)

def commitIntent (intentHash : Bytes32) (cfg : IntentConfig) (manifestURI : Bytes) :
    Except Revert (World D) := do
  revertIf (cfg.owner ≠ sender) .NotConfigOwner
  revertIf (cfg.token ≠ D.USDC) .TokenNotUsdc
  revertIf (cfg.allowedCounterparties.length > GuardConstants.MAX_COUNTERPARTIES)
    .CounterpartyListTooLong
  revertIf (cfg.expiry = 0 ∨ cfg.expiry.toNat ≤ w.now) .IntentAlreadyExpired
  revertIf (cfg.nonce ≤ w.registry.lastNonce sender) .NonceNotStrictlyIncreasing
  revertIf (w.registry.intentExists intentHash = true) .IntentHashMismatch
  let registry : State :=
    { activeIntentHash := update w.registry.activeIntentHash sender intentHash
      lastNonce := update w.registry.lastNonce sender cfg.nonce
      intentConfig := update w.registry.intentConfig intentHash cfg
      manifestURI := update w.registry.manifestURI intentHash manifestURI
      intentExists := update w.registry.intentExists intentHash true }
  pure ({ w with registry }.emit [.IntentCommitted sender intentHash manifestURI])

def revokeIntent : Except Revert (World D) := do
  let active := w.registry.activeIntentHash sender
  revertIf (active = 0) .NotIntentOwner
  let registry : State :=
    { w.registry with activeIntentHash := update w.registry.activeIntentHash sender 0 }
  pure ({ w with registry }.emit [.IntentRevoked sender active])

def getActiveIntentHash (owner : Address) : Bytes32 := w.registry.activeIntentHash owner

def getIntent (intentHash : Bytes32) : IntentConfig × Bytes :=
  (w.registry.intentConfig intentHash, w.registry.manifestURI intentHash)

end IntentGuard.IntentRegistry
