import IntentGuard.Contracts.System

/-!
# Configuration and errors

What the services read of the environment and of the deployment manifest, and the errors of their
handlers. An error's `details` are left out, and so is the message of an unhandled error, which no
client can rely on.
-/

namespace IntentGuard.Infra

/-- `DATABASE_PROVIDER`. -/
inductive Provider
  | sqlite | supabase
  deriving DecidableEq

/-- `contracts` of the manifest. -/
structure ContractAddresses where
  IntentRegistry : Address
  AgentRegistry : Address
  GuardedExecutor : Address
  ChallengeArbiter : Address
  StakeVault : Address
  USDC : Address

/-- `deployments/base-sepolia.json`. The file is not validated, so `chainId` may be missing from
it. -/
structure DeploymentManifest where
  chainId : Option ℕ
  contracts : ContractAddresses
  startBlock : Option ℕ
  challengeBond : ℕ
  challengeWindowSec : ℕ

structure HttpError where
  status : ℕ
  message : String
  deriving DecidableEq

def badRequest (msg : String) : HttpError := ⟨400, msg⟩

def notFound (msg : String) : HttpError := ⟨404, msg⟩

def internal (msg : String) : HttpError := ⟨500, msg⟩

/-- What `errorMiddleware` makes of any other error. -/
def unhandled : HttpError := ⟨500, "internal_error"⟩

/-- `if (c) throw e;` -/
def throwIf {ε : Type} (c : Prop) [Decidable c] (e : ε) : Except ε Unit :=
  if c then .error e else .ok ()

/-- A call that throws when it has no result. -/
def orThrow {ε α : Type} (e : ε) : Option α → Except ε α
  | some a => .ok a
  | none => .error e

section
variable {ε α : Type} {e : ε}

@[simp] theorem throwIf_eq_ok {c : Prop} [Decidable c] {u : Unit} : throwIf c e = .ok u ↔ ¬ c := by
  by_cases h : c <;> simp [throwIf, h]

@[simp] theorem orThrow_eq_ok {o : Option α} {a : α} : orThrow e o = .ok a ↔ o = some a := by
  cases o <;> simp [orThrow]

theorem orThrow_eq_error {o : Option α} {e' : ε} (h : orThrow e o = .error e') : e' = e := by
  cases o with
  | none => exact (Except.error.inj h).symm
  | some a => exact absurd h (by simp [orThrow])

end

end IntentGuard.Infra

namespace IntentGuard.Localnet

open Infra

def manifest : DeploymentManifest where
  chainId := some localnet.chainid
  contracts :=
    { IntentRegistry := localnet.intentRegistry
      AgentRegistry := localnet.agentRegistry
      GuardedExecutor := localnet.guardedExecutor
      ChallengeArbiter := localnet.challengeArbiter
      StakeVault := localnet.stakeVault
      USDC := localnet.USDC }
  startBlock := some 1
  challengeBond := 1000000
  challengeWindowSec := 259200

end IntentGuard.Localnet
