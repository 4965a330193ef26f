import IntentGuard.Contracts.Intents

/-!
# What other accounts can do to an owner's intents

The registry keeps the active hash and the last nonce per owner, and the committed configs per hash,
for everyone. `OwnIntents` is the part of it that is one owner's. It moves only with the owner's own
transactions, and of other accounts these can see one thing: whether the hash they commit is taken
(`ownIntents_run`). `commit_noninterference` follows for two runs. Hashes are used globally once by
design, so an account that sees a pending commit can take its hash first (`commit_frontRun`).
-/

namespace IntentGuard

open Function Runs

variable {D : Deployment} {g : Genesis D} {w w' : World D} {sender : Address} {call : Call}

/-- The registry as one owner sees it. -/
structure OwnIntents where
  active : Bytes32
  lastNonce : ℕ
  committed : Bytes32 → Option IntentConfig

def ownIntents (o : Address) (s : IntentRegistry.State) : OwnIntents where
  active := s.activeIntentHash o
  lastNonce := s.lastNonce o
  committed h := if s.intentExists h = true ∧ (s.intentConfig h).owner = o then
    some (s.intentConfig h) else none

/-- Another account has committed the hash. -/
def TakenByOther (o : Address) (s : IntentRegistry.State) (h : Bytes32) : Prop :=
  s.intentExists h = true ∧ (s.intentConfig h).owner ≠ o

instance (o : Address) (s : IntentRegistry.State) (h : Bytes32) : Decidable (TakenByOther o s h) :=
  inferInstanceAs (Decidable (_ ∧ _))

/-- A transaction of an owner to the registry: when, which, and whether another account has
committed its hash. -/
structure OwnTx where
  now : ℕ
  call : Call
  taken : Bool
  deriving DecidableEq

def ownCall (w : World D) (o : Address) : Call → Option OwnTx
  | .commitIntent h cfg uri =>
    some ⟨w.now, .commitIntent h cfg uri, decide (TakenByOther o w.registry h)⟩
  | .revokeIntent => some ⟨w.now, .revokeIntent, false⟩
  | _ => none

def ownTx (o : Address) : World D × Action D → Option OwnTx
  | (_, .elapse _) => none
  | (w, .send tx) => if tx.sender = o then ownCall w o tx.call else none

/-- The owner's transactions to the registry in a run. -/
def ownView (o : Address) (g : Genesis D) (as : List (Action D)) : List OwnTx :=
  (visits step (init g) as).filterMap (ownTx o)

/-- What the owner sends to the registry, and when. -/
def registryCalls (o : Address) (g : Genesis D) (as : List (Action D)) : List (ℕ × Call) :=
  (ownView o g as).map fun t => (t.now, t.call)

/-- Which of these find their hash taken. -/
def takenHashes (o : Address) (g : Genesis D) (as : List (Action D)) : List Bool :=
  (ownView o g as).map OwnTx.taken

/-- What `commitIntent` checks, as the owner sees it. -/
structure OwnIntents.Accepts (D : Deployment) (o : Address) (s : OwnIntents) (now : ℕ)
    (taken : Bool) (h : Bytes32) (cfg : IntentConfig) : Prop where
  owner : cfg.owner = o
  token : cfg.token = D.USDC
  length : cfg.allowedCounterparties.length ≤ GuardConstants.MAX_COUNTERPARTIES
  expiry : now < cfg.expiry.toNat
  nonce : s.lastNonce < cfg.nonce
  notTaken : taken = false
  unused : s.committed h = none

open Classical in
/-- One transaction of the owner. -/
noncomputable def OwnIntents.move (D : Deployment) (o : Address) (s : OwnIntents)
    (t : OwnTx) : OwnIntents :=
  match t.call with
  | .commitIntent h cfg _ =>
    if s.Accepts D o t.now t.taken h cfg then
      { active := h, lastNonce := cfg.nonce, committed := update s.committed h (some cfg) }
    else s
  | .revokeIntent => { s with active := 0 }
  | _ => s

/-! ### The registry moves an owner's part only by the owner's transactions -/

theorem unused_iff {o : Address} {s : IntentRegistry.State} {h : Bytes32} :
    s.intentExists h = false ↔ ¬ TakenByOther o s h ∧ (ownIntents o s).committed h = none := by
  by_cases hexists : s.intentExists h = true
  · by_cases howner : (s.intentConfig h).owner = o
    · simp [TakenByOther, ownIntents, hexists, howner]
    · simp [TakenByOther, ownIntents, hexists, howner]
  · simp [TakenByOther, ownIntents, hexists]

theorem commitIntent_succeeds_iff {o : Address} {h : Bytes32} {cfg : IntentConfig} {uri : Bytes} :
    (∃ w', exec w o (.commitIntent h cfg uri) = .ok w') ↔
      (ownIntents o w.registry).Accepts D o w.now (decide (TakenByOther o w.registry h)) h cfg := by
  have hcode : (∃ w', exec w o (.commitIntent h cfg uri) = .ok w') ↔
      cfg.owner = o ∧ cfg.token = D.USDC ∧
        cfg.allowedCounterparties.length ≤ GuardConstants.MAX_COUNTERPARTIES ∧
        ¬ (cfg.expiry = 0 ∨ cfg.expiry.toNat ≤ w.now) ∧ w.registry.lastNonce o < cfg.nonce ∧
        w.registry.intentExists h = false := by
    simp only [exec, IntentRegistry.commitIntent, bind_eq_ok, revertIf_eq_ok, pure_eq_ok,
      exists_const, not_not, Nat.not_lt, Nat.not_le, Bool.not_eq_true]
    constructor
    · intro h
      obtain ⟨w', h1, h2, h3, h4, h5, h6, -⟩ := h
      exact ⟨h1, h2, h3, h4, h5, h6⟩
    · intro h
      obtain ⟨h1, h2, h3, h4, h5, h6⟩ := h
      exact ⟨_, h1, h2, h3, h4, h5, h6, rfl⟩
  rw [hcode]
  constructor
  · intro h
    obtain ⟨howner, htoken, hlength, hexpiry, hnonce, hfresh⟩ := h
    obtain ⟨hfree, hunused⟩ := (unused_iff (o := o)).1 hfresh
    exact ⟨howner, htoken, hlength, Nat.not_le.1 (not_or.1 hexpiry).2, hnonce,
      decide_eq_false hfree, hunused⟩
  · intro h
    refine ⟨h.owner, h.token, h.length, not_or.2 ⟨?_, Nat.not_le.2 h.expiry⟩, h.nonce,
      unused_iff.2 ⟨of_decide_eq_false h.notTaken, h.unused⟩⟩
    intro hzero
    have hexpiry := h.expiry
    rw [hzero] at hexpiry
    exact absurd hexpiry (Nat.not_lt_zero _)

/-- Calls other than the registry's leave it as it is. -/
theorem registry_of_effect (he : Effect w sender call w')
    (hcommit : ∀ h cfg uri, call ≠ .commitIntent h cfg uri) (hrevoke : call ≠ .revokeIntent) :
    w'.registry = w.registry := by
  cases he with
  | commitIntent => exact absurd rfl (hcommit _ _ _)
  | revokeIntent => exact absurd rfl hrevoke
  | _ => rfl

/-- Another account's commit writes under a hash that nobody has used. -/
theorem ownIntents_of_other {o : Address} (hne : sender ≠ o) (he : Effect w sender call w') :
    ownIntents o w'.registry = ownIntents o w.registry := by
  have hne' : o ≠ sender := hne.symm
  cases he with
  | @commitIntent h cfg uri howner _ _ _ _ hfresh =>
    unfold ownIntents
    dsimp only
    rw [update_of_ne hne', update_of_ne hne']
    congr 1
    funext h'
    by_cases heq : h' = h
    · subst heq
      simp only [update_self, hfresh, Bool.false_eq_true, false_and, if_false]
      exact if_neg fun hc => hne (howner.symm.trans hc.2)
    · simp only [update_of_ne heq]
  | revokeIntent =>
    unfold ownIntents
    dsimp only
    rw [update_of_ne hne']
  | _ => rfl

/-- The owner's own commit. -/
theorem ownIntents_of_commit {o : Address} {h : Bytes32} {cfg : IntentConfig} {uri : Bytes}
    (he : Effect w o (.commitIntent h cfg uri) w') :
    ownIntents o w'.registry =
      { active := h
        lastNonce := cfg.nonce
        committed := update (ownIntents o w.registry).committed h (some cfg) } := by
  cases he with
  | commitIntent howner =>
    unfold ownIntents
    dsimp only
    rw [update_self, update_self]
    congr 1
    funext h'
    by_cases heq : h' = h
    · subst heq
      simp only [update_self]
      exact if_pos ⟨trivial, howner⟩
    · simp only [update_of_ne heq]

theorem ownIntents_of_revoke {o : Address} (he : Effect w o .revokeIntent w') :
    ownIntents o w'.registry = { ownIntents o w.registry with active := 0 } := by
  cases he with
  | revokeIntent =>
    unfold ownIntents
    dsimp only
    rw [update_self]

/-- Whatever the owner does not send, or does not send to the registry, is not seen. -/
theorem ownIntents_of_unseen (o : Address) (w : World D) (a : Action D)
    (h : ownTx o (w, a) = none) :
    ownIntents o (step w a).registry = ownIntents o w.registry := by
  rcases a with n | tx
  · rfl
  rcases hx : exec w tx.sender tx.call with err | w'
  · rw [step, apply_of_error hx]
  rw [step, apply_of_ok hx]
  have he := effect_of_exec hx
  by_cases hsender : tx.sender = o
  · rw [ownTx, if_pos hsender] at h
    congr 1
    apply registry_of_effect he
    · intro hash cfg uri hcall
      rw [hcall] at h
      exact absurd h (by simp [ownCall])
    · intro hcall
      rw [hcall] at h
      exact absurd h (by simp [ownCall])
  · exact ownIntents_of_other hsender he

/-- What the owner sends to the registry moves its part by `OwnIntents.move`. -/
theorem ownIntents_of_seen (o : Address) (w : World D) (a : Action D) (t : OwnTx)
    (h : ownTx o (w, a) = some t) :
    ownIntents o (step w a).registry = (ownIntents o w.registry).move D o t := by
  rcases a with n | ⟨s, call, hne, hext⟩
  · exact absurd h (by simp [ownTx])
  by_cases hsender : s = o
  swap
  · rw [ownTx, if_neg hsender] at h
    exact absurd h (by simp)
  subst hsender
  rw [ownTx, if_pos rfl] at h
  dsimp only at h
  cases call with
  | commitIntent hash cfg uri =>
    obtain rfl := Option.some.inj h
    unfold OwnIntents.move
    dsimp only
    rcases hx : exec w s (.commitIntent hash cfg uri) with err | w'
    · rw [step, apply_of_error hx, if_neg]
      intro hok
      obtain ⟨w', hx'⟩ := commitIntent_succeeds_iff.2 hok
      rw [hx] at hx'
      exact absurd hx' (by simp)
    · rw [step, apply_of_ok hx, if_pos (commitIntent_succeeds_iff.1 ⟨w', hx⟩)]
      exact ownIntents_of_commit (effect_of_exec hx)
  | revokeIntent =>
    obtain rfl := Option.some.inj h
    unfold OwnIntents.move
    dsimp only
    rcases hx : exec w s .revokeIntent with err | w'
    · rw [step, apply_of_error hx]
      -- nothing was active
      have hzero : w.registry.activeIntentHash s = 0 := by
        by_contra hactive
        rw [exec, IntentRegistry.revokeIntent, revertIf, if_neg hactive] at hx
        exact absurd hx (by simp [bind, Except.bind, pure, Except.pure])
      unfold ownIntents
      rw [hzero]
    · rw [step, apply_of_ok hx]
      exact ownIntents_of_revoke (effect_of_exec hx)
  | _ => exact absurd h (by simp [ownCall])

/-- An owner's part of the registry is a function of the owner's view. -/
theorem ownIntents_run (o : Address) (g : Genesis D) (as : List (Action D)) :
    ownIntents o (run step (init g) as).registry =
      (ownView o g as).foldl (OwnIntents.move D o) ⟨0, 0, fun _ => none⟩ := by
  have hrun := project_run (fun w : World D => ownIntents o w.registry) (ownTx o)
    (OwnIntents.move D o) (init g)
    (ownIntents_of_unseen o) (ownIntents_of_seen o) as
  rw [hrun]
  rfl

/-! ### Two runs -/

theorem ownView_eq {o : Address} {g g' : Genesis D} {as bs : List (Action D)}
    (hcalls : registryCalls o g as = registryCalls o g' bs)
    (htaken : takenHashes o g as = takenHashes o g' bs) :
    ownView o g as = ownView o g' bs := by
  have hinj : Injective fun t : OwnTx => ((t.now, t.call), t.taken) := by
    intro t t' h
    obtain ⟨hcall, htake⟩ := Prod.mk.inj h
    obtain ⟨hnow, hcall⟩ := Prod.mk.inj hcall
    cases t
    cases t'
    exact OwnTx.mk.injEq .. ▸ ⟨hnow, hcall, htake⟩
  have hzip : ∀ l : List OwnTx, (l.map fun t => ((t.now, t.call), t.taken)) =
      (l.map fun t => (t.now, t.call)).zip (l.map OwnTx.taken) := fun l => List.zip_map'.symm
  apply List.map_injective_iff.2 hinj
  rw [hzip, hzip]
  exact congrArg₂ List.zip hcalls htaken

/-- The config under an owner's active hash is the owner's. -/
theorem ownIntents_active (o : Address) (g : Genesis D) (as : List (Action D))
    (hactive : (run step (init g) as).registry.activeIntentHash o ≠ 0) :
    (ownIntents o (run step (init g) as).registry).committed
        ((run step (init g) as).registry.activeIntentHash o) =
      some ((run step (init g) as).registry.intentConfig
        ((run step (init g) as).registry.activeIntentHash o)) := by
  have hI := registryInv g as
  obtain ⟨c, hc, howner, hhash⟩ := hI.active o hactive
  have hstored := (hI.stored c hc).1
  rw [hhash] at hstored
  unfold ownIntents
  dsimp only
  rw [if_pos]
  refine ⟨(hI.exists_iff _).2 ⟨c, hc, hhash⟩, ?_⟩
  rw [hstored, (hI.owned c hc).1, howner]

/-- Two runs in which the owner sends the registry the same at the same times, and finds the same of
its hashes taken: the owner's active intent, its config and the last nonce are the same, and so is
the success of its next commit, for every hash that is taken in both or in neither. -/
theorem commit_noninterference (g g' : Genesis D) (as bs : List (Action D)) (o : Address)
    (hcalls : registryCalls o g as = registryCalls o g' bs)
    (htaken : takenHashes o g as = takenHashes o g' bs) :
    (run step (init g) as).registry.activeIntentHash o =
      (run step (init g') bs).registry.activeIntentHash o ∧
      (run step (init g) as).registry.lastNonce o = (run step (init g') bs).registry.lastNonce o ∧
      ((run step (init g) as).registry.activeIntentHash o ≠ 0 →
        (run step (init g) as).registry.intentConfig
          ((run step (init g) as).registry.activeIntentHash o) =
          (run step (init g') bs).registry.intentConfig
            ((run step (init g') bs).registry.activeIntentHash o)) ∧
      ((run step (init g) as).now = (run step (init g') bs).now → ∀ h cfg uri,
        (TakenByOther o (run step (init g) as).registry h ↔
          TakenByOther o (run step (init g') bs).registry h) →
        ((∃ w', exec (run step (init g) as) o (.commitIntent h cfg uri) = .ok w') ↔
          ∃ w', exec (run step (init g') bs) o (.commitIntent h cfg uri) = .ok w')) := by
  have hown : ownIntents o (run step (init g) as).registry =
      ownIntents o (run step (init g') bs).registry := by
    rw [ownIntents_run, ownIntents_run, ownView_eq hcalls htaken]
  have hactive := congrArg OwnIntents.active hown
  refine ⟨hactive, congrArg OwnIntents.lastNonce hown, ?_, ?_⟩
  · intro hne
    have hne' : (run step (init g') bs).registry.activeIntentHash o ≠ 0 :=
      fun h => hne (hactive.trans h)
    have hleft := ownIntents_active o g as hne
    have hright := ownIntents_active o g' bs hne'
    rw [hown] at hleft
    have hactive : (run step (init g) as).registry.activeIntentHash o =
      (run step (init g') bs).registry.activeIntentHash o := hactive
    rw [hactive] at hleft ⊢
    exact Option.some.inj (hleft.symm.trans hright)
  · intro hnow h cfg uri htake
    rw [commitIntent_succeeds_iff, commitIntent_succeeds_iff, hown, hnow, decide_eq_decide.2 htake]

namespace Localnet

/-- Alice commits, and in the second run the delegate commits another hash before her. -/
def aliceAlone : List (Action localnet) := [send alice (.commitIntent 77 config []) alice_external]

def aliceSecond : List (Action localnet) :=
  [send delegate (.commitIntent 78 { config with owner := delegate } []) delegate_external,
    send alice (.commitIntent 77 config []) alice_external]

/-- The delegate commits alice's hash. -/
def frontRun : List (Action localnet) :=
  [send delegate (.commitIntent 77 { config with owner := delegate } []) delegate_external]

end Localnet

open Localnet in
/-- The delegate's commit of another hash makes no difference to alice. -/
theorem commit_noninterference_alice :
    (run step (init genesis) aliceAlone).registry.activeIntentHash alice =
      (run step (init genesis) aliceSecond).registry.activeIntentHash alice :=
  (commit_noninterference genesis genesis aliceAlone aliceSecond alice (by decide +kernel)
    (by decide +kernel)).1

open Localnet in
/-- Its commit of alice's hash does: hers, which she has not used, reverts. -/
theorem commit_frontRun :
    ¬ ∀ (D : Deployment) (g : Genesis D) (as bs : List (Action D)) (o : Address),
      registryCalls o g as = registryCalls o g bs →
        (run step (init g) as).now = (run step (init g) bs).now →
        ∀ h cfg uri, (∀ c ∈ registryCalls o g as, ∀ cfg' uri', c.2 ≠ .commitIntent h cfg' uri') →
          ((∃ w', exec (run step (init g) as) o (.commitIntent h cfg uri) = .ok w') ↔
            ∃ w', exec (run step (init g) bs) o (.commitIntent h cfg uri) = .ok w') := by
  intro h
  have h :=
    h localnet genesis [] frontRun alice (by decide +kernel) (by decide +kernel) 77 config []
    (fun _ hc => absurd hc List.not_mem_nil)
  rw [commitIntent_succeeds_iff, commitIntent_succeeds_iff] at h
  have hok : (ownIntents alice (run step (init genesis) []).registry).Accepts localnet alice
      (run step (init genesis) []).now
        (decide (TakenByOther alice (run step (init genesis) []).registry 77)) 77
      config := by
    refine ⟨?_, ?_, ?_, ?_, ?_, ?_, ?_⟩ <;> decide +kernel
  have htaken : TakenByOther alice (run step (init genesis) frontRun).registry 77 := by
    decide +kernel
  exact of_decide_eq_false (h.1 hok).notTaken htaken

end IntentGuard
