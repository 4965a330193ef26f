import IntentGuard.Contracts.OwnerControl
import IntentGuard.Contracts.Rejections

/-!
# A committed intent

Between an owner's commit and its next commit or revocation nobody else can touch what was committed
(`Held`), so the guard sees the committed config and the owner can revoke. All of it rests on the
hash not being zero, the value that `revokeIntent` and the guard read as "none": `commitIntent`
accepts it (`committed_usable_iff`).
-/

namespace IntentGuard

open Function Runs

variable {D : Deployment} {g : Genesis D} {w w' : World D} {sender : Address} {call : Call}
  {o : Address} {intentHash : Bytes32} {cfg : IntentConfig} {manifestURI : Bytes}

/-- What an owner may expect of the intent it has committed. -/
structure Usable (w : World D) (o : Address) (intentHash : Bytes32) (cfg : IntentConfig)
    (manifestURI : Bytes) :
    Prop where
  active : IntentRegistry.getActiveIntentHash w o = intentHash
  stored : IntentRegistry.getIntent w intentHash = (cfg, manifestURI)
  found : ∀ sender req, req.owner = o →
    GuardedExecutor._checkGuard w sender req ≠ .ok (.RED, GuardConstants.NO_ACTIVE_INTENT D.keccak)
  expired_iff : ∀ sender req, req.owner = o → w.executor.delegates o req.agentId sender = true →
    req.token = D.USDC →
    (GuardedExecutor._checkGuard w sender req = .ok (.RED, GuardConstants.INTENT_EXPIRED D.keccak) ↔
      cfg.expiry.toNat ≤ w.now)
  revocable : ∃ w', exec w o .revokeIntent = .ok w' ∧ IntentRegistry.getActiveIntentHash w' o = 0

/-- The registry still has the commit, as the owner's active one. -/
structure Held (s : IntentRegistry.State) (o : Address) (intentHash : Bytes32) (cfg : IntentConfig)
    (manifestURI : Bytes) : Prop where
  active : s.activeIntentHash o = intentHash
  config : s.intentConfig intentHash = cfg
  uri : s.manifestURI intentHash = manifestURI
  taken : s.intentExists intentHash = true

/-- The owner neither commits nor revokes. -/
def QuietOf (o : Address) (e : World D × Tx D) : Prop := ¬ IsCommitBy o e ∧ ¬ IsRevokeBy o e

theorem held_of_commit (h : Effect w sender (.commitIntent intentHash cfg manifestURI) w') :
    Held w'.registry sender intentHash cfg manifestURI := by
  cases h
  exact ⟨update_self .., update_self .., update_self .., update_self ..⟩

theorem Held.effect {tx : Tx D} (h : Held w.registry o intentHash cfg manifestURI)
    (hquiet : QuietOf o (w, tx)) (he : Effect w tx.sender tx.call w') :
    Held w'.registry o intentHash cfg manifestURI := by
  have hactive : w'.registry.activeIntentHash o = intentHash := by
    by_contra hne
    rw [← h.active] at hne
    obtain ⟨hsender, hcall | hcall⟩ := active_of_effect he hne
    · exact hquiet.2 ⟨hsender, hcall⟩
    · exact hquiet.1 ⟨hsender, hcall⟩
  obtain ⟨sender, call, hne, hext⟩ := tx
  cases he with
  | @commitIntent other _ _ _ _ _ _ _ hfresh =>
    -- the hash of a new commit is unused, so it is another one
    have hother : intentHash ≠ other := by
      rintro rfl
      exact absurd (h.taken.symm.trans hfresh) (by simp)
    refine ⟨hactive, ?_, ?_, ?_⟩
    · exact (update_of_ne hother ..).trans h.config
    · exact (update_of_ne hother ..).trans h.uri
    · exact (update_of_ne hother ..).trans h.taken
  | revokeIntent => exact ⟨hactive, h.config, h.uri, h.taken⟩
  | _ => exact h

theorem Held.run (h : Held w.registry o intentHash cfg manifestURI) (as : List (Action D))
    (hquiet : ∀ e ∈ (visits step w as).filterMap accepted, QuietOf o e) :
    Held (run step w as).registry o intentHash cfg manifestURI := by
  refine Runs.history_induction (C := fun w a => ∀ e, accepted (w, a) = some e → QuietOf o e)
    (J := fun _ w => Held w.registry o intentHash cfg manifestURI) h ?_ as
    fun v hv e he => hquiet e (List.mem_filterMap.2 ⟨v, hv, he⟩)
  intro _ w a _ hheld hC
  rcases a with n | tx
  · exact hheld
  rcases hx : exec w tx.sender tx.call with err | w'
  · rwa [step, apply_of_error hx]
  · rw [step, apply_of_ok hx]
    exact hheld.effect (hC _ (accepted_of_ok hx)) (effect_of_exec hx)

theorem revokeIntent_succeeds (hactive : w.registry.activeIntentHash o ≠ 0) :
    ∃ w', exec w o .revokeIntent = .ok w' ∧ IntentRegistry.getActiveIntentHash w' o = 0 := by
  obtain ⟨w', hrevoke⟩ : ∃ w', exec w o .revokeIntent = .ok w' := by
    rw [exec, IntentRegistry.revokeIntent, revertIf, if_neg hactive]
    exact ⟨_, rfl⟩
  refine ⟨w', hrevoke, ?_⟩
  have heffect := effect_of_exec hrevoke
  cases heffect
  exact update_self ..

theorem Held.usable (hK : D.keccak.CollisionFree) (h : Held w.registry o intentHash cfg manifestURI)
    (hne : intentHash ≠ 0) :
    Usable w o intentHash cfg manifestURI where
  active := h.active
  stored := Prod.ext h.config h.uri
  found := by
    intro sender req howner hred
    have hrejects := (checkGuard_rejects hK (r := .NO_ACTIVE_INTENT)).1 hred
    cases hrejects with
    | active _ hzero => exact hne (h.active.symm.trans (howner ▸ hzero))
    | traceAck _ _ hack => exact checkTraceAck_ne hK (by simp) (by simp) hack
  expired_iff := by
    intro sender req howner hdelegate htoken
    have hconfig : activeConfig w req.owner = cfg := by
      rw [activeConfig, howner, h.active, h.config]
    have hrejects : GuardedExecutor._checkGuard w sender req =
        .ok (.RED, Reason.INTENT_EXPIRED.code D.keccak) ↔
        Rejects w sender req .INTENT_EXPIRED := checkGuard_rejects hK
    refine hrejects.trans ?_
    constructor
    · intro hred
      cases hred with
      | expired _ _ hexpiry => rwa [hconfig] at hexpiry
      | traceAck _ _ hack => exact absurd hack (checkTraceAck_ne hK (by simp) (by simp))
    · intro hexpiry
      refine .expired ⟨howner ▸ hdelegate, htoken⟩ ?_ (hconfig ▸ hexpiry)
      rw [howner, h.active]
      exact hne
  revocable := revokeIntent_succeeds (h.active ▸ hne)

/-- After a commit, until the owner's next commit or revocation and whatever anybody else does, the
intent is usable and revocable exactly when its hash is not zero. -/
theorem committed_usable_iff (hK : D.keccak.CollisionFree) {w₁ : World D} {tx : Tx D}
    (hcall : tx.call = .commitIntent intentHash cfg manifestURI)
    (hok : exec w tx.sender tx.call = .ok w₁) (as : List (Action D))
    (hquiet : ∀ e ∈ (visits step w₁ as).filterMap accepted, QuietOf tx.sender e) :
    Usable (run step w₁ as) tx.sender intentHash cfg manifestURI ↔ intentHash ≠ 0 := by
  have hcommit := effect_of_exec hok
  rw [hcall] at hcommit
  have hheld := (held_of_commit hcommit).run as hquiet
  constructor
  · intro h hzero
    obtain ⟨w', hrevoke, -⟩ := h.revocable
    have heffect := effect_of_exec hrevoke
    cases heffect with
    | revokeIntent hactive => exact hactive (hheld.active.trans hzero)
  · exact hheld.usable hK

namespace Localnet

/-- Alice commits under `intentHash`; then the delegate commits for itself, and twenty days pass. -/
def aliceCommits (intentHash : Bytes32) : Tx localnet :=
  ⟨alice, .commitIntent intentHash config [], by decide, by decide⟩

def afterCommit (intentHash : Bytes32) : World localnet :=
  step (init genesis) (.send (aliceCommits intentHash))

def others : List (Action localnet) :=
  [send delegate (.commitIntent 78 { config with owner := delegate } []) delegate_external,
    .elapse (20 * days1)]

end Localnet

open Localnet in
/-- Hash zero: alice's commit succeeds, and she cannot revoke it. -/
theorem zero_commit_lost :
    ¬ ∀ (D : Deployment) (g : Genesis D) (w w₁ : World D), D.keccak.CollisionFree → Reachable g w →
      ∀ (tx : Tx D) (intentHash : Bytes32) (cfg : IntentConfig) (manifestURI : Bytes),
        tx.call = .commitIntent intentHash cfg manifestURI → exec w tx.sender tx.call = .ok w₁ →
          ∀ as : List (Action D),
            (∀ e ∈ (visits step w₁ as).filterMap accepted, QuietOf tx.sender e) →
            Usable (run step w₁ as) tx.sender intentHash cfg manifestURI := by
  intro h
  have husable :=
    h localnet genesis (init genesis) (afterCommit 0) Keccak.numbering_collisionFree (.refl _)
    (aliceCommits 0) 0 config [] rfl rfl [] (by simp)
  obtain ⟨w', hrevoke, -⟩ := husable.revocable
  have heffect := effect_of_exec hrevoke
  cases heffect with
  | revokeIntent hactive => exact hactive rfl

open Localnet in
/-- The theorem at alice's commit of hash 77. -/
theorem committed_usable_iff_alice :
    Usable (run step (afterCommit 77) others) alice 77 config [] ↔ (77 : Bytes32) ≠ 0 := by
  have hcall : (aliceCommits 77).call = .commitIntent 77 config [] := rfl
  have hok : exec (init genesis) (aliceCommits 77).sender (aliceCommits 77).call =
      .ok (afterCommit 77) := rfl
  refine committed_usable_iff Keccak.numbering_collisionFree hcall hok others ?_
  have hsender : ∀ e ∈ (visits step (afterCommit 77) others).filterMap accepted,
      e.2.sender ≠ alice := by decide +kernel
  intro e he
  exact ⟨fun hcommit => hsender e he hcommit.1, fun hrevoke => hsender e he hrevoke.1⟩

end IntentGuard
