import IntentGuard.Contracts.CommittedIntents

/-!
# The next nonce

`resolveNextIntentNonce` of `scripts/bootstrap-agent.ts`. The registry does not show an owner's last
nonce, so the script takes it from the config of the active intent, and begins at 1 when there is
none. `NonceInv` says what the shown part of the registry knows of the last nonce: the active config
has it, and it is 0 for an owner without a commit. A revocation leaves the nonce and hides the
config, so the script begins at 1 again.

`next_nonce_iff`: the nonce is above the last one exactly when the owner has an active intent or has
never committed.
-/

namespace IntentGuard

open Function Runs

variable {D : Deployment} {g : Genesis D} {w w' : World D} {o : Address}

/-- The two reads are of the blocks that are latest when they are made. -/
def resolveNextIntentNonce (first second : World D) (owner : Address) : ℕ :=
  let activeIntentHash := IntentRegistry.getActiveIntentHash first owner
  if activeIntentHash = 0 then 1 else (IntentRegistry.getIntent second activeIntentHash).1.nonce + 1

/-- The nonce is above the owner's last one, and at `w'` the owner's commit is not refused for
it. -/
def GoodNonce (w w' : World D) (o : Address) (nonce : ℕ) : Prop :=
  w.registry.lastNonce o < nonce ∧
    ∀ intentHash cfg manifestURI, cfg.nonce = nonce →
      IntentRegistry.commitIntent w' o intentHash cfg manifestURI ≠
        .error .NonceNotStrictlyIncreasing

/-! ### What the registry shows of the last nonce -/

structure NonceInv (cs : List Commit) (s : IntentRegistry.State) : Prop where
  positive : ∀ c ∈ cs, 0 < c.cfg.nonce
  start : ∀ o, (∀ c ∈ cs, c.owner ≠ o) → s.lastNonce o = 0
  active : ∀ o, s.activeIntentHash o ≠ 0 →
    (s.intentConfig (s.activeIntentHash o)).nonce = s.lastNonce o

namespace NonceInv
variable {cs : List Commit} {s : IntentRegistry.State}

theorem commit (hI : NonceInv cs s) (hregistry : RegistryInv D cs s) (c : Commit)
    (hnonce : s.lastNonce c.owner < c.cfg.nonce) (hfresh : s.intentExists c.intentHash = false) :
    NonceInv (cs ++ [c])
      { activeIntentHash := update s.activeIntentHash c.owner c.intentHash
        lastNonce := update s.lastNonce c.owner c.cfg.nonce
        intentConfig := update s.intentConfig c.intentHash c.cfg
        manifestURI := update s.manifestURI c.intentHash c.manifestURI
        intentExists := update s.intentExists c.intentHash true } := by
  refine ⟨?_, ?_, ?_⟩
  · intro c' hc'
    rcases List.mem_append.1 hc' with hc' | hc'
    · exact hI.positive c' hc'
    · obtain rfl := List.mem_singleton.1 hc'
      exact Nat.zero_lt_of_lt hnonce
  · intro o ho
    have hother : o ≠ c.owner :=
      fun heq => ho c (List.mem_append_right _ (List.mem_singleton_self c)) heq.symm
    dsimp only
    rw [update_of_ne hother]
    exact hI.start o fun c' hc' => ho c' (List.mem_append_left _ hc')
  · intro o ho
    dsimp only at ho ⊢
    by_cases heq : o = c.owner
    · subst heq
      rw [update_self, update_self, update_self]
    · rw [update_of_ne heq] at ho
      rw [update_of_ne heq, update_of_ne heq]
      -- the active hash is a committed one, so the new commit does not write under it
      obtain ⟨c', hc', -, hhash⟩ := hregistry.active o ho
      have hne : s.activeIntentHash o ≠ c.intentHash := by
        intro hsame
        have htaken := (hregistry.exists_iff c.intentHash).2 ⟨c', hc', hhash.trans hsame⟩
        exact absurd (hfresh.symm.trans htaken) Bool.false_ne_true
      rw [update_of_ne hne]
      exact hI.active o ho

theorem revoke (hI : NonceInv cs s) (o : Address) :
    NonceInv cs { s with activeIntentHash := update s.activeIntentHash o 0 } where
  positive := hI.positive
  start := hI.start
  active := by
    intro o' ho'
    dsimp only at ho' ⊢
    by_cases heq : o' = o
    · subst heq
      exact absurd (update_self ..) ho'
    · rw [update_of_ne heq] at ho' ⊢
      exact hI.active o' ho'

end NonceInv

theorem nonceInv (g : Genesis D) (as : List (Action D)) :
    NonceInv (commits (history g as)) (run step (init g) as).registry := by
  refine (history_induction (C := fun _ _ => True)
    (J := fun h w => RegistryInv D (commits h) w.registry ∧ NonceInv (commits h) w.registry)
    ⟨.start, ⟨by simp [commits], fun _ _ => rfl, by simp [init]⟩⟩ (fun _ _ _ hI => hI) ?_ as
      fun _ _ => trivial).2
  intro h w w' tx _ hI _ hx
  obtain ⟨hregistry, hnonces⟩ := hI
  have heffect := effect_of_exec hx
  refine ⟨registryInv_of_effect hregistry heffect, ?_⟩
  obtain ⟨sender, call, hne, hext⟩ := tx
  cases heffect with
  | @commitIntent intentHash cfg manifestURI _ _ _ _ hnonce hfresh =>
    rw [commits_concat_of_some (c := ⟨sender, intentHash, cfg, manifestURI⟩) rfl]
    exact hnonces.commit hregistry ⟨sender, intentHash, cfg, manifestURI⟩ hnonce hfresh
  | revokeIntent =>
    rw [commits_concat_of_none rfl]
    exact hnonces.revoke sender
  | _ =>
    rw [commits_concat_of_none rfl]
    exact hnonces

/-- An owner's last nonce is 0 exactly before its first commit. -/
theorem lastNonce_eq_zero_iff (g : Genesis D) (as : List (Action D)) :
    (run step (init g) as).registry.lastNonce o = 0 ↔ ∀ c ∈ commits (history g as),
      c.owner ≠ o := by
  constructor
  · rintro hzero c hc rfl
    have hpositive := (nonceInv g as).positive c hc
    have hle := (registryInv g as).nonce_le c hc
    omega
  · exact (nonceInv g as).start o

/-! ### While the owner is quiet -/

/-- What the nonce is read from, and what it is compared with. -/
structure SameNonce (o : Address) (w w' : World D) : Prop where
  lastNonce : w'.registry.lastNonce o = w.registry.lastNonce o
  config : ∀ h, w.registry.intentExists h = true →
    w'.registry.intentConfig h = w.registry.intentConfig h
  taken : ∀ h, w.registry.intentExists h = true → w'.registry.intentExists h = true

theorem SameNonce.trans {w w' w'' : World D} (h : SameNonce o w w') (h' : SameNonce o w' w'') :
    SameNonce o w w'' where
  lastNonce := h'.lastNonce.trans h.lastNonce
  config intentHash htaken :=
  (h'.config intentHash (h.taken intentHash htaken)).trans (h.config intentHash htaken)
  taken intentHash htaken := h'.taken intentHash (h.taken intentHash htaken)

theorem SameNonce.effect {tx : Tx D} (hquiet : QuietOf o (w, tx))
    (he : Effect w tx.sender tx.call w') :
    SameNonce o w w' := by
  obtain ⟨sender, call, hne, hext⟩ := tx
  cases he with
  | @commitIntent intentHash _ _ _ _ _ _ _ hfresh =>
    have hsender : o ≠ sender := fun heq => hquiet.1 ⟨heq.symm, _, _, _, rfl⟩
    have hother : ∀ h, w.registry.intentExists h = true → h ≠ intentHash := by
      rintro h htaken rfl
      exact absurd (hfresh.symm.trans htaken) Bool.false_ne_true
    refine ⟨update_of_ne hsender .., ?_, ?_⟩
    · intro h htaken
      exact update_of_ne (hother h htaken) ..
    · intro h htaken
      exact (update_of_ne (hother h htaken) ..).trans htaken
  | _ => exact ⟨rfl, fun _ _ => rfl, fun _ htaken => htaken⟩

theorem sameNonce_run (as : List (Action D))
    (hquiet : ∀ e ∈ (visits step w as).filterMap accepted, QuietOf o e) :
    SameNonce o w (run step w as) := by
  refine Runs.history_induction (C := fun w a => ∀ e, accepted (w, a) = some e → QuietOf o e)
    (J := fun _ w' => SameNonce o w w') ⟨rfl, fun _ _ => rfl, fun _ htaken => htaken⟩ ?_ as
    fun v hv e he => hquiet e (List.mem_filterMap.2 ⟨v, hv, he⟩)
  intro _ w' a _ hsame hC
  rcases a with n | tx
  · exact ⟨hsame.lastNonce, hsame.config, hsame.taken⟩
  rcases hx : exec w' tx.sender tx.call with err | w''
  · rwa [step, apply_of_error hx]
  · rw [step, apply_of_ok hx]
    exact hsame.trans (.effect (hC _ (accepted_of_ok hx)) (effect_of_exec hx))

/-! ### The script's nonce -/

theorem commitIntent_ne_nonce_error {cfg : IntentConfig}
    (hnonce : w.registry.lastNonce o < cfg.nonce) (intentHash : Bytes32) (manifestURI : Bytes) :
    IntentRegistry.commitIntent w o intentHash cfg manifestURI ≠
      .error .NonceNotStrictlyIncreasing := by
  intro h
  unfold IntentRegistry.commitIntent revertIf at h
  simp only [bind, Except.bind, Nat.not_le.2 hnonce, if_false] at h
  split_ifs at h <;> simp [pure, Except.pure] at h

/-- Whatever others do between the reads and before the commit. -/
theorem next_nonce_iff (g : Genesis D) (as bs cs : List (Action D)) (o : Address)
    (hreads : ∀ e ∈ (visits step (run step (init g) as) bs).filterMap accepted, QuietOf o e)
    (hcommit : ∀ e ∈ (visits step (run step (init g) (as ++ bs)) cs).filterMap accepted,
      QuietOf o e) :
    GoodNonce (run step (init g) (as ++ bs)) (run step (init g) (as ++ bs ++ cs)) o
        (resolveNextIntentNonce (run step (init g) as) (run step (init g) (as ++ bs)) o) ↔
      (run step (init g) as).registry.activeIntentHash o ≠ 0 ∨ ∀ c ∈ commits (history g as),
        c.owner ≠ o := by
  have hbs := sameNonce_run bs hreads
  have hcs := sameNonce_run cs hcommit
  rw [← run_append] at hbs hcs
  have hlast := hcs.lastNonce.trans hbs.lastNonce
  have habove : GoodNonce (run step (init g) (as ++ bs)) (run step (init g) (as ++ bs ++ cs)) o
        (resolveNextIntentNonce (run step (init g) as) (run step (init g) (as ++ bs)) o) ↔
      (run step (init g) as).registry.lastNonce o <
        resolveNextIntentNonce (run step (init g) as) (run step (init g) (as ++ bs)) o := by
    rw [← hbs.lastNonce]
    constructor
    · exact And.left
    · intro hlt
      refine ⟨hlt, ?_⟩
      intro intentHash cfg manifestURI hnonce
      apply commitIntent_ne_nonce_error
      rwa [hnonce, hcs.lastNonce]
  rw [habove, ← lastNonce_eq_zero_iff]
  unfold resolveNextIntentNonce IntentRegistry.getActiveIntentHash IntentRegistry.getIntent
  dsimp only
  by_cases hactive : (run step (init g) as).registry.activeIntentHash o = 0
  · rw [if_pos hactive, Nat.lt_one_iff]
    simp only [hactive, ne_eq, not_true_eq_false, false_or]
  · obtain ⟨c, hc, -, hhash⟩ := (registryInv g as).active o hactive
    have htaken := ((registryInv g as).exists_iff _).2 ⟨c, hc, hhash⟩
    rw [if_neg hactive, hbs.config _ htaken, (nonceInv g as).active o hactive]
    exact iff_of_true (Nat.lt_succ_self _) (.inl hactive)

namespace Localnet

/-- Alice commits and revokes. -/
def revoked : List (Action localnet) :=
  [send alice (.commitIntent 77 config []) alice_external, send alice .revokeIntent alice_external]

end Localnet

open Localnet in
/-- After a revocation the script begins at 1 again, and alice's commit is refused. -/
theorem revoked_nonce_refused :
    ¬ ∀ (D : Deployment) (g : Genesis D) (as : List (Action D)) (o : Address),
      GoodNonce (run step (init g) as) (run step (init g) as) o
        (resolveNextIntentNonce (run step (init g) as) (run step (init g) as) o) := by
  intro h
  have hlast : (run step (init genesis) revoked).registry.lastNonce alice = 1 := by decide +kernel
  have hnonce : resolveNextIntentNonce (run step (init genesis) revoked)
      (run step (init genesis) revoked) alice = 1 := by
    decide +kernel
  have hgood := (h localnet genesis revoked alice).1
  rw [hlast, hnonce] at hgood
  exact absurd hgood (lt_irrefl 1)

open Localnet in
/-- After a commit that is still active, with another account's commit between the reads and the
commit. -/
theorem next_nonce_iff_committed :
    GoodNonce (run step (init genesis) ([send alice (.commitIntent 77 config [])] ++ []))
      (run step (init genesis) ([send alice (.commitIntent 77 config [])] ++ [] ++ others)) alice
      (resolveNextIntentNonce (run step (init genesis) [send alice (.commitIntent 77 config [])])
        (run step (init genesis) ([send alice (.commitIntent 77 config [])] ++ [])) alice) := by
  refine (next_nonce_iff genesis [send alice (.commitIntent 77 config [])] [] others alice
    (by simp) ?_).2 (.inl ?_)
  · have hsender :
        ∀ e ∈ (visits step
          (run step (init genesis) ([send alice (.commitIntent 77 config [])] ++ []))
        others).filterMap accepted, e.2.sender ≠ alice := by decide +kernel
    intro e he
    exact ⟨fun hcommit => hsender e he hcommit.1, fun hrevoke => hsender e he hrevoke.1⟩
  · decide +kernel

end IntentGuard
