import IntentGuard.Contracts.Solvency

/-!
# Owner control

Who can spend an owner's USDC through the executor, and who can change what the system keeps for an
owner.

* `delegates_eq`: a delegation is what its owner's last `setAgentDelegate` for it said.
* `debit_of_effect`: a balance that falls falls in a guarded execution, in which the sender is a
  delegate, or in one of four transactions that never reach the executor (`OtherDebit`).
* `frame_of_effect`: a sender that is neither the owner nor the executing delegate changes nothing
  of the owner's. Commits and revocations write under their sender, an execution under the request's
  owner.
* `active_eq_zero_of_revoked`: a revocation leaves the owner without an active intent until its next
  commit, and the guard refuses that.
-/

namespace IntentGuard

open Function Runs

variable {D : Deployment} {g : Genesis D} {w w' : World D} {sender : Address} {call : Call}

/-! ### Approvals -/

/-- What a transaction says about `o`'s delegate `d` for `agentId`. -/
def approvalOf (o : Address) (agentId : Bytes32) (d : Address) (e : World D × Tx D) : Option Bool :=
  match e.2.call with
  | .setAgentDelegate a delegate approved =>
    if e.2.sender = o ∧ a = agentId ∧ delegate = d then some approved else none
  | _ => none

/-- What `o` last said about it, if anything. -/
def lastApproval (o : Address) (agentId : Bytes32) (d : Address) (h : List (World D × Tx D)) :
    Option Bool :=
  (h.filterMap (approvalOf o agentId d)).getLast?

theorem lastApproval_concat (o : Address) (agentId : Bytes32) (d : Address)
    (h : List (World D × Tx D)) (e : World D × Tx D) :
    lastApproval o agentId d (h ++ [e]) =
      (approvalOf o agentId d e).or (lastApproval o agentId d h) := by
  simp only [lastApproval, List.filterMap_append, List.filterMap_cons, List.filterMap_nil]
  cases approvalOf o agentId d e with
  | none => simp
  | some b => simp

theorem delegates_after {tx : Tx D} (h : Effect w tx.sender tx.call w') (o : Address)
    (agentId : Bytes32) (d : Address) :
    w'.executor.delegates o agentId d =
      (approvalOf o agentId d (w, tx)).getD (w.executor.delegates o agentId d) := by
  obtain ⟨sender, call, hne, hext⟩ := tx
  cases h with
  | @setAgentDelegate a delegate approved =>
    simp only [GuardedExecutor.setAgentDelegate, World.emit, approvalOf]
    by_cases ho : sender = o
    · subst ho
      by_cases ha : a = agentId
      · subst ha
        by_cases hd : delegate = d
        · subst hd
          simp
        · simp [hd, Ne.symm hd]
      · simp [ha, Ne.symm ha]
    · simp [ho, Ne.symm ho]
  | _ => rfl

theorem delegates_eq (g : Genesis D) (as : List (Action D)) (o : Address) (agentId : Bytes32)
    (d : Address) :
    (run step (init g) as).executor.delegates o agentId d =
      (lastApproval o agentId d (history g as)).getD false := by
  refine history_induction (C := fun _ _ => True)
    (J := fun h w => w.executor.delegates o agentId d = (lastApproval o agentId d h).getD false) rfl
    (fun _ _ _ hJ => hJ) ?_ as fun _ _ => trivial
  intro h w w' tx hr hJ _ hx
  rw [lastApproval_concat, delegates_after (effect_of_exec hx), hJ]
  cases approvalOf o agentId d (w, tx) <;> rfl

theorem delegates_eq_true (g : Genesis D) (as : List (Action D)) {o : Address} {agentId : Bytes32}
    {d : Address} :
    (run step (init g) as).executor.delegates o agentId d = true ↔
      lastApproval o agentId d (history g as) = some true := by
  rw [delegates_eq]
  cases lastApproval o agentId d (history g as) with
  | none => simp
  | some b => simp

/-! ### Debits -/

/-- The transactions other than executions that can lower the balance of `o`: `o`'s own stake or
transfer, a transfer by a spender that `o` approved at the token, and, for the vault, a slash. -/
inductive OtherDebit (w : World D) (o : Address) (sender : Address) : Call → Prop
  | stake {agentId amount} (h : sender = o) : OtherDebit w o sender (.stake agentId amount)
  | transfer {dst value} (h : sender = o) : OtherDebit w o sender (.usdcTransfer dst value)
  | transferFrom {dst value} : OtherDebit w o sender (.usdcTransferFrom o dst value)
  | slash {call : Call} {receiptId} (ho : o = D.stakeVault)
      (h : onAccountOf w call = some receiptId) :
      OtherDebit w o sender call

theorem moved_of_lt {bal bal' : Address → ℕ} {src dst o : Address} {v : ℕ} (hv : v ≤ bal src)
    (heq : bal' = moveBalance bal src dst v) (hlt : bal' o < bal o) :
    o = src ∧ bal' o + v = bal o ∧ bal' dst = bal dst + v := by
  subst heq
  obtain ⟨rfl, hne, hsub⟩ := moveBalance.of_lt hv hlt
  exact ⟨rfl, hsub, moveBalance.at_dst (Ne.symm hne)⟩

theorem debit_of_effect (hr : Reachable g w) (hne : sender ≠ 0) (hext : sender ∉ D.contracts)
    (h : Effect w sender call w') {o : Address} (hlt : w'.balanceOf o < w.balanceOf o) :
    (∃ req, call = .executeWithGuard req ∧ GuardPasses w sender req ∧ req.owner = o ∧
      w'.balanceOf o + req.amount = w.balanceOf o ∧
      w'.balanceOf req.target = w.balanceOf req.target + req.amount) ∨
      OtherDebit w o sender call := by
  have hpull : ∀ {sp src dst v u}, sp ≠ 0 → D.token.transferFrom w.usdc sp src dst v = some u →
      D.token.balanceOf u o < w.balanceOf o → o = src ∧ D.token.balanceOf u o + v = w.balanceOf o ∧
        D.token.balanceOf u dst = w.balanceOf dst + v := fun hsp hu hlt =>
    moved_of_lt (D.token.transferFrom_bounds hsp hu).2.1 (D.token.balanceOf_transferFrom hu) hlt
  have hpush : ∀ {src dst v u}, src ≠ 0 → D.token.transfer w.usdc src dst v = some u →
      D.token.balanceOf u o < w.balanceOf o → o = src := fun hsrc hu hlt =>
    (moved_of_lt (D.token.transfer_bounds hsrc hu).2 (D.token.balanceOf_transfer hu) hlt).1
  cases h with
  | stake _ _ _ _ hu => exact Or.inr (.stake (hpull D.stakeVault_ne_zero hu hlt).1.symm)
  | deposit hs => exact absurd hs ((basics hr).not_agentRegistry hext)
  | slash hs => exact absurd hs ((basics hr).not_challengeArbiter hext)
  | @executeWithGuard req u hguard hpay =>
    obtain ⟨rfl, hsub, hadd⟩ := hpull D.guardedExecutor_ne_zero hpay hlt
    exact Or.inl ⟨req, rfl, hguard, rfl, hsub, hadd⟩
  | fileAmountViolation _ _ hbond hpay hrefund =>
    refine Or.inr (.slash ?_ rfl)
    have hbal := balanceOf_filed (receipt_owner_external hr _) hext hbond hpay hrefund
    exact (moved_of_lt (violationPayout_le hr _) hbal hlt).1
  | uphold _ _ _ _ _ hu => exact Or.inr (.slash (hpush D.stakeVault_ne_zero hu hlt) rfl)
  | usdcTransfer hu => exact Or.inr (.transfer (hpush hne hu hlt).symm)
  | usdcTransferFrom hu =>
    obtain ⟨rfl, -, -⟩ := hpull hne hu hlt
    exact Or.inr .transferFrom
  | usdcApprove hu =>
    rw [World.balanceOf, D.token.balanceOf_approve hu] at hlt
    exact absurd hlt (lt_irrefl _)
  | usdcMint hu => exact absurd hlt (Nat.not_lt.2 (D.token.balanceOf_le_mint hu o))
  | _ => exact absurd hlt (lt_irrefl _)

/-! ### The frame of an owner -/

/-- What the system keeps for an owner: its delegations, its active intent and last nonce, its daily
totals and its execution counter. -/
structure SameOwner (o : Address) (w w' : World D) : Prop where
  delegates : w'.executor.delegates o = w.executor.delegates o
  activeIntentHash : w'.registry.activeIntentHash o = w.registry.activeIntentHash o
  lastNonce : w'.registry.lastNonce o = w.registry.lastNonce o
  spentByDay : w'.executor.spentByDay o = w.executor.spentByDay o
  execNonce : w'.executor.execNonce o = w.executor.execNonce o

theorem SameOwner.refl (o : Address) (w : World D) : SameOwner o w w := ⟨rfl, rfl, rfl, rfl, rfl⟩

theorem frame_of_effect (h : Effect w sender call w') {o : Address} (hsender : sender ≠ o)
    (hexec : ∀ req, call = .executeWithGuard req → req.owner = o →
      w.executor.delegates o req.agentId sender ≠ true) : SameOwner o w w' := by
  cases h with
  | commitIntent =>
    exact ⟨rfl, update_of_ne hsender.symm .., update_of_ne hsender.symm .., rfl, rfl⟩
  | revokeIntent => exact ⟨rfl, update_of_ne hsender.symm .., rfl, rfl, rfl⟩
  | setAgentDelegate => exact ⟨update_of_ne hsender.symm .., rfl, rfl, rfl, rfl⟩
  | @executeWithGuard req u hguard =>
    have ho : o ≠ req.owner := fun heq => hexec req rfl heq.symm (heq ▸ hguard.delegate)
    exact ⟨rfl, rfl, rfl, update_of_ne ho .., update_of_ne ho ..⟩
  | _ => exact ⟨rfl, rfl, rfl, rfl, rfl⟩

/-! ### Revocation -/

def IsCommitBy (o : Address) (e : World D × Tx D) : Prop :=
  e.2.sender = o ∧ ∃ intentHash cfg manifestURI, e.2.call = .commitIntent intentHash cfg manifestURI

def IsRevokeBy (o : Address) (e : World D × Tx D) : Prop :=
  e.2.sender = o ∧ e.2.call = .revokeIntent

/-- `o` has revoked and not committed since. -/
def RevokedSince (o : Address) (h : List (World D × Tx D)) : Prop :=
  ∃ h₁ e h₂, h = h₁ ++ e :: h₂ ∧ IsRevokeBy o e ∧ ∀ e' ∈ h₂, ¬ IsCommitBy o e'

theorem RevokedSince.of_concat {o : Address} {h : List (World D × Tx D)} {e : World D × Tx D}
    (hrev : RevokedSince o (h ++ [e])) : IsRevokeBy o e ∨ RevokedSince o h ∧ ¬ IsCommitBy o e := by
  obtain ⟨h₁, e₁, h₂, heq, hr, hno⟩ := hrev
  rcases List.eq_nil_or_concat h₂ with rfl | ⟨h₂, e₂, rfl⟩
  · obtain ⟨-, hlast⟩ := List.append_inj' heq rfl
    obtain rfl := List.singleton_inj.1 hlast
    exact Or.inl hr
  · rw [List.concat_eq_append] at heq hno
    rw [← List.cons_append, ← List.append_assoc] at heq
    obtain ⟨rfl, hlast⟩ := List.append_inj' heq rfl
    obtain rfl := List.singleton_inj.1 hlast
    exact Or.inr ⟨⟨h₁, e₁, h₂, rfl, hr, fun e' he' => hno e' (List.mem_append_left _ he')⟩,
      hno e (List.mem_append_right _ (List.mem_singleton_self e))⟩

/-- Only its owner's commit gives an owner without an active intent one. -/
theorem active_of_effect (h : Effect w sender call w') {o : Address}
    (hactive : w'.registry.activeIntentHash o ≠ w.registry.activeIntentHash o) :
    sender = o ∧ (call = .revokeIntent ∨
      ∃ intentHash cfg manifestURI, call = .commitIntent intentHash cfg manifestURI) := by
  cases h with
  | commitIntent =>
    refine ⟨?_, Or.inr ⟨_, _, _, rfl⟩⟩
    by_contra hne
    exact hactive (update_of_ne (Ne.symm hne) ..)
  | revokeIntent =>
    refine ⟨?_, Or.inl rfl⟩
    by_contra hne
    exact hactive (update_of_ne (Ne.symm hne) ..)
  | _ => exact absurd rfl hactive

theorem active_eq_zero_of_revoked (g : Genesis D) (as : List (Action D)) {o : Address}
    (h : RevokedSince o (history g as)) :
    (run step (init g) as).registry.activeIntentHash o = 0 := by
  refine history_induction (C := fun _ _ => True)
    (J := fun h w => RevokedSince o h → w.registry.activeIntentHash o = 0) ?_
      (fun _ _ _ hJ => hJ) ?_ as
    (fun _ _ => trivial) h
  · intro h
    obtain ⟨h₁, e, h₂, heq, -⟩ := h
    exact absurd heq (by simp)
  intro h w w' tx hr hJ _ hx hrev
  have heff := effect_of_exec hx
  rcases hrev.of_concat with ⟨hsender, hcall⟩ | ⟨hrev, hno⟩
  · dsimp only at hsender hcall
    rw [hcall] at heff
    cases heff
    rw [hsender]
    exact update_self ..
  · by_contra hne
    rw [← hJ hrev] at hne
    obtain ⟨hsender, hcall | hcall⟩ := active_of_effect heff hne
    · rw [hcall] at heff
      cases heff
      rw [hsender] at hne
      exact hne ((update_self ..).trans (hJ hrev).symm)
    · exact hno ⟨hsender, hcall⟩

/-- An owner's balance is lowered by the executor only in an execution by a delegate it approved and
has not withdrawn, under an active and unexpired intent it committed, by the request's amount, to a
target of that intent; any other sender changes nothing the system keeps for the owner; and after a
revocation no execution for the owner succeeds until its next commit. -/
theorem owner_control (g : Genesis D) (as : List (Action D)) (o : Address) :
    (∀ (tx : Tx D) (w' : World D), exec (run step (init g) as) tx.sender tx.call = .ok w' →
      w'.balanceOf o < (run step (init g) as).balanceOf o →
        (∃ req, tx.call = .executeWithGuard req ∧ req.owner = o ∧
          lastApproval o req.agentId tx.sender (history g as) = some true ∧
          (∃ c ∈ commits (history g as), c.owner = o ∧ c.intentHash ≠ 0 ∧
            (run step (init g) as).registry.activeIntentHash o = c.intentHash ∧
            (run step (init g) as).registry.intentConfig c.intentHash = c.cfg ∧
            (run step (init g) as).now < c.cfg.expiry.toNat ∧
              req.target ∈ c.cfg.allowedCounterparties) ∧
          w'.balanceOf o + req.amount = (run step (init g) as).balanceOf o ∧
          w'.balanceOf req.target = (run step (init g) as).balanceOf req.target + req.amount) ∨
        OtherDebit (run step (init g) as) o tx.sender tx.call) ∧
    (∀ tx : Tx D, tx.sender ≠ o →
      (∀ req, tx.call = .executeWithGuard req → req.owner = o →
        lastApproval o req.agentId tx.sender (history g as) ≠ some true) →
      SameOwner o (run step (init g) as) (apply (run step (init g) as) tx)) ∧
    (RevokedSince o (history g as) → ∀ (sender : Address) (req : ExecutionRequest), req.owner = o →
      ∀ w', exec (run step (init g) as) sender (.executeWithGuard req) ≠ .ok w') := by
  have hr : Reachable g (run step (init g) as) := reachable_run _ _
  refine ⟨fun tx w' hx hlt => ?_, fun tx hsender hno => ?_, fun hrev sender req howner w' hx => ?_⟩
  · apply (debit_of_effect hr tx.sender_ne_zero tx.external (effect_of_exec hx) hlt).imp_left
    intro h
    obtain ⟨req, hcall, hg, rfl, hsub, hadd⟩ := h
    obtain ⟨c, hc, howner, hhash⟩ := (registryInv g as).active req.owner hg.active
    have hcfg := ((registryInv g as).stored c hc).1
    have hexpiry := hg.notExpired
    have htarget := hg.counterparty
    rw [← hhash, hcfg] at hexpiry htarget
    exact ⟨req, hcall, rfl, (delegates_eq_true g as).1 hg.delegate,
      ⟨c, hc, howner, hhash ▸ hg.active, hhash.symm, hcfg, hexpiry, htarget⟩, hsub, hadd⟩
  · rcases hx : exec (run step (init g) as) tx.sender tx.call with err | w'
    · rw [apply_of_error hx]
      exact .refl _ _
    · rw [apply_of_ok hx]
      exact frame_of_effect (effect_of_exec hx) hsender fun req hcall ho hd =>
        hno req hcall ho ((delegates_eq_true g as).1 hd)
  · have heff := effect_of_exec hx
    cases heff with
    | executeWithGuard hguard => exact hguard.active (howner ▸ active_eq_zero_of_revoked g as hrev)

end IntentGuard
