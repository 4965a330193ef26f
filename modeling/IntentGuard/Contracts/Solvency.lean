import IntentGuard.Contracts.Receipts

/-!
# Stakes and the vault's balance

`VaultMove` says once what a transaction does to the stakes and to the vault's balance: nothing that
lowers the balance, a deposit of one agent, or a slash on account of one receipt, which takes the
same amount from the stake and from the balance. Solvency, conservation and the size of a slash are
read off it. The vault itself never sends a token except in a slash: it approves nobody and signs
nothing, and a receipt's owner is never the vault.
-/

namespace IntentGuard

open Function Runs

variable {D : Deployment} {g : Genesis D} {w w' : World D} {sender : Address} {call : Call}

/-- The receipt on whose account a call to the arbiter slashes. -/
def onAccountOf (w : World D) : Call → Option Bytes32
  | .fileAmountViolation receiptId => some receiptId
  | .resolveByReviewer challengeId _ _ _ => some (w.arbiter.challenges challengeId).receiptId
  | _ => none

/-- The amount it asks the vault for. -/
def requested (w : World D) : Call → ℕ
  | .fileAmountViolation receiptId => (w.executor.receipts receiptId).amount
  | .resolveByReviewer _ true slashAmount _ => slashAmount
  | _ => 0

/-- The agent it slashes. -/
def slashedAgent (w : World D) (call : Call) : Option Bytes32 :=
  (onAccountOf w call).map fun receiptId => (w.executor.receipts receiptId).agentId

inductive VaultMove (w w' : World D) : Call → Prop
  | keep {call : Call} (hcall : onAccountOf w call = none)
      (hstake : ∀ agentId amount, call ≠ .stake agentId amount)
      (hkeep : w'.vault.stake = w.vault.stake)
        (hbal : w.balanceOf D.stakeVault ≤ w'.balanceOf D.stakeVault) :
      VaultMove w w' call
  | deposit {agentId amount}
      (hadd : w'.vault.stake = update w.vault.stake agentId (w.vault.stake agentId + amount))
      (hbal : w'.balanceOf D.stakeVault = w.balanceOf D.stakeVault + amount) :
      VaultMove w w' (.stake agentId amount)
  | slash {call : Call} {receiptId agentId paid} (hcall : onAccountOf w call = some receiptId)
      (hagent : (w.executor.receipts receiptId).agentId = agentId)
      (hpaid : min (requested w call) (w.vault.stake agentId) = paid)
      (hsub : w'.vault.stake = update w.vault.stake agentId (w.vault.stake agentId - paid))
      (hbal : w'.balanceOf D.stakeVault + paid = w.balanceOf D.stakeVault) : VaultMove w w' call

theorem balanceOf_pull {u u' : D.token.State} {sp src dst : Address} {v : ℕ}
    (hu : D.token.transferFrom u sp src dst v = some u') {a : Address} (ha : a ≠ src) :
    D.token.balanceOf u a ≤ D.token.balanceOf u' a := by
  rw [D.token.balanceOf_transferFrom hu]
  exact moveBalance.le_of_ne_src ha

/-- What the vault pays, its balance loses. -/
theorem balanceOf_payment {u u' : D.token.State} {dst : Address} {v : ℕ} (hdst : D.stakeVault ≠ dst)
    (hu : D.token.transfer u D.stakeVault dst v = some u') :
    D.token.balanceOf u' D.stakeVault + v = D.token.balanceOf u D.stakeVault := by
  have hv := (D.token.transfer_bounds D.stakeVault_ne_zero hu).2
  rw [D.token.balanceOf_transfer hu, moveBalance.at_src hdst]
  omega

/-- The bond of `fileAmountViolation` comes back, so the balances differ by the payout only. -/
theorem balanceOf_filed {u u₁ u₂ u₃ : D.token.State} {o : Address} {bond paid : ℕ}
    (ho : o ∉ D.contracts) (hext : sender ∉ D.contracts)
    (hbond : D.token.transferFrom u D.challengeArbiter sender D.challengeArbiter bond = some u₁)
    (hpay : D.token.transfer u₁ D.stakeVault o paid = some u₂)
    (hrefund : D.token.transfer u₂ D.challengeArbiter sender bond = some u₃) :
    D.token.balanceOf u₃ = moveBalance (D.token.balanceOf u) D.stakeVault o paid := by
  have hle := (D.token.transferFrom_bounds D.challengeArbiter_ne_zero hbond).2.1
  rw [D.token.balanceOf_transfer hrefund, D.token.balanceOf_transfer hpay,
    D.token.balanceOf_transferFrom hbond]
  exact moveBalance.bonded hle (fun h => hext (h ▸ D.challengeArbiter_mem))
    (fun h => hext (h ▸ D.stakeVault_mem))
    D.stakeVault_ne_challengeArbiter.symm (fun h => ho (h ▸ D.challengeArbiter_mem))
    (fun h => ho (h ▸ D.stakeVault_mem))

theorem vaultMove (hr : Reachable g w) (hne : sender ≠ 0) (hext : sender ∉ D.contracts)
    (h : Effect w sender call w') : VaultMove w w' call := by
  have hI := basics hr
  have hsender : D.stakeVault ≠ sender := fun heq => hext (heq ▸ D.stakeVault_mem)
  have howner : ∀ id, D.stakeVault ≠ (w.executor.receipts id).owner := fun id heq =>
    receipt_owner_external hr id (heq ▸ D.stakeVault_mem)
  cases h with
  | stake _ _ _ _ hpull =>
    apply VaultMove.deposit rfl
    rw [World.balanceOf, D.token.balanceOf_transferFrom hpull]
    exact moveBalance.at_dst hsender.symm
  | setWiring _ hunset => exact absurd hunset hI.wired
  | deposit hs => exact absurd hs (hI.not_agentRegistry hext)
  | slash hs => exact absurd hs (hI.not_challengeArbiter hext)
  | executeWithGuard hg hpay =>
    have hne := (hI.owner_external _ _ _ hg.delegate).2
    exact .keep rfl (by simp) rfl (balanceOf_pull hpay fun heq => hne (heq ▸ D.stakeVault_mem))
  | @fileAmountViolation receiptId u₁ _ _ hok _ hbond hpay hrefund =>
    apply VaultMove.slash rfl rfl rfl rfl
    have hv := (D.token.transfer_bounds D.stakeVault_ne_zero hpay).2
    have hu₁ : D.token.balanceOf u₁ D.stakeVault = w.balanceOf D.stakeVault := by
      rw [D.token.balanceOf_transferFrom hbond]
      exact moveBalance.at_other hsender D.stakeVault_ne_challengeArbiter
    rw [hu₁] at hv
    rw [World.balanceOf, filed,
      balanceOf_filed (receipt_owner_external hr _) hext hbond hpay hrefund,
        moveBalance.at_src (howner receiptId)]
    exact Nat.sub_add_cancel hv
  | dismiss =>
    refine .slash rfl rfl rfl ?_ rfl
    simp [requested]
  | uphold _ hr' _ _ _ hpay =>
    subst hr'
    exact .slash rfl rfl rfl rfl (balanceOf_payment (howner _) hpay)
  | usdcTransfer hu =>
    refine .keep rfl (by simp) rfl ?_
    simp only [World.balanceOf, D.token.balanceOf_transfer hu]
    exact moveBalance.le_of_ne_src hsender
  | @usdcTransferFrom src dst value u hu =>
    refine .keep rfl (by simp) rfl ?_
    by_cases hsrc : D.stakeVault = src
    · subst hsrc
      have hzero := hI.approves_nobody _ D.stakeVault_mem sender
      rw [World.balanceOf, World.balanceOf, D.token.balanceOf_transferFrom_unapproved hne hu hzero]
    · exact balanceOf_pull hu hsrc
  | usdcApprove hu =>
    refine .keep rfl (by simp) rfl ?_
    rw [World.balanceOf, World.balanceOf, D.token.balanceOf_approve hu]
  | usdcMint hu =>
    refine .keep rfl (by simp) rfl ?_
    exact D.token.balanceOf_le_mint hu _
  | _ => exact .keep rfl (by simp) rfl le_rfl

/-! ### Solvency -/

theorem solvent (hr : Reachable g w) :
    (support w.vault.stake).Finite ∧ ∑ᶠ agentId,
    w.vault.stake agentId ≤ w.balanceOf D.stakeVault := by
  refine hr.invariant
    (I := fun w => (support w.vault.stake).Finite ∧ ∑ᶠ a,
      w.vault.stake a ≤ w.balanceOf D.stakeVault) ?_
    (fun _ _ hI => hI) ?_
  · have hzero : (init g).vault.stake = fun _ => 0 := rfl
    rw [hzero, finsum_zero]
    exact ⟨by simp, Nat.zero_le _⟩
  rintro w w' tx hr ⟨hfin, hsum⟩ h
  have hm := vaultMove hr tx.sender_ne_zero tx.external h
  generalize tx.call = call at hm
  cases hm with
  | keep _ _ hkeep hbal =>
    rw [hkeep]
    exact ⟨hfin, hsum.trans hbal⟩
  | @deposit agentId amount hadd hbal =>
    rw [hadd, hbal]
    have hupdate := FiniteSum.finsum_update _ hfin agentId (w.vault.stake agentId + amount)
    exact ⟨FiniteSum.support_update_finite hfin _ _, by omega⟩
  | @slash _ receiptId agentId paid _ _ hpaid hsub hbal =>
    rw [hsub]
    have hupdate := FiniteSum.finsum_update _ hfin agentId (w.vault.stake agentId - paid)
    exact ⟨FiniteSum.support_update_finite hfin _ _, by omega⟩

/-- The vault can pay any agent's stake. -/
theorem stake_le_balance (hr : Reachable g w) (agentId : Bytes32) :
    w.vault.stake agentId ≤ w.balanceOf D.stakeVault :=
  (FiniteSum.le_finsum _ (solvent hr).1 agentId).trans (solvent hr).2

theorem violationPayout_le (hr : Reachable g w) (receiptId : Bytes32) :
    violationPayout w receiptId ≤ w.balanceOf D.stakeVault :=
  (Nat.min_le_right _ _).trans (stake_le_balance hr _)

/-! ### Conservation -/

/-- What a transaction deposits for an agent. -/
def depositOf (agentId : Bytes32) (e : World D × Tx D) : ℕ :=
  match e.2.call with
  | .stake a amount => if a = agentId then amount else 0
  | _ => 0

/-- What the vault's balance loses in a transaction. -/
def vaultPaid (e : World D × Tx D) : ℕ :=
  e.1.balanceOf D.stakeVault - (apply e.1 e.2).balanceOf D.stakeVault

/-- What a transaction slashes an agent by. -/
def slashOf (agentId : Bytes32) (e : World D × Tx D) : ℕ :=
  if slashedAgent e.1 e.2.call = some agentId then vaultPaid e else 0

/-- The total deposited for an agent through `AgentRegistry.stake`. -/
def deposited (agentId : Bytes32) (h : List (World D × Tx D)) : ℕ := (h.map (depositOf agentId)).sum

/-- The total the vault paid out in slashes of an agent. -/
def slashedOut (agentId : Bytes32) (h : List (World D × Tx D)) : ℕ := (h.map (slashOf agentId)).sum

theorem sum_concat {α : Type} (f : α → ℕ) (l : List α) (a : α) :
    ((l ++ [a]).map f).sum = (l.map f).sum + f a := by
  rw [List.map_append, List.sum_append, List.map_singleton, List.sum_singleton]

/-- One transaction: the stake after it and what was slashed are the stake before it and what was
deposited. -/
theorem stake_of_move {tx : Tx D} (hx : exec w tx.sender tx.call = .ok w')
    (hm : VaultMove w w' tx.call) (agentId : Bytes32) :
    w'.vault.stake agentId + slashOf agentId (w, tx) = w.vault.stake agentId +
    depositOf agentId (w, tx) := by
  have hpaid : vaultPaid (w, tx) = w.balanceOf D.stakeVault - w'.balanceOf D.stakeVault := by
    rw [vaultPaid, apply_of_ok hx]
  obtain ⟨sender, call, hne, hext⟩ := tx
  cases hm with
  | keep hcall hstake hkeep hbal =>
    have hd : depositOf agentId (w, ⟨sender, call, hne, hext⟩) = 0 := by
      unfold depositOf
      split
      · next a amount h => exact absurd h (hstake a amount)
      · rfl
    have hs : slashOf agentId (w, ⟨sender, call, hne, hext⟩) = 0 := by
      simp [slashOf, slashedAgent, hcall]
    rw [hd, hs, hkeep]
  | @deposit a amount hadd hbal =>
    have hs : slashOf agentId (w, ⟨sender, .stake a amount, hne, hext⟩) = 0 := by
      simp [slashOf, slashedAgent, onAccountOf]
    rw [hs, hadd, depositOf]
    by_cases ha : a = agentId
    · subst ha
      simp
    · simp [ha, Ne.symm ha]
  | @slash _ receiptId a paid hcall hagent hmin hsub hbal =>
    have hd : depositOf agentId (w, ⟨sender, call, hne, hext⟩) = 0 := by
      unfold depositOf
      split
      · next b amount h =>
        dsimp only at h
        rw [h] at hcall
        exact absurd hcall (by simp [onAccountOf])
      · rfl
    have hle : paid ≤ w.vault.stake a := hmin ▸ Nat.min_le_right _ _
    have hslashed : slashedAgent w call = some a := by
      rw [slashedAgent, hcall, Option.map_some, hagent]
    rw [hd, slashOf, hslashed, hpaid, hsub]
    by_cases ha : a = agentId
    · subst ha
      rw [update_self, if_pos rfl]
      omega
    · rw [update_of_ne (Ne.symm ha), if_neg fun h => ha (Option.some.inj h)]

theorem stake_conserved (g : Genesis D) (as : List (Action D)) (agentId : Bytes32) :
    (run step (init g) as).vault.stake agentId + slashedOut agentId (history g as) =
      deposited agentId (history g as) := by
  refine history_induction (C := fun _ _ => True)
    (J := fun h w => w.vault.stake agentId + slashedOut agentId h = deposited agentId h) rfl
    (fun _ _ _ hJ => hJ) ?_ as fun _ _ => trivial
  intro h w w' tx hr hJ _ hx
  have hmove :=
    stake_of_move hx (vaultMove hr tx.sender_ne_zero tx.external (effect_of_exec hx)) agentId
  unfold slashedOut deposited at hJ ⊢
  rw [sum_concat, sum_concat]
  omega

/-- Every successful `slash`, wherever it is called, takes the smaller of the stake and the amount
asked for, and pays exactly that. -/
theorem slash_exact {s dst : Address} {agentId : Bytes32} {amount actual : ℕ}
    (h : StakeVault.slash w s agentId dst amount = .ok (w', actual)) :
    actual = min (w.vault.stake agentId) amount ∧
      w'.vault.stake = update w.vault.stake agentId (w.vault.stake agentId - actual) ∧
      D.token.balanceOf w'.usdc =
        moveBalance (D.token.balanceOf w.usdc) D.stakeVault dst actual := by
  obtain ⟨-, -, -, rfl, u, hu, rfl⟩ := slash_eq_ok.1 h
  exact ⟨Nat.min_comm _ _, rfl, D.token.balanceOf_transfer hu⟩

/-- The vault covers the stakes; a stake is what was deposited for the agent less what slashes of it
paid; a slash pays the smaller of the stake and the amount asked for; only `stake` and the two calls
of the arbiter change a stake. -/
theorem vault_solvent (g : Genesis D) (as : List (Action D)) :
    ((support (run step (init g) as).vault.stake).Finite ∧
      ∑ᶠ agentId, (run step (init g) as).vault.stake agentId ≤
        (run step (init g) as).balanceOf D.stakeVault) ∧
    (∀ agentId, (run step (init g) as).vault.stake agentId + slashedOut agentId (history g as) =
      deposited agentId (history g as)) ∧
    (∀ (w w' : World D) (s dst : Address) (agentId : Bytes32) (amount actual : ℕ),
      StakeVault.slash w s agentId dst amount = .ok (w', actual) →
        actual = min (w.vault.stake agentId) amount ∧
          w'.vault.stake = update w.vault.stake agentId (w.vault.stake agentId - actual) ∧
          D.token.balanceOf w'.usdc =
            moveBalance (D.token.balanceOf w.usdc) D.stakeVault dst actual) ∧
    (∀ (tx : Tx D) (w' : World D) (receiptId : Bytes32),
      exec (run step (init g) as) tx.sender tx.call = .ok w' →
      onAccountOf (run step (init g) as) tx.call = some receiptId →
        vaultPaid (run step (init g) as, tx) =
          min ((run step (init g) as).vault.stake
            ((run step (init g) as).executor.receipts receiptId).agentId)
            (requested (run step (init g) as) tx.call)) ∧
    (∀ (tx : Tx D) (w' : World D), exec (run step (init g) as) tx.sender tx.call = .ok w' →
      w'.vault.stake ≠ (run step (init g) as).vault.stake →
        (∃ agentId amount, tx.call = .stake agentId amount) ∨
          (∃ receiptId, tx.call = .fileAmountViolation receiptId) ∨
          ∃ challengeId uphold slashAmount sig,
            tx.call = .resolveByReviewer challengeId uphold slashAmount sig) := by
  have hr : Reachable g (run step (init g) as) := reachable_run _ _
  refine ⟨solvent hr, stake_conserved g as, fun _ _ _ _ _ _ _ h => slash_exact h, ?_, ?_⟩
  · intro tx w' receiptId hx hcall
    have hm := vaultMove hr tx.sender_ne_zero tx.external (effect_of_exec hx)
    rw [vaultPaid, apply_of_ok hx]
    generalize tx.call = call at hm hcall
    cases hm with
    | keep hnone => exact absurd (hnone.symm.trans hcall) (by simp)
    | deposit => exact absurd hcall (by simp [onAccountOf])
    | slash hsome hagent hpaid _ hbal =>
      obtain rfl := Option.some.inj (hsome.symm.trans hcall)
      rw [hagent, Nat.min_comm, hpaid, ← hbal]
      exact Nat.add_sub_cancel_left ..
  · intro tx w' hx hchange
    have hm := vaultMove hr tx.sender_ne_zero tx.external (effect_of_exec hx)
    generalize tx.call = call at hm
    cases hm with
    | keep _ _ hkeep => exact absurd hkeep hchange
    | deposit => exact Or.inl ⟨_, _, rfl⟩
    | slash hsome =>
      cases call with
      | fileAmountViolation receiptId => exact Or.inr (Or.inl ⟨_, rfl⟩)
      | resolveByReviewer => exact Or.inr (Or.inr ⟨_, _, _, _, rfl⟩)
      | _ => exact absurd hsome (by simp [onAccountOf])

end IntentGuard
