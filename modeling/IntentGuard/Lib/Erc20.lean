import Mathlib.Order.Basic
import Mathlib.Order.Nat
import Mathlib.Tactic.Common

/-!
# The standard ERC-20 token

`Erc20 Account` is a token ledger as its callers may rely on it: an operation that cannot be carried
out fails (`none`), a transfer moves exactly its amount, an approval sets exactly one allowance,
there are no fees, no hooks and no other effects. The laws are fields, so whatever is proved of an
arbitrary `Erc20 Account` holds of every token of this kind. How much of an allowance a
`transferFrom` uses up is left open between nothing and its amount: tokens differ on unlimited
allowances.

`Erc20.ledger` is the token with a balance map and an allowance map.
-/

open Function

variable {Account : Type} [DecidableEq Account]

/-- Balances after `value` has gone from `src` to `dst`: debit first, then credit, also when they
are one. -/
def moveBalance (bal : Account → ℕ) (src dst : Account) (value : ℕ) : Account → ℕ :=
  update (update bal src (bal src - value)) dst (update bal src (bal src - value) dst + value)

namespace moveBalance
variable {bal : Account → ℕ} {src dst a : Account} {value : ℕ}

theorem self (h : value ≤ bal src) : moveBalance bal src src value = bal := by
  unfold moveBalance
  rw [update_self, update_idem, Nat.sub_add_cancel h, update_eq_self]

theorem zero (bal : Account → ℕ) (src dst : Account) : moveBalance bal src dst 0 = bal := by
  unfold moveBalance
  rw [Nat.sub_zero, update_eq_self, Nat.add_zero, update_eq_self]

theorem at_src (h : src ≠ dst) : moveBalance bal src dst value src = bal src - value := by
  rw [moveBalance, update_of_ne h, update_self]

theorem at_dst (h : src ≠ dst) : moveBalance bal src dst value dst = bal dst + value := by
  rw [moveBalance, update_self, update_of_ne h.symm]

theorem at_other (hs : a ≠ src) (hd : a ≠ dst) : moveBalance bal src dst value a = bal a := by
  rw [moveBalance, update_of_ne hd, update_of_ne hs]

/-- Only the payer's balance can fall. -/
theorem le_of_ne_src (hs : a ≠ src) : bal a ≤ moveBalance bal src dst value a := by
  by_cases hd : a = dst
  · subst hd
    rw [at_dst (Ne.symm hs)]
    exact Nat.le_add_right _ _
  · rw [at_other hs hd]

/-- A balance that falls is the payer's, the payee is someone else, and it falls by the amount. -/
theorem of_lt (hv : value ≤ bal src) (h : moveBalance bal src dst value a < bal a) :
    a = src ∧ dst ≠ src ∧ moveBalance bal src dst value a + value = bal a := by
  have hs : a = src := by
    by_contra hs
    exact absurd (le_of_ne_src hs) (Nat.not_le.2 h)
  subst hs
  have hd : dst ≠ a := by
    rintro rfl
    rw [self hv] at h
    exact lt_irrefl _ h
  refine ⟨rfl, hd, ?_⟩
  rw [at_src hd.symm]
  omega

/-- Two payments by one payer may be made in either order. -/
theorem swap {bal : Account → ℕ} {src dst dst' : Account} {value value' : ℕ} (hd : src ≠ dst)
    (hd' : src ≠ dst') :
    moveBalance (moveBalance bal src dst value) src dst' value' =
      moveBalance (moveBalance bal src dst' value') src dst value := by
  have hpaid : ∀ {d v b}, src ≠ d → moveBalance b src d v src = b src - v := fun h => at_src h
  funext a
  by_cases hs : a = src
  · subst hs
    rw [hpaid hd', hpaid hd, hpaid hd, hpaid hd', Nat.sub_right_comm]
  have hcredit : ∀ {d v} {b : Account → ℕ}, src ≠ d →
      moveBalance b src d v a = b a + if a = d then v else 0 := by
    intro d v b hne
    by_cases h : a = d
    · subst h
      rw [at_dst hne, if_pos rfl]
    · rw [at_other hs h, if_neg h, Nat.add_zero]
  rw [hcredit hd', hcredit hd, hcredit hd, hcredit hd', Nat.add_right_comm]

/-- A bond that goes out and comes back leaves only the payment made in between. -/
theorem bonded {bal : Account → ℕ} {payer holder src dst : Account} {bond value : ℕ}
    (hb : bond ≤ bal payer) (hph : payer ≠ holder) (hps : payer ≠ src) (hhs : holder ≠ src)
    (hhd : holder ≠ dst) (hsd : src ≠ dst) :
    moveBalance (moveBalance (moveBalance bal payer holder bond) src dst value) holder payer bond =
      moveBalance bal src dst value := by
  funext a
  by_cases ha : a = holder
  · subst ha
    rw [at_src hph.symm, at_other hhs hhd, at_dst hph, at_other hhs hhd]
    omega
  by_cases hp : a = payer
  · subst hp
    rw [at_dst (Ne.symm ha)]
    by_cases hd : a = dst
    · subst hd
      rw [at_dst hsd, at_dst hsd, at_src ha]
      omega
    · rw [at_other hps hd, at_other hps hd, at_src ha]
      omega
  rw [at_other ha hp]
  by_cases hs : a = src
  · subst hs
    rw [at_src hsd, at_src hsd, at_other hp ha]
  by_cases hd : a = dst
  · subst hd
    rw [at_dst hsd, at_dst hsd, at_other hp ha]
  · rw [at_other hs hd, at_other hs hd, at_other hp ha]

end moveBalance

/-- A standard token over accounts with a zero account. -/
structure Erc20 (Account : Type) [DecidableEq Account] [Zero Account] where
  State : Type
  balanceOf : State → Account → ℕ
  /-- `allowance s owner spender`. -/
  allowance : State → Account → Account → ℕ
  /-- `transfer s sender to value`. -/
  transfer : State → Account → Account → ℕ → Option State
  /-- `transferFrom s spender src dst value`. -/
  transferFrom : State → Account → Account → Account → ℕ → Option State
  /-- `approve s owner spender value`. -/
  approve : State → Account → Account → ℕ → Option State
  /-- `mint s to value`. -/
  mint : State → Account → ℕ → Option State
  transfer_isSome : ∀ {s src dst v}, src ≠ 0 →
    ((transfer s src dst v).isSome ↔ dst ≠ 0 ∧ v ≤ balanceOf s src)
  balanceOf_transfer : ∀ {s src dst v s'}, transfer s src dst v = some s' →
    balanceOf s' = moveBalance (balanceOf s) src dst v
  allowance_transfer : ∀ {s src dst v s'}, transfer s src dst v = some s' →
    allowance s' = allowance s
  transferFrom_isSome : ∀ {s spender src dst v}, spender ≠ 0 → src ≠ 0 →
    ((transferFrom s spender src dst v).isSome ↔
      dst ≠ 0 ∧ v ≤ balanceOf s src ∧ v ≤ allowance s src spender)
  transferFrom_from_zero : ∀ {s spender dst v}, transferFrom s spender 0 dst v = none
  balanceOf_transferFrom : ∀ {s spender src dst v s'}, transferFrom s spender src dst v = some s' →
    balanceOf s' = moveBalance (balanceOf s) src dst v
  allowance_transferFrom_other : ∀ {s spender src dst v s' o p},
    transferFrom s spender src dst v = some s' →
    (o, p) ≠ (src, spender) → allowance s' o p = allowance s o p
  allowance_transferFrom_self : ∀ {s spender src dst v s'},
    transferFrom s spender src dst v = some s' →
    allowance s' src spender ≤ allowance s src spender ∧
      allowance s src spender ≤ allowance s' src spender + v
  balanceOf_approve : ∀ {s o p v s'}, approve s o p v = some s' → balanceOf s' = balanceOf s
  allowance_approve_other : ∀ {s o p v s' o' p'}, approve s o p v = some s' → o' ≠ o →
    allowance s' o' p' = allowance s o' p'
  balanceOf_mint : ∀ {s dst v s'}, mint s dst v = some s' →
    balanceOf s' = update (balanceOf s) dst (balanceOf s dst + v)
  allowance_mint : ∀ {s dst v s'}, mint s dst v = some s' → allowance s' = allowance s

namespace Erc20
variable [Zero Account] (T : Erc20 Account)

theorem transfer_bounds {s s' : T.State} {src dst : Account} {v : ℕ} (hsrc : src ≠ 0)
    (h : T.transfer s src dst v = some s') : dst ≠ 0 ∧ v ≤ T.balanceOf s src :=
  (T.transfer_isSome hsrc).1 (by rw [h]; rfl)

theorem exists_transfer {s : T.State} {src dst : Account} {v : ℕ} (hsrc : src ≠ 0) (hdst : dst ≠ 0)
    (hv : v ≤ T.balanceOf s src) : ∃ s', T.transfer s src dst v = some s' :=
  Option.isSome_iff_exists.1 ((T.transfer_isSome hsrc).2 ⟨hdst, hv⟩)

theorem from_ne_zero {s s' : T.State} {spender src dst : Account} {v : ℕ}
    (h : T.transferFrom s spender src dst v = some s') : src ≠ 0 := by
  rintro rfl
  rw [T.transferFrom_from_zero] at h
  exact absurd h (by simp)

theorem transferFrom_bounds {s s' : T.State} {spender src dst : Account} {v : ℕ} (hsp : spender ≠ 0)
    (h : T.transferFrom s spender src dst v = some s') :
    dst ≠ 0 ∧ v ≤ T.balanceOf s src ∧ v ≤ T.allowance s src spender :=
  (T.transferFrom_isSome hsp (T.from_ne_zero h)).1 (by rw [h]; rfl)

theorem exists_transferFrom {s : T.State} {spender src dst : Account} {v : ℕ} (hsp : spender ≠ 0)
    (hsrc : src ≠ 0) (hdst : dst ≠ 0) (hv : v ≤ T.balanceOf s src)
    (ha : v ≤ T.allowance s src spender) :
    ∃ s', T.transferFrom s spender src dst v = some s' :=
  Option.isSome_iff_exists.1 ((T.transferFrom_isSome hsp hsrc).2 ⟨hdst, hv, ha⟩)

/-- An owner that has approved nobody still has approved nobody after someone else's
`transferFrom`. -/
theorem allowance_transferFrom_le {s s' : T.State} {spender src dst : Account} {v : ℕ}
    (h : T.transferFrom s spender src dst v = some s') (o p : Account) :
    T.allowance s' o p ≤ T.allowance s o p := by
  by_cases hop : (o, p) = (src, spender)
  · obtain ⟨rfl, rfl⟩ := Prod.mk.inj hop
    exact (T.allowance_transferFrom_self h).1
  · exact (T.allowance_transferFrom_other h hop).le

/-- Nothing can be pulled from an account by a spender it has not approved. -/
theorem balanceOf_transferFrom_unapproved {s s' : T.State} {spender src dst : Account} {v : ℕ}
    (hsp : spender ≠ 0) (h : T.transferFrom s spender src dst v = some s')
    (ha : T.allowance s src spender = 0) :
    T.balanceOf s' = T.balanceOf s := by
  have hv := (T.transferFrom_bounds hsp h).2.2
  rw [ha, Nat.le_zero] at hv
  rw [T.balanceOf_transferFrom h, hv, moveBalance.zero]

/-- A mint lowers no balance. -/
theorem balanceOf_le_mint {s s' : T.State} {dst : Account} {v : ℕ} (h : T.mint s dst v = some s')
    (a : Account) :
    T.balanceOf s a ≤ T.balanceOf s' a := by
  rw [T.balanceOf_mint h]
  by_cases ha : a = dst
  · rw [ha, update_self]
    exact Nat.le_add_right _ _
  · rw [update_of_ne ha]

/-! ### The ledger token -/

variable (Account) in
/-- A balance map and an allowance map. -/
structure Ledger where
  balance : Account → ℕ
  approved : Account → Account → ℕ

/-- The token whose state is a `Ledger`; `transferFrom` uses the allowance up. -/
def ledger : Erc20 Account where
  State := Ledger Account
  balanceOf s := s.balance
  allowance s := s.approved
  transfer s src dst v :=
    if dst ≠ 0 ∧ v ≤ s.balance src then
      some { s with balance := moveBalance s.balance src dst v }
    else none
  transferFrom s spender src dst v :=
    if src ≠ 0 ∧ dst ≠ 0 ∧ v ≤ s.balance src ∧ v ≤ s.approved src spender then
      some
        { balance := moveBalance s.balance src dst v
          approved := update s.approved src
            (update (s.approved src) spender (s.approved src spender - v)) }
    else none
  approve s o p v := some { s with approved := update s.approved o (update (s.approved o) p v) }
  mint s dst v := some { s with balance := update s.balance dst (s.balance dst + v) }
  transfer_isSome := by
    intro s src dst v _
    split <;> simp_all
  balanceOf_transfer := by
    intro s src dst v s' h
    split at h <;> simp at h
    rw [← h]
  allowance_transfer := by
    intro s src dst v s' h
    split at h <;> simp at h
    rw [← h]
  transferFrom_isSome := by
    intro s spender src dst v _ _
    split <;> simp_all
  transferFrom_from_zero := by simp
  balanceOf_transferFrom := by
    intro s spender src dst v s' h
    split at h <;> simp at h
    rw [← h]
  allowance_transferFrom_other := by
    intro s spender src dst v s' o p h hop
    split at h <;> simp at h
    rw [← h]
    by_cases ho : o = src
    · subst ho
      have hp : p ≠ spender := fun hp => hop (by rw [hp])
      simp [hp]
    · simp [ho]
  allowance_transferFrom_self := by
    intro s spender src dst v s' h
    split at h <;> simp at h
    rw [← h]
    simp only [update_self]
    omega
  balanceOf_approve := by
    intro s o p v s' h
    simp at h
    rw [← h]
  allowance_approve_other := by
    intro s o p v s' o' p' h ho
    simp at h
    rw [← h]
    simp [ho]
  balanceOf_mint := by
    intro s dst v s' h
    simp at h
    rw [← h]
  allowance_mint := by
    intro s dst v s' h
    simp at h
    rw [← h]

end Erc20
