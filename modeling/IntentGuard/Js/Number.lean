import IntentGuard.Js.Text
import Mathlib.Data.Nat.Log
import Mathlib.Tactic.Ring

/-!
# JavaScript numbers

A number that a program only prints is given by its shortest decimal, from which `Number::toString`
is computed (`Decimal`). A number that a program calculates with is a non-negative integer here
(block numbers, timestamps, durations): `toNumber` is the double nearest to it, ties to even, so an
addition of doubles is the `toNumber` of the sum. It is the identity below 2^53, and never falls
below 2^53 from above.

A clock reading is a `Date.now()`, which ECMAScript bounds by 8.64e15 milliseconds.
-/

namespace Js

/-! ### Printing -/

/-- A number `±0.s × 10^n`, where the digits of `s` are the shortest that identify it; zero has
`s = 0`. -/
structure Decimal where
  negative : Bool
  digits : ℕ
  exponent : ℤ
  deriving DecidableEq

/-- The decimal digits of a natural number, for at most `fuel` digits. -/
def decimalDigits : ℕ → ℕ → JsString
  | 0, _ => []
  | fuel + 1, n =>
    (if n < 10 then [] else decimalDigits fuel (n / 10)) ++ [UInt16.ofNat (48 + n % 10)]

/-- `n.toString(10)` of an integer. -/
def natToString (n : ℕ) : JsString := decimalDigits (n + 1) n

/-- `Number::toString` in base 10. -/
def Decimal.toString (x : Decimal) : JsString :=
  if x.digits = 0 then text "0"
  else
    let s := natToString x.digits
    let k : ℤ := s.length
    let n := x.exponent
    let body :=
      if k ≤ n ∧ n ≤ 21 then s ++ List.replicate (n - k).toNat 48
      else if 0 < n ∧ n ≤ 21 then s.take n.toNat ++ [46] ++ s.drop n.toNat
      else if -6 < n ∧ n ≤ 0 then text "0." ++ List.replicate (-n).toNat 48 ++ s
      else
        let e := n - 1
        let mantissa := if s.length = 1 then s else s.take 1 ++ [46] ++ s.drop 1
        mantissa ++ text (if 0 < e then "e+" else "e-") ++ natToString e.natAbs
    if x.negative then 45 :: body else body

example : (Decimal.mk true 15 2).toString = text "-15" := by decide

example : (Decimal.mk false 125 22).toString = text "1.25e+21" := by decide

/-! ### Rounding -/

/-- The double nearest to a natural number, ties to even (the range of a double is not reached
here). -/
def toNumber (n : ℕ) : ℕ :=
  if n < 2 ^ 53 then n
  else
    let unit := 2 ^ (Nat.log 2 n - 52)
    let q := n / unit
    let r := n % unit
    (if unit < 2 * r ∨ (2 * r = unit ∧ q % 2 = 1) then q + 1 else q) * unit

theorem toNumber_of_lt {n : ℕ} (h : n < 2 ^ 53) : toNumber n = n := if_pos h

theorem le_toNumber {n : ℕ} (h : 2 ^ 53 ≤ n) : 2 ^ 53 ≤ toNumber n := by
  rw [toNumber, if_neg (Nat.not_lt.2 h)]
  have hlog : 53 ≤ Nat.log 2 n := Nat.le_log_of_pow_le (by omega) h
  have hpow : 2 ^ Nat.log 2 n ≤ n := Nat.pow_log_le_self 2 (by omega)
  have hsplit : 2 ^ Nat.log 2 n = 2 ^ 52 * 2 ^ (Nat.log 2 n - 52) := by
    rw [← Nat.pow_add]
    congr 1
    omega
  have hq : 2 ^ 52 ≤ n / 2 ^ (Nat.log 2 n - 52) :=
    (Nat.le_div_iff_mul_le (Nat.two_pow_pos _)).2 (hsplit ▸ hpow)
  calc 2 ^ 53 ≤ 2 ^ Nat.log 2 n := Nat.pow_le_pow_right (by omega) hlog
    _ = 2 ^ 52 * 2 ^ (Nat.log 2 n - 52) := hsplit
    _ ≤ _ := Nat.mul_le_mul_right _ ?_
  split_ifs <;> omega

theorem toNumber_le (n : ℕ) : toNumber n ≤ 2 * n := by
  by_cases h : n < 2 ^ 53
  · rw [toNumber_of_lt h]
    omega
  · rw [toNumber, if_neg h]
    have hunit : 2 ^ (Nat.log 2 n - 52) ≤ n :=
      (Nat.pow_le_pow_right (by omega) (Nat.sub_le _ _)).trans (Nat.pow_log_le_self 2 (by omega))
    have hfloor := Nat.div_mul_le_self n (2 ^ (Nat.log 2 n - 52))
    dsimp only
    split_ifs
    · rw [Nat.add_mul]
      omega
    · omega

/-- Rounding does not reach a number below 2^53 from above. -/
theorem lt_toNumber_iff {a n : ℕ} (ha : a < 2 ^ 53) : a < toNumber n ↔ a < n := by
  by_cases h : n < 2 ^ 53
  · rw [toNumber_of_lt h]
  · exact iff_of_true (ha.trans_le (le_toNumber (Nat.not_lt.1 h))) (ha.trans_le (Nat.not_lt.1 h))

theorem toNumber_lt_iff {a n : ℕ} (ha : a < 2 ^ 53) : toNumber n < a ↔ n < a := by
  cases a with
  | zero => exact iff_of_false (Nat.not_lt_zero _) (Nat.not_lt_zero _)
  | succ b =>
    rw [Nat.lt_succ_iff, Nat.lt_succ_iff, ← Nat.not_lt, ← Nat.not_lt, lt_toNumber_iff (by omega)]

/-- At most 53 significant bits. -/
def IsDouble (n : ℕ) : Prop := ∃ m e, m < 2 ^ 53 ∧ n = m * 2 ^ e

/-- The integers that are doubles are the ones that rounding keeps. -/
theorem toNumber_eq_self_iff {n : ℕ} : toNumber n = n ↔ IsDouble n := by
  by_cases hsmall : n < 2 ^ 53
  · exact iff_of_true (toNumber_of_lt hsmall) ⟨n, 0, hsmall, (Nat.mul_one n).symm⟩
  have hn : n ≠ 0 := by omega
  have hlog : 53 ≤ Nat.log 2 n := Nat.le_log_of_pow_le (by omega) (by omega)
  constructor
  · intro h
    rw [toNumber, if_neg hsmall] at h
    have hlt : n / 2 ^ (Nat.log 2 n - 52) < 2 ^ 53 := by
      rw [Nat.div_lt_iff_lt_mul (Nat.two_pow_pos _), ← Nat.pow_add]
      convert Nat.lt_pow_succ_log_self (Nat.one_lt_two) n using 2
      omega
    obtain ⟨q, hq, hmul⟩ : ∃ q ≤ 2 ^ 53, n = q * 2 ^ (Nat.log 2 n - 52) := by
      dsimp only at h
      split_ifs at h
      · exact ⟨_, hlt, h.symm⟩
      · exact ⟨_, hlt.le, h.symm⟩
    rcases hq.lt_or_eq with hq | rfl
    · exact ⟨q, _, hq, hmul⟩
    · -- rounding up has reached the next power of two
      exact ⟨2 ^ 52, Nat.log 2 n - 52 + 1, by decide, hmul.trans (by ring)⟩
  · rintro ⟨m, e, hm, hmul⟩
    have hexponent : Nat.log 2 n - 52 ≤ e := by
      have hlt : n < 2 ^ (53 + e) := by
        rw [hmul, Nat.pow_add]
        exact Nat.mul_lt_mul_of_pos_right hm (Nat.two_pow_pos e)
      have := Nat.log_lt_of_lt_pow hn hlt
      omega
    have hdvd : 2 ^ (Nat.log 2 n - 52) ∣ n :=
      hmul ▸ Dvd.dvd.mul_left (Nat.pow_dvd_pow 2 hexponent) m
    have hunit : 0 < 2 ^ (Nat.log 2 n - 52) := Nat.two_pow_pos _
    rw [toNumber, if_neg hsmall]
    dsimp only
    rw [Nat.mod_eq_zero_of_dvd hdvd, if_neg (by omega), Nat.div_mul_cancel hdvd]

/-! ### The clock -/

/-- A value of `Date.now()`. -/
structure Time where
  ms : ℕ
  bounded : ms ≤ 8640000000000000
  deriving DecidableEq

/-- `Math.floor(Date.now() / 1000)`. -/
def Time.seconds (t : Time) : ℕ := t.ms / 1000

theorem Time.seconds_lt (t : Time) : t.seconds < 2 ^ 53 := by
  have := t.bounded
  unfold Time.seconds
  omega

theorem Time.ms_lt (t : Time) {n : ℕ} (h : t.seconds < n) : t.ms < 1000 * n := by
  unfold Time.seconds at h
  omega

end Js
