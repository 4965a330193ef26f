import IntentGuard.Js.Number
import IntentGuard.Lib.JsonText
import Mathlib.Data.Int.Log
import Mathlib.Data.Rat.Floor

/-!
# Number literals

The doubles among the decimals, and what a number literal reads as. `Decimal.round` rounds a decimal
to the nearest double (ties to even) and gives the shortest digits that identify it, so the doubles
are its fixed points (`Double`), and rounding answers with one (`round_round`).

`Decimal.literal` is the literal that `Number::toString` prints, and it reads back as its decimal
(`decimal_literal`).
-/

namespace Js

open JsonText

/-! ### Rounding -/

/-- `(s, n)` with `s * 10 ^ n` the number given and `s` not divisible by 10. -/
def stripZeros : ℕ → ℕ → ℕ × ℕ
  | 0, s => (s, 0)
  | fuel + 1, s =>
    if s % 10 = 0 then
      let r := stripZeros fuel (s / 10)
      (r.1, r.2 + 1)
    else (s, 0)

/-- The decimal `±s * 10 ^ scale`. -/
def Decimal.ofScaled (negative : Bool) (s : ℕ) (scale : ℤ) : Decimal :=
  if s = 0 then ⟨negative, 0, 0⟩
  else
    let r := stripZeros s s
    ⟨negative, r.1, (natToString r.1).length + r.2 + scale⟩

/-- The significand and the exponent of the double nearest to a positive fraction, without an upper
bound on the exponent. -/
def nearestBinary (num den : ℕ) : ℕ × ℤ :=
  let l : ℤ := (Nat.log2 num : ℤ) - Nat.log2 den
  let below := num * 2 ^ (-l).toNat < den * 2 ^ l.toNat
  let e := max ((if below then l - 1 else l) - 52) (-1074)
  let n := num * 2 ^ (-e).toNat
  let d := den * 2 ^ e.toNat
  let m := if d < 2 * (n % d) ∨ (2 * (n % d) = d ∧ n / d % 2 = 1) then n / d + 1 else n / d
  if m = 2 ^ 53 then (2 ^ 52, e + 1) else (m, e)

/-- The `n` with `10 ^ (n - 1) ≤ num / den < 10 ^ n`. -/
def decimalPoint (num den : ℕ) : ℤ :=
  if den ≤ num then (natToString (num / den)).length
  else 1 - (natToString ((den + num - 1) / num - 1)).length

/-- The shortest digits for `m * 2 ^ e`, tried from `k` digits on; of two candidates the nearer
first. -/
def shortest (m : ℕ) (e : ℤ) : ℕ → ℕ → Option (ℕ × ℤ)
  | 0, _ => none
  | fuel + 1, k =>
    let num := m * 2 ^ e.toNat
    let den := 2 ^ (-e).toNat
    let scale := decimalPoint num den - k
    let n := num * 10 ^ (-scale).toNat
    let d := den * 10 ^ scale.toNat
    let identifies (s : ℕ) : Bool :=
      nearestBinary (s * 10 ^ scale.toNat) (10 ^ (-scale).toNat) = (m, e)
    let up := d < 2 * (n % d) ∨ (2 * (n % d) = d ∧ n / d % 2 = 1)
    let nearer := if up then n / d + 1 else n / d
    let other := if up then n / d else n / d + 1
    if identifies nearer then some (nearer, scale)
    else if identifies other then some (other, scale)
    else shortest m e fuel (k + 1)

/-- The double nearest to a decimal, by its shortest digits; 17 digits identify every double. `none`
where the value overflows to an infinity. -/
def Decimal.round (x : Decimal) : Option Decimal :=
  let scale := x.exponent - (natToString x.digits).length
  if x.digits = 0 then some ⟨x.negative, 0, 0⟩
  else
    let (m, e) := nearestBinary (x.digits * 10 ^ scale.toNat) (10 ^ (-scale).toNat)
    if m = 0 then some ⟨x.negative, 0, 0⟩
    else if 971 < e then none
    else (shortest m e 17 1).map fun r => Decimal.ofScaled x.negative r.1 r.2

/-- A finite number value. -/
def Double : Type := { x : Decimal // x.round = some x }

example : (Decimal.mk false 18446744073709551616 20).round =
    some ⟨false, 18446744073709552, 20⟩ := by decide +kernel

example : (Decimal.mk true 17976931348623159 309).round = none := by decide +kernel

example : (Decimal.mk false 49406564584124654 (-323)).round = some ⟨false, 5, -323⟩ := by
  decide +kernel

example : (Decimal.mk false 3 0).round = some ⟨false, 3, 0⟩ := by decide +kernel

/-! ### Digits -/

/-- The number that a list of digits spells. -/
def ofDigits (digits : List ℕ) : ℕ := digits.foldl (fun n c => n * 10 + (c - 48)) 0

/-- `natToString` by its codes. -/
def digitCodes (n : ℕ) : List ℕ := (natToString n).map UInt16.toNat

theorem ofDigits_concat (digits : List ℕ) (c : ℕ) :
    ofDigits (digits ++ [c]) = ofDigits digits * 10 + (c - 48) := by
  unfold ofDigits
  rw [List.foldl_append]
  rfl

theorem ofDigits_zeros_append (j : ℕ) (digits : List ℕ) :
    ofDigits (List.replicate j 48 ++ digits) = ofDigits digits := by
  have hzeros : ofDigits (List.replicate j 48) = 0 := by
    induction j with
    | zero => rfl
    | succ j ih => rw [List.replicate_succ', ofDigits_concat, ih]
  induction digits using List.reverseRecOn with
  | nil => rw [List.append_nil, hzeros]; rfl
  | append_singleton digits c ih => rw [← List.append_assoc, ofDigits_concat, ofDigits_concat, ih]

theorem ofDigits_append_zeros (digits : List ℕ) (j : ℕ) :
    ofDigits (digits ++ List.replicate j 48) = ofDigits digits * 10 ^ j := by
  induction j with
  | zero => simp
  | succ j ih =>
    rw [List.replicate_succ', ← List.append_assoc, ofDigits_concat, ih, Nat.pow_succ]; ring

theorem toNat_digit (n : ℕ) : (UInt16.ofNat (48 + n % 10)).toNat = 48 + n % 10 := by
  rw [UInt16.toNat_ofNat']
  exact Nat.mod_eq_of_lt (by omega)

theorem decimalDigits_eq {fuel fuel' n : ℕ} (h : n < fuel) (h' : n < fuel') :
    decimalDigits fuel n = decimalDigits fuel' n := by
  induction fuel generalizing fuel' n with
  | zero => exact absurd h (Nat.not_lt_zero n)
  | succ fuel ih =>
    obtain ⟨fuel', rfl⟩ : ∃ m, fuel' = m + 1 := ⟨fuel' - 1, by omega⟩
    unfold decimalDigits
    by_cases hn : n < 10
    · rw [if_pos hn, if_pos hn]
    · have hdiv : n / 10 < fuel ∧ n / 10 < fuel' := by omega
      rw [if_neg hn, if_neg hn, ih hdiv.1 hdiv.2]

theorem natToString_concat {n k : ℕ} (hn : n ≠ 0) (hk : k < 10) :
    natToString (n * 10 + k) = natToString n ++ [UInt16.ofNat (48 + k)] := by
  have hdiv : (n * 10 + k) / 10 = n := by omega
  have hmod : (n * 10 + k) % 10 = k := by omega
  unfold natToString
  rw [decimalDigits, if_neg (by omega), hdiv, hmod,
    decimalDigits_eq (by omega) (Nat.lt_succ_self n)]

/-- What the digits of a number are, for enough fuel. -/
theorem decimalDigits_spec {fuel n : ℕ} (h : n < fuel) :
    ofDigits ((decimalDigits fuel n).map UInt16.toNat) = n ∧
      (∀ c ∈ (decimalDigits fuel n).map UInt16.toNat, isDigit c = true) ∧
      ((decimalDigits fuel n).map UInt16.toNat).head? ≠ (if n = 0 then none else some 48) := by
  induction fuel generalizing n with
  | zero => exact absurd h (Nat.not_lt_zero n)
  | succ fuel ih =>
    have hdigit : isDigit (48 + n % 10) = true := by
      simp [isDigit]
      omega
    unfold decimalDigits
    rw [List.map_append, List.map_singleton, toNat_digit, ofDigits_concat]
    by_cases hn : n < 10
    · rw [if_pos hn]
      refine ⟨?_, ?_, ?_⟩
      · simp [ofDigits]
        omega
      · simpa using hdigit
      · split_ifs with hzero
        · simp
        · simp
          omega
    · obtain ⟨hvalue, hdigits, hhead⟩ := ih (n := n / 10) (by omega)
      have hzero : ¬ n / 10 = 0 := by omega
      rw [if_neg hn]
      rw [if_neg hzero] at hhead
      refine ⟨?_, ?_, ?_⟩
      · rw [hvalue]
        omega
      · intro c hc
        rcases List.mem_append.1 hc with hc | hc
        · exact hdigits c hc
        · obtain rfl := List.mem_singleton.1 hc
          exact hdigit
      · rw [if_neg (by omega), List.head?_append]
        cases hfirst : ((decimalDigits fuel (n / 10)).map UInt16.toNat).head? with
        | none =>
          have hnil := List.head?_eq_none_iff.1 hfirst
          rw [hnil] at hvalue
          exact absurd hvalue.symm hzero
        | some c =>
          rw [hfirst] at hhead
          exact hhead

theorem ofDigits_digitCodes (n : ℕ) : ofDigits (digitCodes n) = n :=
  (decimalDigits_spec (Nat.lt_succ_self n)).1

theorem isDigit_of_mem {n c : ℕ} (h : c ∈ digitCodes n) : isDigit c = true :=
  (decimalDigits_spec (Nat.lt_succ_self n)).2.1 c h

theorem head?_digitCodes {n : ℕ} (h : n ≠ 0) : (digitCodes n).head? ≠ some 48 := by
  have hhead := (decimalDigits_spec (Nat.lt_succ_self n)).2.2
  rwa [if_neg h] at hhead

theorem digitCodes_ne_nil {n : ℕ} : digitCodes n ≠ [] := by
  unfold digitCodes natToString decimalDigits
  simp

/-! ### Normal decimals -/

/-- No trailing zeros, and one zero for each sign. -/
structure Decimal.Normal (x : Decimal) : Prop where
  zero : x.digits = 0 → x.exponent = 0
  stripped : x.digits ≠ 0 → x.digits % 10 ≠ 0

theorem stripZeros_mul {s : ℕ} (hs : s % 10 ≠ 0) {j fuel : ℕ} (h : j ≤ fuel) :
    stripZeros fuel (s * 10 ^ j) = (s, j) := by
  induction j generalizing fuel with
  | zero =>
    rw [Nat.pow_zero, Nat.mul_one]
    cases fuel with
    | zero => rfl
    | succ fuel => exact if_neg hs
  | succ j ih =>
    obtain ⟨fuel, rfl⟩ : ∃ n, fuel = n + 1 := ⟨fuel - 1, by omega⟩
    have hpow : s * 10 ^ (j + 1) = 10 * (s * 10 ^ j) := by ring
    have hdiv : 10 * (s * 10 ^ j) / 10 = s * 10 ^ j := Nat.mul_div_cancel_left _ (by decide)
    rw [hpow, stripZeros, if_pos (Nat.mul_mod_right 10 _), hdiv, ih (by omega)]

/-- Every positive number is stripped. -/
theorem exists_stripped {s : ℕ} (hs : s ≠ 0) : ∃ t j, s = t * 10 ^ j ∧ t % 10 ≠ 0 := by
  induction s using Nat.strong_induction_on with
  | _ s ih =>
    by_cases h : s % 10 = 0
    · obtain ⟨t, j, ht, hmod⟩ := ih (s / 10) (by omega) (by omega)
      refine ⟨t, j + 1, ?_, hmod⟩
      rw [Nat.pow_succ, ← Nat.mul_assoc, ← ht]
      omega
    · exact ⟨s, 0, by simp, h⟩

theorem ofScaled_mul (negative : Bool) {s : ℕ} (hs : s % 10 ≠ 0) (j : ℕ) (scale : ℤ) :
    Decimal.ofScaled negative (s * 10 ^ j) scale = ⟨negative, s,
      (digitCodes s).length + j + scale⟩ := by
  have hne : s * 10 ^ j ≠ 0 :=
    Nat.mul_ne_zero (by omega) (Nat.pos_iff_ne_zero.1 (Nat.pow_pos (by decide)))
  have hle : j ≤ s * 10 ^ j := by
    calc j ≤ 10 ^ j := (Nat.lt_pow_self (by decide)).le
      _ ≤ s * 10 ^ j := Nat.le_mul_of_pos_left _ (by omega)
  rw [Decimal.ofScaled, if_neg hne, stripZeros_mul hs hle, digitCodes, List.length_map]

theorem ofScaled_normal (negative : Bool) (s : ℕ) (scale : ℤ) :
    (Decimal.ofScaled negative s scale).Normal := by
  by_cases hs : s = 0
  · rw [Decimal.ofScaled, if_pos hs]
    exact ⟨fun _ => rfl, fun h => absurd rfl h⟩
  · obtain ⟨t, j, rfl, ht⟩ := exists_stripped hs
    rw [ofScaled_mul negative ht]
    refine ⟨fun h => ?_, fun _ => ht⟩
    have h : t = 0 := h
    omega

theorem round_normal {x y : Decimal} (h : x.round = some y) : y.Normal := by
  unfold Decimal.round at h
  dsimp only at h
  split_ifs at h
  · obtain rfl := Option.some.inj h
    exact ⟨fun _ => rfl, fun h => absurd rfl h⟩
  · obtain rfl := Option.some.inj h
    exact ⟨fun _ => rfl, fun h => absurd rfl h⟩
  · obtain ⟨r, -, rfl⟩ := Option.map_eq_some_iff.1 h
    exact ofScaled_normal _ _ _

theorem Double.normal (x : Double) : x.1.Normal := round_normal x.2

/-! ### Rounding again -/

/-- The comparison of `nearestBinary`, without fractions of integers. -/
theorem below_iff {num den : ℕ} (hden : den ≠ 0) (l : ℤ) :
    num * 2 ^ (-l).toNat < den * 2 ^ l.toNat ↔ (num : ℚ) / den < 2 ^ l := by
  have hpos : (0 : ℚ) < den := Nat.cast_pos.2 (Nat.pos_of_ne_zero hden)
  rw [div_lt_iff₀ hpos]
  rcases Int.le_total 0 l with hl | hl
  · obtain ⟨n, rfl⟩ := Int.eq_ofNat_of_zero_le hl
    rw [show (-(n : ℤ)).toNat = 0 by omega, Int.toNat_natCast, zpow_natCast,
      Nat.pow_zero, Nat.mul_one,
      Nat.mul_comm den]
    exact_mod_cast Iff.rfl
  · obtain ⟨n, hn⟩ := Int.eq_ofNat_of_zero_le (Int.neg_nonneg.2 hl)
    obtain rfl : l = -(n : ℤ) := by omega
    rw [Int.neg_neg, Int.toNat_natCast, show (-(n : ℤ)).toNat = 0 by omega, Nat.pow_zero,
      Nat.mul_one, zpow_neg,
      zpow_natCast, inv_mul_eq_div, lt_div_iff₀ (by positivity)]
    exact_mod_cast Iff.rfl

/-- The exponent that `nearestBinary` begins with is that of the fraction. -/
theorem binaryPoint_eq {num den : ℕ} (hnum : num ≠ 0) (hden : den ≠ 0) :
    (if num * 2 ^ (-((Nat.log2 num : ℤ) - Nat.log2 den)).toNat <
      den * 2 ^ ((Nat.log2 num : ℤ) - Nat.log2 den).toNat then
        (Nat.log2 num : ℤ) - Nat.log2 den - 1
      else (Nat.log2 num : ℤ) - Nat.log2 den) =
      Int.log 2 ((num : ℚ) / den) := by
  have hdenpos : (0 : ℚ) < den := Nat.cast_pos.2 (Nat.pos_of_ne_zero hden)
  have hnumpos : (0 : ℚ) < num := Nat.cast_pos.2 (Nat.pos_of_ne_zero hnum)
  have hpos : (0 : ℚ) < num / den := div_pos hnumpos hdenpos
  have hlow : Nat.log2 num - Nat.log2 den - 1 ≤ Int.log 2 ((num : ℚ) / den) := by
    rw [← Int.zpow_le_iff_le_log (by decide) hpos, le_div_iff₀ hdenpos]
    have hnumlog : ((2 ^ Nat.log2 num : ℕ) : ℚ) ≤ num := Nat.cast_le.2 (Nat.log2_self_le hnum)
    have hdenlog : (den : ℚ) ≤ ((2 ^ (Nat.log2 den + 1) : ℕ) : ℚ) :=
      Nat.cast_le.2 Nat.lt_log2_self.le
    calc ((2 : ℕ) : ℚ) ^ ((Nat.log2 num : ℤ) - Nat.log2 den - 1) * den
        ≤ ((2 : ℕ) : ℚ) ^ ((Nat.log2 num : ℤ) - Nat.log2 den - 1) *
          ((2 ^ (Nat.log2 den + 1) : ℕ) : ℚ) :=
          mul_le_mul_of_nonneg_left hdenlog (zpow_nonneg (Nat.cast_nonneg 2) _)
      _ = ((2 ^ Nat.log2 num : ℕ) : ℚ) := by
        push_cast
        rw [← zpow_natCast, ← zpow_natCast, ← zpow_add₀ two_ne_zero]
        congr 1
        push_cast
        ring
      _ ≤ num := hnumlog
  have hhigh : Int.log 2 ((num : ℚ) / den) < Nat.log2 num - Nat.log2 den + 1 := by
    rw [← Int.lt_zpow_iff_log_lt (by decide) hpos, div_lt_iff₀ hdenpos]
    have hnumlog : (num : ℚ) < ((2 ^ (Nat.log2 num + 1) : ℕ) : ℚ) := Nat.cast_lt.2 Nat.lt_log2_self
    have hdenlog : ((2 ^ Nat.log2 den : ℕ) : ℚ) ≤ den := Nat.cast_le.2 (Nat.log2_self_le hden)
    calc (num : ℚ) < ((2 ^ (Nat.log2 num + 1) : ℕ) : ℚ) := hnumlog
      _ = ((2 : ℕ) : ℚ) ^ ((Nat.log2 num : ℤ) - Nat.log2 den + 1) *
          ((2 ^ Nat.log2 den : ℕ) : ℚ) := by
        push_cast
        rw [← zpow_natCast, ← zpow_natCast, ← zpow_add₀ two_ne_zero]
        congr 1
        push_cast
        ring
      _ ≤ _ := mul_le_mul_of_nonneg_left hdenlog (zpow_nonneg (Nat.cast_nonneg 2) _)
  have hbelow := @below_iff num den hden ((Nat.log2 num : ℤ) - Nat.log2 den)
  rw [show ((2 : ℚ) = ((2 : ℕ) : ℚ)) from rfl, Int.lt_zpow_iff_log_lt (by decide) hpos] at hbelow
  split_ifs with h
  · have := hbelow.1 h
    omega
  · have := fun hlt => h (hbelow.2 hlt)
    omega

/-- A fraction may be reduced. -/
theorem nearestBinary_mul {num den k : ℕ} (hnum : num ≠ 0) (hden : den ≠ 0) (hk : k ≠ 0) :
    nearestBinary (k * num) (k * den) = nearestBinary num den := by
  have hkpos : 0 < k := Nat.pos_of_ne_zero hk
  have hratio : ((k * num : ℕ) : ℚ) / (k * den : ℕ) = (num : ℚ) / den := by
    push_cast
    exact mul_div_mul_left _ _ (Nat.cast_ne_zero.2 hk)
  have hexponent := binaryPoint_eq (Nat.mul_ne_zero hk hnum) (Nat.mul_ne_zero hk hden)
  rw [hratio, ← binaryPoint_eq hnum hden] at hexponent
  unfold nearestBinary
  dsimp only
  rw [hexponent]
  simp only [Nat.mul_assoc k, Nat.mul_div_mul_left _ _ hkpos, Nat.mul_mod_mul_left,
    ← Nat.mul_left_comm k 2, Nat.mul_lt_mul_left hkpos, Nat.mul_right_inj hk]

/-- Digits that were found read as the double. -/
theorem nearestBinary_of_shortest {m : ℕ} {e : ℤ} {fuel k : ℕ} {r : ℕ × ℤ}
    (h : shortest m e fuel k = some r) :
    nearestBinary (r.1 * 10 ^ r.2.toNat) (10 ^ (-r.2).toNat) = (m, e) := by
  induction fuel generalizing k with
  | zero => exact absurd h nofun
  | succ fuel ih =>
    unfold shortest at h
    dsimp only at h
    -- one of the two candidates, or more digits
    rcases ite_eq_iff.1 h with ⟨hnearer, hr⟩ | ⟨-, h⟩
    · rw [← Option.some.inj hr]
      exact of_decide_eq_true hnearer
    rcases ite_eq_iff.1 h with ⟨hother, hr⟩ | ⟨-, h⟩
    · rw [← Option.some.inj hr]
      exact of_decide_eq_true hother
    · exact ih h

/-- Zeros at the end of the digits do not matter. -/
theorem nearestBinary_scaled {t : ℕ} (ht : t ≠ 0) (j : ℕ) (scale : ℤ) :
    nearestBinary (t * 10 ^ ((j : ℤ) + scale).toNat) (10 ^ (-((j : ℤ) + scale)).toNat) =
      nearestBinary (t * 10 ^ j * 10 ^ scale.toNat) (10 ^ (-scale).toNat) := by
  have hten : ∀ i, 10 ^ i ≠ 0 := fun i => Nat.pos_iff_ne_zero.1 (Nat.pow_pos (by decide))
  -- the powers that the two fractions have in common
  obtain ⟨i, hnum, hden⟩ : ∃ i : ℕ, j + scale.toNat = i + ((j : ℤ) + scale).toNat ∧
      (-scale).toNat = i + (-((j : ℤ) + scale)).toNat := by
    rcases Int.le_total 0 scale with hscale | hscale
    · exact ⟨0, by omega, by omega⟩
    · exact ⟨min j (-scale).toNat, by omega, by omega⟩
  rw [Nat.mul_assoc, ← Nat.pow_add, hnum, hden, Nat.pow_add, Nat.pow_add, Nat.mul_left_comm]
  exact (nearestBinary_mul (Nat.mul_ne_zero ht (hten _)) (hten _) (hten i)).symm

/-- What rounding answers with is a double. -/
theorem round_round {x y : Decimal} (h : x.round = some y) : y.round = some y := by
  unfold Decimal.round at h
  dsimp only at h
  split_ifs at h with hx hzero hlarge
  · obtain rfl := Option.some.inj h
    rfl
  · obtain rfl := Option.some.inj h
    rfl
  · obtain ⟨⟨s, scale⟩, hshortest, rfl⟩ := Option.map_eq_some_iff.1 h
    by_cases hs : s = 0
    · subst hs
      rfl
    have hbinary := nearestBinary_of_shortest hshortest
    obtain ⟨t, j, rfl, ht⟩ := exists_stripped hs
    dsimp only at hbinary ⊢
    have ht0 : t ≠ 0 := by omega
    rw [← nearestBinary_scaled ht0] at hbinary
    rw [ofScaled_mul x.negative ht]
    have hlength : (digitCodes t).length = (natToString t).length := List.length_map _
    unfold Decimal.round
    dsimp only
    rw [if_neg ht0, hlength,
      show ((natToString t).length : ℤ) + j + scale - (natToString t).length = j + scale by omega,
      hbinary]
    dsimp only
    rw [if_neg hzero, if_neg hlarge, hshortest, Option.map_some, ofScaled_mul x.negative ht,
      hlength]

/-! ### Literals -/

/-- The literal that `Number::toString` prints. -/
def Decimal.literal (x : Decimal) : Literal :=
  if x.digits = 0 then ⟨false, [48], [], none⟩
  else
    let s := digitCodes x.digits
    let k : ℤ := s.length
    let n := x.exponent
    if k ≤ n ∧ n ≤ 21 then ⟨x.negative, s ++ List.replicate (n - k).toNat 48, [], none⟩
    else if 0 < n ∧ n ≤ 21 then ⟨x.negative, s.take n.toNat, s.drop n.toNat, none⟩
    else if -6 < n ∧ n ≤ 0 then ⟨x.negative, [48], List.replicate (-n).toNat 48 ++ s, none⟩
    else ⟨x.negative, s.take 1, s.drop 1, some (!decide (0 < n - 1), digitCodes (n - 1).natAbs)⟩

/-- The decimal that a literal spells. -/
def decimalOf (x : Literal) : Decimal :=
  let power : ℤ :=
    match x.exponent with
    | none => 0
    | some (negative, digits) => if negative then -ofDigits digits else ofDigits digits
  Decimal.ofScaled x.negative (ofDigits (x.whole ++ x.fraction)) (power - x.fraction.length)

theorem decimalOf_literal {x : Decimal} (hx : x.Normal)
    (hzero : x.digits = 0 → x.negative = false) :
    decimalOf x.literal = x := by
  obtain ⟨negative, s, n⟩ := x
  obtain ⟨hexp, hstrip⟩ := hx
  dsimp only at hzero hexp hstrip
  have hscaled (hs : s % 10 ≠ 0) (scale : ℤ) :
      Decimal.ofScaled negative s scale = ⟨negative, s, (digitCodes s).length + scale⟩ := by
    have h := ofScaled_mul negative hs 0 scale
    rw [Nat.pow_zero, Nat.mul_one] at h
    rw [h]
    congr 1
  unfold Decimal.literal
  dsimp only
  split_ifs with hs hint hpoint hsmall
  · subst hs
    rw [hzero rfl, hexp rfl]
    rfl
  · -- an integer: the digits and zeros
    have hvalue := ofDigits_append_zeros (digitCodes s) (n - (digitCodes s).length).toNat
    show Decimal.ofScaled negative (ofDigits (_ ++ [])) (0 - ((0 : ℕ) : ℤ)) = _
    rw [List.append_nil, hvalue, ofDigits_digitCodes, ofScaled_mul negative (hstrip hs)]
    congr 1
    omega
  · -- a point between the digits
    show Decimal.ofScaled negative (ofDigits (_ ++ _))
      (0 - (((digitCodes s).drop n.toNat).length : ℤ)) = _
    rw [List.take_append_drop, ofDigits_digitCodes, hscaled (hstrip hs), List.length_drop]
    congr 1
    omega
  · -- a point before the digits
    show Decimal.ofScaled negative (ofDigits ([48] ++ (_ ++ _)))
      (0 - ((List.replicate (-n).toNat 48 ++ digitCodes s).length : ℤ)) = _
    have hzeros : ofDigits ([48] ++ (List.replicate (-n).toNat 48 ++ digitCodes s)) = s := by
      calc _ = ofDigits (List.replicate (-n).toNat 48 ++ digitCodes s) := ofDigits_zeros_append 1 _
        _ = ofDigits (digitCodes s) := ofDigits_zeros_append _ _
        _ = s := ofDigits_digitCodes s
    rw [hzeros, hscaled (hstrip hs), List.length_append, List.length_replicate]
    congr 1
    omega
  · -- an exponent
    have hpower : (if (!decide (0 < n - 1)) = true then -(ofDigits (digitCodes (n - 1).natAbs) : ℤ)
        else (ofDigits (digitCodes (n - 1).natAbs) : ℤ)) = n - 1 := by
      rw [ofDigits_digitCodes]
      by_cases hpos : 0 < n - 1
      · rw [decide_eq_true hpos, Bool.not_true, if_neg Bool.false_ne_true]
        omega
      · rw [decide_eq_false hpos, Bool.not_false, if_pos rfl]
        omega
    show Decimal.ofScaled negative (ofDigits (_ ++ _))
      ((if (!decide (0 < n - 1)) = true then _ else _) - _) = _
    rw [hpower, List.take_append_drop, ofDigits_digitCodes, hscaled (hstrip hs), List.length_drop]
    have hlength : 0 < (digitCodes s).length := List.length_pos_iff.2 digitCodes_ne_nil
    congr 1
    omega

theorem isDigit_zeros {j c : ℕ} (h : c ∈ List.replicate j 48) : isDigit c = true := by
  obtain rfl := List.eq_of_mem_replicate h
  rfl

/-- It is a literal of the grammar. -/
theorem literal_valid (x : Decimal) : x.literal.Valid := by
  have hlast : ∀ digits : List ℕ, ∀ negative power,
      (none : Option (Bool × List ℕ)) = some (negative, power) →
      power ≠ [] ∧ ∀ c ∈ power, isDigit c = true :=
    fun _ _ _ h => absurd h (Option.some_ne_none _).symm
  unfold Decimal.literal
  split_ifs with hzero
  · exact ⟨by decide, by decide, by decide, by simp, hlast []⟩
  have hhead := head?_digitCodes hzero
  have hdigits : ∀ c ∈ digitCodes x.digits, isDigit c = true := fun c hc => isDigit_of_mem hc
  have hne : digitCodes x.digits ≠ [] := digitCodes_ne_nil
  generalize digitCodes x.digits = s at hhead hdigits hne ⊢
  have htake : ∀ j : ℕ, 0 < j →
      s.take j ≠ [] ∧ ((s.take j).head? = some 48 → (s.take j).length = 1) := by
    intro j hj
    refine ⟨?_, ?_⟩
    · intro hnil
      rcases List.take_eq_nil_iff.1 hnil with h | h
      · omega
      · exact hne h
    · intro h
      rw [List.head?_take, if_neg (by omega)] at h
      exact absurd h hhead
  dsimp only
  split_ifs with hint hpoint hsmall
  · refine ⟨?_, by simp [hne], ?_, by simp, hlast []⟩
    · intro c hc
      rcases List.mem_append.1 hc with hc | hc
      · exact hdigits c hc
      · exact isDigit_zeros hc
    · intro h
      rw [List.head?_append_of_ne_nil _ hne] at h
      exact absurd h hhead
  · obtain ⟨hnil, hfirst⟩ := htake x.exponent.toNat (by omega)
    exact ⟨fun c hc => hdigits c (List.mem_of_mem_take hc), hnil, hfirst,
      fun c hc => hdigits c (List.mem_of_mem_drop hc), hlast []⟩
  · refine ⟨by simp [isDigit], by simp, by simp, ?_, hlast []⟩
    intro c hc
    rcases List.mem_append.1 hc with hc | hc
    · exact isDigit_zeros hc
    · exact hdigits c hc
  · obtain ⟨hnil, hfirst⟩ := htake 1 (by omega)
    refine ⟨fun c hc => hdigits c (List.mem_of_mem_take hc), hnil, hfirst,
      fun c hc => hdigits c (List.mem_of_mem_drop hc), ?_⟩
    intro negative power h
    obtain ⟨-, rfl⟩ := Prod.ext_iff.1 (Option.some.inj h)
    exact ⟨digitCodes_ne_nil, fun c hc => isDigit_of_mem hc⟩

theorem print_negative (negative : Bool) (whole fraction : List ℕ)
    (exponent : Option (Bool × List ℕ)) :
    Literal.print ⟨negative, whole, fraction, exponent⟩ =
      (if negative then [45] else []) ++ Literal.print ⟨false, whole, fraction, exponent⟩ := rfl

/-- It is what `Number::toString` prints. -/
theorem print_literal (x : Decimal) : x.literal.print = x.toString.map UInt16.toNat := by
  obtain ⟨negative, digits, n⟩ := x
  unfold Decimal.literal Decimal.toString
  dsimp only
  by_cases hzero : digits = 0
  · rw [if_pos hzero, if_pos hzero]
    rfl
  rw [if_neg hzero, if_neg hzero]
  have hlength : (digitCodes digits).length = (natToString digits).length := List.length_map _
  have hne : natToString digits ≠ [] :=
    fun h => digitCodes_ne_nil (congrArg (List.map UInt16.toNat) h)
  have hsign : ∀ body : JsString, (if negative = true then 45 :: body else body).map UInt16.toNat =
      (if negative then [45] else []) ++ body.map UInt16.toNat := by
    intro body
    cases negative <;> rfl
  rw [hlength, hsign]
  by_cases hint : ((natToString digits).length : ℤ) ≤ n ∧ n ≤ 21
  · rw [if_pos hint, if_pos hint, print_negative, List.map_append, List.map_replicate]
    congr 1
    show (digitCodes digits ++ List.replicate _ 48) ++ ([] ++ []) = _
    rw [List.append_nil, List.append_nil]
    rfl
  rw [if_neg hint, if_neg hint]
  by_cases hpoint : 0 < n ∧ n ≤ 21
  · have hdrop : (digitCodes digits).drop n.toNat ≠ [] := by
      rw [← List.length_pos_iff, List.length_drop, hlength]
      omega
    rw [if_pos hpoint, if_pos hpoint, print_negative]
    congr 1
    show (digitCodes digits).take n.toNat ++ ((if (digitCodes digits).drop n.toNat = [] then []
      else 46 :: (digitCodes digits).drop n.toNat) ++ []) = _
    rw [if_neg hdrop, List.append_nil, List.map_append, List.map_append, List.map_take,
      List.map_drop, List.append_assoc]
    rfl
  rw [if_neg hpoint, if_neg hpoint]
  by_cases hsmall : -6 < n ∧ n ≤ 0
  · have hfraction : List.replicate (-n).toNat 48 ++ digitCodes digits ≠ [] := by
      simp [digitCodes_ne_nil]
    rw [if_pos hsmall, if_pos hsmall, print_negative]
    congr 1
    show [48] ++ ((if List.replicate (-n).toNat 48 ++ digitCodes digits = [] then []
      else 46 :: (List.replicate (-n).toNat 48 ++ digitCodes digits)) ++ []) = _
    rw [if_neg hfraction, List.append_nil, List.map_append, List.map_append, List.map_replicate]
    rfl
  rw [if_neg hsmall, if_neg hsmall, print_negative]
  congr 1
  have hexponent :
      (101 :: (if (!decide (0 < n - 1)) = true then 45 else 43) ::
        digitCodes (n - 1).natAbs : List ℕ) =
      (text (if 0 < n - 1 then "e+" else "e-") ++ natToString (n - 1).natAbs).map UInt16.toNat := by
    by_cases hpos : 0 < n - 1
    · rw [if_pos hpos, decide_eq_true hpos]
      rfl
    · rw [if_neg hpos, decide_eq_false hpos]
      rfl
  have hpositive : 0 < (natToString digits).length := List.length_pos_iff.2 hne
  have hmantissa : (if (natToString digits).length = 1 then natToString digits
      else (natToString digits).take 1 ++ [46] ++ (natToString digits).drop 1).map UInt16.toNat =
        (digitCodes digits).take 1 ++ if (digitCodes digits).drop 1 = [] then []
          else 46 :: (digitCodes digits).drop 1 := by
    by_cases hone : (natToString digits).length = 1
    · have hdrop : (digitCodes digits).drop 1 = [] := List.drop_eq_nil_of_le (by omega)
      have htake : (digitCodes digits).take 1 = digitCodes digits :=
        List.take_of_length_le (by omega)
      rw [if_pos hone, if_pos hdrop, htake, List.append_nil]
      rfl
    · have hdrop : (digitCodes digits).drop 1 ≠ [] := by
        rw [← List.length_pos_iff, List.length_drop, hlength]
        omega
      rw [if_neg hone, if_neg hdrop, List.map_append, List.map_append, List.map_take, List.map_drop,
        List.append_assoc]
      rfl
  rw [List.append_assoc _ (text _) _, List.map_append, hmantissa, ← hexponent, List.append_assoc]
  rfl

end Js
