import IntentGuard.Js.Double
import Mathlib.Data.List.TakeWhile

/-!
# BigInt(value)

`String.prototype.trim` and `StringToBigInt`: white space around is dropped, nothing left is zero,
and the rest is decimal digits, with a sign or without, or digits after `0x`, `0o` or `0b`. `none`
is the `SyntaxError`. A text of decimal digits reads as the number that they spell
(`stringToBigInt_digits`).

Of a number `BigInt` takes the exact value (`numberToBigInt`).
-/

namespace Js

/-- `WhiteSpace` and `LineTerminator`. -/
def isBlank (u : UInt16) : Bool :=
  let n := u.toNat
  (9 ≤ n ∧ n ≤ 13) ∨ n = 32 ∨ n = 0xA0 ∨ n = 0x1680 ∨ (0x2000 ≤ n ∧ n ≤ 0x200A) ∨ n = 0x2028 ∨
  n = 0x2029 ∨ n = 0x202F ∨
    n = 0x205F ∨ n = 0x3000 ∨ n = 0xFEFF

/-- `s.trim()`. -/
def trim (s : JsString) : JsString := ((s.dropWhile isBlank).reverse.dropWhile isBlank).reverse

/-- A digit and what stands before it. -/
def digitStep (radix : ℕ) (acc : Option ℕ) (u : UInt16) : Option ℕ := do
  let n ← acc
  let d ← hexValue u
  if d < radix then some (n * radix + d) else none

/-- The number that one digit or more spell. -/
def digitsValue (radix : ℕ) (digits : JsString) : Option ℕ :=
  if digits = [] then none else digits.foldl (digitStep radix) (some 0)

/-- The base that `0x`, `0o` and `0b` announce, by their second character. -/
def radixOf (u : UInt16) : Option ℕ :=
  if u = 120 ∨ u = 88 then some 16 else if u = 111 ∨ u = 79 then some 8 else if u = 98 ∨
    u = 66 then some 2 else none

/-- `StrIntegerLiteral`, without the blanks. -/
def integerLiteral (s : JsString) : Option ℤ :=
  match s with
  | [] => some 0
  | u :: rest =>
    if u = 43 then (digitsValue 10 rest).map Int.ofNat
    else if u = 45 then (digitsValue 10 rest).map fun n : ℕ => -(n : ℤ)
    else
      match (if u = 48 then rest.head? >>= radixOf else none) with
      | some radix => (digitsValue radix rest.tail).map Int.ofNat
      | none => (digitsValue 10 s).map Int.ofNat

/-- `BigInt(s)`. -/
def stringToBigInt (s : JsString) : Option ℤ := integerLiteral (trim s)

/-- `BigInt(x)` of an integer from zero on: the double nearest to what its shortest digits spell. -/
def numberToBigInt (x : Decimal) : ℕ :=
  toNumber (x.digits * 10 ^ (x.exponent - (natToString x.digits).length).toNat)

example : stringToBigInt (text " 0015 ") = some 15 := by decide

example : stringToBigInt (text "0xFf") = some 255 := by decide

example : stringToBigInt (text "-7") = some (-7) := by decide

example : stringToBigInt (text "1.5") = none := by decide

example : numberToBigInt ⟨false, 1, 24⟩ = 99999999999999991611392 := by decide +kernel

/-! ### Decimal digits -/

theorem trim_blanks {before s after : JsString} (hbefore : ∀ u ∈ before, isBlank u = true)
    (hs : ∀ u ∈ s, isBlank u = false) (hafter : ∀ u ∈ after, isBlank u = true) (hne : s ≠ []) :
    trim (before ++ s ++ after) = s := by
  have hdrop : ∀ {blanks rest : JsString}, (∀ u ∈ blanks, isBlank u = true) →
      (∀ u ∈ rest.head?, isBlank u = false) →
      (blanks ++ rest).dropWhile isBlank = rest := by
    intro blanks rest hblanks hrest
    rw [List.dropWhile_append_of_pos hblanks]
    cases rest with
    | nil => rfl
    | cons u rest => rw [List.dropWhile_cons, if_neg (by simp [hrest u rfl])]
  have hhead : ∀ {s' : JsString}, s' ≠ [] → (∀ u ∈ s', isBlank u = false) →
      ∀ rest, ∀ u ∈ (s' ++ rest).head?,
      isBlank u = false := by
    intro s' hne' hs' rest u hu
    cases s' with
    | nil => exact absurd rfl hne'
    | cons v s' =>
      obtain rfl := Option.some.inj hu
      exact hs' _ List.mem_cons_self
  unfold trim
  rw [List.append_assoc, hdrop hbefore (hhead hne hs after), List.reverse_append,
    hdrop (fun u hu => hafter u (List.mem_reverse.1 hu)), List.reverse_reverse]
  have hreversed :=
    hhead (List.reverse_ne_nil_iff.2 hne) (fun u hu => hs u (List.mem_reverse.1 hu)) []
  rwa [List.append_nil] at hreversed

/-- What `trim` drops. -/
theorem exists_trim (s : JsString) :
    ∃ before after, s = before ++ trim s ++ after ∧ (∀ u ∈ before, isBlank u = true) ∧ ∀ u ∈ after,
      isBlank u = true := by
  have htake : ∀ {t : JsString}, ∀ u ∈ t.takeWhile isBlank, isBlank u = true :=
    fun u hu => List.mem_takeWhile_imp hu
  refine ⟨s.takeWhile isBlank, ((s.dropWhile isBlank).reverse.takeWhile isBlank).reverse,
    ?_, htake, ?_⟩
  · have hrest : trim s ++ ((s.dropWhile isBlank).reverse.takeWhile isBlank).reverse =
        s.dropWhile isBlank := by
      unfold trim
      rw [← List.reverse_append, List.takeWhile_append_dropWhile, List.reverse_reverse]
    rw [List.append_assoc, hrest, List.takeWhile_append_dropWhile]
  · intro u hu
    exact htake u (List.mem_reverse.1 hu)

theorem dropWhile_isBlank_eq_self_iff {s : JsString} :
    s.dropWhile isBlank = s ↔ ∀ u ∈ s.head?, isBlank u = false := by
  rw [List.dropWhile_eq_self_iff]
  cases s with
  | nil => exact iff_of_true nofun nofun
  | cons u s => simp

theorem trim_eq_self_iff {s : JsString} :
    trim s = s ↔ (∀ u ∈ s.head?, isBlank u = false) ∧ ∀ u ∈ s.getLast?, isBlank u = false := by
  have hlast : s.reverse.dropWhile isBlank = s.reverse ↔ ∀ u ∈ s.getLast?, isBlank u = false := by
    rw [dropWhile_isBlank_eq_self_iff, List.head?_reverse]
  rw [← dropWhile_isBlank_eq_self_iff, ← hlast]
  unfold trim
  constructor
  · intro h
    have hfirst : s.dropWhile isBlank = s := by
      refine (List.dropWhile_sublist isBlank).eq_of_length_le ?_
      have hlength :=
        (List.dropWhile_sublist isBlank (l := (s.dropWhile isBlank).reverse)).length_le
      rwa [← List.length_reverse, h, List.length_reverse] at hlength
    rw [hfirst] at h
    exact ⟨hfirst, List.reverse_eq_iff.1 h⟩
  · rintro ⟨hfirst, hlast⟩
    rw [hfirst, hlast, List.reverse_reverse]

section
variable {s : JsString} (hs : ∀ u ∈ s, 48 ≤ u.toNat ∧ u.toNat ≤ 57)

include hs

/-- Decimal digits are the digits of their number after some zeros. -/
theorem exists_zeros_append (hne : s ≠ []) :
    ∃ zeros, s = List.replicate zeros 48 ++ natToString (ofDigits (s.map UInt16.toNat)) := by
  induction s using List.reverseRecOn with
  | nil => exact absurd rfl hne
  | append_singleton s u ih =>
    obtain ⟨hlow, hhigh⟩ := hs u (List.mem_append_right _ (List.mem_singleton_self u))
    have hdigit : natToString (u.toNat - 48) = [u] := by
      unfold natToString decimalDigits
      rw [if_pos (by omega), List.nil_append, Nat.mod_eq_of_lt (by omega), Nat.add_sub_cancel' hlow,
        UInt16.ofNat_toNat]
    rw [List.map_append, List.map_singleton, ofDigits_concat]
    by_cases hnil : s = []
    · subst hnil
      refine ⟨0, ?_⟩
      rw [List.map_nil, show ofDigits [] = 0 from rfl, Nat.zero_mul, Nat.zero_add, hdigit]
      rfl
    · obtain ⟨zeros, heq⟩ := ih (fun v hv => hs v (List.mem_append_left _ hv)) hnil
      generalize ofDigits (s.map UInt16.toNat) = n at heq
      subst heq
      cases n with
      | zero =>
        refine ⟨zeros + 1, ?_⟩
        rw [Nat.zero_mul, Nat.zero_add, hdigit, List.replicate_succ',
          show natToString 0 = [48] from rfl]
      | succ n =>
        refine ⟨zeros, ?_⟩
        rw [natToString_concat (Nat.succ_ne_zero n) (by omega), Nat.add_sub_cancel' hlow,
          UInt16.ofNat_toNat, List.append_assoc]

theorem not_blank_of_digits : ∀ u ∈ s, isBlank u = false := by
  intro u hu
  obtain ⟨hlow, hhigh⟩ := hs u hu
  unfold isBlank
  simp only [decide_eq_false_iff_not]
  omega

theorem digitsValue_eq (hne : s ≠ []) :
    digitsValue 10 s = some (ofDigits (s.map UInt16.toNat)) := by
  have hfold : ∀ acc, s.foldl (digitStep 10) (some acc) =
      some ((s.map UInt16.toNat).foldl (fun n c => n * 10 + (c - 48)) acc) := by
    clear hne
    induction s with
    | nil => exact fun acc => rfl
    | cons u s ih =>
      intro acc
      rw [List.forall_mem_cons] at hs
      obtain ⟨hlow, hhigh⟩ := hs.1
      have hstep : digitStep 10 (some acc) u = some (acc * 10 + (u.toNat - 48)) := by
        have hvalue : hexValue u = some (u.toNat - 48) := if_pos ⟨hlow, hhigh⟩
        simp only [digitStep, hvalue, bind, Option.bind]
        rw [if_pos (by omega)]
      rw [List.foldl_cons, hstep, ih hs.2]
      rfl
  rw [digitsValue, if_neg hne]
  exact hfold 0

theorem stringToBigInt_digits (hne : s ≠ []) :
    stringToBigInt s = some (ofDigits (s.map UInt16.toNat) : ℤ) := by
  have htrim : trim s = s := by
    have hnone : ∀ u ∈ ([] : JsString), isBlank u = true := fun u hu => absurd hu List.not_mem_nil
    have htrim := trim_blanks hnone (not_blank_of_digits hs) hnone hne
    rwa [List.nil_append, List.append_nil] at htrim
  have hvalue := digitsValue_eq hs hne
  unfold stringToBigInt
  rw [htrim]
  cases s with
  | nil => exact absurd rfl hne
  | cons u rest =>
    rw [List.forall_mem_cons] at hs
    have hdigit : ∀ n : UInt16, n.toNat < 48 ∨ 57 < n.toNat → ∀ v : UInt16, 48 ≤ v.toNat ∧
        v.toNat ≤ 57 → v ≠ n := by
      intro n hn v hv heq
      subst heq
      omega
    have hradix : (if u = 48 then rest.head? >>= radixOf else none) = none := by
      split_ifs
      · cases rest with
        | nil => rfl
        | cons v rest =>
          have hv := hs.2 v List.mem_cons_self
          show radixOf v = none
          unfold radixOf
          rw [if_neg, if_neg, if_neg]
          all_goals
            rintro (h | h)
            · exact hdigit _ (by decide) v hv h
            · exact hdigit _ (by decide) v hv h
      · rfl
    unfold integerLiteral
    dsimp only
    rw [if_neg (hdigit 43 (by decide) u hs.1), if_neg (hdigit 45 (by decide) u hs.1),
      hradix, hvalue]
    rfl

end

end Js
