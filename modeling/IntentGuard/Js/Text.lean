import IntentGuard.Lib.Hashing
import Mathlib.Tactic.Ring

/-!
# JavaScript strings

A JavaScript string is a list of UTF-16 code units, not necessarily well formed: a JSON text can
spell a lone surrogate. Here are the operations of the language and its standard library that the
services use on them: the order of `<`, the UTF-8 encoding of `TextEncoder` (a lone surrogate
becomes U+FFFD), the quoting of `JSON.stringify`, and the test for a hexadecimal literal together
with the number it spells.
-/

namespace Js

abbrev JsString := List UInt16

/-- A literal; every literal here is ASCII. -/
def text (s : String) : JsString := s.toList.map fun c => UInt16.ofNat c.toNat

/-- `a <= b` of two strings: by code unit, the shorter first. -/
def le (a b : JsString) : Bool := decide (a ≤ b)

namespace le

theorem total (a b : JsString) : le a b ∨ le b a := by
  rcases List.le_total a b with h | h
  · exact .inl (decide_eq_true h)
  · exact .inr (decide_eq_true h)

theorem trans (a b c : JsString) (hab : le a b) (hbc : le b c) : le a c :=
  decide_eq_true (List.le_trans (of_decide_eq_true hab) (of_decide_eq_true hbc))

theorem antisymm (a b : JsString) (hab : le a b) (hba : le b a) : a = b :=
  List.le_antisymm (of_decide_eq_true hab) (of_decide_eq_true hba)

end le

/-! ### TextEncoder -/

def isHighSurrogate (u : UInt16) : Bool := 0xD800 ≤ u.toNat && u.toNat < 0xDC00

def isLowSurrogate (u : UInt16) : Bool := 0xDC00 ≤ u.toNat && u.toNat < 0xE000

/-- The UTF-8 bytes of a code point. -/
def utf8Bytes (c : ℕ) : Bytes :=
  if c < 0x80 then [UInt8.ofNat c]
  else if c < 0x800 then [UInt8.ofNat (0xC0 + c / 64), UInt8.ofNat (0x80 + c % 64)]
  else if c < 0x10000 then
    [UInt8.ofNat (0xE0 + c / 4096), UInt8.ofNat (0x80 + c / 64 % 64), UInt8.ofNat (0x80 + c % 64)]
  else
    [UInt8.ofNat (0xF0 + c / 262144), UInt8.ofNat (0x80 + c / 4096 % 64),
      UInt8.ofNat (0x80 + c / 64 % 64), UInt8.ofNat (0x80 + c % 64)]

/-- The code points of a string. -/
def codePoints : JsString → List ℕ
  | [] => []
  | [u] => [if isHighSurrogate u || isLowSurrogate u then 0xFFFD else u.toNat]
  | u :: v :: rest =>
    if isHighSurrogate u then
      if isLowSurrogate v then
        (0x10000 + (u.toNat - 0xD800) * 0x400 + (v.toNat - 0xDC00)) :: codePoints rest
      else 0xFFFD :: codePoints (v :: rest)
    else (if isLowSurrogate u then 0xFFFD else u.toNat) :: codePoints (v :: rest)

/-- `new TextEncoder().encode(s)`, and `stringToBytes(s)`. -/
def encode (s : JsString) : Bytes := (codePoints s).flatMap utf8Bytes

/-! ### Quoting -/

/-- A digit `0-9a-f`. -/
def hexDigit (d : ℕ) : UInt16 := UInt16.ofNat (if d < 10 then 48 + d else 87 + d)

/-- `\uXXXX`. -/
def unicodeEscape (u : UInt16) : JsString :=
  [92, 117, hexDigit (u.toNat / 4096), hexDigit (u.toNat / 256 % 16), hexDigit (u.toNat / 16 % 16),
    hexDigit (u.toNat % 16)]

/-- A code unit inside a quoted string; `paired` says whether it is half of a surrogate pair. -/
def quoteUnit (u : UInt16) (paired : Bool) : JsString :=
  if u = 8 then [92, 98]
  else if u = 9 then [92, 116]
  else if u = 10 then [92, 110]
  else if u = 12 then [92, 102]
  else if u = 13 then [92, 114]
  else if u = 34 then [92, 34]
  else if u = 92 then [92, 92]
  else if u.toNat < 0x20 || ((isHighSurrogate u || isLowSurrogate u) && !paired) then
    unicodeEscape u
  else [u]

def quoteBody : JsString → JsString
  | [] => []
  | [u] => quoteUnit u false
  | u :: v :: rest =>
    if isHighSurrogate u && isLowSurrogate v then
      quoteUnit u true ++ quoteUnit v true ++ quoteBody rest
    else quoteUnit u false ++ quoteBody (v :: rest)

/-- `JSON.stringify(s)` of a string. -/
def quote (s : JsString) : JsString := 34 :: (quoteBody s ++ [34])

/-! ### Hexadecimal literals -/

/-- The value of a digit `[0-9a-fA-F]`. -/
def hexValue (u : UInt16) : Option ℕ :=
  let n := u.toNat
  if 48 ≤ n ∧ n ≤ 57 then some (n - 48)
  else if 97 ≤ n ∧ n ≤ 102 then some (n - 87)
  else if 65 ≤ n ∧ n ≤ 70 then some (n - 55)
  else none

/-- The number that `s` spells when it matches `^0x[0-9a-fA-F]{n}$`. -/
def hexLiteral (n : ℕ) : JsString → Option ℕ
  | 48 :: 120 :: digits =>
    if digits.length = n then
      digits.foldl (fun acc u => do pure ((← acc) * 16 + (← hexValue u))) (some 0)
    else none
  | _ => none

/-- A literal of `n` digits for a value. -/
def toHex (n value : ℕ) : JsString :=
  [48, 120] ++ ((List.range n).reverse.map fun i => hexDigit (value / 16 ^ i % 16))

theorem toNat_hexDigit {d : ℕ} (h : d < 16) :
    (hexDigit d).toNat = if d < 10 then 48 + d else 87 + d := by
  unfold hexDigit
  rw [UInt16.toNat_ofNat']
  apply Nat.mod_eq_of_lt
  split_ifs <;> omega

theorem hexValue_hexDigit {d : ℕ} (h : d < 16) : hexValue (hexDigit d) = some d := by
  unfold hexValue
  rw [toNat_hexDigit h]
  dsimp only
  split_ifs <;> first | omega | (congr 1; omega)

theorem foldl_hexDigits (value : ℕ) (n acc : ℕ) :
    ((List.range n).reverse.map fun i => hexDigit (value / 16 ^ i % 16)).foldl
        (fun acc u => do pure ((← acc) * 16 + (← hexValue u))) (some acc) =
      some (acc * 16 ^ n + value % 16 ^ n) := by
  induction n generalizing acc with
  | zero => simp [Nat.mod_one]
  | succ n ih =>
    rw [List.range_succ, List.reverse_append, List.reverse_singleton, List.singleton_append,
      List.map_cons, List.foldl_cons]
    have hstep :
        (do pure ((← some acc) * 16 + (← hexValue (hexDigit (value / 16 ^ n % 16)))) : Option ℕ) =
        some (acc * 16 + value / 16 ^ n % 16) := by
      rw [hexValue_hexDigit (Nat.mod_lt _ (by decide))]
      rfl
    rw [hstep, ih]
    congr 1
    rw [Nat.pow_succ, Nat.mod_mul]
    ring

theorem hexLiteral_toHex {n value : ℕ} (h : value < 16 ^ n) :
    hexLiteral n (toHex n value) = some value := by
  have hfold := foldl_hexDigits value n 0
  rw [Nat.zero_mul, Nat.zero_add, Nat.mod_eq_of_lt h] at hfold
  show (if ((List.range n).reverse.map _).length = n then _ else none) = _
  rw [if_pos (by simp)]
  exact hfold

theorem hexLiteral_lt {n value : ℕ} {s : JsString} (h : hexLiteral n s = some value) :
    value < 16 ^ n := by
  have hdigit : ∀ {u d}, hexValue u = some d → d < 16 := by
    intro u d hd
    unfold hexValue at hd
    dsimp only at hd
    split_ifs at hd <;> (obtain rfl := Option.some.inj hd; omega)
  have hfold : ∀ (digits : JsString) (acc : Option ℕ) (k : ℕ), (∀ a ∈ acc, a < 16 ^ k) →
      ∀ v ∈ digits.foldl (fun acc u => do pure ((← acc) * 16 + (← hexValue u))) acc,
        v < 16 ^ (k + digits.length) := by
    intro digits
    induction digits with
    | nil => exact fun acc k hacc => hacc
    | cons u digits ih =>
      intro acc k hacc
      rw [List.foldl_cons, List.length_cons, Nat.add_comm digits.length, ← Nat.add_assoc]
      apply ih
      intro a ha
      obtain ⟨b, hb, ha⟩ := Option.bind_eq_some_iff.1 ha
      obtain ⟨d, hd, ha⟩ := Option.bind_eq_some_iff.1 ha
      obtain rfl := Option.some.inj ha
      have hb := hacc b hb
      have hd := hdigit hd
      rw [Nat.pow_succ]
      omega
  unfold hexLiteral at h
  split at h
  · rename_i digits
    split_ifs at h with hlength
    have hlt :=
      hfold digits (some 0) 0 (fun a ha => by rw [← Option.some.inj ha]; exact Nat.one_pos) value h
    rwa [Nat.zero_add, hlength] at hlt
  · exact absurd h (by simp)

theorem toHex_inj {n value value' : ℕ} (h : value < 16 ^ n) (h' : value' < 16 ^ n) :
    toHex n value = toHex n value' ↔ value = value' := by
  constructor
  · intro heq
    have hread := hexLiteral_toHex h
    rw [heq, hexLiteral_toHex h'] at hread
    exact (Option.some.inj hread).symm
  · exact congrArg (toHex n)

/-- A word has 64 digits. -/
theorem word_lt_digits {word : ℕ} (h : word < 2 ^ 256) : word < 16 ^ 64 := by
  rw [show 16 ^ 64 = 2 ^ 256 by decide]
  exact h

/-! ### Letter case -/

/-- `s.toLowerCase()` of a text in ASCII. -/
def toLowerCase (s : JsString) : JsString :=
  s.map fun u => if 65 ≤ u.toNat ∧ u.toNat ≤ 90 then u + 32 else u

theorem toLowerCase_toLowerCase (s : JsString) : toLowerCase (toLowerCase s) = toLowerCase s := by
  unfold toLowerCase
  rw [List.map_map]
  apply List.map_congr_left
  intro u _
  have hshift : u.toNat ≤ 90 → (u + 32).toNat = u.toNat + 32 := by
    intro hu
    rw [UInt16.toNat_add]
    exact Nat.mod_eq_of_lt (show u.toNat + 32 < 65536 by omega)
  rw [Function.comp_apply]
  split_ifs with hupper hshifted
  · rw [hshift hupper.2] at hshifted
    omega
  · rfl
  · rfl

/-- The digits of `toHex` are in lower case. -/
theorem toLowerCase_toHex (n value : ℕ) : toLowerCase (toHex n value) = toHex n value := by
  unfold toLowerCase toHex
  rw [List.map_append, List.map_map]
  congr 1
  apply List.map_congr_left
  intro i _
  rw [Function.comp_apply, if_neg]
  rw [toNat_hexDigit (Nat.mod_lt _ (by decide))]
  split_ifs <;> omega

theorem lowerCase_of_hexValue {u : UInt16} {d : ℕ} (h : hexValue u = some d) :
    d < 16 ∧ (if 65 ≤ u.toNat ∧ u.toNat ≤ 90 then u + 32 else u) = hexDigit d := by
  unfold hexValue at h
  dsimp only at h
  split_ifs at h with hdigit hlower hupper
  · obtain rfl := Option.some.inj h
    have hd : u.toNat - 48 < 16 := by omega
    refine ⟨hd, ?_⟩
    rw [if_neg (by omega)]
    apply UInt16.toNat_inj.1
    rw [toNat_hexDigit hd, if_pos (by omega)]
    omega
  · obtain rfl := Option.some.inj h
    have hd : u.toNat - 87 < 16 := by omega
    refine ⟨hd, ?_⟩
    rw [if_neg (by omega)]
    apply UInt16.toNat_inj.1
    rw [toNat_hexDigit hd, if_neg (by omega)]
    omega
  · obtain rfl := Option.some.inj h
    have hd : u.toNat - 55 < 16 := by omega
    refine ⟨hd, ?_⟩
    rw [if_pos (by omega)]
    apply UInt16.toNat_inj.1
    rw [toNat_hexDigit hd, if_neg (by omega), UInt16.toNat_add]
    show (u.toNat + 32) % 65536 = _
    omega

/-- A literal is the one of its value, up to letter case. -/
theorem toLowerCase_of_hexLiteral {n value : ℕ} {s : JsString} (h : hexLiteral n s = some value) :
    toLowerCase s = toHex n value := by
  have hdigits : ∀ (digits : JsString) (value : ℕ),
      digits.foldl (fun acc u => do pure ((← acc) * 16 + (← hexValue u))) (some 0) = some value →
        toLowerCase digits = (List.range digits.length).reverse.map fun i =>
          hexDigit (value / 16 ^ i % 16) := by
    intro digits
    induction digits using List.reverseRecOn with
    | nil => exact fun _ _ => rfl
    | append_singleton digits u ih =>
      intro value h
      rw [List.foldl_append] at h
      obtain ⟨value₀, hvalue₀, h⟩ := Option.bind_eq_some_iff.1 h
      obtain ⟨d, hd, h⟩ := Option.bind_eq_some_iff.1 h
      obtain rfl := Option.some.inj h
      obtain ⟨hlt, hunit⟩ := lowerCase_of_hexValue hd
      have hlast : (value₀ * 16 + d) / 16 ^ 0 % 16 = d := by omega
      have hothers (i : ℕ) : (value₀ * 16 + d) / 16 ^ (i + 1) % 16 = value₀ / 16 ^ i % 16 := by
        rw [Nat.pow_succ', ← Nat.div_div_eq_div_mul, show (value₀ * 16 + d) / 16 = value₀ by omega]
      have ih := ih value₀ hvalue₀
      unfold toLowerCase at ih ⊢
      rw [List.map_append, ih, List.length_append, List.length_singleton, List.range_succ_eq_map,
        List.reverse_cons, List.map_append, ← List.map_reverse, List.map_map]
      simp only [Function.comp_def, hothers, hlast, List.map_singleton, hunit]
  unfold hexLiteral at h
  split at h
  · rename_i digits
    split_ifs at h with hlength
    show [48, 120] ++ toLowerCase digits = _
    rw [hdigits digits value h, hlength]
    rfl
  · exact absurd h (by simp)

example : hexLiteral 4 (toHex 4 48879) = some 48879 := by decide

example : quote [97, 34, 10, 0xD800] = text "\"a\\\"\\n\\ud800\"" := by decide

end Js
