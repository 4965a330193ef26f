import IntentGuard.Js.Unicode
import IntentGuard.Lib.Machines

/-!
# The UTF-8 decoder

The decoder of the platform's streams, byte by byte. What is no UTF-8 becomes U+FFFD, and a byte
that cannot continue a character begins the next one. `feed_encode`: what `TextEncoder` writes is
read back, a lone surrogate as U+FFFD.
-/

namespace Js

open Machines

/-- The character so far, how many bytes it still needs, and the bounds of the next one. -/
structure Utf8Decoder where
  codePoint : ℕ
  bytesNeeded : ℕ
  lowerBoundary : ℕ
  upperBoundary : ℕ

namespace Utf8Decoder

def init : Utf8Decoder := ⟨0, 0, 0x80, 0xBF⟩

/-- The first byte of a character. -/
def start (b : ℕ) : Utf8Decoder × List ℕ :=
  if b < 0x80 then (init, [b])
  else if 0xC2 ≤ b ∧ b ≤ 0xDF then (⟨b % 32, 1, 0x80, 0xBF⟩, [])
  else if 0xE0 ≤ b ∧ b ≤ 0xEF then
    (⟨b % 16, 2, if b = 0xE0 then 0xA0 else 0x80, if b = 0xED then 0x9F else 0xBF⟩, [])
  else if 0xF0 ≤ b ∧ b ≤ 0xF4 then
    (⟨b % 8, 3, if b = 0xF0 then 0x90 else 0x80, if b = 0xF4 then 0x8F else 0xBF⟩, [])
  else (init, [0xFFFD])

def read (d : Utf8Decoder) (byte : UInt8) : Utf8Decoder × List ℕ :=
  let b := byte.toNat
  if d.bytesNeeded = 0 then start b
  else if b < d.lowerBoundary ∨ d.upperBoundary < b then
    let r := start b
    (r.1, 0xFFFD :: r.2)
  else
    let c := d.codePoint * 64 + b % 64
    if d.bytesNeeded = 1 then (init, [c]) else (⟨c, d.bytesNeeded - 1, 0x80, 0xBF⟩, [])

example : (feed read init [0xE2, 0x82, 0x41, 0xC0, 0xC3, 0xA9]).2 =
    [0xFFFD, 0x41, 0xFFFD, 0xE9] := by decide

theorem toNat_ofNat {n : ℕ} (h : n < 256) : (UInt8.ofNat n).toNat = n := by
  rw [UInt8.toNat_ofNat']
  exact Nat.mod_eq_of_lt h

/-- A byte that continues a character. -/
theorem read_continuation {c n lower upper k : ℕ} (hk : k < 64) (hlower : lower ≤ 0x80 + k)
    (hupper : 0x80 + k ≤ upper) :
    read ⟨c, n + 1, lower, upper⟩ (UInt8.ofNat (0x80 + k)) =
      if n = 0 then (init, [c * 64 + k]) else (⟨c * 64 + k, n, 0x80, 0xBF⟩, []) := by
  have hmod : (0x80 + k) % 64 = k := by omega
  unfold read
  rw [toNat_ofNat (by omega)]
  simp only [hmod, Nat.add_eq_right, Nat.add_sub_cancel]
  rw [if_neg (by omega), if_neg (by omega)]

theorem feed_utf8Bytes {c : ℕ} (hscalar : c < 0xD800 ∨ 0xDFFF < c) (hc : c < 0x110000) :
    feed read init (utf8Bytes c) = (init, [c]) := by
  have hfirst : ∀ b, b < 256 → read init (UInt8.ofNat b) = start b := fun b hb => by
    unfold read
    rw [toNat_ofNat hb]
    rfl
  unfold utf8Bytes
  split_ifs with h1 h2 h3
  · rw [feed_cons, hfirst c (by omega), start, if_pos h1]
    rfl
  · have hstart : start (0xC0 + c / 64) = (⟨c / 64, 1, 0x80, 0xBF⟩, []) := by
      rw [start, if_neg (by omega), if_pos (by omega)]
      simp only [Prod.mk.injEq, mk.injEq, and_true, and_self]
      omega
    rw [feed_cons, hfirst _ (by omega), hstart, feed_cons,
      read_continuation (by omega) (by omega) (by omega), if_pos rfl]
    simp only [feed_nil, List.nil_append, List.append_nil, Prod.mk.injEq, List.cons.injEq,
      and_true, true_and]
    omega
  · have hstart : start (0xE0 + c / 4096) =
        (⟨c / 4096, 2, if c / 4096 = 0 then 0xA0 else 0x80, if c / 4096 = 13 then 0x9F else 0xBF⟩,
          []) := by
      rw [start, if_neg (by omega), if_neg (by omega), if_pos (by omega)]
      simp only [Prod.mk.injEq, mk.injEq, and_true, true_and]
      refine ⟨by omega, ?_, ?_⟩ <;> congr 1 <;> simp only [eq_iff_iff] <;> omega
    rw [feed_cons, hfirst _ (by omega), hstart, feed_cons,
      read_continuation (by omega) (by split_ifs <;> omega) (by split_ifs <;> omega),
      if_neg (by omega), feed_cons,
      read_continuation (by omega) (by omega) (by omega), if_pos rfl]
    simp only [feed_nil, List.nil_append, List.append_nil, Prod.mk.injEq, List.cons.injEq,
      and_true, true_and]
    omega
  · have hstart : start (0xF0 + c / 262144) =
        (⟨c / 262144, 3, if c / 262144 = 0 then 0x90 else 0x80, if c / 262144 = 4 then 0x8F
          else 0xBF⟩, []) := by
      rw [start, if_neg (by omega), if_neg (by omega), if_neg (by omega), if_pos (by omega)]
      simp only [Prod.mk.injEq, mk.injEq, and_true, true_and]
      refine ⟨by omega, ?_, ?_⟩ <;> congr 1 <;> simp only [eq_iff_iff] <;> omega
    rw [feed_cons, hfirst _ (by omega), hstart, feed_cons,
      read_continuation (by omega) (by split_ifs <;> omega) (by split_ifs <;> omega),
      if_neg (by omega), feed_cons,
      read_continuation (by omega) (by omega) (by omega), if_neg (by omega), feed_cons,
      read_continuation (by omega) (by omega) (by omega), if_pos rfl]
    simp only [feed_nil, List.nil_append, List.append_nil, Prod.mk.injEq, List.cons.injEq,
      and_true, true_and]
    omega

end Utf8Decoder

/-- The code points of a string are no surrogates. -/
theorem codePoints_scalar (s : JsString) : ∀ c ∈ codePoints s, c < 0xD800 ∨ 0xDFFF < c := by
  have hunit : ∀ u : UInt16, ¬ (isHighSurrogate u || isLowSurrogate u) = true → u.toNat < 0xD800 ∨
      0xDFFF < u.toNat := by
    intro u hu
    simp only [isHighSurrogate, isLowSurrogate, Bool.or_eq_true, Bool.and_eq_true,
      decide_eq_true_eq] at hu
    omega
  fun_induction codePoints s with
  | case1 => exact fun c hc => absurd hc List.not_mem_nil
  | case2 u =>
    intro c hc
    rw [List.mem_singleton.1 hc]
    split_ifs with h
    · decide
    · exact hunit u h
  | case3 u v rest hu hv ih =>
    refine List.forall_mem_cons.2 ⟨.inr ?_, ih⟩
    omega
  | case4 u v rest hu hv ih => exact List.forall_mem_cons.2 ⟨by decide, ih⟩
  | case5 u v rest hu ih =>
    refine List.forall_mem_cons.2 ⟨?_, ih⟩
    split_ifs with h
    · decide
    · exact hunit u (by simp [hu, h])

theorem feed_encode (s : JsString) :
    feed Utf8Decoder.read .init (encode s) = (.init, codePoints s) :=
  feed_flatMap fun c hc =>
    Utf8Decoder.feed_utf8Bytes (codePoints_scalar s c hc) (codePoints_lt s c hc)

end Js
