import IntentGuard.Trace.CrossLanguage

/-!
# Parity of the two languages

The canonical document of an accepted trace, handed to `trace.py`.

`python_agrees_iff`: `canonical` writes the same text and `digest` the same digest exactly when the
trace is `portable`.
-/

namespace IntentGuard.Trace

open Js Infra JsonText SortedEntries

/-! ### The digest -/

/-- Digit `i` does not depend on what stands above it. -/
theorem digit_add_mul {i n : ℕ} (h : i < n) (v m : ℕ) :
    (v + 16 ^ n * m) / 16 ^ i % 16 = v / 16 ^ i % 16 := by
  have hsplit : 16 ^ n * m = 16 ^ i * (16 * (16 ^ (n - i - 1) * m)) := by
    rw [← Nat.mul_assoc 16, ← Nat.pow_succ', ← Nat.mul_assoc, ← Nat.pow_add,
      show i + (n - i - 1 + 1) = n by omega]
  rw [hsplit, Nat.add_mul_div_left _ _ (Nat.pow_pos (by decide)), Nat.add_mul_mod_self_left]

/-- The digits of a number are those of its bytes, the first byte the highest. -/
theorem hex_eq (data : Bytes) :
    Python.hex data = (List.range (2 * data.length)).reverse.map fun i =>
      JsonText.hexDigit (Nat.ofDigits 256 (data.reverse.map UInt8.toNat) / 16 ^ i % 16) := by
  induction data with
  | nil => rfl
  | cons b data ih =>
    have hdigits : ∀ x ∈ data.reverse.map UInt8.toNat, x < 256 := by
      intro x hx
      obtain ⟨c, -, rfl⟩ := List.mem_map.1 hx
      exact c.toNat_lt
    have hlt := Nat.ofDigits_lt_base_pow_length (by decide) hdigits
    have hvalue : Nat.ofDigits 256 ((b :: data).reverse.map UInt8.toNat) =
        Nat.ofDigits 256 (data.reverse.map UInt8.toNat) + 16 ^ (2 * data.length) * b.toNat := by
      rw [List.reverse_cons, List.map_append, Nat.ofDigits_append, List.length_map,
        List.length_reverse, Nat.pow_mul]
      simp
    rw [List.length_map, List.length_reverse, show 256 = 16 ^ 2 by decide, ← Nat.pow_mul] at hlt
    rw [hvalue, List.length_cons, Nat.mul_succ, List.range_succ, List.range_succ,
      List.reverse_append, List.reverse_append, List.reverse_singleton, List.reverse_singleton,
      List.singleton_append, List.singleton_append,
      List.map_cons, List.map_cons]
    generalize Nat.ofDigits 256 (data.reverse.map UInt8.toNat) = v at ih hlt
    have hrest : (List.range (2 * data.length)).reverse.map (fun i =>
        JsonText.hexDigit ((v + 16 ^ (2 * data.length) * b.toNat) / 16 ^ i % 16)) =
          Python.hex data := by
      rw [ih]
      apply List.map_congr_left
      intro i hi
      rw [digit_add_mul (List.mem_range.1 (List.mem_reverse.1 hi))]
    have hlow : (v + 16 ^ (2 * data.length) * b.toNat) / 16 ^ (2 * data.length) = b.toNat := by
      rw [Nat.add_mul_div_left _ _ (Nat.pow_pos (by decide)), Nat.div_eq_of_lt hlt, Nat.zero_add]
    have hhigh : (v + 16 ^ (2 * data.length) * b.toNat) / 16 ^ (2 * data.length + 1) % 16 =
        b.toNat / 16 := by
      have hbyte := b.toNat_lt
      rw [Nat.pow_succ, ← Nat.div_div_eq_div_mul, hlow]
      omega
    rw [hrest, hlow, hhigh]
    rfl

/-- The hexadecimal digest is the same text in both languages. -/
theorem codePoints_toHex_word (data : Bytes) :
    codePoints (toHex 64 (Keccak256.word data)) = Python.ascii "0x" ++
    Python.hex (Keccak256.keccak256 data) := by
  have hlow : ∀ u ∈ toHex 64 (Keccak256.word data), isHighSurrogate u = false ∧
      isLowSurrogate u = false := by
    intro u hu
    apply not_surrogate_of_low
    have hmarker : ∀ v ∈ ([48, 120] : JsString), v.toNat < 0xD800 := forall_low (by decide)
    rcases List.mem_append.1 hu with hu | hu
    · exact hmarker u hu
    · obtain ⟨i, -, rfl⟩ := List.mem_map.1 hu
      rw [toNat_hexDigit (Nat.mod_lt _ (by decide))]
      split_ifs <;> omega
  have hlength : (Keccak256.keccak256 data).length = 32 := by simp [Keccak256.keccak256]
  rw [codePoints_of_forall hlow, hex_eq, hlength]
  unfold toHex
  rw [List.map_append, List.map_map]
  congr 1
  apply List.map_congr_left
  intro i _
  exact toNat_hexDigit (Nat.mod_lt _ (by decide))

/-- The code points of a well-formed text are encoded without an error. -/
theorem encodeUtf8_codePoints {s : JsString} (hs : WellFormed s) :
    Python.encodeUtf8 (codePoints s) = .ok (Js.encode s) := by
  have hany : (codePoints s).any (fun c => Python.isHigh c || Python.isLow c) = false := by
    induction hs with
    | nil => rfl
    | @unit u s hhigh hlow hs ih =>
      rw [codePoints_unit hhigh hlow, List.any_cons, ih, isHigh_toNat, isLow_toNat, hhigh, hlow]
      rfl
    | @pair u v s hu hv hs ih =>
      rw [codePoints_pair hu hv, List.any_cons, ih]
      unfold Python.isHigh Python.isLow
      rw [decide_eq_false (p := _ ≤ 0xDBFF) (by omega),
        decide_eq_false (p := _ ≤ 0xDFFF) (by omega), Bool.and_false, Bool.and_false]
      rfl
  unfold Python.encodeUtf8
  rw [if_neg (by rw [hany]; exact Bool.false_ne_true)]
  rfl

/-- Python finds the digest of a text that it writes back. -/
theorem digest_eq {s : JsString} (hs : WellFormed s)
    (h : Python.canonical (codePoints s) = .ok (codePoints s)) :
    Python.digest (codePoints s) = .ok (codePoints (toHex 64 (Keccak256.word (Js.encode s)))) := by
  unfold Python.digest
  rw [h]
  simp only [bind, Except.bind]
  rw [encodeUtf8_codePoints hs]
  simp only [Python.keccak256_eq]
  rw [codePoints_toHex_word]
  rfl

/-! ### The trace -/

theorem portable_keys_perm {ks ks' : List JsString} (h : ks.Perm ks') :
    portable.keys ks ↔ portable.keys ks' := by
  unfold portable
  simp only [h.mem_iff]

theorem wellFormed_intToString (n : ℤ) : WellFormed (intToString n) := by
  have hdigits : ∀ u ∈ natToString n.natAbs, u.toNat < 0xD800 := by
    intro u hu
    have := mem_natToString hu
    omega
  apply WellFormed.of_forall_low
  unfold intToString
  split_ifs
  · exact List.forall_mem_cons.2 ⟨by decide, hdigits⟩
  · exact hdigits

theorem exponent_numberOf (x : Double) : (numberOf x).exponent = x.1.exponent := by
  unfold numberOf
  split_ifs with hzero
  · exact (x.normal.zero hzero).symm
  · rfl

mutual

theorem jsonOf_portable_iff (v : JsValue) : (jsonOf v).Meets portable ↔ v.Meets portable := by
  cases v with
  | undefined | null | bool | string | nan | infinity => exact Iff.rfl
  | number x =>
    show (numberOf x).exponent ≤ 21 ↔ x.1.exponent ≤ 21
    rw [exponent_numberOf]
  | bigint n => exact iff_of_true (wellFormed_intToString n) trivial
  | array vs => exact jsonOfItems_portable_iff vs
  | object es =>
    show portable.keys ((sortByKey le (jsonOfEntries es)).map Prod.fst) ∧
      MeetsEntries portable (sortByKey le (jsonOfEntries es)) ↔ _
    rw [portable_keys_perm ((sortByKey_perm _).map Prod.fst), keys_jsonOfEntries, meetsEntries_iff]
    simp only [mem_sortByKey]
    exact and_congr_right fun _ => jsonOfEntries_portable_iff es

theorem jsonOfItems_portable_iff (vs : List JsValue) :
    MeetsItems portable (jsonOfItems vs) ↔ JsValue.MeetsItems portable vs := by
  cases vs with
  | nil => exact Iff.rfl
  | cons v vs => exact and_congr (jsonOf_portable_iff v) (jsonOfItems_portable_iff vs)

theorem jsonOfEntries_portable_iff (es : List (JsString × JsValue)) :
    (∀ e ∈ jsonOfEntries es, e.2.Meets portable) ↔ JsValue.MeetsEntries portable es := by
  cases es with
  | nil => exact iff_of_true (fun e he => absurd he List.not_mem_nil) trivial
  | cons e es =>
    unfold jsonOfEntries
    rw [List.forall_mem_cons]
    exact and_congr (jsonOf_portable_iff e.2) (jsonOfEntries_portable_iff es)

end

section
variable {t : JsValue} (ht : t.DistinctKeys) {d : JsString} (h : serializeCanonical t = .ok d)

include ht h

/-- Python writes the canonical text of a trace back exactly when the trace is portable. -/
theorem canonical_iff_portable :
    Python.canonical (codePoints d) = .ok (codePoints d) ↔ t.Meets portable := by
  obtain ⟨rfl, hcanonical⟩ := serializeCanonical_eq_ok ht h
  have hshaped := shaped_of_validate (validate_of_serializeCanonical h)
  rw [canonical_stringify_iff hcanonical, jsonOf_portable_iff,
    normalizeTrace_meets_iff portable_keys_perm hshaped]

theorem wellFormed_of_serializeCanonical : WellFormed d := by
  obtain ⟨rfl, -⟩ := serializeCanonical_eq_ok ht h
  exact wellFormed_stringify _

end

/-- For the canonical text of an accepted trace the helper writes the same text and finds the same
digest if and only if the trace is portable. -/
theorem python_agrees_iff {K : Keccak} (hK : ∀ data, K.bytes data = Keccak256.word data)
    (t : DecisionTrace) {d : JsString} (h : serializeCanonical t.value = .ok d) :
    (Python.canonical (codePoints d) = .ok (codePoints d) ∧
        ∃ digest, computeContextDigest K t.value = .ok digest ∧
          Python.digest (codePoints d) = .ok (codePoints digest)) ↔
      t.value.Meets portable := by
  rw [← canonical_iff_portable t.distinctKeys h]
  refine ⟨fun hboth => hboth.1, ?_⟩
  intro hcanonical
  refine ⟨hcanonical, toHex 64 (K.bytes (Js.encode d)), ?_, ?_⟩
  · unfold computeContextDigest
    rw [h]
    rfl
  · rw [digest_eq (wellFormed_of_serializeCanonical t.distinctKeys h) hcanonical, hK]

end IntentGuard.Trace

namespace IntentGuard.Localnet

open Js Infra Trace

theorem portable_of_toolTrace {input : JsValue} (h : (toolTrace input).Meets portable) :
    input.Meets portable := by
  have hfields := (meets_record.1 h).2
  simp only [List.forall_mem_cons] at hfields
  obtain ⟨-, -, -, -, -, -, -, hcalls, -⟩ := hfields
  have hcall := (meets_record.1 hcalls.1).2
  simp only [List.forall_mem_cons] at hcall
  exact hcall.2.2.2.1

def tokenInput : JsValue := .object [(text "token", .string (text "USDC")), (text "decimals", zero)]

def tokenTrace : DecisionTrace where
  value := toolTrace tokenInput
  distinctKeys := by
    refine toolTrace_distinctKeys ⟨?_, trivial, trivial, trivial⟩
    show ([text "token", text "decimals"] : List JsString).Nodup
    decide

theorem portable_tokenTrace : tokenTrace.value.Meets portable := by
  have hkeys : ∀ ks : List JsString, (ks.all fun k => k.all fun u => u.toNat < 0xD800) = true →
      (∀ a ∈ ks, ∀ b ∈ ks, le a b → Python.le (codePoints a) (codePoints b)) → portable.keys ks :=
    fun ks hlow horder => ⟨fun k hk => .of_forall_low (forall_low (List.all_eq_true.1 hlow k hk)),
      horder⟩
  have hstring : ∀ s : JsString, (s.all fun u => u.toNat < 0xD800) = true →
      (JsValue.string s).Meets portable :=
    fun s hlow => .of_forall_low (forall_low hlow)
  have hzero : zero.Meets portable := by
    show (0 : ℤ) ≤ 21
    decide
  have hinput : tokenInput.Meets portable :=
    ⟨hkeys _ (by decide) (by decide), hstring _ (by decide), hzero, trivial⟩
  have hsession : (tokenTrace.value.get "session").Meets portable :=
    ⟨hkeys _ (by decide) (by decide), trivial, hzero, hzero, hstring _ (by decide), trivial⟩
  have hcall : (tokenTrace.value.get "toolCalls").Meets portable :=
    ⟨⟨hkeys _ (by decide) (by decide), hzero, hstring _ (by decide),
      ⟨hkeys [] (by decide) (by decide), trivial⟩, hinput, trivial⟩, trivial⟩
  have haction : (tokenTrace.value.get "proposedAction").Meets portable :=
    ⟨hkeys _ (by decide) (by decide), hstring _ (by decide), hstring _ (by decide),
      hstring _ (by decide), hstring _ (by decide), hstring _ (by decide), trivial⟩
  exact ⟨hkeys _ (by decide) (by decide), hzero, hstring _ (by decide), hstring _ (by decide),
    hstring _ (by decide), hstring _ (by decide), hsession, trivial, hcall, trivial,
      haction, trivial⟩

/-- Ten to the power of 21. -/
def largeInput : JsValue := .object [(text "n", .number ⟨⟨false, 1, 22⟩, by decide +kernel⟩)]

/-- A lone surrogate. -/
def surrogateInput : JsValue := .object [(text "s", .string [0xD800])]

/-- The keys U+E000 and U+1F600, the second a surrogate pair. -/
def astralInput : JsValue := .object [([0xE000], .null), ([0xD83D, 0xDE00], .null)]

end IntentGuard.Localnet

namespace IntentGuard.Trace

open Js Infra Localnet

/-- A trace that both languages agree on. -/
theorem python_agrees_tokenTrace :
    ∃ d, serializeCanonical tokenTrace.value = .ok d ∧
      Python.canonical (codePoints d) = .ok (codePoints d) ∧
      ∃ digest, computeContextDigest keccak256 tokenTrace.value = .ok digest ∧
        Python.digest (codePoints d) = .ok (codePoints digest) := by
  have hok : (serializeCanonical tokenTrace.value).toOption.isSome := by decide +kernel
  cases h : serializeCanonical tokenTrace.value with
  | error e =>
    rw [h] at hok
    exact absurd hok Bool.false_ne_true
  | ok d =>
    have hK : ∀ data, keccak256.bytes data = Keccak256.word data := fun _ => rfl
    have hagree := (python_agrees_iff hK tokenTrace h).2 portable_tokenTrace
    exact ⟨d, rfl, hagree⟩

/-- The trace of the input is accepted, and the helper does not write its canonical text back. -/
def Disagrees (input : JsValue) : Prop :=
  (toolTrace input).DistinctKeys ∧
    ∃ d, serializeCanonical (toolTrace input) = .ok d ∧
      Python.canonical (codePoints d) ≠ .ok (codePoints d)

theorem disagrees {input : JsValue} (hdistinct : input.DistinctKeys) (hnot : ¬ input.Meets portable)
    (hok : (serializeCanonical (toolTrace input)).toOption.isSome) : Disagrees input := by
  have ht := toolTrace_distinctKeys hdistinct
  cases h : serializeCanonical (toolTrace input) with
  | error e =>
    rw [h] at hok
    exact absurd hok Bool.false_ne_true
  | ok d =>
    refine ⟨ht, d, h, ?_⟩
    intro hsame
    exact hnot (portable_of_toolTrace ((canonical_iff_portable ht h).1 hsame))

theorem python_disagrees :
    Disagrees largeInput ∧ Disagrees surrogateInput ∧ Disagrees astralInput := by
  refine ⟨disagrees ?_ ?_ (by decide +kernel), disagrees ?_ ?_ (by decide +kernel),
    disagrees ?_ ?_ (by decide +kernel)⟩
  · exact ⟨List.nodup_singleton _, trivial, trivial⟩
  · intro h
    exact absurd (show (22 : ℤ) ≤ 21 from h.2.1) (by decide)
  · exact ⟨List.nodup_singleton _, trivial, trivial⟩
  · intro h
    have hwell : WellFormed [0xD800] := h.2.1
    cases hwell with
    | unit hhigh _ _ => exact absurd hhigh (by decide)
  · refine ⟨?_, trivial, trivial, trivial⟩
    show ([[0xE000], [0xD83D, 0xDE00]] : List JsString).Nodup
    decide
  · intro h
    obtain ⟨-, horder⟩ := h.1
    exact absurd (horder [0xD83D, 0xDE00] (by decide) [0xE000] (by decide) (by decide)) (by decide)

end IntentGuard.Trace
