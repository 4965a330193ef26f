import IntentGuard.Js.Text

/-!
# Well-formed strings

A string without a lone surrogate is the text of its code points: `ofCodePoints` reads it back from
them, the code points of a longer text begin with its own (`codePoints_append`), and no other such
string has its encoding (`encode_inj`). What `JSON.stringify` quotes is well formed for every
string.
-/

namespace Js

/-- Code units of their own and surrogate pairs. -/
inductive WellFormed : JsString → Prop
  | nil : WellFormed []
  | unit {u : UInt16} {s : JsString} (hhigh : isHighSurrogate u = false)
      (hlow : isLowSurrogate u = false)
      (hs : WellFormed s) : WellFormed (u :: s)
  | pair {u v : UInt16} {s : JsString} (hu : isHighSurrogate u = true)
      (hv : isLowSurrogate v = true)
      (hs : WellFormed s) : WellFormed (u :: v :: s)

/-- The code units of a code point. -/
def unitsOf (c : ℕ) : JsString :=
  if c < 0x10000 then [UInt16.ofNat c]
  else [UInt16.ofNat (0xD800 + (c - 0x10000) / 0x400),
    UInt16.ofNat (0xDC00 + (c - 0x10000) % 0x400)]

/-- `new TextDecoder().decode(…)` of a text given by its code points. -/
def ofCodePoints (cs : List ℕ) : JsString := cs.flatMap unitsOf

theorem not_surrogate_of_low {u : UInt16} (hu : u.toNat < 0xD800) :
    isHighSurrogate u = false ∧ isLowSurrogate u = false := by
  unfold isHighSurrogate isLowSurrogate
  rw [decide_eq_false (by omega), Bool.false_and, decide_eq_false (by omega), Bool.false_and]
  exact ⟨rfl, rfl⟩

/-- The check that a literal lies below the surrogates. -/
theorem forall_low {s : JsString} (h : (s.all fun u => u.toNat < 0xD800) = true) :
    ∀ u ∈ s, u.toNat < 0xD800 :=
  fun u hu => of_decide_eq_true (List.all_eq_true.1 h u hu)

namespace WellFormed

theorem append {a b : JsString} (ha : WellFormed a) (hb : WellFormed b) : WellFormed (a ++ b) := by
  induction ha with
  | nil => exact hb
  | unit hhigh hlow hs ih => exact .unit hhigh hlow ih
  | pair hu hv hs ih => exact .pair hu hv ih

theorem of_forall {s : JsString}
    (hs : ∀ u ∈ s, isHighSurrogate u = false ∧ isLowSurrogate u = false) :
    WellFormed s := by
  induction s with
  | nil => exact .nil
  | cons u s ih =>
    rw [List.forall_mem_cons] at hs
    exact .unit hs.1.1 hs.1.2 (ih hs.2)

/-- A code unit below the surrogates, as those of ASCII are. -/
theorem low {u : UInt16} (hu : u.toNat < 0xD800) {s : JsString} (hs : WellFormed s) :
    WellFormed (u :: s) :=
  .unit (not_surrogate_of_low hu).1 (not_surrogate_of_low hu).2 hs

theorem of_forall_low {s : JsString} (hs : ∀ u ∈ s, u.toNat < 0xD800) : WellFormed s :=
  .of_forall fun u hu => not_surrogate_of_low (hs u hu)

end WellFormed

/-! ### Code points -/

theorem codePoints_unit {u : UInt16} (hhigh : isHighSurrogate u = false)
    (hlow : isLowSurrogate u = false) (s : JsString) :
    codePoints (u :: s) = u.toNat :: codePoints s := by
  cases s with
  | nil => simp [codePoints, hhigh, hlow]
  | cons v s => simp [codePoints, hhigh, hlow]

theorem codePoints_pair {u v : UInt16} (hu : isHighSurrogate u = true)
    (hv : isLowSurrogate v = true) (s : JsString) :
    codePoints (u :: v :: s) = (0x10000 + (u.toNat - 0xD800) * 0x400 + (v.toNat - 0xDC00)) ::
      codePoints s := by
  simp [codePoints, hu, hv]

theorem codePoints_of_forall {s : JsString}
    (hs : ∀ u ∈ s, isHighSurrogate u = false ∧ isLowSurrogate u = false) :
    codePoints s = s.map UInt16.toNat := by
  induction s with
  | nil => rfl
  | cons u s ih =>
    rw [List.forall_mem_cons] at hs
    rw [codePoints_unit hs.1.1 hs.1.2, ih hs.2]
    rfl

theorem codePoints_append {a : JsString} (ha : WellFormed a) (b : JsString) :
    codePoints (a ++ b) = codePoints a ++ codePoints b := by
  induction ha with
  | nil => rfl
  | unit hhigh hlow hs ih =>
    rw [List.cons_append, codePoints_unit hhigh hlow, codePoints_unit hhigh hlow, ih]; rfl
  | pair hu hv hs ih =>
    rw [List.cons_append, List.cons_append, codePoints_pair hu hv, codePoints_pair hu hv, ih]
    rfl

theorem unitsOf_toNat (u : UInt16) : unitsOf u.toNat = [u] := by
  unfold unitsOf
  rw [if_pos u.toNat_lt, UInt16.ofNat_toNat]

theorem unitsOf_pair {u v : UInt16} (hu : isHighSurrogate u = true) (hv : isLowSurrogate v = true) :
    unitsOf (0x10000 + (u.toNat - 0xD800) * 0x400 + (v.toNat - 0xDC00)) = [u, v] := by
  unfold isHighSurrogate at hu
  unfold isLowSurrogate at hv
  simp only [Bool.and_eq_true, decide_eq_true_eq] at hu hv
  have hhigh : 0xD800 + (0x10000 + (u.toNat - 0xD800) * 0x400 + (v.toNat - 0xDC00) - 0x10000) /
      0x400 = u.toNat := by
    omega
  have hlow : 0xDC00 + (0x10000 + (u.toNat - 0xD800) * 0x400 + (v.toNat - 0xDC00) - 0x10000) %
      0x400 = v.toNat := by
    omega
  unfold unitsOf
  rw [if_neg (by omega), hhigh, hlow, UInt16.ofNat_toNat, UInt16.ofNat_toNat]

/-- A well-formed string survives its encoding. -/
theorem ofCodePoints_codePoints {s : JsString} (hs : WellFormed s) :
    ofCodePoints (codePoints s) = s := by
  unfold ofCodePoints
  induction hs with
  | nil => rfl
  | unit hhigh hlow hs ih =>
    rw [codePoints_unit hhigh hlow, List.flatMap_cons, unitsOf_toNat, ih]; rfl
  | pair hu hv hs ih => rw [codePoints_pair hu hv, List.flatMap_cons, unitsOf_pair hu hv, ih]; rfl

/-! ### Encodings -/

/-- The bytes of a code point end where those of the next one begin. -/
theorem utf8Bytes_append_inj {c c' : ℕ} (hc : c < 0x110000) (hc' : c' < 0x110000) {b b' : Bytes}
    (h : utf8Bytes c ++ b = utf8Bytes c' ++ b') : c = c' ∧ b = b' := by
  have heq : c = c' := by
    -- the first byte says how many follow
    unfold utf8Bytes at h
    split_ifs at h <;>
      simp only [List.cons_append, List.nil_append, List.cons.injEq, ← UInt8.toNat_inj,
        UInt8.toNat_ofNat'] at h <;>
      omega
  subst heq
  exact ⟨rfl, List.append_cancel_left h⟩

theorem flatMap_utf8Bytes_inj {cs cs' : List ℕ} (hcs : ∀ c ∈ cs, c < 0x110000)
    (hcs' : ∀ c ∈ cs', c < 0x110000) (h : cs.flatMap utf8Bytes = cs'.flatMap utf8Bytes) :
    cs = cs' := by
  have hne : ∀ c, utf8Bytes c ≠ [] := by
    intro c
    unfold utf8Bytes
    split_ifs <;> exact List.cons_ne_nil _ _
  induction cs generalizing cs' with
  | nil =>
    cases cs' with
    | nil => rfl
    | cons c' cs' => exact absurd (List.append_eq_nil_iff.1 h.symm).1 (hne c')
  | cons c cs ih =>
    cases cs' with
    | nil => exact absurd (List.append_eq_nil_iff.1 h).1 (hne c)
    | cons c' cs' =>
      rw [List.forall_mem_cons] at hcs hcs'
      obtain ⟨rfl, hrest⟩ := utf8Bytes_append_inj hcs.1 hcs'.1 h
      rw [ih hcs.2 hcs'.2 hrest]

theorem codePoints_lt (s : JsString) : ∀ c ∈ codePoints s, c < 0x110000 := by
  have hunit : ∀ u : UInt16, ∀ b : Bool, (if b then 0xFFFD else u.toNat) < 0x110000 := by
    intro u b
    have hlt := u.toNat_lt
    split_ifs <;> omega
  fun_induction codePoints s with
  | case1 => exact fun c hc => absurd hc List.not_mem_nil
  | case2 u => exact List.forall_mem_singleton.2 (hunit u _)
  | case3 u v rest hu hv ih =>
    refine List.forall_mem_cons.2 ⟨?_, ih⟩
    simp only [isHighSurrogate, isLowSurrogate, Bool.and_eq_true, decide_eq_true_eq] at hu hv
    omega
  | case4 u v rest hu hv ih => exact List.forall_mem_cons.2 ⟨by omega, ih⟩
  | case5 u v rest hu ih => exact List.forall_mem_cons.2 ⟨hunit u _, ih⟩

/-- Strings have one encoding exactly when they have the same code points. -/
theorem encode_eq_iff {s s' : JsString} : encode s = encode s' ↔ codePoints s = codePoints s' :=
  ⟨flatMap_utf8Bytes_inj (codePoints_lt s) (codePoints_lt s'), congrArg (List.flatMap utf8Bytes)⟩

/-- The code points determine the number of code units. -/
theorem length_eq_sum (s : JsString) :
    s.length = ((codePoints s).map fun c => (unitsOf c).length).sum := by
  have hunit : ∀ u : UInt16, ∀ b : Bool, (unitsOf (if b then 0xFFFD else u.toNat)).length = 1 := by
    intro u b
    cases b with
    | true => rfl
    | false =>
      rw [if_neg Bool.false_ne_true, unitsOf_toNat]
      rfl
  fun_induction codePoints s with
  | case1 => rfl
  | case2 u => exact (hunit u _).symm
  | case3 u v rest hu hv ih =>
    rw [List.map_cons, List.sum_cons, unitsOf_pair hu hv, ← ih]
    exact Nat.add_comm rest.length 2
  | case4 u v rest hu hv ih =>
    rw [List.map_cons, List.sum_cons, ← ih]
    exact Nat.add_comm _ _
  | case5 u v rest hu ih =>
    rw [List.map_cons, List.sum_cons, hunit u, ← ih]
    exact Nat.add_comm _ _

theorem length_eq_of_encode_eq {s s' : JsString} (h : encode s = encode s') :
    s.length = s'.length := by
  rw [length_eq_sum, length_eq_sum, encode_eq_iff.1 h]

/-- Well-formed strings have different encodings. -/
theorem encode_inj {s s' : JsString} (hs : WellFormed s) (hs' : WellFormed s') :
    encode s = encode s' ↔ s = s' := by
  constructor
  · intro h
    rw [← ofCodePoints_codePoints hs, encode_eq_iff.1 h, ofCodePoints_codePoints hs']
  · exact congrArg encode

/-! ### Quoted strings -/

theorem low_unicodeEscape (u : UInt16) : ∀ v ∈ unicodeEscape u, v.toNat < 0xD800 := by
  have hlt := u.toNat_lt
  have hdigit : ∀ d, d < 16 → (hexDigit d).toNat < 0xD800 := by
    intro d hd
    rw [toNat_hexDigit hd]
    split_ifs <;> omega
  simp only [unicodeEscape, List.forall_mem_cons]
  exact ⟨by decide, by decide, hdigit _ (by omega), hdigit _ (by omega), hdigit _ (by omega),
    hdigit _ (by omega),
    fun v hv => absurd hv List.not_mem_nil⟩

/-- No code unit that is written by itself is a surrogate. -/
theorem not_surrogate_of_mem_quoteUnit {u v : UInt16} (hv : v ∈ quoteUnit u false) :
    isHighSurrogate v = false ∧ isLowSurrogate v = false := by
  have hlow : ∀ s : JsString, (∀ w ∈ s, w.toNat < 0xD800) → v ∈ s → isHighSurrogate v = false ∧
      isLowSurrogate v = false :=
    fun s hs hv => not_surrogate_of_low (hs v hv)
  unfold quoteUnit at hv
  split_ifs at hv with h8 h9 h10 h12 h13 h34 h92 hescape
  iterate 7 exact hlow _ (forall_low (by decide)) hv
  · exact hlow _ (low_unicodeEscape u) hv
  · simp only [Bool.not_false, Bool.and_true, Bool.or_eq_true, decide_eq_true_eq, not_or,
      Bool.not_eq_true] at hescape
    obtain rfl := List.mem_singleton.1 hv
    exact hescape.2

theorem wellFormed_quoteUnit (u : UInt16) : WellFormed (quoteUnit u false) :=
  .of_forall fun _ hv => not_surrogate_of_mem_quoteUnit hv

/-- Half of a pair is written as itself. -/
theorem quoteUnit_paired {u : UInt16} (hu : 0xD800 ≤ u.toNat) : quoteUnit u true = [u] := by
  have hne : ∀ n : UInt16, n.toNat < 0xD800 → u ≠ n := by
    intro n hn h
    subst h
    omega
  unfold quoteUnit
  rw [if_neg (hne 8 (by decide)), if_neg (hne 9 (by decide)), if_neg (hne 10 (by decide)),
    if_neg (hne 12 (by decide)), if_neg (hne 13 (by decide)), if_neg (hne 34 (by decide)),
    if_neg (hne 92 (by decide)), Bool.not_true,
    Bool.and_false, Bool.or_false, decide_eq_false (by omega)]
  rfl

theorem le_of_isHighSurrogate {u : UInt16} (hu : isHighSurrogate u = true) : 0xD800 ≤ u.toNat := by
  unfold isHighSurrogate at hu
  simp only [Bool.and_eq_true, decide_eq_true_eq] at hu
  omega

theorem le_of_isLowSurrogate {u : UInt16} (hu : isLowSurrogate u = true) : 0xD800 ≤ u.toNat := by
  unfold isLowSurrogate at hu
  simp only [Bool.and_eq_true, decide_eq_true_eq] at hu
  omega

theorem wellFormed_quoteBody (s : JsString) : WellFormed (quoteBody s) := by
  fun_induction quoteBody s with
  | case1 => exact .nil
  | case2 u => exact wellFormed_quoteUnit u
  | case3 u v rest hpair ih =>
    obtain ⟨hu, hv⟩ := Bool.and_eq_true_iff.1 hpair
    rw [quoteUnit_paired (le_of_isHighSurrogate hu), quoteUnit_paired (le_of_isLowSurrogate hv)]
    exact .pair hu hv ih
  | case4 u v rest hpair ih => exact (wellFormed_quoteUnit u).append ih

theorem wellFormed_quote (s : JsString) : WellFormed (quote s) :=
  .low (by decide) ((wellFormed_quoteBody s).append (.low (by decide) .nil))

end Js
