import Mathlib.Computability.RegularExpressions

/-!
# Patterns

Regular expressions as validators write them, over an alphabet of characters: `literal` for a text
that stands for itself and `oneOf` for a character class, with the texts that a class repeated a
number of times, or any number of times, matches.
-/

namespace Pattern

open RegularExpression

variable {α : Type*}

def literal : List α → RegularExpression α
  | [] => 1
  | a :: s => char a * literal s

/-- `[…]`. -/
def oneOf : List α → RegularExpression α
  | [] => 0
  | a :: as => char a + oneOf as

theorem mem_literal {s x : List α} : x ∈ (literal s).matches' ↔ x = s := by
  induction s generalizing x with
  | nil => rw [literal, matches'_epsilon, Language.mem_one]
  | cons a s ih =>
    rw [literal, matches'_mul, matches'_char, Language.mem_mul]
    constructor
    · rintro ⟨y, hy, z, hz, rfl⟩
      rw [ih.1 hz, show y = [a] from hy]
      rfl
    · rintro rfl
      exact ⟨[a], rfl, s, ih.2 rfl, rfl⟩

theorem mem_literal_mul {s x : List α} {P : RegularExpression α} :
    x ∈ (literal s * P).matches' ↔ ∃ y ∈ P.matches', x = s ++ y := by
  rw [matches'_mul, Language.mem_mul]
  constructor
  · rintro ⟨z, hz, y, hy, rfl⟩
    rw [mem_literal.1 hz]
    exact ⟨y, hy, rfl⟩
  · rintro ⟨y, hy, rfl⟩
    exact ⟨s, mem_literal.2 rfl, y, hy, rfl⟩

theorem mem_oneOf {as x : List α} : x ∈ (oneOf as).matches' ↔ ∃ a ∈ as, x = [a] := by
  induction as with
  | nil => simp [oneOf, Language.notMem_zero]
  | cons a as ih =>
    rw [oneOf, matches'_add, Language.mem_add, ih, matches'_char, List.exists_mem_cons_iff]
    rfl

/-- `[…]{n}`. -/
theorem mem_oneOf_pow {as x : List α} {n : ℕ} :
    x ∈ (oneOf as ^ n).matches' ↔ x.length = n ∧ ∀ a ∈ x, a ∈ as := by
  rw [matches'_pow]
  induction n generalizing x with
  | zero =>
    rw [pow_zero, Language.mem_one, List.length_eq_zero_iff]
    exact (and_iff_left_of_imp fun h => by rw [h]; exact List.forall_mem_nil _).symm
  | succ n ih =>
    rw [pow_succ', Language.mem_mul]
    constructor
    · rintro ⟨y, hy, z, hz, rfl⟩
      obtain ⟨a, ha, rfl⟩ := mem_oneOf.1 hy
      obtain ⟨hlength, hall⟩ := ih.1 hz
      exact ⟨congrArg Nat.succ hlength, List.forall_mem_cons.2 ⟨ha, hall⟩⟩
    · rintro ⟨hlength, hall⟩
      cases x with
      | nil => exact absurd hlength (Nat.succ_ne_zero n).symm
      | cons a z =>
        rw [List.forall_mem_cons] at hall
        exact ⟨[a], mem_oneOf.2 ⟨a, hall.1, rfl⟩, z, ih.2 ⟨Nat.succ.inj hlength, hall.2⟩, rfl⟩

/-- `[…]*`. -/
theorem mem_oneOf_star {as x : List α} : x ∈ (star (oneOf as)).matches' ↔ ∀ a ∈ x, a ∈ as := by
  rw [matches'_star, Language.kstar_eq_iSup_pow, Language.mem_iSup]
  simp only [← matches'_pow, mem_oneOf_pow]
  exact ⟨fun ⟨_, _, hall⟩ => hall, fun hall => ⟨x.length, rfl, hall⟩⟩

/-- `[…]+`. -/
theorem mem_oneOf_plus {as x : List α} :
    x ∈ (oneOf as * star (oneOf as)).matches' ↔ x ≠ [] ∧ ∀ a ∈ x, a ∈ as := by
  rw [matches'_mul, Language.mem_mul]
  constructor
  · rintro ⟨y, hy, z, hz, rfl⟩
    obtain ⟨a, ha, rfl⟩ := mem_oneOf.1 hy
    exact ⟨List.cons_ne_nil _ _, List.forall_mem_cons.2 ⟨ha, mem_oneOf_star.1 hz⟩⟩
  · rintro ⟨hne, hall⟩
    cases x with
    | nil => exact absurd rfl hne
    | cons a z =>
      rw [List.forall_mem_cons] at hall
      exact ⟨[a], mem_oneOf.2 ⟨a, hall.1, rfl⟩, z, mem_oneOf_star.2 hall.2, rfl⟩

end Pattern
