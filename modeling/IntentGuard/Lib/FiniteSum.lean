import Mathlib.Algebra.BigOperators.Finprod

/-!
# Sums over a map with finite support

A map from keys to amounts that is zero at all but finitely many keys, changed at one key at a time:
the support stays finite and the sum changes by the difference at that key.
-/

namespace FiniteSum

variable {ι M : Type*} [DecidableEq ι] [AddCommMonoid M]

open Function

theorem support_update_finite {f : ι → M} (hf : (support f).Finite) (i : ι) (v : M) :
    (support (update f i v)).Finite := by
  refine (hf.insert i).subset fun j hj => ?_
  by_cases h : j = i
  · exact Set.mem_insert_iff.2 (Or.inl h)
  · rw [mem_support, update_of_ne h] at hj
    exact Set.mem_insert_of_mem i hj

private theorem support_single_finite (i : ι) (v : M) : (support (Pi.single i v : ι → M)).Finite :=
  (Set.finite_singleton i).subset Pi.support_single_subset

private theorem finsum_single (i : ι) (v : M) : ∑ᶠ j, (Pi.single i v : ι → M) j = v := by
  have hne : ∀ j, j ≠ i → (Pi.single i v : ι → M) j = 0 := fun j hj => by rw [Pi.single_eq_of_ne hj]
  rw [finsum_eq_single _ i hne, Pi.single_eq_same]

/-- Writing `v` at `i` exchanges the summand there. -/
theorem finsum_update (f : ι → M) (hf : (support f).Finite) (i : ι) (v : M) :
    (∑ᶠ j, update f i v j) + f i = (∑ᶠ j, f j) + v := by
  have hpoint : ∀ j, update f i v j + (Pi.single i (f i) : ι → M) j = f j +
      (Pi.single i v : ι → M) j := by
    intro j
    by_cases h : j = i
    · subst h
      rw [update_self, Pi.single_eq_same, Pi.single_eq_same, add_comm]
    · rw [update_of_ne h, Pi.single_eq_of_ne h, Pi.single_eq_of_ne h]
  calc (∑ᶠ j, update f i v j) + f i
      = ∑ᶠ j, (update f i v j + (Pi.single i (f i) : ι → M) j) := by
        rw [finsum_add_distrib (support_update_finite hf i v) (support_single_finite i _),
          finsum_single]
    _ = ∑ᶠ j, (f j + (Pi.single i v : ι → M) j) := finsum_congr hpoint
    _ = (∑ᶠ j, f j) + v := by
        rw [finsum_add_distrib hf (support_single_finite i v), finsum_single]

/-- Writing `v` at a key that held zero adds `v`. -/
theorem finsum_update_of_zero (f : ι → M) (hf : (support f).Finite) {i : ι} (hi : f i = 0) (v : M) :
    ∑ᶠ j, update f i v j = (∑ᶠ j, f j) + v := by
  have h := finsum_update f hf i v
  rwa [hi, add_zero] at h

/-- One summand is at most the sum. -/
theorem le_finsum (f : ι → ℕ) (hf : (support f).Finite) (i : ι) : f i ≤ ∑ᶠ j, f j := by
  have h := finsum_update f hf i 0
  omega

end FiniteSum
