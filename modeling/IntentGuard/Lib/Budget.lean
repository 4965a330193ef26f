import Mathlib.Algebra.BigOperators.Group.Finset.Basic
import Mathlib.Algebra.GroupWithZero.Nat
import Mathlib.Algebra.Order.BigOperators.Group.Finset
import IntentGuard.Lib.Runs

/-!
# What is left under a cap

One meter a period, each of them under the same cap. `remaining` is what can still be charged in a
set of periods; a charge within the cap takes its amount from it, and a smaller set has less of it.
`potential_run`: the costs of a run are covered by a potential that covers the cost of every step.
-/

namespace Budget

variable {ι : Type*}

/-- What can still be charged. -/
def remaining (cap : ℕ) (meter : ι → ℕ) (periods : Finset ι) : ℕ := ∑ i ∈ periods, (cap - meter i)

variable {cap : ℕ} {meter : ι → ℕ} {periods periods' : Finset ι}

theorem remaining_mono (h : periods' ⊆ periods) :
    remaining cap meter periods' ≤ remaining cap meter periods :=
  Finset.sum_le_sum_of_subset h

theorem remaining_le : remaining cap meter periods ≤ periods.card * cap := by
  have h := Finset.sum_le_card_nsmul periods (fun i => cap - meter i) cap fun i _ => Nat.sub_le _ _
  unfold remaining
  simpa using h

/-- A charge within the cap. -/
theorem remaining_charge [DecidableEq ι] {i : ι} {amount : ℕ} (hi : i ∈ periods)
    (hcap : meter i + amount ≤ cap) :
    remaining cap (Function.update meter i (meter i + amount)) periods + amount =
      remaining cap meter periods := by
  unfold remaining
  have hrest : ∑ j ∈ periods.erase i, (cap - Function.update meter i (meter i + amount) j) =
      ∑ j ∈ periods.erase i, (cap - meter j) := by
    apply Finset.sum_congr rfl
    intro j hj
    rw [Function.update_of_ne (Finset.ne_of_mem_erase hj)]
  rw [← Finset.add_sum_erase periods _ hi, ← Finset.add_sum_erase periods _ hi, hrest,
    Function.update_self]
  omega

open Runs in
/-- The potential rule: what every step pays for out of a potential, the run pays for out of it. -/
theorem potential_run {σ α : Type*} {step : σ → α → σ} {C : σ → α → Prop} {Φ : σ → ℕ}
    {cost : σ × α → ℕ} {s₀ : σ}
    (hstep : ∀ s a, Runs.Reachable step s₀ s → C s a → Φ (step s a) + cost (s, a) ≤ Φ s)
    (as : List α) (hC : ∀ v ∈ visits step s₀ as, C v.1 v.2) :
    Φ (run step s₀ as) + ((visits step s₀ as).map cost).sum ≤ Φ s₀ := by
  refine history_induction (J := fun h s => Φ s + (h.map cost).sum ≤ Φ s₀) (by simp) ?_ as hC
  intro h s a hs hJ hCa
  have hpaid := hstep s a hs hCa
  simp only [List.map_append, List.map_cons, List.map_nil, List.sum_append,
    List.sum_cons, List.sum_nil]
  omega

end Budget
