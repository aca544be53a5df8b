import Mathlib.Algebra.Order.Field.Basic
import Mathlib.Order.Interval.Set.UnorderedInterval
import Mathlib.Tactic.Linarith
import Mathlib.Tactic.FieldSimp
import Mathlib.Tactic.Positivity

/-!
# Linear interpolation and chains of values

A point of a linear interpolation lies in the unordered interval of its two end
points as long as the parameter stays in the unit interval.  For a chain of
values, the intervals of neighbouring values cover the interval of any two
values of the chain.
-/

namespace FrankaKistar
namespace Foundation

/-!
## One segment
-/

section Segment

variable {K : Type} [Field K] [LinearOrder K] [IsStrictOrderedRing K]

theorem lerp_mem_uIcc {alpha : K} (h0 : 0 ≤ alpha) (h1 : alpha ≤ 1) (a b : K) :
    a + alpha * (b - a) ∈ Set.uIcc a b := by
  rcases le_total a b with hab | hba
  · have hlow : 0 ≤ alpha * (b - a) := mul_nonneg h0 (sub_nonneg.mpr hab)
    have hhigh : alpha * (b - a) ≤ b - a :=
      mul_le_of_le_one_left (sub_nonneg.mpr hab) h1
    rw [Set.uIcc_of_le hab]
    constructor <;> linarith
  · have hlow : 0 ≤ alpha * (a - b) := mul_nonneg h0 (sub_nonneg.mpr hba)
    have hhigh : alpha * (a - b) ≤ a - b :=
      mul_le_of_le_one_left (sub_nonneg.mpr hba) h1
    rw [Set.uIcc_of_ge hba]
    constructor <;> linarith

theorem parameter_nonneg {t0 t1 t : K} (h0 : t0 ≤ t) (h1 : t < t1) :
    0 ≤ (t - t0) / (t1 - t0) :=
  div_nonneg (sub_nonneg.mpr h0) (by linarith)

theorem parameter_le_one {t0 t1 t : K} (h0 : t0 ≤ t) (h1 : t < t1) :
    (t - t0) / (t1 - t0) ≤ 1 := by
  rw [div_le_one (by linarith)]
  linarith

end Segment

/-!
## Chains
-/

theorem exists_adjacent_mem_uIcc {K : Type} [LinearOrder K] (f : Nat -> K)
    {i k : Nat} {v : K} (hlt : i < k) (hv : v ∈ Set.uIcc (f i) (f k)) :
    exists m, i ≤ m ∧ m < k ∧ v ∈ Set.uIcc (f m) (f (m + 1)) := by
  induction k with
  | zero => exact absurd hlt (Nat.not_lt_zero i)
  | succ k ih =>
      by_cases hik : i = k
      · subst hik
        exact ⟨i, Nat.le_refl i, Nat.lt_succ_self i, hv⟩
      · have hlt' : i < k := by omega
        have hcover :
            Set.uIcc (f i) (f (k + 1)) ⊆
              Set.uIcc (f i) (f k) ∪ Set.uIcc (f k) (f (k + 1)) :=
          Set.uIcc_subset_uIcc_union_uIcc
        cases hcover hv with
        | inl hfirst =>
            rcases ih hlt' hfirst with ⟨m, him, hmk, hm⟩
            exact ⟨m, him, Nat.lt_succ_of_lt hmk, hm⟩
        | inr hlast =>
            exact ⟨k, Nat.le_of_lt hlt', Nat.lt_succ_self k, hlast⟩

end Foundation
end FrankaKistar
