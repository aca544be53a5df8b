import FrankaKistar.Foundation.Interpolation
import Mathlib.Algebra.Order.Floor.Ring
import Mathlib.Data.Int.ConditionallyCompleteOrder
import Mathlib.Data.Rat.Floor
import Mathlib.Tactic.Ring

/-!
# Linear ramps between integers

A rounding is monotone, keeps the integers and moves nothing by more than a
half.  The rounded points of a linear ramp between two integers then rise or
fall steadily from one to the other, and two neighbours are not farther apart
than a step of the line and one.
-/

namespace FrankaKistar
namespace Foundation

structure IsRounding (round : ℚ -> Int) : Prop where
  mono : Monotone round
  intCast : forall n : Int, round n = n
  error : forall x, |(round x : ℚ) - x| ≤ 1 / 2

/-- Point `k` of the line from `a` to `b` in some steps. -/
def rampPoint (a b : Int) (steps k : Nat) : ℚ :=
  a + (k / steps : ℚ) * (b - a)

/-- A steady sequence of integers from `a` to `b`. -/
structure RampOf (f : Nat -> Int) (a b : Int) (steps : Nat) : Prop where
  first : f 0 = a
  last : f steps = b
  monotone : (forall j k, j ≤ k -> k ≤ steps -> f j ≤ f k) ∨
    (forall j k, j ≤ k -> k ≤ steps -> f k ≤ f j)
  inside : forall k, k ≤ steps -> f k ∈ Set.uIcc a b
  step : forall k, k < steps ->
    |((f (k + 1) : ℚ) - f k)| ≤ |((b : ℚ) - a)| / steps + 1

theorem rampPoint_zero (a b : Int) (steps : Nat) :
    rampPoint a b steps 0 = a := by
  rw [rampPoint, Nat.cast_zero, zero_div, zero_mul, add_zero]

section Ramp

variable {a b : Int} {steps : Nat} (hsteps : 0 < steps)

include hsteps

theorem rampPoint_last : rampPoint a b steps steps = b := by
  have hne : (steps : ℚ) ≠ 0 := Nat.cast_ne_zero.mpr (Nat.ne_of_gt hsteps)
  rw [rampPoint, div_self hne, one_mul, add_sub_cancel]

theorem parameter_le {j k : Nat} (h : j ≤ k) :
    (j / steps : ℚ) ≤ (k / steps : ℚ) := by
  have hpos : (0 : ℚ) < steps := Nat.cast_pos.mpr hsteps
  exact (div_le_div_iff_of_pos_right hpos).mpr (Nat.cast_le.mpr h)

theorem rampPoint_mono (hab : a ≤ b) {j k : Nat} (h : j ≤ k) :
    rampPoint a b steps j ≤ rampPoint a b steps k := by
  have hspan : (0 : ℚ) ≤ b - a := sub_nonneg.mpr (Int.cast_le.mpr hab)
  have hscaled := mul_le_mul_of_nonneg_right (parameter_le hsteps h) hspan
  unfold rampPoint
  linarith

theorem rampPoint_anti (hba : b ≤ a) {j k : Nat} (h : j ≤ k) :
    rampPoint a b steps k ≤ rampPoint a b steps j := by
  have hspan : (b : ℚ) - a ≤ 0 := sub_nonpos.mpr (Int.cast_le.mpr hba)
  have hscaled := mul_le_mul_of_nonpos_right (parameter_le hsteps h) hspan
  unfold rampPoint
  linarith

theorem rampPoint_step (k : Nat) :
    |rampPoint a b steps (k + 1) - rampPoint a b steps k| =
      |((b : ℚ) - a)| / steps := by
  have hpos : (0 : ℚ) < steps := Nat.cast_pos.mpr hsteps
  have hdifference : rampPoint a b steps (k + 1) - rampPoint a b steps k =
      (b - a) / steps := by
    unfold rampPoint
    push_cast
    ring
  rw [hdifference, abs_div, abs_of_pos hpos]

end Ramp

theorem IsRounding.rampOf {round : ℚ -> Int} (h : IsRounding round) (a b : Int)
    {steps : Nat} (hsteps : 0 < steps) :
    RampOf (fun k => round (rampPoint a b steps k)) a b steps := by
  have hfirst : round (rampPoint a b steps 0) = a := by
    rw [rampPoint_zero, h.intCast]
  have hlast : round (rampPoint a b steps steps) = b := by
    rw [rampPoint_last hsteps, h.intCast]
  constructor
  · exact hfirst
  · exact hlast
  · rcases le_total a b with hab | hba
    · exact Or.inl fun j k hjk _ => h.mono (rampPoint_mono hsteps hab hjk)
    · exact Or.inr fun j k hjk _ => h.mono (rampPoint_anti hsteps hba hjk)
  · intro k hk
    rcases le_total a b with hab | hba
    · have hlow := h.mono (rampPoint_mono hsteps hab (Nat.zero_le k))
      have hhigh := h.mono (rampPoint_mono hsteps hab hk)
      rw [hfirst] at hlow
      rw [hlast] at hhigh
      rw [Set.uIcc_of_le hab]
      exact ⟨hlow, hhigh⟩
    · have hhigh := h.mono (rampPoint_anti hsteps hba (Nat.zero_le k))
      have hlow := h.mono (rampPoint_anti hsteps hba hk)
      rw [hfirst] at hhigh
      rw [hlast] at hlow
      rw [Set.uIcc_of_ge hba]
      exact ⟨hlow, hhigh⟩
  · intro k _
    have hstep := rampPoint_step (a := a) (b := b) hsteps k
    have hnext := abs_le.mp (h.error (rampPoint a b steps (k + 1)))
    have hthis := abs_le.mp (h.error (rampPoint a b steps k))
    have hline := abs_le.mp (le_of_eq hstep)
    rw [abs_le]
    constructor <;> linarith [hnext.left, hnext.right, hthis.left,
      hthis.right, hline.left, hline.right]

end Foundation
end FrankaKistar
