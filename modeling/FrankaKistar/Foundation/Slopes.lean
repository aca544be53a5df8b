import Mathlib.Algebra.Order.Field.Basic
import Mathlib.Order.Interval.Set.Basic
import Mathlib.Tactic.FieldSimp
import Mathlib.Tactic.Linarith
import Mathlib.Tactic.Ring

/-!
# Functions of bounded slope

A function that changes by at most `V` a unit between any two points of a set.
Two such pieces that share an end make one, so a function that is built from
pieces has the bound of its steepest piece.
-/

namespace FrankaKistar
namespace Foundation

variable {K : Type} [Field K] [LinearOrder K]

def SlopeLe (V : K) (f : K -> K) (s : Set K) : Prop :=
  forall x, x ∈ s -> forall y, y ∈ s -> x ≤ y -> |f y - f x| ≤ V * (y - x)

theorem slopeLe_mono {V : K} {f : K -> K} {s s' : Set K} (hsub : s ⊆ s')
    (h : SlopeLe V f s') : SlopeLe V f s := by
  intro x hx y hy hxy
  exact h x (hsub hx) y (hsub hy) hxy

variable [IsStrictOrderedRing K]

theorem slopeLe_of_const {V : K} (hV : 0 ≤ V) {f : K -> K} {s : Set K} {a : K}
    (hf : forall x, x ∈ s -> f x = a) : SlopeLe V f s := by
  intro x hx y hy hxy
  rw [hf x hx, hf y hy, sub_self, abs_zero]
  exact mul_nonneg hV (sub_nonneg.mpr hxy)

theorem slopeLe_of_line {V t0 t1 a b : K} (ht : t0 < t1)
    (hslope : |b - a| / (t1 - t0) ≤ V) {f : K -> K} {s : Set K}
    (hf : forall x, x ∈ s -> f x = a + (x - t0) / (t1 - t0) * (b - a)) :
    SlopeLe V f s := by
  intro x hx y hy hxy
  have hpos : 0 < t1 - t0 := sub_pos.mpr ht
  have hnonneg : 0 ≤ y - x := sub_nonneg.mpr hxy
  have hdiff : f y - f x = (y - x) * ((b - a) / (t1 - t0)) := by
    rw [hf x hx, hf y hy]
    field_simp
    ring
  calc
    |f y - f x| = (y - x) * (|b - a| / (t1 - t0)) := by
      rw [hdiff, abs_mul, abs_of_nonneg hnonneg, abs_div, abs_of_pos hpos]
    _ ≤ (y - x) * V := mul_le_mul_of_nonneg_left hslope hnonneg
    _ = V * (y - x) := mul_comm _ _

theorem slopeLe_glue {V c : K} {f : K -> K} {s : Set K} (hc : c ∈ s)
    (hleft : SlopeLe V f (s ∩ Set.Iic c))
    (hright : SlopeLe V f (s ∩ Set.Ici c)) : SlopeLe V f s := by
  intro x hx y hy hxy
  rcases le_total y c with hyc | hcy
  · exact hleft x ⟨hx, le_trans hxy hyc⟩ y ⟨hy, hyc⟩ hxy
  · rcases le_total c x with hcx | hxc
    · exact hright x ⟨hx, hcx⟩ y ⟨hy, hcy⟩ hxy
    · have hfirst := hleft x ⟨hx, hxc⟩ c ⟨hc, le_refl c⟩ hxc
      have hsecond := hright c ⟨hc, le_refl c⟩ y ⟨hy, hcy⟩ hcy
      calc
        |f y - f x| ≤ |f y - f c| + |f c - f x| := abs_sub_le _ _ _
        _ ≤ V * (y - c) + V * (c - x) := add_le_add hsecond hfirst
        _ = V * (y - x) := by ring

/-- Pieces before the first break point, between neighbouring ones and after the
last one. -/
theorem slopeLe_of_pieces {V : K} {f : K -> K} {s : Set K} (times : Nat -> K)
    (n : Nat) (hmem : forall i, i ≤ n -> times i ∈ s)
    (hmono : forall i, i < n -> times i ≤ times (i + 1))
    (hbefore : SlopeLe V f (s ∩ Set.Iic (times 0)))
    (hpieces : forall i, i < n ->
      SlopeLe V f (s ∩ Set.Icc (times i) (times (i + 1))))
    (hafter : SlopeLe V f (s ∩ Set.Ici (times n))) : SlopeLe V f s := by
  have hupto : forall i, i ≤ n -> SlopeLe V f (s ∩ Set.Iic (times i)) := by
    intro i
    induction i with
    | zero =>
        intro _
        exact hbefore
    | succ i ih =>
        intro hi
        have hbreak : times i ∈ s ∩ Set.Iic (times (i + 1)) :=
          ⟨hmem i (Nat.le_of_succ_le hi), hmono i hi⟩
        have hleft : s ∩ Set.Iic (times (i + 1)) ∩ Set.Iic (times i) ⊆
            s ∩ Set.Iic (times i) :=
          fun x hx => ⟨hx.left.left, hx.right⟩
        have hright : s ∩ Set.Iic (times (i + 1)) ∩ Set.Ici (times i) ⊆
            s ∩ Set.Icc (times i) (times (i + 1)) :=
          fun x hx => ⟨hx.left.left, hx.right, hx.left.right⟩
        exact slopeLe_glue hbreak
          (slopeLe_mono hleft (ih (Nat.le_of_succ_le hi)))
          (slopeLe_mono hright (hpieces i hi))
  exact slopeLe_glue (hmem n (Nat.le_refl n)) (hupto n (Nat.le_refl n)) hafter

end Foundation
end FrankaKistar
