import FrankaKistar.Foundation.Rotations
import Mathlib.Analysis.Real.Sqrt

/-!
# The orientation of a fingertip

`rotmat_to_quat_wxyz` of `fk_solver.cpp` in exact arithmetic, where a square
root of a negative number and a division by zero are errors.  Each of the four
branches takes the root of a number that is at least 1, whatever the matrix is;
for a rotation matrix the four values are then the components of its unit
quaternion, and the normalisation at the end divides them by 1.
-/

namespace FrankaKistar
namespace EtherCat

open Foundation

attribute [local instance] neZero_three neZero_four

attribute [local instance] atLeastTwo_two atLeastTwo_four

inductive ArithmeticError where
  | negativeRoot
  | zeroDivision
deriving DecidableEq

section Solver

variable {K : Type} [Field K] [LinearOrder K]

/-- `std::sqrt(x)` -/
def squareRoot (sqrt : K -> K) (x : K) : Except ArithmeticError K :=
  if x < 0 then .error .negativeRoot else .ok (sqrt x)

/-- `x / y` -/
def quotient (x y : K) : Except ArithmeticError K :=
  if y = 0 then .error .zeroDivision else .ok (x / y)

/-- `0.25 * s`, `a / s`, `b / s` and `c / s`, where `s` is
`std::sqrt(pivot) * 2.0`. -/
def overPivot (sqrt : K -> K) (pivot a b c : K) :
    Except ArithmeticError (K × K × K × K) := do
  let root <- squareRoot sqrt pivot
  let s := root * 2
  let x <- quotient a s
  let y <- quotient b s
  let z <- quotient c s
  return (1 / 4 * s, x, y, z)

/-- `qw`, `qx`, `qy` and `qz` of the four branches. -/
def branches (sqrt : K -> K) (r : Matrix (Fin 3) (Fin 3) K) :
    Except ArithmeticError (Fin 4 -> K) :=
  let trace := r 0 0 + r 1 1 + r 2 2
  if 0 < trace then do
    let (qw, qx, qy, qz) <-
      overPivot sqrt (trace + 1) (r 2 1 - r 1 2) (r 0 2 - r 2 0) (r 1 0 - r 0 1)
    return ![qw, qx, qy, qz]
  else if r 1 1 < r 0 0 ∧ r 2 2 < r 0 0 then do
    let (qx, qw, qy, qz) <-
      overPivot sqrt (1 + r 0 0 - r 1 1 - r 2 2) (r 2 1 - r 1 2)
        (r 0 1 + r 1 0) (r 0 2 + r 2 0)
    return ![qw, qx, qy, qz]
  else if r 2 2 < r 1 1 then do
    let (qy, qw, qx, qz) <-
      overPivot sqrt (1 + r 1 1 - r 0 0 - r 2 2) (r 0 2 - r 2 0)
        (r 0 1 + r 1 0) (r 1 2 + r 2 1)
    return ![qw, qx, qy, qz]
  else do
    let (qz, qw, qx, qy) <-
      overPivot sqrt (1 + r 2 2 - r 0 0 - r 1 1) (r 1 0 - r 0 1)
        (r 0 2 + r 2 0) (r 1 2 + r 2 1)
    return ![qw, qx, qy, qz]

/-- `quat[i]` is `w`, `x`, `y`, `z`. -/
def rotmatToQuatWxyz (sqrt : K -> K) (r : Matrix (Fin 3) (Fin 3) K) :
    Except ArithmeticError (Fin 4 -> K) := do
  let q <- branches sqrt r
  let norm <-
    squareRoot sqrt (q 0 * q 0 + q 1 * q 1 + q 2 * q 2 + q 3 * q 3)
  let qw <- quotient (q 0) norm
  let qx <- quotient (q 1) norm
  let qy <- quotient (q 2) norm
  let qz <- quotient (q 3) norm
  return ![qw, qx, qy, qz]

end Solver

/-!
## The quaternion of a matrix
-/

/-- A unit quaternion whose rotation matrix is `r`. -/
structure QuaternionOf {K : Type} [CommRing K] (quat : Fin 4 -> K)
    (r : Matrix (Fin 3) (Fin 3) K) : Prop where
  unit : Quaternion.normSq ((Quaternion.equivTuple K).symm quat) = 1
  matrix : rotationMatrix ((Quaternion.equivTuple K).symm quat) = r
  rotates : forall v,
    (Quaternion.equivTuple K).symm quat * pureQuaternion v *
        star ((Quaternion.equivTuple K).symm quat) =
      pureQuaternion (r.mulVec v)

theorem quaternionOf_products {K : Type} [Field K] [CharZero K]
    {r : Matrix (Fin 3) (Fin 3) K} {w x y z : K}
    (h : ProductsOf r w ![x, y, z]) : QuaternionOf ![w, x, y, z] r := by
  have hmatrix :
      rotationMatrix ((Quaternion.equivTuple K).symm ![w, x, y, z]) = r :=
    h.rotationMatrix_eq
  constructor
  · rw [Quaternion.normSq_def']
    simp only [sq]
    exact h.normSq_eq_one
  · exact hmatrix
  · intro v
    rw [conj_pureQuaternion, hmatrix]

section Correct

variable {K : Type} [Field K] [LinearOrder K]

theorem squareRoot_of_nonneg {sqrt : K -> K} {x : K} (h : 0 ≤ x) :
    squareRoot sqrt x = .ok (sqrt x) := by
  unfold squareRoot
  rw [if_neg (not_lt.mpr h)]

theorem quotient_of_ne {y : K} (h : y ≠ 0) (x : K) :
    quotient x y = .ok (x / y) := by
  unfold quotient
  rw [if_neg h]

variable [IsStrictOrderedRing K]

/-- `sqrt` is the square root of the numbers that have one. -/
structure IsSquareRoot (sqrt : K -> K) : Prop where
  nonneg : forall x, 0 ≤ x -> 0 ≤ sqrt x
  mul_self : forall x, 0 ≤ x -> sqrt x * sqrt x = x

theorem one_le_pivot {x y z : K} (htrace : x + y + z ≤ 0) (hy : y ≤ x)
    (hz : z ≤ x) : 1 ≤ 1 + x - y - z := by
  linarith

variable {sqrt : K -> K} (hsqrt : IsSquareRoot sqrt)

include hsqrt

theorem sqrt_one : sqrt 1 = 1 := by
  have hnonneg := hsqrt.nonneg 1 zero_le_one
  rcases mul_self_eq_one_iff.mp (hsqrt.mul_self 1 zero_le_one) with h | h
  · exact h
  · rw [h] at hnonneg
    exact absurd hnonneg (by norm_num)

theorem exists_overPivot {pivot : K} (h : 1 ≤ pivot) (a b c : K) :
    exists s, s ≠ 0 ∧ s * s = 4 * pivot ∧
      overPivot sqrt pivot a b c = .ok (1 / 4 * s, a / s, b / s, c / s) := by
  have hpos : 0 < pivot := lt_of_lt_of_le one_pos h
  have hself := hsqrt.mul_self pivot (le_of_lt hpos)
  have hne : sqrt pivot * 2 ≠ 0 := by
    intro hzero
    rcases mul_eq_zero.mp hzero with hroot | htwo
    · rw [hroot, zero_mul] at hself
      exact ne_of_lt hpos hself
    · exact two_ne_zero htwo
  refine ⟨sqrt pivot * 2, hne, by linear_combination 4 * hself, ?_⟩
  simp only [overPivot, squareRoot_of_nonneg (le_of_lt hpos),
    quotient_of_ne hne, bind, Except.bind]
  rfl

theorem branches_of_rotation {r : Matrix (Fin 3) (Fin 3) K}
    (h : IsRotation r) :
    exists w x y z, branches sqrt r = .ok ![w, x, y, z] ∧
      ProductsOf r w ![x, y, z] := by
  have htrace := Matrix.trace_fin_three r
  unfold branches
  simp only
  split
  · rename_i hpos
    have hpivot : 1 ≤ r 0 0 + r 1 1 + r 2 2 + 1 := by linarith
    rcases exists_overPivot hsqrt hpivot (r 2 1 - r 1 2) (r 0 2 - r 2 0)
      (r 1 0 - r 0 1) with ⟨s, hne, hs, hok⟩
    rw [hok]
    refine ⟨_, _, _, _, rfl,
      productsOf_trace h (by rw [hs, htrace, add_comm]) hne ?_⟩
    intro i j k hc
    rcases cyclic_xyz.order hc with
      ⟨rfl, rfl, rfl⟩ | ⟨rfl, rfl, rfl⟩ | ⟨rfl, rfl, rfl⟩ <;> rfl
  · rename_i hnonpos
    have hsum := not_lt.mp hnonpos
    split
    · rename_i hfirst
      have hpivot : 1 ≤ 1 + r 0 0 - r 1 1 - r 2 2 :=
        one_le_pivot hsum (le_of_lt hfirst.left) (le_of_lt hfirst.right)
      rcases exists_overPivot hsqrt hpivot (r 2 1 - r 1 2) (r 0 1 + r 1 0)
        (r 0 2 + r 2 0) with ⟨s, hne, hs, hok⟩
      rw [hok]
      exact ⟨_, _, _, _, rfl,
        productsOf_axis h cyclic_xyz
          (by rw [hs, htrace]; ring) hne rfl rfl rfl rfl⟩
    · rename_i hnotFirst
      split
      · rename_i hsecond
        have hlargest : r 0 0 ≤ r 1 1 := by
          by_contra hlt
          exact hnotFirst
            ⟨not_le.mp hlt, lt_trans hsecond (not_le.mp hlt)⟩
        have hpivot : 1 ≤ 1 + r 1 1 - r 0 0 - r 2 2 :=
          one_le_pivot (by rw [add_comm (r 1 1)]; exact hsum) hlargest
            (le_of_lt hsecond)
        rcases exists_overPivot hsqrt hpivot (r 0 2 - r 2 0) (r 0 1 + r 1 0)
          (r 1 2 + r 2 1) with ⟨s, hne, hs, hok⟩
        rw [hok]
        exact ⟨_, _, _, _, rfl,
          productsOf_axis h cyclic_yzx
            (by rw [hs, htrace]; ring) hne rfl rfl rfl
            (congrArg (fun x => x / s) (add_comm _ _))⟩
      · rename_i hnotSecond
        have hfirst : r 0 0 ≤ r 2 2 := by
          by_contra hlt
          exact hnotFirst
            ⟨lt_of_le_of_lt (not_lt.mp hnotSecond) (not_le.mp hlt),
              not_le.mp hlt⟩
        have hpivot : 1 ≤ 1 + r 2 2 - r 0 0 - r 1 1 :=
          one_le_pivot (by rw [add_rotate]; exact hsum) hfirst
            (not_lt.mp hnotSecond)
        rcases exists_overPivot hsqrt hpivot (r 1 0 - r 0 1) (r 0 2 + r 2 0)
          (r 1 2 + r 2 1) with ⟨s, hne, hs, hok⟩
        rw [hok]
        exact ⟨_, _, _, _, rfl,
          productsOf_axis h cyclic_zxy
            (by rw [hs, htrace]; ring) hne rfl rfl
            (congrArg (fun x => x / s) (add_comm _ _))
            (congrArg (fun x => x / s) (add_comm _ _))⟩

theorem exists_quaternion {r : Matrix (Fin 3) (Fin 3) K} (h : IsRotation r) :
    exists quat, rotmatToQuatWxyz sqrt r = .ok quat ∧ QuaternionOf quat r := by
  rcases branches_of_rotation hsqrt h with ⟨w, x, y, z, hok, hproducts⟩
  refine ⟨![w, x, y, z], ?_, quaternionOf_products hproducts⟩
  have hnorm : (![w, x, y, z] 0 * ![w, x, y, z] 0 +
      ![w, x, y, z] 1 * ![w, x, y, z] 1 + ![w, x, y, z] 2 * ![w, x, y, z] 2 +
        ![w, x, y, z] 3 * ![w, x, y, z] 3 : K) = 1 :=
    hproducts.normSq_eq_one
  unfold rotmatToQuatWxyz
  rw [hok]
  simp only [bind, Except.bind, hnorm, squareRoot_of_nonneg zero_le_one,
    sqrt_one hsqrt, quotient_of_ne one_ne_zero, div_one]
  rfl

end Correct

theorem isSquareRoot_sqrt : IsSquareRoot Real.sqrt :=
  ⟨fun x _ => Real.sqrt_nonneg x, fun _ h => Real.mul_self_sqrt h⟩

/-- For every rotation, on every branch. -/
theorem rotmatToQuatWxyz_of_rotation (r : Matrix (Fin 3) (Fin 3) ℝ)
    (horthogonal : r.transpose * r = 1) (hdet : r.det = 1) :
    exists quat, rotmatToQuatWxyz Real.sqrt r = .ok quat ∧
      QuaternionOf quat r :=
  exists_quaternion isSquareRoot_sqrt ⟨horthogonal, hdet⟩

/-- A half turn about the last axis, where the first two diagonal entries are
equal. -/
def halfTurn (K : Type) [Field K] : Matrix (Fin 3) (Fin 3) K :=
  Matrix.diagonal ![-1, -1, 1]

theorem rotmatToQuatWxyz_halfTurn :
    exists quat, rotmatToQuatWxyz Real.sqrt (halfTurn ℝ) = .ok quat ∧
      QuaternionOf quat (halfTurn ℝ) := by
  refine rotmatToQuatWxyz_of_rotation (halfTurn ℝ) ?_ ?_
  · rw [halfTurn, Matrix.diagonal_transpose, Matrix.diagonal_mul_diagonal,
      <- Matrix.diagonal_one]
    congr 1
    funext i
    fin_cases i <;> norm_num
  · rw [halfTurn, Matrix.det_diagonal, Fin.prod_univ_three]
    simp

end EtherCat
end FrankaKistar
