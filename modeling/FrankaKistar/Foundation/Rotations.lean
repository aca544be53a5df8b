import Mathlib.Algebra.Quaternion
import Mathlib.LinearAlgebra.Matrix.Adjugate
import Mathlib.LinearAlgebra.Matrix.Trace
import Mathlib.Tactic.FieldSimp
import Mathlib.Tactic.FinCases
import Mathlib.Tactic.LinearCombination

/-!
# Rotation matrices and unit quaternions

For a rotation matrix the sums and differences of its entries that are four
times the products of the components of its quaternion form a symmetric matrix
of rank one.  So a quaternion is found from any diagonal element that is not
zero.
-/

namespace FrankaKistar
namespace Foundation

/-!
## Literals

The literals of `Fin 3`, of `Fin 4` and of a field rest on these.
-/

theorem neZero_three : NeZero 3 := ⟨three_ne_zero⟩

theorem neZero_four : NeZero 4 := ⟨four_ne_zero⟩

theorem atLeastTwo_two : Nat.AtLeastTwo 2 := ⟨Nat.le_refl 2⟩

theorem atLeastTwo_four : Nat.AtLeastTwo 4 := ⟨by decide⟩

/-!
## Axes
-/

/-- One of the three even orders of the axes. -/
def Cyclic (i j k : Fin 3) : Prop := j = i + 1 ∧ k = j + 1

instance (i j k : Fin 3) : Decidable (Cyclic i j k) :=
  inferInstanceAs (Decidable (_ ∧ _))

theorem cyclic_xyz : Cyclic 0 1 2 := ⟨rfl, rfl⟩

theorem cyclic_yzx : Cyclic 1 2 0 := ⟨rfl, rfl⟩

theorem cyclic_zxy : Cyclic 2 0 1 := ⟨rfl, rfl⟩

theorem Cyclic.rotate {i j k : Fin 3} (h : Cyclic i j k) : Cyclic j k i := by
  revert i j k
  decide

theorem Cyclic.ne {i j k : Fin 3} (h : Cyclic i j k) : i ≠ j := by
  revert i j k
  decide

theorem Cyclic.axis {i j k : Fin 3} (h : Cyclic i j k) (l : Fin 3) :
    l = i ∨ l = j ∨ l = k := by
  revert i j k l
  decide

theorem Cyclic.order {i j k l m n : Fin 3} (h : Cyclic i j k)
    (h' : Cyclic l m n) :
    l = i ∧ m = j ∧ n = k ∨ l = j ∧ m = k ∧ n = i ∨ l = k ∧ m = i ∧ n = j := by
  revert i j k l m n
  decide

/-!
## Rotation matrices
-/

section Ring

variable {K : Type} [CommRing K]

structure IsRotation (r : Matrix (Fin 3) (Fin 3) K) : Prop where
  orthogonal : r.transpose * r = 1
  det_eq_one : r.det = 1

variable {r : Matrix (Fin 3) (Fin 3) K} {i j k l m n : Fin 3}

theorem sum_cyclic (h : Cyclic i j k) (f : Fin 3 -> K) :
    f 0 + f 1 + f 2 = f i + f j + f k := by
  rcases cyclic_xyz.order h with
    ⟨rfl, rfl, rfl⟩ | ⟨rfl, rfl, rfl⟩ | ⟨rfl, rfl, rfl⟩ <;> ring

theorem trace_cyclic (h : Cyclic i j k) :
    r.trace = r i i + r j j + r k k := by
  rw [Matrix.trace_fin_three]
  exact sum_cyclic h fun l => r l l

namespace IsRotation

variable (h : IsRotation r)

include h

theorem column (hc : Cyclic i j k) (l m : Fin 3) :
    r i l * r i m + r j l * r j m + r k l * r k m =
      (1 : Matrix (Fin 3) (Fin 3) K) l m := by
  rw [<- h.orthogonal, Matrix.mul_apply, Fin.sum_univ_three]
  exact (sum_cyclic hc fun a => r a l * r a m).symm

theorem row (hc : Cyclic i j k) (l m : Fin 3) :
    r l i * r m i + r l j * r m j + r l k * r m k =
      (1 : Matrix (Fin 3) (Fin 3) K) l m := by
  rw [<- mul_eq_one_comm.mp h.orthogonal, Matrix.mul_apply,
    Fin.sum_univ_three]
  exact (sum_cyclic hc fun a => r l a * r m a).symm

theorem adjugate_eq : r.adjugate = r.transpose := by
  calc r.adjugate = r.transpose * r * r.adjugate := by
        rw [h.orthogonal, one_mul]
    _ = r.transpose := by
        rw [mul_assoc, Matrix.mul_adjugate, h.det_eq_one, one_smul, mul_one]

theorem cofactor (hc : Cyclic i j k) (hc' : Cyclic l m n) :
    r i l = r j m * r k n - r j n * r k m := by
  have hentry : r i l = r.adjugate l i := by
    rw [h.adjugate_eq]
    rfl
  rw [hentry, Matrix.adjugate_fin_three]
  rcases cyclic_xyz.order hc with
    ⟨rfl, rfl, rfl⟩ | ⟨rfl, rfl, rfl⟩ | ⟨rfl, rfl, rfl⟩ <;>
  rcases cyclic_xyz.order hc' with
    ⟨rfl, rfl, rfl⟩ | ⟨rfl, rfl, rfl⟩ | ⟨rfl, rfl, rfl⟩ <;>
  simp <;> ring

theorem column_self (hc : Cyclic i j k) (l : Fin 3) :
    r i l * r i l + r j l * r j l + r k l * r k l = 1 :=
  (h.column hc l l).trans (Matrix.one_apply_eq l)

theorem row_self (hc : Cyclic i j k) (l : Fin 3) :
    r l i * r l i + r l j * r l j + r l k * r l k = 1 :=
  (h.row hc l l).trans (Matrix.one_apply_eq l)

theorem column_ne (hc : Cyclic i j k) {l m : Fin 3} (hne : l ≠ m) :
    r i l * r i m + r j l * r j m + r k l * r k m = 0 :=
  (h.column hc l m).trans (Matrix.one_apply_ne hne)

theorem row_ne (hc : Cyclic i j k) {l m : Fin 3} (hne : l ≠ m) :
    r l i * r m i + r l j * r m j + r l k * r m k = 0 :=
  (h.row hc l m).trans (Matrix.one_apply_ne hne)

/-!
### Rank one

The diagonal is `1 + trace` and `1 + 2 * r i i - trace`, and the other elements
are the differences and the sums of opposite entries.
-/

theorem difference_sq (hc : Cyclic i j k) :
    (r k j - r j k) * (r k j - r j k) =
      (1 + r.trace) * (1 + 2 * r i i - r.trace) := by
  rw [trace_cyclic hc]
  linear_combination h.row_self hc j + h.row_self hc k - h.column_self hc i -
    2 * h.cofactor hc hc

theorem difference_mul (hc : Cyclic i j k) :
    (r k j - r j k) * (r i k - r k i) = (1 + r.trace) * (r i j + r j i) := by
  rw [trace_cyclic hc]
  linear_combination -h.cofactor hc hc.rotate - h.cofactor hc.rotate hc -
    h.column_ne hc hc.ne - h.row_ne hc hc.ne

theorem sum_sq (hc : Cyclic i j k) :
    (r i j + r j i) * (r i j + r j i) =
      (1 + 2 * r i i - r.trace) * (1 + 2 * r j j - r.trace) := by
  rw [trace_cyclic hc]
  linear_combination h.row_self hc i + h.row_self hc j - h.column_self hc k +
    2 * h.cofactor hc.rotate.rotate hc.rotate.rotate

theorem difference_mul_sum (hc : Cyclic i j k) :
    (r k j - r j k) * (r i j + r j i) =
      (1 + 2 * r i i - r.trace) * (r i k - r k i) := by
  rw [trace_cyclic hc]
  linear_combination h.cofactor hc.rotate.rotate hc -
    h.cofactor hc hc.rotate.rotate + h.row_ne hc hc.rotate.rotate.ne.symm -
    h.column_ne hc hc.rotate.rotate.ne.symm

theorem difference_mul_sum' (hc : Cyclic i j k) :
    (r k j - r j k) * (r i k + r k i) =
      (1 + 2 * r i i - r.trace) * (r j i - r i j) := by
  rw [trace_cyclic hc]
  linear_combination h.cofactor hc hc.rotate - h.cofactor hc.rotate hc +
    h.column_ne hc hc.ne - h.row_ne hc hc.ne

theorem sum_mul (hc : Cyclic i j k) :
    (r i j + r j i) * (r i k + r k i) =
      (1 + 2 * r i i - r.trace) * (r j k + r k j) := by
  rw [trace_cyclic hc]
  linear_combination -h.cofactor hc.rotate hc.rotate.rotate -
    h.cofactor hc.rotate.rotate hc.rotate + h.column_ne hc hc.rotate.ne +
    h.row_ne hc hc.rotate.ne

end IsRotation

/-!
## Quaternions
-/

def pureQuaternion (v : Fin 3 -> K) : Quaternion K :=
  ⟨0, v 0, v 1, v 2⟩

@[simp] theorem pureQuaternion_re (v : Fin 3 -> K) :
    (pureQuaternion v).re = 0 := rfl

@[simp] theorem pureQuaternion_imI (v : Fin 3 -> K) :
    (pureQuaternion v).imI = v 0 := rfl

@[simp] theorem pureQuaternion_imJ (v : Fin 3 -> K) :
    (pureQuaternion v).imJ = v 1 := rfl

@[simp] theorem pureQuaternion_imK (v : Fin 3 -> K) :
    (pureQuaternion v).imK = v 2 := rfl

def rotationMatrix (q : Quaternion K) : Matrix (Fin 3) (Fin 3) K :=
  let w := q.re
  let x := q.imI
  let y := q.imJ
  let z := q.imK
  !![w * w + x * x - y * y - z * z, 2 * (x * y - w * z), 2 * (x * z + w * y);
    2 * (x * y + w * z), w * w - x * x + y * y - z * z, 2 * (y * z - w * x);
    2 * (x * z - w * y), 2 * (y * z + w * x), w * w - x * x - y * y + z * z]

theorem conj_pureQuaternion (q : Quaternion K) (v : Fin 3 -> K) :
    q * pureQuaternion v * star q =
      pureQuaternion ((rotationMatrix q).mulVec v) := by
  ext <;>
    simp [rotationMatrix, dotProduct, Fin.sum_univ_three] <;>
    ring

/-- Four times the products of the components are the sums and differences of
the entries. -/
structure ProductsOf (r : Matrix (Fin 3) (Fin 3) K) (w : K) (v : Fin 3 -> K) :
    Prop where
  scalar : 4 * (w * w) = 1 + r.trace
  square : forall i, 4 * (v i * v i) = 1 + 2 * r i i - r.trace
  mixed : forall i j k, Cyclic i j k -> 4 * (w * v i) = r k j - r j k
  cross : forall i j k, Cyclic i j k -> 4 * (v i * v j) = r i j + r j i

end Ring

section Field

variable {K : Type} [Field K] [CharZero K]
variable {r : Matrix (Fin 3) (Fin 3) K} {i j k : Fin 3}

namespace ProductsOf

variable {w : K} {v : Fin 3 -> K} (h : ProductsOf r w v)

include h

theorem normSq_eq_one :
    w * w + v 0 * v 0 + v 1 * v 1 + v 2 * v 2 = 1 := by
  have h0 := h.square 0
  have h1 := h.square 1
  have h2 := h.square 2
  have htrace := Matrix.trace_fin_three r
  linear_combination (h.scalar + h0 + h1 + h2 - 2 * htrace) / 4

theorem rotationMatrix_eq : rotationMatrix ⟨w, v 0, v 1, v 2⟩ = r := by
  have hw := h.scalar
  have htrace := Matrix.trace_fin_three r
  have h0 := h.square 0
  have h1 := h.square 1
  have h2 := h.square 2
  have hx := h.mixed 0 1 2 cyclic_xyz
  have hy := h.mixed 1 2 0 cyclic_yzx
  have hz := h.mixed 2 0 1 cyclic_zxy
  have hxy := h.cross 0 1 2 cyclic_xyz
  have hyz := h.cross 1 2 0 cyclic_yzx
  have hzx := h.cross 2 0 1 cyclic_zxy
  ext a b
  fin_cases a <;> fin_cases b <;> simp [rotationMatrix]
  · linear_combination (hw + h0 - h1 - h2 + 2 * htrace) / 4
  · linear_combination (hxy - hz) / 2
  · linear_combination (hzx + hy) / 2
  · linear_combination (hxy + hz) / 2
  · linear_combination (hw - h0 + h1 - h2 + 2 * htrace) / 4
  · linear_combination (hyz - hx) / 2
  · linear_combination (hzx - hy) / 2
  · linear_combination (hyz + hx) / 2
  · linear_combination (hw - h0 - h1 + h2 + 2 * htrace) / 4

end ProductsOf

/-!
## From a diagonal element

`s` is twice a root of a diagonal element that is not zero; a quarter of `s` is
one component, and the other elements of its row over `s` are the others.
-/

theorem four_mul_quarter_sq {s p : K} (hs : s * s = 4 * p) :
    4 * (1 / 4 * s * (1 / 4 * s)) = p := by
  linear_combination hs / 4

theorem four_mul_quarter_div {s : K} (hne : s ≠ 0) (a : K) :
    4 * (1 / 4 * s * (a / s)) = a := by
  field_simp

omit [CharZero K] in
theorem four_mul_div_div {s p a b m : K} (hs : s * s = 4 * p) (hne : s ≠ 0)
    (h : a * b = p * m) : 4 * (a / s * (b / s)) = m := by
  have hss : s * s ≠ 0 := mul_ne_zero hne hne
  rw [div_mul_div_comm, h, mul_div_assoc', <- mul_assoc, <- hs,
    mul_div_cancel_left₀ m hss]

theorem productsOf_trace (h : IsRotation r) {s : K}
    (hs : s * s = 4 * (1 + r.trace)) (hne : s ≠ 0) {v : Fin 3 -> K}
    (hv : forall i j k, Cyclic i j k -> v i = (r k j - r j k) / s) :
    ProductsOf r (1 / 4 * s) v where
  scalar := four_mul_quarter_sq hs
  square i := by
    have hc : Cyclic i (i + 1) (i + 1 + 1) := ⟨rfl, rfl⟩
    rw [hv _ _ _ hc]
    exact four_mul_div_div hs hne (h.difference_sq hc)
  mixed i j k hc := by
    rw [hv _ _ _ hc]
    exact four_mul_quarter_div hne _
  cross i j k hc := by
    rw [hv _ _ _ hc, hv _ _ _ hc.rotate]
    exact four_mul_div_div hs hne (h.difference_mul hc)

theorem productsOf_axis (h : IsRotation r) (hc : Cyclic i j k) {s : K}
    (hs : s * s = 4 * (1 + 2 * r i i - r.trace)) (hne : s ≠ 0) {w : K}
    {v : Fin 3 -> K} (hw : w = (r k j - r j k) / s) (hi : v i = 1 / 4 * s)
    (hj : v j = (r i j + r j i) / s) (hk : v k = (r i k + r k i) / s) :
    ProductsOf r w v where
  scalar := by
    rw [hw]
    exact four_mul_div_div hs hne (by rw [h.difference_sq hc, mul_comm])
  square l := by
    rcases hc.axis l with rfl | rfl | rfl
    · rw [hi]
      exact four_mul_quarter_sq hs
    · rw [hj]
      exact four_mul_div_div hs hne (h.sum_sq hc)
    · rw [hk]
      refine four_mul_div_div hs hne ?_
      rw [add_comm, h.sum_sq hc.rotate.rotate, mul_comm]
  mixed l m n hc' := by
    rcases hc.order hc' with ⟨rfl, rfl, rfl⟩ | ⟨rfl, rfl, rfl⟩ | ⟨rfl, rfl, rfl⟩
    · rw [hw, hi, mul_comm (_ / s)]
      exact four_mul_quarter_div hne _
    · rw [hw, hj]
      exact four_mul_div_div hs hne (h.difference_mul_sum hc)
    · rw [hw, hk]
      exact four_mul_div_div hs hne (h.difference_mul_sum' hc)
  cross l m n hc' := by
    rcases hc.order hc' with ⟨rfl, rfl, rfl⟩ | ⟨rfl, rfl, rfl⟩ | ⟨rfl, rfl, rfl⟩
    · rw [hi, hj]
      exact four_mul_quarter_div hne _
    · rw [hj, hk]
      exact four_mul_div_div hs hne (h.sum_mul hc)
    · rw [hk, hi, mul_comm (_ / s), four_mul_quarter_div hne, add_comm]

/-!
## The two quaternions of a rotation
-/

omit [CharZero K] in
theorem productsOf_rotationMatrix {w : K} {v : Fin 3 -> K}
    (h : w * w + v 0 * v 0 + v 1 * v 1 + v 2 * v 2 = 1) :
    ProductsOf (rotationMatrix ⟨w, v 0, v 1, v 2⟩) w v where
  scalar := by
    rw [Matrix.trace_fin_three]
    simp [rotationMatrix]
    linear_combination h
  square i := by
    rw [Matrix.trace_fin_three]
    fin_cases i <;> simp [rotationMatrix] <;> linear_combination h
  mixed i j k hc := by
    rcases cyclic_xyz.order hc with
      ⟨rfl, rfl, rfl⟩ | ⟨rfl, rfl, rfl⟩ | ⟨rfl, rfl, rfl⟩ <;>
      simp [rotationMatrix] <;> ring
  cross i j k hc := by
    rcases cyclic_xyz.order hc with
      ⟨rfl, rfl, rfl⟩ | ⟨rfl, rfl, rfl⟩ | ⟨rfl, rfl, rfl⟩ <;>
      simp [rotationMatrix] <;> ring

namespace ProductsOf

variable {w w' : K} {v v' : Fin 3 -> K}

theorem mul_eq (h : ProductsOf r w v) (h' : ProductsOf r w' v') (i j : Fin 4) :
    Matrix.vecCons w v i * Matrix.vecCons w v j =
      Matrix.vecCons w' v' i * Matrix.vecCons w' v' j := by
  have hfour : (4 : K) ≠ 0 := OfNat.ofNat_ne_zero 4
  have hcancel : forall {x y z : K}, 4 * x = z -> 4 * y = z -> x = y :=
    fun hx hy => mul_left_cancel₀ hfour (hx.trans hy.symm)
  have hmixed : forall i, w * v i = w' * v' i := fun i =>
    hcancel (h.mixed i (i + 1) (i + 1 + 1) ⟨rfl, rfl⟩)
      (h'.mixed i (i + 1) (i + 1 + 1) ⟨rfl, rfl⟩)
  have hnext : forall i, v i * v (i + 1) = v' i * v' (i + 1) := fun i =>
    hcancel (h.cross i (i + 1) (i + 1 + 1) ⟨rfl, rfl⟩)
      (h'.cross i (i + 1) (i + 1 + 1) ⟨rfl, rfl⟩)
  have hvector : forall i j, v i * v j = v' i * v' j := by
    intro i j
    have horder : j = i ∨ j = i + 1 ∨ i = j + 1 := by
      revert i j
      decide
    rcases horder with rfl | rfl | rfl
    · exact hcancel (h.square j) (h'.square j)
    · exact hnext i
    · rw [mul_comm, hnext j, mul_comm]
  cases i using Fin.cases with
  | zero =>
      cases j using Fin.cases with
      | zero => exact hcancel h.scalar h'.scalar
      | succ j => exact hmixed j
  | succ i =>
      cases j using Fin.cases with
      | zero =>
          show v i * w = v' i * w'
          rw [mul_comm, hmixed i, mul_comm]
      | succ j => exact hvector i j

end ProductsOf

theorem eq_or_eq_neg_of_mul_eq {I L : Type} [Field L] {a b : I -> L}
    (h : forall i j, a i * a j = b i * b j) : b = a ∨ b = -a := by
  by_cases hzero : forall i, a i = 0
  · refine Or.inl (funext fun i => ?_)
    have hself := h i i
    rw [hzero i, mul_zero] at hself
    rw [hzero i]
    exact mul_self_eq_zero.mp hself.symm
  · rcases not_forall.mp hzero with ⟨i, hi⟩
    rcases mul_self_eq_mul_self_iff.mp (h i i).symm with hsame | hopposite
    · refine Or.inl (funext fun j => mul_left_cancel₀ hi ?_)
      rw [h i j, hsame]
    · refine Or.inr (funext fun j => mul_left_cancel₀ hi ?_)
      rw [Pi.neg_apply, mul_neg, h i j, hopposite, neg_mul, neg_neg]

/-!
## In the mirror of the second axis
-/

omit [CharZero K] in
theorem rotationMatrix_mirror (w x y z : K) :
    rotationMatrix ⟨w, -x, y, -z⟩ =
      Matrix.diagonal ![1, -1, 1] * rotationMatrix ⟨w, x, y, z⟩ *
        Matrix.diagonal ![1, -1, 1] := by
  ext i j
  rw [Matrix.mul_diagonal, Matrix.diagonal_mul]
  fin_cases i <;> fin_cases j <;> simp [rotationMatrix] <;> ring

end Field

end Foundation
end FrankaKistar
