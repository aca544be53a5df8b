import FrankaKistar.Foundation.Rotations
import Mathlib.Algebra.BigOperators.Group.List.Basic
import Mathlib.Algebra.Group.Submonoid.BigOperators
import Mathlib.Analysis.InnerProductSpace.PiL2

/-!
# Rigid motions

Affine maps of three-space as a monoid, the submonoid of those whose linear
part is a rotation, and the mirror image of a map.  A chain of maps is the
product of a list: the origin of a chain of rigid motions is never farther away
than its offsets are long together.
-/

namespace FrankaKistar
namespace Foundation

/-!
## Rotations
-/

section Rotation

variable {K : Type} [CommRing K]

theorem isRotation_one : IsRotation (1 : Matrix (Fin 3) (Fin 3) K) := by
  constructor
  · rw [Matrix.transpose_one, Matrix.one_mul]
  · exact Matrix.det_one

theorem IsRotation.mul {r s : Matrix (Fin 3) (Fin 3) K} (hr : IsRotation r)
    (hs : IsRotation s) : IsRotation (r * s) := by
  constructor
  · calc
      (r * s).transpose * (r * s) = s.transpose * (r.transpose * r) * s := by
        rw [Matrix.transpose_mul]
        simp only [Matrix.mul_assoc]
      _ = 1 := by
        rw [hr.orthogonal, Matrix.mul_one, hs.orthogonal]
  · rw [Matrix.det_mul, hr.det_eq_one, hs.det_eq_one, one_mul]

theorem isRotation_of_columns {r : Matrix (Fin 3) (Fin 3) K}
    (hcolumns : forall i j,
      r 0 i * r 0 j + r 1 i * r 1 j + r 2 i * r 2 j = if i = j then 1 else 0)
    (hdet : r.det = 1) : IsRotation r := by
  constructor
  · ext i j
    rw [Matrix.mul_apply, Fin.sum_univ_three, Matrix.one_apply]
    exact hcolumns i j
  · exact hdet

end Rotation

/-!
## Affine maps
-/

/-- The map `x ↦ r x + p`. -/
@[ext] structure Transform (K : Type) where
  r : Matrix (Fin 3) (Fin 3) K
  p : Fin 3 -> K

namespace Transform

section Monoid

variable {K : Type} [CommRing K]

instance : One (Transform K) := ⟨⟨1, 0⟩⟩

instance : Mul (Transform K) :=
  ⟨fun a b => ⟨a.r * b.r, a.r.mulVec b.p + a.p⟩⟩

@[simp] theorem one_r : (1 : Transform K).r = 1 := rfl

@[simp] theorem one_p : (1 : Transform K).p = 0 := rfl

@[simp] theorem mul_r (a b : Transform K) : (a * b).r = a.r * b.r := rfl

@[simp] theorem mul_p (a b : Transform K) :
    (a * b).p = a.r.mulVec b.p + a.p := rfl

instance : Monoid (Transform K) where
  one_mul a := by
    ext1
    · rw [mul_r, one_r, Matrix.one_mul]
    · rw [mul_p, one_r, one_p, Matrix.one_mulVec, add_zero]
  mul_one a := by
    ext1
    · rw [mul_r, one_r, Matrix.mul_one]
    · rw [mul_p, one_p, Matrix.mulVec_zero, zero_add]
  mul_assoc a b c := by
    ext1
    · simp only [mul_r, Matrix.mul_assoc]
    · simp only [mul_p, mul_r, Matrix.mulVec_add, Matrix.mulVec_mulVec,
        add_assoc]

/-- The maps whose linear part is a rotation. -/
def rigid (K : Type) [CommRing K] : Submonoid (Transform K) where
  carrier := {t | IsRotation t.r}
  one_mem' := isRotation_one
  mul_mem' := IsRotation.mul

theorem mem_rigid {t : Transform K} : t ∈ rigid K <-> IsRotation t.r := Iff.rfl

theorem isRotation_prod {links : List (Transform K)}
    (h : forall t, t ∈ links -> IsRotation t.r) : IsRotation links.prod.r :=
  mem_rigid.mp (list_prod_mem fun t ht => mem_rigid.mpr (h t ht))

/-!
## Mirror images
-/

/-- The map seen in the mirror `m`. -/
def mirror (m : Matrix (Fin 3) (Fin 3) K) (t : Transform K) : Transform K :=
  ⟨m * t.r * m, m.mulVec t.p⟩

@[simp] theorem mirror_r (m : Matrix (Fin 3) (Fin 3) K) (t : Transform K) :
    (t.mirror m).r = m * t.r * m := rfl

@[simp] theorem mirror_p (m : Matrix (Fin 3) (Fin 3) K) (t : Transform K) :
    (t.mirror m).p = m.mulVec t.p := rfl

variable {m : Matrix (Fin 3) (Fin 3) K} (hm : m * m = 1)

include hm

theorem mirror_one : mirror m (1 : Transform K) = 1 := by
  ext1
  · rw [mirror_r, one_r, Matrix.mul_one, hm]
  · rw [mirror_p, one_p, Matrix.mulVec_zero]

theorem mirror_mul (a b : Transform K) :
    mirror m (a * b) = mirror m a * mirror m b := by
  ext1
  · calc
      m * (a.r * b.r) * m = m * a.r * (1 * b.r) * m := by
        rw [Matrix.one_mul]
        simp only [Matrix.mul_assoc]
      _ = m * a.r * m * (m * b.r * m) := by
        rw [<- hm]
        simp only [Matrix.mul_assoc]
  · calc
      m.mulVec (a.r.mulVec b.p + a.p) =
          (m * a.r * 1).mulVec b.p + m.mulVec a.p := by
        rw [Matrix.mulVec_add, Matrix.mulVec_mulVec, Matrix.mul_one]
      _ = (m * a.r * m).mulVec (m.mulVec b.p) + m.mulVec a.p := by
        rw [<- hm, Matrix.mulVec_mulVec]
        simp only [Matrix.mul_assoc]

theorem mirror_prod (links : List (Transform K)) :
    mirror m links.prod = (links.map (mirror m)).prod := by
  induction links with
  | nil => exact mirror_one hm
  | cons t rest ih =>
      rw [List.prod_cons, mirror_mul hm, ih, List.map_cons, List.prod_cons]

end Monoid

/-!
## Distances
-/

section Length

attribute [local instance] atLeastTwo_two

noncomputable def length (v : Fin 3 -> ℝ) : ℝ := ‖WithLp.toLp 2 v‖

theorem length_eq_sqrt (v : Fin 3 -> ℝ) :
    length v = Real.sqrt (v 0 ^ 2 + v 1 ^ 2 + v 2 ^ 2) := by
  rw [length, EuclideanSpace.norm_eq, Fin.sum_univ_three]
  simp only [Real.norm_eq_abs, sq_abs]

theorem length_zero : length 0 = 0 := by
  rw [length, WithLp.toLp_zero, norm_zero]

theorem length_add_le (v w : Fin 3 -> ℝ) : length (v + w) ≤ length v + length w := by
  rw [length, WithLp.toLp_add]
  exact norm_add_le _ _

theorem length_mulVec {r : Matrix (Fin 3) (Fin 3) ℝ} (h : IsRotation r)
    (v : Fin 3 -> ℝ) : length (r.mulVec v) = length v := by
  have hdot : r.mulVec v ⬝ᵥ r.mulVec v = v ⬝ᵥ v := by
    rw [Matrix.dotProduct_mulVec, Matrix.vecMul_mulVec, h.orthogonal,
      Matrix.vecMul_one]
  simp only [dotProduct, Fin.sum_univ_three, <- sq] at hdot
  rw [length_eq_sqrt, length_eq_sqrt, hdot]

theorem length_prod_le {links : List (Transform ℝ)}
    (h : forall t, t ∈ links -> IsRotation t.r) :
    length links.prod.p ≤ (links.map fun t => length t.p).sum := by
  induction links with
  | nil => exact le_of_eq length_zero
  | cons t rest ih =>
      have hrest := ih fun s hs => h s (List.mem_cons_of_mem t hs)
      have hkeep := length_mulVec (h t List.mem_cons_self) rest.prod.p
      have hsum := length_add_le (t.r.mulVec rest.prod.p) t.p
      rw [List.prod_cons, mul_p, List.map_cons, List.sum_cons]
      linarith

theorem length_sub_le {before after : List (Transform ℝ)}
    (h : forall t, t ∈ before ++ after -> IsRotation t.r) :
    length ((before ++ after).prod.p - before.prod.p) ≤
      (after.map fun t => length t.p).sum := by
  have hbefore : IsRotation before.prod.r :=
    isRotation_prod fun t ht => h t (List.mem_append_left after ht)
  rw [List.prod_append, mul_p, add_sub_cancel_right, length_mulVec hbefore]
  exact length_prod_le fun t ht => h t (List.mem_append_right before ht)

end Length

end Transform

end Foundation
end FrankaKistar
