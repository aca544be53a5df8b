import FrankaKistar.EtherCat.ForwardKinematics

/-!
# The index and the ring finger

Seen in the mirror between them, the index finger is the ring finger with the
first joint turned the other way.  Every link of one chain is the mirror image
of a link of the other, and so are the ends of the chains.
-/

namespace FrankaKistar
namespace EtherCat

open Foundation

section Links

variable {K : Type} [Field K]

/-- `diag(1, -1, 1)` -/
def sideMirror (K : Type) [Field K] : Matrix (Fin 3) (Fin 3) K :=
  Matrix.diagonal ![1, -1, 1]

theorem sideMirror_mul_self : sideMirror K * sideMirror K = 1 := by
  rw [sideMirror, Matrix.diagonal_mul_diagonal, <- Matrix.diagonal_one]
  congr 1
  funext i
  fin_cases i <;> norm_num

theorem sideMirror_mulVec (v : Fin 3 -> K) :
    (sideMirror K).mulVec v = ![v 0, -v 1, v 2] := by
  ext i
  rw [sideMirror, Matrix.mulVec_diagonal]
  fin_cases i <;> simp

theorem mirror_r_apply (t : Transform K) (i j : Fin 3) :
    (t.mirror (sideMirror K)).r i j =
      ![1, -1, 1] i * t.r i j * ![1, -1, 1] j := by
  rw [Transform.mirror_r, sideMirror, Matrix.mul_diagonal,
    Matrix.diagonal_mul]

structure Reflected (m : Libm K) : Prop where
  cos : forall x, m.cos (-x) = m.cos x
  sin : forall x, m.sin (-x) = -m.sin x

variable {m : Libm K} (hm : Reflected m)

/-- The axis of a turn is mirrored as a pseudovector. -/
theorem mirror_axisRotation (m : Libm K) (ax ay az q : K) :
    (axisRotation m ax ay az q).mirror (sideMirror K) =
      axisRotation m (-ax) ay (-az) q := by
  ext i j
  · rw [mirror_r_apply]
    fin_cases i <;> fin_cases j <;> simp [axisRotation] <;> ring
  · rw [Transform.mirror_p, sideMirror_mulVec]
    fin_cases i <;> simp [axisRotation]

include hm

theorem axisRotation_neg (ax ay az q : K) :
    axisRotation m (-ax) (-ay) (-az) q = axisRotation m ax ay az (-q) := by
  simp only [axisRotation, hm.cos, hm.sin, neg_mul, mul_neg, neg_neg]

theorem mirror_makeRpyXyz (roll pitch yaw x y z : K) :
    (makeRpyXyz m roll pitch yaw x y z).mirror (sideMirror K) =
      makeRpyXyz m (-roll) pitch (-yaw) x (-y) z := by
  ext i j
  · rw [mirror_r_apply]
    fin_cases i <;> fin_cases j <;>
      simp [makeRpyXyz, hm.cos, hm.sin] <;> ring
  · rw [Transform.mirror_p, sideMirror_mulVec]
    fin_cases i <;> simp [makeRpyXyz]

theorem mirror_fixedThenRevolute (roll pitch yaw x y z ax ay az q : K) :
    (fixedThenRevolute m roll pitch yaw x y z ax ay az q).mirror
        (sideMirror K) =
      fixedThenRevolute m (-roll) pitch (-yaw) x (-y) z (-ax) ay (-az) q := by
  rw [fixedThenRevolute, fixedThenRevolute, compose_eq_mul, compose_eq_mul,
    Transform.mirror_mul sideMirror_mul_self, mirror_makeRpyXyz hm,
    mirror_axisRotation]

variable [CharZero K]

theorem mirror_fingerLinks (base : FingerBase K) (a b c d : K) :
    (fingerLinks m base ![a, b, c, d]).map (Transform.mirror (sideMirror K)) =
      fingerLinks m
        ⟨-base.roll, base.pitch, -base.yaw, base.x, -base.y, base.z⟩
        ![-a, b, c, d] := by
  have hzero : (-0.0 : K) = 0.0 := by norm_num
  have hpitch : forall x y z q : K,
      (fixedThenRevolute m 0.0 0.0 0.0 x y z 0.0 1.0 0.0 q).mirror
          (sideMirror K) =
        fixedThenRevolute m 0.0 0.0 0.0 x (-y) z 0.0 1.0 0.0 q := by
    intro x y z q
    rw [mirror_fixedThenRevolute hm, hzero]
  have hroll :
      (fixedThenRevolute m 0.0 0.0 0.0 0.02325 0.0 0.0047 1.0 0.0 0.0 a).mirror
          (sideMirror K) =
        fixedThenRevolute m 0.0 0.0 0.0 0.02325 0.0 0.0047 1.0 0.0 0.0
          (-a) := by
    have hturn := axisRotation_neg hm 1.0 0.0 0.0 a
    rw [hzero] at hturn
    rw [mirror_fixedThenRevolute hm, hzero, fixedThenRevolute, hturn]
    rfl
  simp only [fingerLinks, List.map_cons, List.map_nil, hpitch,
    Matrix.cons_val_zero, hroll, mirror_makeRpyXyz hm, hzero]
  rfl

theorem mirror_accumulate (base : FingerBase K) (a b c d : K) :
    (accumulate (fingerLinks m base ![a, b, c, d])).mirror (sideMirror K) =
      accumulate (fingerLinks m
        ⟨-base.roll, base.pitch, -base.yaw, base.x, -base.y, base.z⟩
        ![-a, b, c, d]) := by
  rw [accumulate_eq_prod, Transform.mirror_prod sideMirror_mul_self,
    mirror_fingerLinks hm, accumulate_eq_prod]

theorem mirror_index (a b c d : K) :
    (accumulate (fingerLinks m indexBase ![a, b, c, d])).mirror
        (sideMirror K) =
      accumulate (fingerLinks m ringBase ![-a, b, c, d]) := by
  have hring : (ringBase : FingerBase K) =
      ⟨-indexBase.roll, indexBase.pitch, -indexBase.yaw, indexBase.x,
        -indexBase.y, indexBase.z⟩ := by
    simp [ringBase, indexBase]
    norm_num
  rw [mirror_accumulate hm, hring]

end Links

/-!
## The quaternions
-/

theorem QuaternionOf.norm_eq {K : Type} [Field K] {quat : Fin 4 -> K}
    {r : Matrix (Fin 3) (Fin 3) K} (h : QuaternionOf quat r) :
    quat 0 * quat 0 + quat 1 * quat 1 + quat 2 * quat 2 + quat 3 * quat 3 =
      1 := by
  have hunit := h.unit
  rw [Quaternion.normSq_def'] at hunit
  simp only [sq] at hunit
  exact hunit

theorem QuaternionOf.matrix_eq {K : Type} [Field K] {quat : Fin 4 -> K}
    {r : Matrix (Fin 3) (Fin 3) K} (h : QuaternionOf quat r) :
    rotationMatrix ⟨quat 0, quat 1, quat 2, quat 3⟩ = r := h.matrix

theorem QuaternionOf.mirror {K : Type} [Field K] {quat : Fin 4 -> K}
    {r : Matrix (Fin 3) (Fin 3) K} (h : QuaternionOf quat r) :
    QuaternionOf ![quat 0, -quat 1, quat 2, -quat 3]
      (sideMirror K * r * sideMirror K) := by
  have hmatrix : rotationMatrix ((Quaternion.equivTuple K).symm
      ![quat 0, -quat 1, quat 2, -quat 3]) =
        sideMirror K * r * sideMirror K := by
    rw [<- h.matrix_eq]
    exact rotationMatrix_mirror (quat 0) (quat 1) (quat 2) (quat 3)
  constructor
  · have hnorm := h.norm_eq
    rw [<- neg_mul_neg (quat 1), <- neg_mul_neg (quat 3)] at hnorm
    rw [Quaternion.normSq_def']
    simp only [sq]
    exact hnorm
  · exact hmatrix
  · intro v
    rw [conj_pureQuaternion, hmatrix]

theorem QuaternionOf.products {K : Type} [Field K] {quat : Fin 4 -> K}
    {r : Matrix (Fin 3) (Fin 3) K} (h : QuaternionOf quat r) :
    ProductsOf r (quat 0) ![quat 1, quat 2, quat 3] := by
  have hnorm : quat 0 * quat 0 +
      ![quat 1, quat 2, quat 3] 0 * ![quat 1, quat 2, quat 3] 0 +
      ![quat 1, quat 2, quat 3] 1 * ![quat 1, quat 2, quat 3] 1 +
      ![quat 1, quat 2, quat 3] 2 * ![quat 1, quat 2, quat 3] 2 = 1 :=
    h.norm_eq
  have hproducts := productsOf_rotationMatrix hnorm
  rw [<- h.matrix_eq]
  exact hproducts

theorem QuaternionOf.eq_or_eq_neg {K : Type} [Field K] [CharZero K]
    {quat quat' : Fin 4 -> K} {r : Matrix (Fin 3) (Fin 3) K}
    (h : QuaternionOf quat r) (h' : QuaternionOf quat' r) :
    quat' = quat ∨ quat' = -quat := by
  have hcomponents : forall q : Fin 4 -> K,
      Matrix.vecCons (q 0) ![q 1, q 2, q 3] = q := by
    intro q
    ext i
    fin_cases i <;> rfl
  have hproducts := h.products.mul_eq h'.products
  rw [hcomponents, hcomponents] at hproducts
  exact eq_or_eq_neg_of_mul_eq hproducts

noncomputable def exactLibm : Libm ℝ := ⟨Real.cos, Real.sin, Real.sqrt⟩

theorem exactLibm_circular : Circular exactLibm := Real.sin_sq_add_cos_sq

theorem exactLibm_reflected : Reflected exactLibm :=
  ⟨Real.cos_neg, Real.sin_neg⟩

/-- For all joint angles. -/
theorem solveFingerCommon_mirror (a b c d : ℝ) :
    exists index ring,
      solveFingerCommon exactLibm indexBase ![a, b, c, d] = .ok index ∧
      solveFingerCommon exactLibm ringBase ![-a, b, c, d] = .ok ring ∧
      ring.pos = ![index.pos 0, -index.pos 1, index.pos 2] ∧
      (accumulate (fingerLinks exactLibm ringBase ![-a, b, c, d])).r =
        Matrix.diagonal ![1, -1, 1] *
          (accumulate (fingerLinks exactLibm indexBase ![a, b, c, d])).r *
            Matrix.diagonal ![1, -1, 1] ∧
      (ring.quat =
          ![index.quat 0, -index.quat 1, index.quat 2, -index.quat 3] ∨
        ring.quat =
          -![index.quat 0, -index.quat 1, index.quat 2, -index.quat 3]) := by
  rcases exists_solveFingerCommon exactLibm_circular isSquareRoot_sqrt
    indexBase ![a, b, c, d] with ⟨index, hindex, hindexTip⟩
  rcases exists_solveFingerCommon exactLibm_circular isSquareRoot_sqrt
    ringBase ![-a, b, c, d] with ⟨ring, hring, hringTip⟩
  have hmirror := mirror_index exactLibm_reflected a b c d
  refine ⟨index, ring, hindex, hring, ?_, ?_, ?_⟩
  · rw [hringTip.pos, <- hmirror, Transform.mirror_p, sideMirror_mulVec,
      hindexTip.pos]
  · rw [<- hmirror]
    rfl
  · have hquat := hringTip.quat
    rw [<- hmirror] at hquat
    exact hindexTip.quat.mirror.eq_or_eq_neg hquat

end EtherCat
end FrankaKistar
