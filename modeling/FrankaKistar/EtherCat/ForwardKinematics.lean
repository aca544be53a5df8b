import FrankaKistar.EtherCat.FkSolver
import FrankaKistar.Foundation.RigidMotions
import FrankaKistar.SharedMemory.Layout
import Mathlib.Analysis.SpecialFunctions.Trigonometric.Basic

/-!
# The forward kinematics of the hand

`fk_solver.cpp` in exact arithmetic.  Each finger is a chain of links that are
composed one after the other, from the palm to the tip.  Every link is a rigid
motion as soon as the sine and the cosine of each angle lie on the unit circle,
and so is the chain after any number of links.
-/

namespace FrankaKistar
namespace EtherCat

open Foundation

attribute [local instance] neZero_three neZero_four

/-- The functions of `<cmath>` that the solver calls. -/
structure Libm (K : Type) where
  cos : K -> K
  sin : K -> K
  sqrt : K -> K

section Solver

variable {K : Type} [Field K]

def kPi : K := 3.14159265358979323846

def identity : Transform K where
  r := !![1, 0, 0; 0, 1, 0; 0, 0, 1]
  p := ![0, 0, 0]

def compose (a b : Transform K) : Transform K where
  r := Matrix.of fun i j =>
    a.r i 0 * b.r 0 j + a.r i 1 * b.r 1 j + a.r i 2 * b.r 2 j
  p := fun i =>
    a.r i 0 * b.p 0 + a.r i 1 * b.p 1 + a.r i 2 * b.p 2 + a.p i

def makeRpyXyz (m : Libm K) (roll pitch yaw x y z : K) : Transform K :=
  let cr := m.cos roll
  let sr := m.sin roll
  let cp := m.cos pitch
  let sp := m.sin pitch
  let cy := m.cos yaw
  let sy := m.sin yaw
  { r := !![
      cy * cp, cy * sp * sr - sy * cr, cy * sp * cr + sy * sr;
      sy * cp, sy * sp * sr + cy * cr, sy * sp * cr - cy * sr;
      -sp, cp * sr, cp * cr]
    p := ![x, y, z] }

def axisRotation (m : Libm K) (ax ay az q : K) : Transform K :=
  let c := m.cos q
  let s := m.sin q
  let v := 1 - c
  { r := !![
      ax * ax * v + c, ax * ay * v - az * s, ax * az * v + ay * s;
      ay * ax * v + az * s, ay * ay * v + c, ay * az * v - ax * s;
      az * ax * v - ay * s, az * ay * v + ax * s, az * az * v + c]
    p := ![0, 0, 0] }

def fixedThenRevolute (m : Libm K) (roll pitch yaw x y z ax ay az q : K) :
    Transform K :=
  compose (makeRpyXyz m roll pitch yaw x y z) (axisRotation m ax ay az q)

def toRadianFromEncoder (enc : Int16) : K := (enc.toInt : K) * (kPi / 8192.0)

/-- `t = compose(t, link)` for every link. -/
def accumulate (links : List (Transform K)) : Transform K :=
  links.foldl compose identity

/-- The links of `solve_thumb`. -/
def thumbLinks (m : Libm K) (q : Fin 4 -> K) : List (Transform K) :=
  [makeRpyXyz m 0.0 0.0 0.0 0.0 0.0 0.071,
    makeRpyXyz m (-0.0873) 0.0 0.0 (-0.02325) 0.01224 (-0.02988),
    fixedThenRevolute m (-1.5708) 0.0 0.0 0.0197 0.002 0.0 0.0 1.0 0.0 (q 0),
    fixedThenRevolute m 0.0 0.0 0.0 (-0.002) 0.0 0.036 0.0 0.0 1.0 (q 1),
    fixedThenRevolute m 0.0 0.0 0.0 0.002 0.0 0.0102 0.0 1.0 0.0 (q 2),
    fixedThenRevolute m 0.0 0.0 0.0 0.0 0.0 0.0335 0.0 1.0 0.0 (q 3),
    makeRpyXyz m 0.0 0.0 0.0 (-0.002) 0.0 0.010]

/-- `base_roll`, `base_pitch`, `base_yaw`, `base_x`, `base_y` and `base_z`. -/
structure FingerBase (K : Type) where
  roll : K
  pitch : K
  yaw : K
  x : K
  y : K
  z : K

/-- The links of `solve_finger_common`. -/
def fingerLinks (m : Libm K) (base : FingerBase K) (q : Fin 4 -> K) :
    List (Transform K) :=
  [makeRpyXyz m 0.0 0.0 0.0 0.0 0.0 0.071,
    makeRpyXyz m base.roll base.pitch base.yaw base.x base.y base.z,
    fixedThenRevolute m 0.0 0.0 0.0 0.02325 0.0 0.0047 1.0 0.0 0.0 (q 0),
    fixedThenRevolute m 0.0 0.0 0.0 0.002 0.0 0.0195 0.0 1.0 0.0 (q 1),
    fixedThenRevolute m 0.0 0.0 0.0 0.0 0.0 0.0335 0.0 1.0 0.0 (q 2),
    makeRpyXyz m 0.0 0.0 0.0 0.0 0.0 0.0267,
    fixedThenRevolute m 0.0 0.0 0.0 0.0 0.0 0.0 0.0 1.0 0.0 (q 3),
    makeRpyXyz m 0.0 0.0 0.0 (-0.002) 0.0 0.010]

def indexBase : FingerBase K := ⟨-0.0873, 0.0, 0.0, -0.02325, 0.02935, -0.0004⟩

def middleBase : FingerBase K := ⟨0.0, 0.0, 0.0, -0.02325, 0.0, 0.0⟩

def ringBase : FingerBase K := ⟨0.0873, 0.0, 0.0, -0.02325, -0.02935, -0.0004⟩

/-- `pos` and `quat`. -/
structure FingerTip (K : Type) where
  pos : Fin 3 -> K
  quat : Fin 4 -> K

/-- `&q[4 * finger]` -/
def fingerJoints (q : Fin handDOF -> K) (finger : Fin 4) : Fin 4 -> K :=
  fun i => q ⟨4 * finger.val + i.val, by
    have hdof : handDOF = 16 := rfl
    omega⟩

def handLinks (m : Libm K) (q : Fin handDOF -> K) :
    Fin 4 -> List (Transform K) :=
  ![thumbLinks m (fingerJoints q 0),
    fingerLinks m indexBase (fingerJoints q 1),
    fingerLinks m middleBase (fingerJoints q 2),
    fingerLinks m ringBase (fingerJoints q 3)]

variable [LinearOrder K]

def tipOf (m : Libm K) (t : Transform K) :
    Except ArithmeticError (FingerTip K) := do
  let quat <- rotmatToQuatWxyz m.sqrt t.r
  return ⟨t.p, quat⟩

def solveThumb (m : Libm K) (q : Fin 4 -> K) :
    Except ArithmeticError (FingerTip K) :=
  tipOf m (accumulate (thumbLinks m q))

def solveFingerCommon (m : Libm K) (base : FingerBase K) (q : Fin 4 -> K) :
    Except ArithmeticError (FingerTip K) :=
  tipOf m (accumulate (fingerLinks m base q))

def computeHandFkFromJointPos (m : Libm K) (jointPos : Fin handDOF -> Int16) :
    Except ArithmeticError (Fin 4 -> FingerTip K) := do
  let q := fun i => toRadianFromEncoder (jointPos i)
  let thumb <- solveThumb m (fingerJoints q 0)
  let index <- solveFingerCommon m indexBase (fingerJoints q 1)
  let middle <- solveFingerCommon m middleBase (fingerJoints q 2)
  let ring <- solveFingerCommon m ringBase (fingerJoints q 3)
  return ![thumb, index, middle, ring]

end Solver

/-!
## The composition is that of maps
-/

section Chain

variable {K : Type} [Field K]

theorem identity_eq_one : (identity : Transform K) = 1 := by
  ext i j
  · fin_cases i <;> fin_cases j <;> rfl
  · fin_cases i <;> rfl

theorem compose_eq_mul (a b : Transform K) : compose a b = a * b := by
  ext i j
  · rw [Transform.mul_r, Matrix.mul_apply, Fin.sum_univ_three]
    rfl
  · rw [Transform.mul_p, Pi.add_apply, Matrix.mulVec, dotProduct,
      Fin.sum_univ_three]
    rfl

theorem accumulate_eq_prod (links : List (Transform K)) :
    accumulate links = links.prod := by
  have hcompose : (compose : Transform K -> Transform K -> Transform K) =
      fun a b => a * b :=
    funext fun a => funext fun b => compose_eq_mul a b
  rw [accumulate, hcompose, identity_eq_one, List.prod_eq_foldl]

/-!
## Every link is rigid
-/

def Circular (m : Libm K) : Prop :=
  forall x, m.sin x ^ 2 + m.cos x ^ 2 = 1

variable {m : Libm K} (hm : Circular m)

include hm

theorem axisRotation_isRotation {ax ay az : K}
    (haxis : ax * ax + ay * ay + az * az = 1) (q : K) :
    IsRotation (axisRotation m ax ay az q).r := by
  have hcircle := hm q
  apply isRotation_of_columns
  · intro i j
    have hentry : (axisRotation m ax ay az q).r 0 i *
          (axisRotation m ax ay az q).r 0 j +
        (axisRotation m ax ay az q).r 1 i * (axisRotation m ax ay az q).r 1 j +
        (axisRotation m ax ay az q).r 2 i * (axisRotation m ax ay az q).r 2 j =
      (if i = j then 1 else 0) +
        ((1 - m.cos q) ^ 2 * (![ax, ay, az] i * ![ax, ay, az] j) +
            m.sin q ^ 2 * if i = j then 1 else 0) *
          (ax * ax + ay * ay + az * az - 1) +
        ((if i = j then 1 else 0) - ![ax, ay, az] i * ![ax, ay, az] j) *
          (m.sin q ^ 2 + m.cos q ^ 2 - 1) := by
      fin_cases i <;> fin_cases j <;> simp [axisRotation] <;> ring
    rw [hentry, haxis, hcircle, sub_self, mul_zero, mul_zero, add_zero,
      add_zero]
  · rw [Matrix.det_fin_three]
    simp [axisRotation]
    linear_combination (m.cos q * m.sin q ^ 2 + (1 - m.cos q) * m.cos q ^ 2 +
      (1 - m.cos q) * m.sin q ^ 2 * (ax * ax + ay * ay + az * az + 1)) *
        haxis + hcircle

omit hm in
theorem makeRpyXyz_r (m : Libm K) (roll pitch yaw x y z : K) :
    (makeRpyXyz m roll pitch yaw x y z).r =
      (axisRotation m 0 0 1 yaw).r * (axisRotation m 0 1 0 pitch).r *
        (axisRotation m 1 0 0 roll).r := by
  ext i j
  fin_cases i <;> fin_cases j <;>
    simp [makeRpyXyz, axisRotation, Matrix.mul_apply, Fin.sum_univ_three] <;>
    ring

theorem makeRpyXyz_isRotation (roll pitch yaw x y z : K) :
    IsRotation (makeRpyXyz m roll pitch yaw x y z).r := by
  rw [makeRpyXyz_r]
  exact ((axisRotation_isRotation hm (by ring) yaw).mul
    (axisRotation_isRotation hm (by ring) pitch)).mul
      (axisRotation_isRotation hm (by ring) roll)

theorem fixedThenRevolute_isRotation {ax ay az : K}
    (haxis : ax * ax + ay * ay + az * az = 1)
    (roll pitch yaw x y z q : K) :
    IsRotation (fixedThenRevolute m roll pitch yaw x y z ax ay az q).r := by
  rw [fixedThenRevolute, compose_eq_mul, Transform.mul_r]
  exact (makeRpyXyz_isRotation hm roll pitch yaw x y z).mul
    (axisRotation_isRotation hm haxis q)

omit hm in
/-- A joint moves nothing by itself, only the offset before it does. -/
theorem fixedThenRevolute_p (m : Libm K) (roll pitch yaw x y z ax ay az q : K) :
    (fixedThenRevolute m roll pitch yaw x y z ax ay az q).p = ![x, y, z] := by
  have horigin : (axisRotation m ax ay az q).p = 0 := by
    ext i
    fin_cases i <;> rfl
  rw [fixedThenRevolute, compose_eq_mul, Transform.mul_p, horigin,
    Matrix.mulVec_zero, zero_add]
  rfl

omit hm in
theorem accumulate_isRotation {links : List (Transform K)}
    (h : forall t, t ∈ links -> IsRotation t.r) (k : Nat) :
    IsRotation (accumulate (links.take k)).r := by
  rw [accumulate_eq_prod]
  exact Transform.isRotation_prod fun t ht => h t (List.mem_of_mem_take ht)

variable [CharZero K]

theorem thumbLinks_isRotation (q : Fin 4 -> K) :
    forall t, t ∈ thumbLinks m q -> IsRotation t.r := by
  simp only [thumbLinks, List.forall_mem_cons]
  exact ⟨makeRpyXyz_isRotation hm .., makeRpyXyz_isRotation hm ..,
    fixedThenRevolute_isRotation hm (by norm_num) ..,
    fixedThenRevolute_isRotation hm (by norm_num) ..,
    fixedThenRevolute_isRotation hm (by norm_num) ..,
    fixedThenRevolute_isRotation hm (by norm_num) ..,
    makeRpyXyz_isRotation hm .., List.forall_mem_nil _⟩

theorem fingerLinks_isRotation (base : FingerBase K) (q : Fin 4 -> K) :
    forall t, t ∈ fingerLinks m base q -> IsRotation t.r := by
  simp only [fingerLinks, List.forall_mem_cons]
  exact ⟨makeRpyXyz_isRotation hm .., makeRpyXyz_isRotation hm ..,
    fixedThenRevolute_isRotation hm (by norm_num) ..,
    fixedThenRevolute_isRotation hm (by norm_num) ..,
    fixedThenRevolute_isRotation hm (by norm_num) ..,
    makeRpyXyz_isRotation hm ..,
    fixedThenRevolute_isRotation hm (by norm_num) ..,
    makeRpyXyz_isRotation hm .., List.forall_mem_nil _⟩

theorem handLinks_isRotation (q : Fin handDOF -> K) (finger : Fin 4) :
    forall t, t ∈ handLinks m q finger -> IsRotation t.r := by
  fin_cases finger
  · exact thumbLinks_isRotation hm _
  · exact fingerLinks_isRotation hm _ _
  · exact fingerLinks_isRotation hm _ _
  · exact fingerLinks_isRotation hm _ _

end Chain

/-!
## The fingertips
-/

structure IsTip {K : Type} [Field K] (tip : FingerTip K) (t : Transform K) :
    Prop where
  pos : tip.pos = t.p
  quat : QuaternionOf tip.quat t.r

section Tips

variable {K : Type} [Field K] [LinearOrder K] [IsStrictOrderedRing K]
variable {m : Libm K} (hm : Circular m) (hsqrt : IsSquareRoot m.sqrt)

include hsqrt

theorem exists_tipOf {t : Transform K} (h : IsRotation t.r) :
    exists tip, tipOf m t = .ok tip ∧ IsTip tip t := by
  rcases exists_quaternion hsqrt h with ⟨quat, hok, hquat⟩
  refine ⟨⟨t.p, quat⟩, ?_, rfl, hquat⟩
  rw [tipOf, hok]
  rfl

include hm

theorem exists_solveThumb (q : Fin 4 -> K) :
    exists tip, solveThumb m q = .ok tip ∧
      IsTip tip (accumulate (thumbLinks m q)) := by
  have h := accumulate_isRotation (thumbLinks_isRotation hm q) 7
  exact exists_tipOf hsqrt h

theorem exists_solveFingerCommon (base : FingerBase K) (q : Fin 4 -> K) :
    exists tip, solveFingerCommon m base q = .ok tip ∧
      IsTip tip (accumulate (fingerLinks m base q)) := by
  have h := accumulate_isRotation (fingerLinks_isRotation hm base q) 8
  exact exists_tipOf hsqrt h

theorem exists_computeHandFk (jointPos : Fin handDOF -> Int16) :
    exists tips, computeHandFkFromJointPos m jointPos = .ok tips ∧
      forall finger, IsTip (tips finger) (accumulate (handLinks m
        (fun i => toRadianFromEncoder (jointPos i)) finger)) := by
  rcases exists_solveThumb hm hsqrt
    (fingerJoints (fun i => toRadianFromEncoder (jointPos i)) 0) with
    ⟨thumb, hthumb, hthumbTip⟩
  have hfingers := fun base finger => exists_solveFingerCommon hm hsqrt base
    (fingerJoints (fun i => toRadianFromEncoder (jointPos i)) finger)
  rcases hfingers indexBase 1 with ⟨index, hindex, hindexTip⟩
  rcases hfingers middleBase 2 with ⟨middle, hmiddle, hmiddleTip⟩
  rcases hfingers ringBase 3 with ⟨ring, hring, hringTip⟩
  refine ⟨![thumb, index, middle, ring], ?_, ?_⟩
  · simp only [computeHandFkFromJointPos]
    rw [hthumb, hindex, hmiddle, hring]
    rfl
  · intro finger
    fin_cases finger
    · exact hthumbTip
    · exact hindexTip
    · exact hmiddleTip
    · exact hringTip

end Tips

def fixedOffsets (K : Type) [Field K] : Fin 4 -> List (Fin 3 -> K) :=
  ![[![-0.002, 0.0, 0.036], ![0.002, 0.0, 0.0102], ![0.0, 0.0, 0.0335],
      ![-0.002, 0.0, 0.010]],
    [![0.002, 0.0, 0.0195], ![0.0, 0.0, 0.0335], ![0.0, 0.0, 0.0267],
      ![0.0, 0.0, 0.0], ![-0.002, 0.0, 0.010]],
    [![0.002, 0.0, 0.0195], ![0.0, 0.0, 0.0335], ![0.0, 0.0, 0.0267],
      ![0.0, 0.0, 0.0], ![-0.002, 0.0, 0.010]],
    [![0.002, 0.0, 0.0195], ![0.0, 0.0, 0.0335], ![0.0, 0.0, 0.0267],
      ![0.0, 0.0, 0.0], ![-0.002, 0.0, 0.010]]]

theorem drop_handLinks {K : Type} [Field K] (m : Libm K)
    (q : Fin handDOF -> K) (finger : Fin 4) :
    ((handLinks m q finger).drop 3).map (fun t => t.p) =
      fixedOffsets K finger := by
  fin_cases finger <;>
    simp [handLinks, thumbLinks, fingerLinks, fixedThenRevolute_p,
      fixedOffsets, makeRpyXyz]

/-- The chain of a finger is rigid after every link, and its end is within
reach of the frame of the first joint, which is the third one. -/
structure RigidFinger (links : List (Transform ℝ)) (offsets : List (Fin 3 -> ℝ))
    (tip : Fin 3 -> ℝ) : Prop where
  rigid : forall k, IsRotation (accumulate (links.take k)).r
  ends : tip = (accumulate links).p
  reach : Transform.length (tip - (accumulate (links.take 3)).p) ≤
    (offsets.map Transform.length).sum

theorem rigidFinger_of_links {links : List (Transform ℝ)}
    (h : forall t, t ∈ links -> IsRotation t.r) :
    RigidFinger links ((links.drop 3).map fun t => t.p)
      (accumulate links).p where
  rigid := accumulate_isRotation h
  ends := rfl
  reach := by
    have hsplit := List.take_append_drop 3 links
    rw [<- hsplit] at h
    have hreach := Transform.length_sub_le h
    rw [hsplit] at hreach
    rw [accumulate_eq_prod, accumulate_eq_prod, List.map_map]
    exact hreach

/-- For all encoder values. -/
theorem computeHandFk_rigid (cos sin : ℝ -> ℝ)
    (hcircle : forall x, sin x ^ 2 + cos x ^ 2 = 1)
    (jointPos : Fin handDOF -> Int16) :
    exists tips,
      computeHandFkFromJointPos ⟨cos, sin, Real.sqrt⟩ jointPos = .ok tips ∧
      forall finger,
        RigidFinger
          (handLinks ⟨cos, sin, Real.sqrt⟩
            (fun i => toRadianFromEncoder (jointPos i)) finger)
          (fixedOffsets ℝ finger) (tips finger).pos := by
  have hm : Circular (⟨cos, sin, Real.sqrt⟩ : Libm ℝ) := hcircle
  rcases exists_computeHandFk hm isSquareRoot_sqrt jointPos with ⟨tips, hok, htips⟩
  refine ⟨tips, hok, fun finger => ?_⟩
  rw [(htips finger).pos, <- drop_handLinks]
  exact rigidFinger_of_links (handLinks_isRotation hm _ finger)

def bentHand : Fin handDOF -> Int16 := fun i => 100 * Int16.ofNat (i.val + 1)

theorem computeHandFk_rigid_bentHand :
    exists tips,
      computeHandFkFromJointPos ⟨Real.cos, Real.sin, Real.sqrt⟩ bentHand =
        .ok tips ∧
      forall finger,
        RigidFinger
          (handLinks ⟨Real.cos, Real.sin, Real.sqrt⟩
            (fun i => toRadianFromEncoder (bentHand i)) finger)
          (fixedOffsets ℝ finger) (tips finger).pos :=
  computeHandFk_rigid Real.cos Real.sin Real.sin_sq_add_cos_sq bentHand

end EtherCat
end FrankaKistar
