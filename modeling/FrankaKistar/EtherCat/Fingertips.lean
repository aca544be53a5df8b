import FrankaKistar.EtherCat.ForwardKinematics
import FrankaKistar.Foundation.Chains
import Mathlib.Analysis.SpecialFunctions.Trigonometric.Bounds

/-!
# How far a fingertip moves

Between two vectors of encoder values a fingertip moves by at most the length of
its chain behind the first joint times the angles by which the four joints turn.
-/

namespace FrankaKistar
namespace EtherCat

open Foundation Transform

attribute [local instance] neZero_three neZero_four

attribute [local instance] atLeastTwo_two

noncomputable def realLibm : Libm ℝ := ⟨Real.cos, Real.sin, Real.sqrt⟩

theorem circular_realLibm : Circular realLibm := Real.sin_sq_add_cos_sq

/-!
## One joint
-/

theorem chord_sq_le (q q' : ℝ) :
    (Real.cos q - Real.cos q') ^ 2 + (Real.sin q - Real.sin q') ^ 2 ≤
      (q - q') ^ 2 := by
  have hcos := Real.one_sub_sq_div_two_le_cos (x := q - q')
  have hcircle := Real.sin_sq_add_cos_sq q
  have hcircle' := Real.sin_sq_add_cos_sq q'
  rw [Real.cos_sub] at hcos
  nlinarith

theorem axisRotation_sub {ax ay az : ℝ}
    (haxis : ax * ax + ay * ay + az * az = 1) (q q' : ℝ) (v : Fin 3 -> ℝ) :
    ((axisRotation realLibm ax ay az q).r.mulVec v -
        (axisRotation realLibm ax ay az q').r.mulVec v) 0 ^ 2 +
      ((axisRotation realLibm ax ay az q).r.mulVec v -
        (axisRotation realLibm ax ay az q').r.mulVec v) 1 ^ 2 +
      ((axisRotation realLibm ax ay az q).r.mulVec v -
        (axisRotation realLibm ax ay az q').r.mulVec v) 2 ^ 2 =
    ((Real.cos q - Real.cos q') ^ 2 + (Real.sin q - Real.sin q') ^ 2) *
      (v 0 ^ 2 + v 1 ^ 2 + v 2 ^ 2 -
        (ax * v 0 + ay * v 1 + az * v 2) ^ 2) := by
  simp [axisRotation, realLibm, dotProduct, Fin.sum_univ_three]
  linear_combination
    ((Real.cos q - Real.cos q') ^ 2 * (ax * v 0 + ay * v 1 + az * v 2) ^ 2 +
      (Real.sin q - Real.sin q') ^ 2 * (v 0 ^ 2 + v 1 ^ 2 + v 2 ^ 2)) * haxis

theorem axisRotation_turn {ax ay az : ℝ}
    (haxis : ax * ax + ay * ay + az * az = 1) (q q' : ℝ) (v : Fin 3 -> ℝ) :
    length ((axisRotation realLibm ax ay az q).r.mulVec v -
      (axisRotation realLibm ax ay az q').r.mulVec v) ≤ |q - q'| * length v := by
  have hchord := chord_sq_le q q'
  have hacross : v 0 ^ 2 + v 1 ^ 2 + v 2 ^ 2 -
      (ax * v 0 + ay * v 1 + az * v 2) ^ 2 ≤ v 0 ^ 2 + v 1 ^ 2 + v 2 ^ 2 :=
    sub_le_self _ (sq_nonneg _)
  have hnonneg : 0 ≤ v 0 ^ 2 + v 1 ^ 2 + v 2 ^ 2 := by positivity
  rw [length_eq_sqrt, length_eq_sqrt, axisRotation_sub haxis,
    ← Real.sqrt_sq_eq_abs, ← Real.sqrt_mul (sq_nonneg _)]
  apply Real.sqrt_le_sqrt
  calc
    _ ≤ ((Real.cos q - Real.cos q') ^ 2 + (Real.sin q - Real.sin q') ^ 2) *
          (v 0 ^ 2 + v 1 ^ 2 + v 2 ^ 2) :=
        mul_le_mul_of_nonneg_left hacross (by positivity)
    _ ≤ (q - q') ^ 2 * (v 0 ^ 2 + v 1 ^ 2 + v 2 ^ 2) :=
        mul_le_mul_of_nonneg_right hchord hnonneg

theorem turned_fixedThenRevolute {ax ay az : ℝ}
    (haxis : ax * ax + ay * ay + az * az = 1)
    (roll pitch yaw x y z q q' : ℝ) :
    Turned |q - q'|
      (fixedThenRevolute realLibm roll pitch yaw x y z ax ay az q)
      (fixedThenRevolute realLibm roll pitch yaw x y z ax ay az q') := by
  have hfixed := makeRpyXyz_isRotation circular_realLibm roll pitch yaw x y z
  rw [fixedThenRevolute, fixedThenRevolute, compose_eq_mul, compose_eq_mul]
  refine Turned.mul_left ⟨rfl, ?_, ?_, ?_⟩ hfixed
  · exact axisRotation_isRotation circular_realLibm haxis q
  · exact axisRotation_isRotation circular_realLibm haxis q'
  · exact axisRotation_turn haxis q q'

theorem turned_makeRpyXyz (roll pitch yaw x y z : ℝ) :
    Turned 0 (makeRpyXyz realLibm roll pitch yaw x y z)
      (makeRpyXyz realLibm roll pitch yaw x y z) :=
  turned_refl (makeRpyXyz_isRotation circular_realLibm roll pitch yaw x y z)

/-!
## One finger
-/

def thumbTurns (q q' : Fin 4 -> ℝ) : List ℝ :=
  [0, 0, |q 0 - q' 0|, |q 1 - q' 1|, |q 2 - q' 2|, |q 3 - q' 3|, 0]

def fingerTurns (q q' : Fin 4 -> ℝ) : List ℝ :=
  [0, 0, |q 0 - q' 0|, |q 1 - q' 1|, |q 2 - q' 2|, 0, |q 3 - q' 3|, 0]

theorem bent_thumbLinks (q q' : Fin 4 -> ℝ) :
    Bent (thumbTurns q q') (thumbLinks realLibm q) (thumbLinks realLibm q') := by
  refine .cons (le_refl 0) (turned_makeRpyXyz ..) ?_
  refine .cons (le_refl 0) (turned_makeRpyXyz ..) ?_
  refine .cons (abs_nonneg _) (turned_fixedThenRevolute (by norm_num) ..) ?_
  refine .cons (abs_nonneg _) (turned_fixedThenRevolute (by norm_num) ..) ?_
  refine .cons (abs_nonneg _) (turned_fixedThenRevolute (by norm_num) ..) ?_
  refine .cons (abs_nonneg _) (turned_fixedThenRevolute (by norm_num) ..) ?_
  exact .cons (le_refl 0) (turned_makeRpyXyz ..) .nil

theorem bent_fingerLinks (base : FingerBase ℝ) (q q' : Fin 4 -> ℝ) :
    Bent (fingerTurns q q') (fingerLinks realLibm base q)
      (fingerLinks realLibm base q') := by
  refine .cons (le_refl 0) (turned_makeRpyXyz ..) ?_
  refine .cons (le_refl 0) (turned_makeRpyXyz ..) ?_
  refine .cons (abs_nonneg _) (turned_fixedThenRevolute (by norm_num) ..) ?_
  refine .cons (abs_nonneg _) (turned_fixedThenRevolute (by norm_num) ..) ?_
  refine .cons (abs_nonneg _) (turned_fixedThenRevolute (by norm_num) ..) ?_
  refine .cons (le_refl 0) (turned_makeRpyXyz ..) ?_
  refine .cons (abs_nonneg _) (turned_fixedThenRevolute (by norm_num) ..) ?_
  exact .cons (le_refl 0) (turned_makeRpyXyz ..) .nil

/-- The length of every finger behind its first joint, rounded up. -/
noncomputable def fingerReach : ℝ := 91 / 1000

theorem length_le {x y z c : ℝ} (hc : 0 ≤ c) (h : x ^ 2 + y ^ 2 + z ^ 2 ≤ c ^ 2) :
    length ![x, y, z] ≤ c := by
  rw [length_eq_sqrt]
  exact Real.sqrt_le_iff.mpr ⟨hc, h⟩

theorem reach_fixedOffsets (finger : Fin 4) :
    ((fixedOffsets ℝ finger).map length).sum ≤ fingerReach := by
  have hthumb : length ![-0.002, 0.0, 0.036] ≤ 0.0361 :=
    length_le (by norm_num) (by norm_num)
  have hfinger : length ![0.002, 0.0, 0.0195] ≤ 0.0197 :=
    length_le (by norm_num) (by norm_num)
  have hsecond : length ![0.002, 0.0, 0.0102] ≤ 0.0105 :=
    length_le (by norm_num) (by norm_num)
  have hmiddle : length ![0.0, 0.0, 0.0335] ≤ 0.0335 :=
    length_le (by norm_num) (by norm_num)
  have hlast : length ![0.0, 0.0, 0.0267] ≤ 0.0267 :=
    length_le (by norm_num) (by norm_num)
  have hnone : length ![0.0, 0.0, 0.0] ≤ 0 :=
    length_le (by norm_num) (by norm_num)
  have htip : length ![-0.002, 0.0, 0.010] ≤ 0.0103 :=
    length_le (by norm_num) (by norm_num)
  have hthumbs : ((fixedOffsets ℝ 0).map length).sum ≤ fingerReach := by
    simp only [fixedOffsets, Matrix.cons_val_zero, List.map_cons, List.map_nil,
      List.sum_cons, List.sum_nil, fingerReach]
    linarith
  have hfingers : forall k : Fin 3,
      ((fixedOffsets ℝ k.succ).map length).sum ≤ fingerReach := by
    intro k
    have heq : fixedOffsets ℝ k.succ =
        [![0.002, 0.0, 0.0195], ![0.0, 0.0, 0.0335], ![0.0, 0.0, 0.0267],
          ![0.0, 0.0, 0.0], ![-0.002, 0.0, 0.010]] := by
      fin_cases k <;> rfl
    rw [heq]
    simp only [List.map_cons, List.map_nil, List.sum_cons, List.sum_nil,
      fingerReach]
    linarith
  exact Fin.cases hthumbs hfingers finger

def totalTurn (q q' : Fin 4 -> ℝ) : ℝ :=
  |q 0 - q' 0| + |q 1 - q' 1| + |q 2 - q' 2| + |q 3 - q' 3|

theorem sway_thumbLinks (q q' p : Fin 4 -> ℝ)
    (hreach : reach ((thumbLinks realLibm p).drop 3) ≤ fingerReach) :
    sway (thumbTurns q q') (thumbLinks realLibm p) ≤
      fingerReach * totalTurn q q' := by
  have hturns : forall delta, delta ∈ [|q 0 - q' 0|, |q 1 - q' 1|,
      |q 2 - q' 2|, |q 3 - q' 3|, (0 : ℝ)] -> 0 ≤ delta := by
    simp only [List.forall_mem_cons]
    exact ⟨abs_nonneg _, abs_nonneg _, abs_nonneg _, abs_nonneg _, le_refl 0,
      List.forall_mem_nil _⟩
  have hsway : sway [|q 0 - q' 0|, |q 1 - q' 1|, |q 2 - q' 2|, |q 3 - q' 3|, 0]
      ((thumbLinks realLibm p).drop 2) ≤ fingerReach * _ :=
    sway_le hturns (by norm_num [fingerReach]) hreach
  have hsum : [|q 0 - q' 0|, |q 1 - q' 1|, |q 2 - q' 2|, |q 3 - q' 3|,
      (0 : ℝ)].sum = totalTurn q q' := by
    simp only [List.sum_cons, List.sum_nil, totalTurn]
    ring
  rw [hsum] at hsway
  rw [thumbTurns, thumbLinks, sway_zero_cons, sway_zero_cons]
  exact hsway

theorem sway_fingerLinks (base : FingerBase ℝ) (q q' p : Fin 4 -> ℝ)
    (hreach : reach ((fingerLinks realLibm base p).drop 3) ≤ fingerReach) :
    sway (fingerTurns q q') (fingerLinks realLibm base p) ≤
      fingerReach * totalTurn q q' := by
  have hturns : forall delta, delta ∈ [|q 0 - q' 0|, |q 1 - q' 1|,
      |q 2 - q' 2|, 0, |q 3 - q' 3|, (0 : ℝ)] -> 0 ≤ delta := by
    simp only [List.forall_mem_cons]
    exact ⟨abs_nonneg _, abs_nonneg _, abs_nonneg _, le_refl 0, abs_nonneg _,
      le_refl 0, List.forall_mem_nil _⟩
  have hsway : sway [|q 0 - q' 0|, |q 1 - q' 1|, |q 2 - q' 2|, 0,
      |q 3 - q' 3|, 0] ((fingerLinks realLibm base p).drop 2) ≤
        fingerReach * _ :=
    sway_le hturns (by norm_num [fingerReach]) hreach
  have hsum : [|q 0 - q' 0|, |q 1 - q' 1|, |q 2 - q' 2|, 0, |q 3 - q' 3|,
      (0 : ℝ)].sum = totalTurn q q' := by
    simp only [List.sum_cons, List.sum_nil, totalTurn]
    ring
  rw [hsum] at hsway
  rw [fingerTurns, fingerLinks, sway_zero_cons, sway_zero_cons]
  exact hsway

/-!
## The whole hand
-/

theorem reach_handLinks (q : Fin handDOF -> ℝ) (finger : Fin 4) :
    reach ((handLinks realLibm q finger).drop 3) ≤ fingerReach := by
  have hmap := drop_handLinks realLibm q finger
  have hbound := reach_fixedOffsets finger
  rw [← hmap, List.map_map] at hbound
  exact hbound

theorem handLinks_sub_le (q q' : Fin handDOF -> ℝ) (finger : Fin 4) :
    length ((accumulate (handLinks realLibm q finger)).p -
        (accumulate (handLinks realLibm q' finger)).p) ≤
      fingerReach *
        totalTurn (fingerJoints q finger) (fingerJoints q' finger) := by
  have hreach := reach_handLinks q finger
  rw [accumulate_eq_prod, accumulate_eq_prod]
  fin_cases finger
  · exact le_trans (bent_thumbLinks _ _).length_sub_le
      (sway_thumbLinks _ _ _ hreach)
  · exact le_trans (bent_fingerLinks _ _ _).length_sub_le
      (sway_fingerLinks _ _ _ _ hreach)
  · exact le_trans (bent_fingerLinks _ _ _).length_sub_le
      (sway_fingerLinks _ _ _ _ hreach)
  · exact le_trans (bent_fingerLinks _ _ _).length_sub_le
      (sway_fingerLinks _ _ _ _ hreach)

def fingerCounts (jointPos : Fin handDOF -> Int16) (finger : Fin 4) :
    Fin 4 -> ℝ :=
  fingerJoints (fun i => ((jointPos i).toInt : ℝ)) finger

theorem totalTurn_radians (jointPos jointPos' : Fin handDOF -> Int16)
    (finger : Fin 4) :
    totalTurn (fingerJoints (fun i => toRadianFromEncoder (jointPos i)) finger)
        (fingerJoints (fun i => toRadianFromEncoder (jointPos' i)) finger) =
      totalTurn (fingerCounts jointPos finger) (fingerCounts jointPos' finger) *
        (kPi / 8192.0) := by
  have hscale : (0 : ℝ) ≤ kPi / 8192.0 := by
    unfold kPi
    positivity
  have hjoint : forall x y : ℝ, |x * (kPi / 8192.0) - y * (kPi / 8192.0)| =
      |x - y| * (kPi / 8192.0) := by
    intro x y
    rw [← sub_mul, abs_mul, abs_of_nonneg hscale]
  simp only [totalTurn, fingerCounts, fingerJoints, toRadianFromEncoder, hjoint,
    add_mul]

/-- Between any two vectors of encoder values every fingertip moves by at most
91 mm times the angle that the encoders of its finger count between them. -/
theorem tips_sub_le (jointPos jointPos' : Fin handDOF -> Int16) :
    exists tips tips',
      computeHandFkFromJointPos realLibm jointPos = .ok tips ∧
      computeHandFkFromJointPos realLibm jointPos' = .ok tips' ∧
      forall finger, length ((tips finger).pos - (tips' finger).pos) ≤
        fingerReach * (totalTurn (fingerCounts jointPos finger)
          (fingerCounts jointPos' finger) * (kPi / 8192.0)) := by
  rcases exists_computeHandFk circular_realLibm isSquareRoot_sqrt jointPos with
    ⟨tips, hok, htips⟩
  rcases exists_computeHandFk circular_realLibm isSquareRoot_sqrt jointPos' with
    ⟨tips', hok', htips'⟩
  refine ⟨tips, tips', hok, hok', ?_⟩
  intro finger
  rw [(htips finger).pos, (htips' finger).pos, ← totalTurn_radians]
  exact handLinks_sub_le _ _ finger

end EtherCat
end FrankaKistar
