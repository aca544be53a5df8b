import FrankaKistar.Foundation.Checked
import FrankaKistar.Orchestrator.Resolvers

/-!
# Goal trajectories with every list access checked

The functions of `planning_orchestrator.py` on a goal trajectory once more, now
with every list access and every division of the source as an expression that
can raise.  Each of them is the function of `Orchestrator.Trajectory`: it raises
nothing but the `ValueError`s of the source.
-/

namespace FrankaKistar
namespace Orchestrator
namespace Checked

open Foundation

/-!
## Interpolation
-/

/-- `[float(q[i]) for i in range(ARM_DOF)]`, behind the check of the length. -/
def armPositions (positions : List ExactDouble) :
    Except (PyError InterpError) (List ExactDouble) :=
  if positions.length < armDOF then
    .error (.raised (.shortPositions positions.length))
  else (List.range armDOF).mapM (elementAt positions)

/-- `a[j] + alpha * (b[j] - a[j])` -/
def interpJoint (a b : List ExactDouble) (alpha : ℚ) (j : Nat) :
    Except (PyError InterpError) ExactDouble := do
  let x <- elementAt a j
  let y <- elementAt b j
  return x.add ((y.sub x).scale alpha)

/-- `0.0 if t1 <= t0 else (t - t0) / (t1 - t0)` -/
def interpAlpha (t t0 t1 : ℚ) : Except (PyError InterpError) ℚ :=
  if t1 ≤ t0 then .ok 0 else divide (t - t0) (t1 - t0)

def interpBetween (a b : JointTrajectoryPoint) (t : ℚ) :
    Except (PyError InterpError) (List ExactDouble) := do
  let alpha <- interpAlpha t (pointTime a) (pointTime b)
  if a.positions.length < armDOF ∨ b.positions.length < armDOF then
    .error (.raised .shortNeighbour)
  else (List.range armDOF).mapM (interpJoint a.positions b.positions alpha)

/-- `pts[-1]` -/
def lastElement {ε α : Type} (pts : List α) : Except (PyError ε) α :=
  elementAt pts (pts.length - 1)

def interpSearch (pts : List JointTrajectoryPoint) (t : ℚ) :
    List Nat -> Except (PyError InterpError) (List ExactDouble)
  | [] => do
      let last <- lastElement pts
      armPositions last.positions
  | i :: rest => do
      let a <- elementAt pts i
      let b <- elementAt pts (i + 1)
      if pointTime a ≤ t ∧ t ≤ pointTime b then interpBetween a b t
      else interpSearch pts t rest

def interpTraj (traj : JointTrajectory) (t : ℚ) :
    Except (PyError InterpError) (List ExactDouble) :=
  if traj.points = [] then .error (.raised .emptyPoints)
  else do
    let first <- elementAt traj.points 0
    if t ≤ pointTime first then armPositions first.positions
    else interpSearch traj.points t (List.range (traj.points.length - 1))

def trajDuration (traj : JointTrajectory) : Except (PyError Empty) ℚ :=
  if traj.points = [] then .ok 0
  else do
    let last <- lastElement traj.points
    return pointTime last

/-!
## Normalisation and validation
-/

/-- `[float(values[j]) for j in idx_map]` -/
def pick (idxMap : List Nat) (values : List ExactDouble) :
    Except (PyError NormalizeError) (List ExactDouble) :=
  idxMap.mapM (elementAt values)

def pickIfFull (idxMap : List Nat) (values : List ExactDouble) :
    Except (PyError NormalizeError) (List ExactDouble) :=
  if armDOF ≤ values.length then pick idxMap values else .ok []

def normalizePoint (idxMap : List Nat) (pt : JointTrajectoryPoint) :
    Except (PyError NormalizeError) JointTrajectoryPoint :=
  if pt.positions.length < armDOF then .error (.raised .shortPoint)
  else do
    let positions <- pick idxMap pt.positions
    let velocities <- pickIfFull idxMap pt.velocities
    let accelerations <- pickIfFull idxMap pt.accelerations
    let effort <- pickIfFull idxMap pt.effort
    return ⟨positions, velocities, accelerations, effort, pt.sec, pt.nanosec⟩

def reorder (traj : JointTrajectory) (expected : List String)
    (idxMap : List Nat) : Except (PyError NormalizeError) JointTrajectory :=
  match h : traj.points.mapM (normalizePoint idxMap) with
  | .error e => .error e
  | .ok points =>
      .ok
        { jointNames := expected
          points := points
          size := by
            rw [length_of_mapM h]
            exact traj.size }

def normalizeTrajectoryForArm (traj : JointTrajectory)
    (expected : List String) :
    Except (PyError NormalizeError) JointTrajectory :=
  if traj.points = [] then .ok traj
  else if expected = [] then raising (normalizeUnchecked traj)
  else if traj.jointNames = [] then
    raising (keepPoints traj .unnamedShortPoint)
  else if traj.jointNames.length ≠ armDOF then
    .error (.raised (.namesLength traj.jointNames.length))
  else do
    let idxMap <- raising (indexMap traj.jointNames expected)
    reorder traj expected idxMap

/-- Only a `ValueError` is caught. -/
def validateFollowJointGoal (traj : JointTrajectory) (expected : List String) :
    Except (PyError NormalizeError) (Except GoalError Unit) :=
  if traj.points = [] then .ok (.error .emptyPoints)
  else
    match firstShort 0 traj.points with
    | some (i, n) => .ok (.error (.shortPoint i n))
    | none =>
        match normalizeTrajectoryForArm traj expected with
        | .ok _ => .ok (.ok ())
        | .error (.raised e) => .ok (.error (.normalize e))
        | .error e => .error e

/-!
## No other exception
-/

theorem armPositions_eq (positions : List ExactDouble) :
    armPositions positions =
      raising ((Orchestrator.armPositions positions).map List.ofFn) := by
  unfold armPositions Orchestrator.armPositions
  split
  · rfl
  · rename_i hlong
    exact mapM_range fun j =>
      elementAt_of_lt (lt_of_lt_of_le j.isLt (Nat.not_lt.mp hlong)) _

theorem interpJoint_eq {a b : List ExactDouble} {j : Nat}
    (ha : j < a.length) (hb : j < b.length) (alpha : ℚ) :
    interpJoint a b alpha j =
      .ok ((a.getD j (.finite 0)).add
        (((b.getD j (.finite 0)).sub (a.getD j (.finite 0))).scale alpha)) := by
  unfold interpJoint
  rw [elementAt_of_lt ha (.finite 0), elementAt_of_lt hb (.finite 0)]
  rfl

theorem interpAlpha_eq (t t0 t1 : ℚ) :
    interpAlpha t t0 t1 =
      .ok (if t1 ≤ t0 then 0 else (t - t0) / (t1 - t0)) := by
  unfold interpAlpha
  split
  · rfl
  · rename_i hlt
    exact divide_of_ne (ne_of_gt (sub_pos.mpr (not_le.mp hlt)))

theorem interpBetween_eq (a b : JointTrajectoryPoint) (t : ℚ) :
    interpBetween a b t =
      raising ((Orchestrator.interpBetween a b t).map List.ofFn) := by
  unfold interpBetween Orchestrator.interpBetween
  rw [interpAlpha_eq]
  show (if _ then _ else _) = _
  split
  · rfl
  · rename_i hlong
    have hboth := not_or.mp hlong
    exact mapM_range fun j =>
      interpJoint_eq (lt_of_lt_of_le j.isLt (Nat.not_lt.mp hboth.left))
        (lt_of_lt_of_le j.isLt (Nat.not_lt.mp hboth.right)) _

theorem interpSearch_eq (t : ℚ) {pts : List JointTrajectoryPoint} {i n : Nat}
    (h : i + n + 1 = pts.length) :
    interpSearch pts t (List.range' i n) =
      raising ((interpFrom t (pts.drop i)).map List.ofFn) := by
  induction n generalizing i with
  | zero =>
      have hi : i < pts.length := by omega
      have hdrop : pts.drop i = [pts[i]] := by
        rw [List.drop_eq_getElem_cons hi, List.drop_eq_nil_of_le (by omega)]
      have hlast : pts[pts.length - 1]? = some pts[i] := by
        rw [show pts.length - 1 = i by omega]
        exact List.getElem?_eq_getElem hi
      rw [hdrop, List.range'_zero, interpSearch, lastElement,
        elementAt_eq_ok hlast]
      exact armPositions_eq _
  | succ n ih =>
      have hi : i < pts.length := by omega
      have hnext : i + 1 < pts.length := by omega
      have hdrop : pts.drop (i + 1) = pts[i + 1] :: pts.drop (i + 2) :=
        List.drop_eq_getElem_cons hnext
      rw [List.range'_succ, interpSearch,
        elementAt_eq_ok (List.getElem?_eq_getElem hi),
        elementAt_eq_ok (List.getElem?_eq_getElem hnext),
        List.drop_eq_getElem_cons hi, hdrop, interpFrom]
      show (if _ then _ else _) = _
      split
      · exact interpBetween_eq _ _ t
      · rw [<- hdrop]
        exact ih (by omega)

theorem interpTraj_eq (traj : JointTrajectory) (t : ℚ) :
    interpTraj traj t =
      raising ((Orchestrator.interpTraj traj t).map List.ofFn) := by
  unfold interpTraj Orchestrator.interpTraj
  cases hpoints : traj.points with
  | nil => rfl
  | cons pt rest =>
      rw [if_neg (List.cons_ne_nil pt rest)]
      show (if _ then _ else _) = _
      simp only
      split
      · exact armPositions_eq _
      · rw [List.range_eq_range']
        exact interpSearch_eq t (Nat.zero_add (rest.length) ▸ rfl)

theorem trajDuration_eq (traj : JointTrajectory) :
    trajDuration traj = .ok (Orchestrator.trajDuration traj) := by
  unfold trajDuration Orchestrator.trajDuration
  split
  · rename_i hnil
    rw [hnil]
    rfl
  · rename_i hne
    have hlast := List.getLast?_eq_getElem? (l := traj.points)
    rw [List.getLast?_eq_some_getLast hne] at hlast
    rw [lastElement, elementAt_eq_ok hlast.symm,
      List.getLast?_eq_some_getLast hne]
    rfl

def ValidIndices (idxMap : List Nat) : Prop :=
  forall j, j ∈ idxMap -> j < armDOF

theorem pick_eq {idxMap : List Nat} (hidx : ValidIndices idxMap)
    {values : List ExactDouble} (hvalues : armDOF ≤ values.length) :
    pick idxMap values = .ok (Orchestrator.pick idxMap values) :=
  mapM_elementAt (fun j hj => lt_of_lt_of_le (hidx j hj) hvalues) _

theorem pickIfFull_eq {idxMap : List Nat} (hidx : ValidIndices idxMap)
    (values : List ExactDouble) :
    pickIfFull idxMap values =
      .ok (Orchestrator.pickIfFull idxMap values) := by
  unfold pickIfFull Orchestrator.pickIfFull
  split
  · rename_i hvalues
    exact pick_eq hidx hvalues
  · rfl

theorem normalizePoint_of_short {idxMap : List Nat}
    {pt : JointTrajectoryPoint} (h : pt.positions.length < armDOF) :
    normalizePoint idxMap pt = .error (.raised .shortPoint) := by
  unfold normalizePoint
  rw [if_pos h]

theorem normalizePoint_of_long {idxMap : List Nat}
    (hidx : ValidIndices idxMap) {pt : JointTrajectoryPoint}
    (h : armDOF ≤ pt.positions.length) :
    normalizePoint idxMap pt =
      .ok (Orchestrator.normalizePoint idxMap pt) := by
  unfold normalizePoint
  rw [if_neg (Nat.not_lt.mpr h), pick_eq hidx h, pickIfFull_eq hidx,
    pickIfFull_eq hidx, pickIfFull_eq hidx]
  rfl

theorem mapM_normalizePoint {idxMap : List Nat} (hidx : ValidIndices idxMap)
    (pts : List JointTrajectoryPoint) :
    pts.mapM (normalizePoint idxMap) =
      if (firstShort 0 pts).isSome then .error (.raised .shortPoint)
      else .ok (pts.map (Orchestrator.normalizePoint idxMap)) := by
  split
  · rename_i hsome
    rcases exists_short_of_firstShort hsome with ⟨pt, hpt, hshort⟩
    refine mapM_eq_error ?_ ⟨pt, hpt, normalizePoint_of_short hshort⟩
    intro x _
    rcases Nat.lt_or_ge x.positions.length armDOF with hx | hx
    · exact Or.inr (normalizePoint_of_short hx)
    · exact Or.inl ⟨_, normalizePoint_of_long hidx hx⟩
  · rename_i hnone
    have hlong := length_of_firstShort
      (Option.not_isSome_iff_eq_none.mp hnone)
    exact mapM_eq_ok fun pt hpt => normalizePoint_of_long hidx (hlong pt hpt)

theorem reorder_eq {idxMap : List Nat} (hidx : ValidIndices idxMap)
    (traj : JointTrajectory) (expected : List String) :
    reorder traj expected idxMap =
      raising (Orchestrator.reorder traj expected idxMap) := by
  have hpoints := mapM_normalizePoint hidx traj.points
  unfold reorder Orchestrator.reorder
  split
  · rename_i e he
    rw [he] at hpoints
    split at hpoints
    · rename_i hsome
      rw [if_pos hsome]
      exact congrArg Except.error (Except.error.inj hpoints)
    · cases hpoints
  · rename_i points hok
    rw [hok] at hpoints
    split at hpoints
    · cases hpoints
    · rename_i hnone
      rw [if_neg hnone]
      cases hpoints
      rfl

theorem validIndices_of_indexMap {names expected : List String}
    {idxMap : List Nat} (hnames : names.length = armDOF)
    (h : indexMap names expected = .ok idxMap) : ValidIndices idxMap := by
  have hmap := indexMap_eq_ok h
  intro j hj
  rw [hmap.right] at hj
  rcases List.mem_map.mp hj with ⟨exp, hexp, rfl⟩
  rw [<- hnames]
  exact List.idxOf_lt_length_of_mem (hmap.left exp hexp)

theorem normalizeTrajectoryForArm_eq (traj : JointTrajectory)
    (expected : List String) :
    normalizeTrajectoryForArm traj expected =
      raising (Orchestrator.normalizeTrajectoryForArm traj expected) := by
  unfold normalizeTrajectoryForArm Orchestrator.normalizeTrajectoryForArm
  split
  · rfl
  · split
    · rfl
    · split
      · rfl
      · split
        · rfl
        · rename_i hlength
          cases hindex : indexMap traj.jointNames expected with
          | error e => rfl
          | ok idxMap =>
              exact reorder_eq
                (validIndices_of_indexMap (not_not.mp hlength) hindex)
                traj expected

theorem validateFollowJointGoal_eq (traj : JointTrajectory)
    (expected : List String) :
    validateFollowJointGoal traj expected =
      .ok (Orchestrator.validateFollowJointGoal traj expected) := by
  unfold validateFollowJointGoal Orchestrator.validateFollowJointGoal
  rw [normalizeTrajectoryForArm_eq]
  split
  · rfl
  · cases firstShort 0 traj.points with
    | some short => rfl
    | none =>
        cases Orchestrator.normalizeTrajectoryForArm traj expected with
        | ok norm => rfl
        | error e => rfl

end Checked
end Orchestrator
end FrankaKistar
