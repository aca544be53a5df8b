import FrankaKistar.Bridge.Messages

/-!
# Goal trajectories of the orchestrator

The pure functions of `planning_orchestrator.py` on a `JointTrajectory`: its
normalisation to the expected joint order, the validation of a goal, the
duration, and the interpolation at a time.  A raised `ValueError` is an error of
the result, with one constructor for each text and the values the text shows.
-/

namespace FrankaKistar
namespace Orchestrator

open Foundation

/-- The `ValueError`s of `_normalize_trajectory_for_arm`; the first two are
those of a start without expected names. -/
inductive NormalizeError where
  | uncheckedNamesLength (n : Nat)
  | uncheckedShortPoint (i : Nat)
  | unnamedShortPoint (i : Nat)
  | namesLength (n : Nat)
  | missingName (exp : String) (names : List String)
  | shortPoint
deriving DecidableEq

/-- The `ValueError`s of `_interp_traj`. -/
inductive InterpError where
  | emptyPoints
  | shortPositions (n : Nat)
  | shortNeighbour
deriving DecidableEq

/-- The rejections of `_validate_follow_joint_goal`. -/
inductive GoalError where
  | emptyPoints
  | shortPoint (i n : Nat)
  | normalize (e : NormalizeError)
deriving DecidableEq

/-- `float(sec) + float(nanosec) * 1e-9` -/
def pointTime (pt : JointTrajectoryPoint) : ℚ := Bridge.timeFromStart pt

/-!
## Normalisation
-/

/-- The index and the length of the first point with fewer than seven
positions, counted from `i`. -/
def firstShort : Nat -> List JointTrajectoryPoint -> Option (Nat × Nat)
  | _, [] => none
  | i, pt :: rest =>
      if pt.positions.length < armDOF then some (i, pt.positions.length)
      else firstShort (i + 1) rest

/-- `idx_map`, or the first expected name that is missing. -/
def indexMap (names : List String) :
    List String -> Except NormalizeError (List Nat)
  | [] => .ok []
  | exp :: rest =>
      if exp ∈ names then
        (indexMap names rest).map fun indices => names.idxOf exp :: indices
      else .error (.missingName exp names)

/-- `[float(values[j]) for j in idx_map]` -/
def pick (idxMap : List Nat) (values : List ExactDouble) : List ExactDouble :=
  idxMap.map fun j => values.getD j (.finite 0)

def pickIfFull (idxMap : List Nat) (values : List ExactDouble) :
    List ExactDouble :=
  if armDOF ≤ values.length then pick idxMap values else []

def normalizePoint (idxMap : List Nat) (pt : JointTrajectoryPoint) :
    JointTrajectoryPoint where
  positions := pick idxMap pt.positions
  velocities := pickIfFull idxMap pt.velocities
  accelerations := pickIfFull idxMap pt.accelerations
  effort := pickIfFull idxMap pt.effort
  sec := pt.sec
  nanosec := pt.nanosec

def keepPoints (traj : JointTrajectory) (error : Nat -> NormalizeError) :
    Except NormalizeError JointTrajectory :=
  match firstShort 0 traj.points with
  | some (i, _) => .error (error i)
  | none => .ok traj

/-- Without expected names a message may have none or seven names. -/
def normalizeUnchecked (traj : JointTrajectory) :
    Except NormalizeError JointTrajectory :=
  if traj.jointNames.length ≠ 0 ∧ traj.jointNames.length ≠ armDOF then
    .error (.uncheckedNamesLength traj.jointNames.length)
  else keepPoints traj .uncheckedShortPoint

def reorder (traj : JointTrajectory) (expected : List String)
    (idxMap : List Nat) : Except NormalizeError JointTrajectory :=
  if (firstShort 0 traj.points).isSome then .error .shortPoint
  else
    .ok
      { jointNames := expected
        points := traj.points.map (normalizePoint idxMap)
        size := by
          rw [List.length_map]
          exact traj.size }

def normalizeTrajectoryForArm (traj : JointTrajectory)
    (expected : List String) : Except NormalizeError JointTrajectory :=
  if traj.points = [] then .ok traj
  else if expected = [] then normalizeUnchecked traj
  else if traj.jointNames = [] then keepPoints traj .unnamedShortPoint
  else if traj.jointNames.length ≠ armDOF then
    .error (.namesLength traj.jointNames.length)
  else (indexMap traj.jointNames expected).bind (reorder traj expected)

/-- `(True, "")` is `ok`. -/
def validateFollowJointGoal (traj : JointTrajectory) (expected : List String) :
    Except GoalError Unit :=
  if traj.points = [] then .error .emptyPoints
  else
    match firstShort 0 traj.points with
    | some (i, n) => .error (.shortPoint i n)
    | none =>
        match normalizeTrajectoryForArm traj expected with
        | .error e => .error (.normalize e)
        | .ok _ => .ok ()

/-!
## Duration and interpolation
-/

def trajDuration (traj : JointTrajectory) : ℚ :=
  match traj.points.getLast? with
  | none => 0
  | some pt => pointTime pt

def armPositions (positions : List ExactDouble) :
    Except InterpError (Joints ExactDouble) :=
  if positions.length < armDOF then .error (.shortPositions positions.length)
  else .ok fun j => positions.getD j.val (.finite 0)

/-- Between two neighbouring points; `alpha` is 0 when the times do not
increase. -/
def interpBetween (a b : JointTrajectoryPoint) (t : ℚ) :
    Except InterpError (Joints ExactDouble) :=
  let t0 := pointTime a
  let t1 := pointTime b
  let alpha := if t1 ≤ t0 then 0 else (t - t0) / (t1 - t0)
  if a.positions.length < armDOF ∨ b.positions.length < armDOF then
    .error .shortNeighbour
  else
    .ok fun j =>
      let x := a.positions.getD j.val (.finite 0)
      let y := b.positions.getD j.val (.finite 0)
      x.add ((y.sub x).scale alpha)

/-- The search over neighbouring points, and the last point when none is
found. -/
def interpFrom (t : ℚ) :
    List JointTrajectoryPoint -> Except InterpError (Joints ExactDouble)
  | [] => .error .emptyPoints
  | [pt] => armPositions pt.positions
  | a :: b :: rest =>
      if pointTime a ≤ t ∧ t ≤ pointTime b then interpBetween a b t
      else interpFrom t (b :: rest)

def interpTraj (traj : JointTrajectory) (t : ℚ) :
    Except InterpError (Joints ExactDouble) :=
  match traj.points with
  | [] => .error .emptyPoints
  | pt :: rest =>
      if t ≤ pointTime pt then armPositions pt.positions
      else interpFrom t (pt :: rest)

end Orchestrator
end FrankaKistar
