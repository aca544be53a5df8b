import FrankaKistar.SharedMemory.Layout
import Mathlib.Data.Fin.VecNotation
import Mathlib.Data.List.FinRange

/-!
# Arm commands of the ROS2 bridge

The three arm callbacks of `KistarHandBridgeNode`.  A callback is the list of
its stores to shared memory, in program order, or nothing when the message is
rejected; running the callback in one go makes all of them.
-/

namespace FrankaKistar

open Foundation

structure JointTrajectoryPoint where
  positions : List ExactDouble
  velocities : List ExactDouble
  accelerations : List ExactDouble
  effort : List ExactDouble
  sec : Int32
  nanosec : UInt32

/-- A received message; the length of a sequence travels as 32 bits. -/
structure JointTrajectory where
  jointNames : List String
  points : List JointTrajectoryPoint
  size : points.length < 4294967296 := by decide

def JointTrajectoryPoint.atSecond (positions : List ℚ) (sec : Int32) :
    JointTrajectoryPoint where
  positions := positions.map .finite
  velocities := []
  accelerations := []
  effort := []
  sec := sec
  nanosec := 0

def JointTrajectory.onePoint (positions : List ℚ) : JointTrajectory where
  jointNames := []
  points := [.atSecond positions 1]
  size := by
    rw [List.length_singleton]
    decide

namespace Bridge

/-- `static_cast<int>` of a size. -/
def castInt (n : Nat) : Int := Int.bmod n 4294967296

/-- A 32-bit length is either kept or becomes negative. -/
theorem castInt_cases {n : Nat} (h : n < 4294967296) :
    castInt n = n ∨ (castInt n < 0 ∧ 2147483648 ≤ n) := by
  unfold castInt
  rw [Int.bmod_def]
  split
  · apply Or.inl
    omega
  · apply Or.inr
    omega

/-!
## Joint order
-/

def kJointOrder : Joints String :=
  ![ "fr3_joint1", "fr3_joint2", "fr3_joint3", "fr3_joint4",
     "fr3_joint5", "fr3_joint6", "fr3_joint7" ]

/-- The first position of the joint's name, if the message has it. -/
def nameIndex (names : List String) (j : Fin armDOF) : Option Nat :=
  names.findIdx? (fun name => name == kJointOrder j)

/-- Positional order unless all seven names are found. -/
def usePositional (names : List String) : Bool :=
  (List.finRange armDOF).any fun j => (nameIndex names j).isNone

/-- `idx` of the source. -/
def sourceIndex (names : List String) (j : Fin armDOF) : Nat :=
  if usePositional names then j.val else (nameIndex names j).getD j.val

/-!
## Trajectory messages
-/

def positionAt (pt : JointTrajectoryPoint) (src : Nat) : ExactDouble :=
  pt.positions.getD src (.finite 0)

/-- `time_from_start` in seconds. -/
def timeFromStart (pt : JointTrajectoryPoint) : ℚ :=
  pt.sec.toInt + pt.nanosec.toNat / 1000000000

def rowStores (names : List String) (i : Nat) (pt : JointTrajectoryPoint) :
    List Store :=
  (List.finRange armDOF).map
      (fun j => Store.trajQ i j (positionAt pt (sourceIndex names j))) ++
    [Store.trajT i (.finite (timeFromStart pt))]

def rowsStores (names : List String) :
    Nat -> List JointTrajectoryPoint -> List Store
  | _, [] => []
  | i, pt :: rest => rowStores names i pt ++ rowsStores names (i + 1) rest

/-- Stores of `on_franka_trajectory`: the length, the rows, then the state. -/
def trajectoryStores (msg : JointTrajectory) : Option (List Store) :=
  let n := castInt msg.points.length
  if n ≤ 0 ∨ (armTrajMaxPts : Int) < n then none
  else
    some (Store.trajLen n ::
      (rowsStores msg.jointNames 0 (msg.points.take n.toNat) ++
        [Store.trajState .pending]))

def onFrankaTrajectory (msg : JointTrajectory) (shm : Shm) : Shm :=
  (trajectoryStores msg).elim shm fun stores => applyStores stores shm

/-!
## Single targets
-/

/-- Stores of `on_franka_target`. -/
def targetStores (data : List ExactDouble) : Option (List Store) :=
  if data.length ≠ armDOF then none
  else
    some ((List.finRange armDOF).map
      fun j => Store.armJTar j (data.getD j.val (.finite 0)))

def onFrankaTarget (data : List ExactDouble) (shm : Shm) : Shm :=
  (targetStores data).elim shm fun stores => applyStores stores shm

/-- Stores of `on_franka_speed`: the value clamped to `[1e-3, 1.0]`. -/
def speedStores (speed : ExactDouble) : List Store :=
  if speed.lt (.finite (1 / 1000)) then
    [Store.armSpeedFactor (.finite (1 / 1000))]
  else if (ExactDouble.finite 1).lt speed then
    [Store.armSpeedFactor (.finite 1)]
  else [Store.armSpeedFactor speed]

def onFrankaSpeed (speed : ExactDouble) (shm : Shm) : Shm :=
  applyStores (speedStores speed) shm

end Bridge
end FrankaKistar
