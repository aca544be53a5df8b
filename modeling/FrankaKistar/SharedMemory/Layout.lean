import FrankaKistar.Foundation.ExactDouble
import Mathlib.Data.Fintype.Basic

/-!
# Layout of the shared memory

The two segments that the control process and the ROS2 bridge share, as far as
the modelled functions read or write them, and the single stores that both
parties make.  `Arm_Num` is 1 in the source, so the arm index is left out; an
array is a function of its index.
-/

namespace FrankaKistar

open Foundation

abbrev handNum : Nat := 1
abbrev handDOF : Nat := 16
abbrev kinestheticSensorNum : Nat := 4
abbrev kinestheticSensorDOF : Nat := 3
abbrev tactileSensorNum : Nat := 60
abbrev armDOF : Nat := 7
abbrev armTrajMaxPts : Nat := 1000

abbrev Joints (α : Type) := Fin armDOF -> α

/-- The `ARM_TRAJ_*` state values. -/
inductive TrajState where
  | idle
  | pending
  | executing
  | done
deriving DecidableEq

structure ArmTrajBuf where
  q : Nat -> Joints ExactDouble
  t : Nat -> ExactDouble
  len : Int
  state : TrajState

structure SHMmsgs where
  handMode : Fin handNum -> UInt8
  servoOn : Fin handNum -> UInt8
  jPos : Fin handNum -> Fin handDOF -> Int16
  jTar : Fin handNum -> Fin handDOF -> Int16
  jCur : Fin handNum -> Fin handDOF -> Int16
  jKin : Fin handNum -> Fin kinestheticSensorNum ->
    Fin kinestheticSensorDOF -> Int16
  jTac : Fin handNum -> Fin tactileSensorNum -> Int16
  armJPos : Joints ExactDouble
  armJTar : Joints ExactDouble
  armJVel : Joints ExactDouble
  armCPos : Fin 16 -> ExactDouble
  armJTq : Joints ExactDouble
  armSpeedFactor : ExactDouble

/-- Both segments as one party sees them. -/
structure Shm where
  msgs : SHMmsgs
  traj : ArmTrajBuf

/-!
## Zeroed segments

What a `memset` with zero leaves; `ARM_TRAJ_IDLE` is 0.
-/

def zeroJoints : Joints ExactDouble := fun _ => .finite 0

def SHMmsgs.zero : SHMmsgs where
  handMode := fun _ => 0
  servoOn := fun _ => 0
  jPos := fun _ _ => 0
  jTar := fun _ _ => 0
  jCur := fun _ _ => 0
  jKin := fun _ _ _ => 0
  jTac := fun _ _ => 0
  armJPos := zeroJoints
  armJTar := zeroJoints
  armJVel := zeroJoints
  armCPos := fun _ => .finite 0
  armJTq := zeroJoints
  armSpeedFactor := .finite 0

def ArmTrajBuf.zero : ArmTrajBuf where
  q := fun _ => zeroJoints
  t := fun _ => .finite 0
  len := 0
  state := .idle

/-!
## Single stores

Each constructor is one assignment of the source to one shared scalar.
-/

inductive Store where
  | armJTar (j : Fin armDOF) (x : ExactDouble)
  | armSpeedFactor (x : ExactDouble)
  | trajLen (n : Int)
  | trajQ (i : Nat) (j : Fin armDOF) (x : ExactDouble)
  | trajT (i : Nat) (x : ExactDouble)
  | trajState (state : TrajState)
deriving DecidableEq

def Store.apply : Store -> Shm -> Shm
  | .armJTar j x, shm =>
      { shm with msgs :=
        { shm.msgs with armJTar := Function.update shm.msgs.armJTar j x } }
  | .armSpeedFactor x, shm =>
      { shm with msgs := { shm.msgs with armSpeedFactor := x } }
  | .trajLen n, shm =>
      { shm with traj := { shm.traj with len := n } }
  | .trajQ i j x, shm =>
      { shm with traj :=
        { shm.traj with
          q := Function.update shm.traj.q i
            (Function.update (shm.traj.q i) j x) } }
  | .trajT i x, shm =>
      { shm with traj := { shm.traj with t := Function.update shm.traj.t i x } }
  | .trajState state, shm =>
      { shm with traj := { shm.traj with state := state } }

def Shm.setRow (shm : Shm) (i : Nat)
    (row : Joints ExactDouble × ExactDouble) : Shm where
  msgs := shm.msgs
  traj :=
    { shm.traj with
      q := Function.update shm.traj.q i row.1
      t := Function.update shm.traj.t i row.2 }

/-- Row `i` of the trajectory buffer. -/
def ArmTrajBuf.row (buf : ArmTrajBuf) (i : Nat) :
    Joints ExactDouble × ExactDouble :=
  (buf.q i, buf.t i)

@[simp] theorem row_setRow_self (shm : Shm) (i : Nat)
    (row : Joints ExactDouble × ExactDouble) :
    (shm.setRow i row).traj.row i = row := by
  simp [Shm.setRow, ArmTrajBuf.row]

theorem row_setRow_of_ne (shm : Shm) {i k : Nat}
    (row : Joints ExactDouble × ExactDouble) (h : k ≠ i) :
    (shm.setRow i row).traj.row k = shm.traj.row k := by
  simp [Shm.setRow, ArmTrajBuf.row, Function.update_of_ne h]

/-!
A store to the length or to the state leaves the rows and the other segment as
they are.
-/

@[simp] theorem row_trajState (state : TrajState) (shm : Shm) (i : Nat) :
    ((Store.trajState state).apply shm).traj.row i = shm.traj.row i := rfl

@[simp] theorem msgs_trajState (state : TrajState) (shm : Shm) :
    ((Store.trajState state).apply shm).msgs = shm.msgs := rfl

@[simp] theorem len_trajState (state : TrajState) (shm : Shm) :
    ((Store.trajState state).apply shm).traj.len = shm.traj.len := rfl

@[simp] theorem state_trajState (state : TrajState) (shm : Shm) :
    ((Store.trajState state).apply shm).traj.state = state := rfl

def applyStores (stores : List Store) (shm : Shm) : Shm :=
  stores.foldl (fun shm store => store.apply shm) shm

@[simp] theorem applyStores_nil (shm : Shm) : applyStores [] shm = shm := rfl

@[simp] theorem applyStores_cons (store : Store) (rest : List Store)
    (shm : Shm) :
    applyStores (store :: rest) shm = applyStores rest (store.apply shm) := rfl

theorem applyStores_append (first second : List Store) (shm : Shm) :
    applyStores (first ++ second) shm =
      applyStores second (applyStores first shm) := by
  simp [applyStores]

/-!
## Stores to the rows and the length
-/

def Store.writesRows : Store -> Bool
  | .trajLen _ => true
  | .trajQ _ _ _ => true
  | .trajT _ _ => true
  | .armJTar _ _ => false
  | .armSpeedFactor _ => false
  | .trajState _ => false

theorem apply_of_not_writesRows {store : Store}
    (h : store.writesRows = false) (shm : Shm) :
    (store.apply shm).traj.q = shm.traj.q ∧
      (store.apply shm).traj.t = shm.traj.t ∧
      (store.apply shm).traj.len = shm.traj.len := by
  cases store with
  | trajLen | trajQ | trajT => cases h
  | armJTar | armSpeedFactor | trajState => exact ⟨rfl, rfl, rfl⟩

theorem applyStores_of_not_writesRows {stores : List Store}
    (h : stores.any Store.writesRows = false) (shm : Shm) :
    (applyStores stores shm).traj.q = shm.traj.q ∧
      (applyStores stores shm).traj.t = shm.traj.t ∧
      (applyStores stores shm).traj.len = shm.traj.len := by
  induction stores generalizing shm with
  | nil => exact ⟨rfl, rfl, rfl⟩
  | cons store rest ih =>
      rw [List.any_cons, Bool.or_eq_false_iff] at h
      have hstep := apply_of_not_writesRows h.left shm
      have hrest := ih h.right (store.apply shm)
      rw [applyStores_cons]
      exact ⟨hrest.left.trans hstep.left,
        hrest.right.left.trans hstep.right.left,
        hrest.right.right.trans hstep.right.right⟩

/-!
## Stores to one segment
-/

def Store.writesTraj : Store -> Bool
  | .armJTar _ _ => false
  | .armSpeedFactor _ => false
  | _ => true

theorem applyStores_of_not_writesTraj {stores : List Store}
    (h : stores.any Store.writesTraj = false) (shm : Shm) :
    (applyStores stores shm).traj = shm.traj := by
  induction stores generalizing shm with
  | nil => rfl
  | cons store rest ih =>
      rw [List.any_cons, Bool.or_eq_false_iff] at h
      rw [applyStores_cons, ih h.right]
      cases store with
      | armJTar | armSpeedFactor => rfl
      | trajLen | trajQ | trajT | trajState => cases h.left

def Store.writesTarget : Store -> Bool
  | .armJTar _ _ => true
  | _ => false

theorem armJTar_of_not_writesTarget {store : Store}
    (h : store.writesTarget = false) (shm : Shm) :
    (store.apply shm).msgs.armJTar = shm.msgs.armJTar := by
  cases store with
  | armJTar => cases h
  | armSpeedFactor | trajLen | trajQ | trajT | trajState => rfl

end FrankaKistar
