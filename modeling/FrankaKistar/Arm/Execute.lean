import FrankaKistar.Arm.Segments

/-!
# Executing one trajectory

`executeTrajFromShm` without interference: pick the trajectory up, copy and
validate it, let the robot call the control callback, and leave `ARM_TRAJ_DONE`
behind.  The robot decides when the callback is called and with which period,
and it may end the motion with an exception at any time.
-/

namespace FrankaKistar
namespace Arm

open Foundation

/-- The fields of `franka::RobotState` that are published. -/
structure RobotState where
  q : Joints ExactDouble
  dq : Joints ExactDouble
  tauJ : Joints ExactDouble
  oTEE : Fin 16 -> ExactDouble

def RobotState.atRest : RobotState where
  q := zeroJoints
  dq := zeroJoints
  tauJ := zeroJoints
  oTEE := fun _ => .finite 0

structure ControlCall where
  state : RobotState
  period : Nat

def publishCallbackState (state : RobotState) (shm : Shm) : Shm :=
  { shm with msgs :=
    { shm.msgs with
      armJPos := state.q
      armJVel := state.dq
      armJTq := state.tauJ } }

def updateRightArmStateToShm (state : RobotState) (shm : Shm) : Shm :=
  { shm with msgs :=
    { shm.msgs with
      armJPos := state.q
      armJVel := state.dq
      armJTq := state.tauJ
      armCPos := state.oTEE } }

/-!
## The control loop
-/

/-- How `robot.control` ends. -/
inductive ControlEnd where
  | finished (shm : Shm)
  | threw (shm : Shm)
  | outOfRange (fault : OutOfRange)

/-- `robot.control`: the calls the robot makes before it ends the motion.  When
they are used up the robot throws. -/
def runControl (rows : List Waypoint) :
    ℚ -> Shm -> List ControlCall -> ControlEnd
  | _, shm, [] => .threw shm
  | elapsed, shm, call :: rest =>
      let shm' := publishCallbackState call.state shm
      match command rows (advance elapsed call.period) with
      | .error fault => .outOfRange fault
      | .ok c =>
          if c.finished then .finished shm'
          else runControl rows (advance elapsed call.period) shm' rest

/-- The control loop ends normally exactly when some callback returns the end of
the motion; it leaves the trajectory buffer and the targets alone. -/
theorem runControl_finished {rows : List Waypoint} {elapsed : ℚ} {shm shm' : Shm}
    {calls : List ControlCall}
    (h : runControl rows elapsed shm calls = .finished shm') :
    shm'.traj = shm.traj ∧ shm'.msgs.armJTar = shm.msgs.armJTar ∧
      exists c, Except.ok c ∈
          runCallbacks rows elapsed (calls.map ControlCall.period) ∧
        c.finished = true := by
  induction calls generalizing elapsed shm with
  | nil => cases h
  | cons call rest ih =>
      unfold runControl at h
      rw [List.map_cons]
      cases hcmd : command rows (advance elapsed call.period) with
      | error fault =>
          simp only [hcmd] at h
          cases h
      | ok c =>
          simp only [hcmd] at h
          by_cases hc : c.finished = true
          · rw [if_pos hc] at h
            cases h
            refine ⟨rfl, rfl, c, ?_, hc⟩
            simp [runCallbacks, hcmd]
          · rw [if_neg hc] at h
            rcases ih h with ⟨htraj, htar, c', hmem, hfinished⟩
            refine ⟨htraj, htar, c', ?_, hfinished⟩
            simp [runCallbacks, hcmd, hc, hmem]

/-!
## The whole function
-/

/-- The stores that sync `Arm_j_tar` with one joint vector. -/
def armTargetStores (q : Joints ExactDouble) : List Store :=
  (List.finRange armDOF).map fun j => Store.armJTar j (q j)

theorem applyStores_armTargets (x : Joints ExactDouble)
    (joints : List (Fin armDOF)) (shm : Shm) :
    applyStores (joints.map fun j => Store.armJTar j (x j)) shm =
      { shm with msgs :=
        { shm.msgs with
          armJTar := fun j =>
            if j ∈ joints then x j else shm.msgs.armJTar j } } := by
  induction joints generalizing shm with
  | nil => simp
  | cons head rest ih =>
      rw [List.map_cons, applyStores_cons, ih]
      simp only [Store.apply]
      congr 2
      funext j
      by_cases hhead : j = head
      · subst hhead
        simp
      · simp [hhead, Function.update_of_ne]

theorem applyStores_armTargetStores (q : Joints ExactDouble) (shm : Shm) :
    applyStores (armTargetStores q) shm =
      { shm with msgs := { shm.msgs with armJTar := q } } := by
  rw [armTargetStores, applyStores_armTargets]
  simp

/-- `q_last` -/
def Trajectory.qLast (tr : Trajectory) : Joints ExactDouble :=
  fun j => .finite (tr.lastRow.q j)

/-- How `executeTrajFromShm` ends, with the shared memory it leaves. -/
inductive ExecutionEnd where
  | returned (result : Joints ExactDouble) (shm : Shm)
  | threw (shm : Shm)
  | outOfRange (fault : OutOfRange)

def executeTrajFromShm (shm : Shm) (calls : List ControlCall) : ExecutionEnd :=
  let shm := (Store.trajState .executing).apply shm
  match loadTrajectory shm.traj with
  | none => .returned zeroJoints ((Store.trajState .done).apply shm)
  | some tr =>
      match runControl tr.rows 0 shm calls with
      | .outOfRange fault => .outOfRange fault
      | .threw shm => .threw ((Store.trajState .done).apply shm)
      | .finished shm =>
          .returned tr.qLast
            (applyStores (Store.trajState .done :: armTargetStores tr.qLast) shm)

section Ends

variable {shm : Shm} {calls : List ControlCall}

theorem executeTrajFromShm_of_none
    (hload : loadTrajectory ((Store.trajState .executing).apply shm).traj =
      none) :
    executeTrajFromShm shm calls =
      .returned zeroJoints ((Store.trajState .done).apply
        ((Store.trajState .executing).apply shm)) := by
  unfold executeTrajFromShm
  simp only [hload]

variable {tr : Trajectory}
  (hload : loadTrajectory ((Store.trajState .executing).apply shm).traj =
    some tr)

include hload

theorem executeTrajFromShm_of_finished {shmEnd : Shm}
    (hrun : runControl tr.rows 0 ((Store.trajState .executing).apply shm)
      calls = .finished shmEnd) :
    executeTrajFromShm shm calls =
      .returned tr.qLast (applyStores
        (Store.trajState .done :: armTargetStores tr.qLast) shmEnd) := by
  unfold executeTrajFromShm
  simp only [hload, hrun]

theorem executeTrajFromShm_of_threw {shmEnd : Shm}
    (hrun : runControl tr.rows 0 ((Store.trajState .executing).apply shm)
      calls = .threw shmEnd) :
    executeTrajFromShm shm calls =
      .threw ((Store.trajState .done).apply shmEnd) := by
  unfold executeTrajFromShm
  simp only [hload, hrun]

theorem executeTrajFromShm_of_outOfRange {fault : OutOfRange}
    (hrun : runControl tr.rows 0 ((Store.trajState .executing).apply shm)
      calls = .outOfRange fault) :
    executeTrajFromShm shm calls = .outOfRange fault := by
  unfold executeTrajFromShm
  simp only [hload, hrun]

end Ends

theorem holds_trajState {buf : ArmTrajBuf} {rows : List Waypoint}
    (state : TrajState) :
    Holds { buf with state := state } rows <-> Holds buf rows := Iff.rfl

theorem loadTrajectory_trajState (buf : ArmTrajBuf) (state : TrajState) :
    loadTrajectory { buf with state := state } = loadTrajectory buf := by
  apply Option.ext
  intro tr
  rw [loadTrajectory_eq_some_iff, loadTrajectory_eq_some_iff,
    holds_trajState]

theorem executeTrajFromShm_returned {shm shm' : Shm} {tr : Trajectory}
    {calls : List ControlCall} {result : Joints ExactDouble}
    (hload : loadTrajectory shm.traj = some tr)
    (h : executeTrajFromShm shm calls = .returned result shm') :
    result = tr.qLast ∧ shm'.msgs.armJTar = tr.qLast ∧
      shm'.traj.state = .done := by
  have hload' :
      loadTrajectory ((Store.trajState .executing).apply shm).traj = some tr :=
    (loadTrajectory_trajState shm.traj .executing).trans hload
  cases hrun : runControl tr.rows 0 ((Store.trajState .executing).apply shm)
      calls with
  | outOfRange fault =>
      rw [executeTrajFromShm_of_outOfRange hload' hrun] at h
      cases h
  | threw shmEnd =>
      rw [executeTrajFromShm_of_threw hload' hrun] at h
      cases h
  | finished shmEnd =>
      rw [executeTrajFromShm_of_finished hload' hrun] at h
      cases h
      rw [applyStores_cons, applyStores_armTargetStores]
      exact ⟨rfl, rfl, rfl⟩

theorem executeTrajFromShm_rejected {shm : Shm}
    (hload : loadTrajectory shm.traj = none) (calls : List ControlCall) :
    executeTrajFromShm shm calls =
      .returned zeroJoints ((Store.trajState .done).apply shm) := by
  have hload' :
      loadTrajectory ((Store.trajState .executing).apply shm).traj = none :=
    (loadTrajectory_trajState shm.traj .executing).trans hload
  rw [executeTrajFromShm_of_none hload']
  rfl

end Arm
end FrankaKistar
