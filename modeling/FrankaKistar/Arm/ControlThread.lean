import FrankaKistar.Arm.Execute
import FrankaKistar.Foundation.Runs

/-!
# The control thread

`franka_control_thread_R` as a machine that makes one load or store of shared
memory at a time.  The locations name the next access; the variables that are
live there are their arguments.  libfranka is outside of the model: when a state
is read, when the control callback is called, when a motion ends and when a call
throws are events of the environment.
-/

namespace FrankaKistar
namespace Arm

open Foundation

def kDefaultSpeedFactor : ℚ := 1 / 10
def kMinSpeedFactor : ℚ := 1 / 1000
def kMaxSpeedFactor : ℚ := 1

structure FrankaRightArmConfig where
  speedFactor : ExactDouble

/-- `default_cfg` -/
def defaultConfig : FrankaRightArmConfig := ⟨.finite kDefaultSpeedFactor⟩

def sanitizeSpeedFactor (speed fallback : ExactDouble) : ExactDouble :=
  if speed.isFinite then
    if speed.lt (.finite kMinSpeedFactor) then .finite kMinSpeedFactor
    else if (ExactDouble.finite kMaxSpeedFactor).lt speed then
      .finite kMaxSpeedFactor
    else speed
  else fallback

def isTargetChanged (a b : Joints ExactDouble) : Bool :=
  (List.finRange armDOF).any fun i =>
    (ExactDouble.finite targetEps).lt ((a i).sub (b i)).abs

@[simp] theorem isTargetChanged_self (a : Joints ExactDouble) :
    isTargetChanged a a = false := by
  rw [isTargetChanged, List.any_eq_false]
  intro i _
  rw [ExactDouble.lt_abs_sub_self (by norm_num [targetEps])]
  exact Bool.false_ne_true

/-- On numbers a target is changed when some joint is off by more than the
tolerance. -/
theorem isTargetChanged_finite (a b : Joints ℚ) :
    isTargetChanged (fun j => .finite (a j)) (fun j => .finite (b j)) = false <->
      forall j, |a j - b j| ≤ targetEps := by
  simp [isTargetChanged]

/-!
## Locations
-/

/-- A length that passes the first check of `executeTrajFromShm`. -/
structure TrajLen where
  val : Nat
  pos : 0 < val
  le : val ≤ armTrajMaxPts

def TrajLen.ofInt? (n : Int) : Option TrajLen :=
  if h : 0 < n ∧ n ≤ (armTrajMaxPts : Int) then
    some ⟨n.toNat, by omega, by omega⟩
  else none

theorem TrajLen.ofInt?_eq_some {n : Int} {len : TrajLen}
    (h : TrajLen.ofInt? n = some len) : n = len.val := by
  unfold TrajLen.ofInt? at h
  split at h
  · rename_i hn
    cases h
    show n = (n.toNat : Int)
    omega
  · cases h

inductive Loc where
  -- connection
  | connecting
  | syncPose (last : Joints ExactDouble) (j : Nat)
  | checkTrajState (last : Joints ExactDouble)
  | storeIdle (last : Joints ExactDouble)
  | storeZeroLen (last : Joints ExactDouble)
  -- polling
  | poll (last : Joints ExactDouble)
  | readTrajState (last : Joints ExactDouble)
  -- `executeTrajFromShm`
  | storeExecuting (last : Joints ExactDouble)
  | loadLen
  | copying (len : TrajLen) (c : CheckedRows) (q : Joints ExactDouble) (j : Nat)
  | rejected
  | executing (tr : Trajectory) (elapsed : ℚ)
  | finishing (tr : Trajectory)
  | storeDone (tr : Trajectory)
  | syncTarget (tr : Trajectory) (j : Nat)
  | trajCatch
  | afterTrajectory (last : Joints ExactDouble)
  -- PtoP mode
  | loadTarget (last target : Joints ExactDouble) (j : Nat)
  | loadSpeed (target : Joints ExactDouble)
  | ptpMotion (target : Joints ExactDouble) (speed : ExactDouble)
  | afterPtp (target : Joints ExactDouble)
  | sleeping (last : Joints ExactDouble)
  -- exceptions
  | handler
  | retrying
  | undefinedBehaviour

structure Ctl where
  shm : Shm
  loc : Loc

inductive ControlEvent where
  | tick
  | robotState (state : RobotState)
  | callback (state : RobotState) (period : Nat)
  | controlReturns
  | throws

/-!
## Steps

`tick` takes the next step of the thread itself, at the locations that do not
wait for libfranka.
-/

/-- Validate the copied row, and go on with the next row or start the motion. -/
def finishRow (len : TrajLen) (c : CheckedRows) (q : Joints ExactDouble)
    (t : ExactDouble) : Loc :=
  match c.accept q t with
  | none => .rejected
  | some c' =>
      if h : c'.rows.length = len.val then
        .executing
          { c' with
            nonempty := by
              rw [h]
              exact len.pos
            bounded := by
              rw [h]
              exact len.le }
          0
      else .copying len c' zeroJoints 0

def tickStep (cfg : FrankaRightArmConfig) (shm : Shm) : Loc -> Option Ctl
  | .syncPose last j =>
      if h : j < armDOF then
        some ⟨(Store.armJTar ⟨j, h⟩ (last ⟨j, h⟩)).apply shm,
          .syncPose last (j + 1)⟩
      else
        some ⟨(Store.armSpeedFactor (.finite kDefaultSpeedFactor)).apply shm,
          .checkTrajState last⟩
  | .checkTrajState last =>
      if shm.traj.state ≠ .pending ∧ shm.traj.state ≠ .executing then
        some ⟨shm, .storeIdle last⟩
      else some ⟨shm, .poll last⟩
  | .storeIdle last =>
      some ⟨(Store.trajState .idle).apply shm, .storeZeroLen last⟩
  | .storeZeroLen last => some ⟨(Store.trajLen 0).apply shm, .poll last⟩
  | .readTrajState last =>
      if shm.traj.state = .pending then some ⟨shm, .storeExecuting last⟩
      else some ⟨shm, .loadTarget last last 0⟩
  | .storeExecuting _ =>
      some ⟨(Store.trajState .executing).apply shm, .loadLen⟩
  | .loadLen =>
      match TrajLen.ofInt? shm.traj.len with
      | none => some ⟨shm, .rejected⟩
      | some len => some ⟨shm, .copying len CheckedRows.empty zeroJoints 0⟩
  | .copying len c q j =>
      if h : j < armDOF then
        some ⟨shm, .copying len c
          (Function.update q ⟨j, h⟩ (shm.traj.q c.rows.length ⟨j, h⟩)) (j + 1)⟩
      else some ⟨shm, finishRow len c q (shm.traj.t c.rows.length)⟩
  | .rejected =>
      some ⟨(Store.trajState .done).apply shm, .afterTrajectory zeroJoints⟩
  | .storeDone tr =>
      some ⟨(Store.trajState .done).apply shm, .syncTarget tr 0⟩
  | .syncTarget tr j =>
      if h : j < armDOF then
        some ⟨(Store.armJTar ⟨j, h⟩ (tr.qLast ⟨j, h⟩)).apply shm,
          .syncTarget tr (j + 1)⟩
      else some ⟨shm, .afterTrajectory tr.qLast⟩
  | .trajCatch => some ⟨(Store.trajState .done).apply shm, .handler⟩
  | .loadTarget last target j =>
      if h : j < armDOF then
        some ⟨shm, .loadTarget last
          (Function.update target ⟨j, h⟩ (shm.msgs.armJTar ⟨j, h⟩)) (j + 1)⟩
      else if isTargetChanged target last then some ⟨shm, .loadSpeed target⟩
      else some ⟨shm, .sleeping last⟩
  | .loadSpeed target =>
      some ⟨shm, .ptpMotion target
        (sanitizeSpeedFactor shm.msgs.armSpeedFactor cfg.speedFactor)⟩
  | .sleeping last => some ⟨shm, .poll last⟩
  | .handler => some ⟨(Store.trajState .done).apply shm, .retrying⟩
  | .retrying => some ⟨shm, .connecting⟩
  | _ => none

/-- `readOnce` returns, and the state is published. -/
def robotStateStep (state : RobotState) (shm : Shm) : Loc -> Option Ctl
  | .connecting =>
      some ⟨updateRightArmStateToShm state shm, .syncPose state.q 0⟩
  | .poll last =>
      some ⟨updateRightArmStateToShm state shm, .readTrajState last⟩
  | .afterTrajectory last =>
      some ⟨updateRightArmStateToShm state shm, .poll last⟩
  | .afterPtp target =>
      some ⟨updateRightArmStateToShm state shm, .sleeping target⟩
  | _ => none

/-- The control callback of `executeTrajFromShm` is called. -/
def callbackStep (state : RobotState) (period : Nat) (shm : Shm) :
    Loc -> Option Ctl
  | .executing tr elapsed =>
      match command tr.rows (advance elapsed period) with
      | .error _ => some ⟨publishCallbackState state shm, .undefinedBehaviour⟩
      | .ok c =>
          some ⟨publishCallbackState state shm,
            if c.finished then .finishing tr
            else .executing tr (advance elapsed period)⟩
  | _ => none

/-- `robot.control` returns. -/
def controlReturnsStep : Loc -> Option Loc
  | .finishing tr => some (.storeDone tr)
  | .ptpMotion target _ => some (.afterPtp target)
  | _ => none

def throwsStep : Loc -> Option Loc
  | .executing _ _ => some .trajCatch
  | .finishing _ => some .trajCatch
  | .connecting => some .handler
  | .poll _ => some .handler
  | .afterTrajectory _ => some .handler
  | .ptpMotion _ _ => some .handler
  | .afterPtp _ => some .handler
  | _ => none

def controlStep (cfg : FrankaRightArmConfig) : Machine Ctl ControlEvent
  | s, .tick => tickStep cfg s.shm s.loc
  | s, .robotState state => robotStateStep state s.shm s.loc
  | s, .callback state period => callbackStep state period s.shm s.loc
  | s, .controlReturns => (controlReturnsStep s.loc).map fun loc => ⟨s.shm, loc⟩
  | s, .throws => (throwsStep s.loc).map fun loc => ⟨s.shm, loc⟩

/-!
## Joints copied one at a time
-/

theorem update_agrees {x y : Joints ExactDouble} {j : Nat} (hj : j < armDOF)
    (h : forall i : Fin armDOF, i.val < j -> x i = y i)
    (i : Fin armDOF) (hi : i.val < j + 1) :
    Function.update x ⟨j, hj⟩ (y ⟨j, hj⟩) i = y i := by
  by_cases hij : i = ⟨j, hj⟩
  · subst hij
    exact Function.update_self _ _ _
  · rw [Function.update_of_ne hij]
    apply h
    have : i.val ≠ j := fun hval => hij (Fin.ext hval)
    omega

theorem eq_of_agrees {x y : Joints ExactDouble} {j : Nat} (hj : ¬ j < armDOF)
    (h : forall i : Fin armDOF, i.val < j -> x i = y i) : x = y := by
  funext i
  exact h i (Nat.lt_of_lt_of_le i.isLt (Nat.le_of_not_lt hj))

/-!
## A copy in progress
-/

/-- With the buffer left alone, what is still to be copied ends with the rows
`result`, or with a rejection. -/
structure CopyTo (buf : ArmTrajBuf) (result : Option (List Waypoint))
    (len : TrajLen) (c : CheckedRows) (q : Joints ExactDouble) (j : Nat) :
    Prop where
  next : c.rows.length < len.val
  rest : (copyRows buf (len.val - c.rows.length) c).map CheckedRows.rows =
    result
  joints : forall i : Fin armDOF, i.val < j -> q i = buf.q c.rows.length i

def loadedRows (buf : ArmTrajBuf) : Option (List Waypoint) :=
  (loadTrajectory buf).map fun tr => tr.rows

theorem loadedRows_eq_some {buf : ArmTrajBuf} {tr : Trajectory}
    (h : loadTrajectory buf = some tr) : loadedRows buf = some tr.rows := by
  rw [loadedRows, h]
  rfl

/-- The length is the first check. -/
theorem loadedRows_of_refused {buf : ArmTrajBuf}
    (h : TrajLen.ofInt? buf.len = none) : loadedRows buf = none := by
  have hrange : ¬ (0 < buf.len ∧ buf.len ≤ (armTrajMaxPts : Int)) := by
    intro hrange
    rw [TrajLen.ofInt?, dif_pos hrange] at h
    cases h
  rw [loadedRows, loadTrajectory, dif_neg hrange]
  rfl

theorem copyTo_loadedRows {buf : ArmTrajBuf} {len : TrajLen}
    (h : TrajLen.ofInt? buf.len = some len) :
    CopyTo buf (loadedRows buf) len CheckedRows.empty zeroJoints 0 where
  next := len.pos
  rest := by
    have hlen := TrajLen.ofInt?_eq_some h
    have hrange : 0 < buf.len ∧ buf.len ≤ (armTrajMaxPts : Int) := by
      have hpos := len.pos
      have hle := len.le
      omega
    have hnat : len.val - CheckedRows.empty.rows.length = buf.len.toNat := by
      show len.val - 0 = buf.len.toNat
      omega
    rw [hnat, loadedRows, loadTrajectory, dif_pos hrange]
    split
    · rename_i hnone
      exact congrArg (Option.map CheckedRows.rows) hnone
    · rename_i c hsome
      exact congrArg (Option.map CheckedRows.rows) hsome
  joints := fun i hi => absurd hi (Nat.not_lt_zero _)

theorem finishRow_of_copyTo {buf : ArmTrajBuf} {result : Option (List Waypoint)}
    {len : TrajLen} {c : CheckedRows} {q : Joints ExactDouble} {j : Nat}
    (h : CopyTo buf result len c q j) (hj : ¬ j < armDOF) :
    (finishRow len c q (buf.t c.rows.length) = .rejected ∧ result = none) ∨
      (exists tr : Trajectory,
        finishRow len c q (buf.t c.rows.length) = .executing tr 0 ∧
          result = some tr.rows) ∨
      exists c', finishRow len c q (buf.t c.rows.length) =
          .copying len c' zeroJoints 0 ∧
        CopyTo buf result len c' zeroJoints 0 := by
  have hcopy := h.rest
  have hq : q = buf.q c.rows.length := eq_of_agrees hj h.joints
  have hnext := h.next
  have hsucc : len.val - c.rows.length = len.val - (c.rows.length + 1) + 1 := by
    omega
  rw [hsucc, copyRows, ← hq] at hcopy
  unfold finishRow
  cases haccept : c.accept q (buf.t c.rows.length) with
  | none =>
      rw [haccept] at hcopy
      exact Or.inl ⟨rfl, hcopy.symm⟩
  | some c' =>
      rw [haccept] at hcopy
      rcases accept_rows haccept with ⟨r, hsnoc, _⟩
      have hlength : c'.rows.length = c.rows.length + 1 := by
        rw [hsnoc, List.length_append, List.length_singleton]
      rw [← hlength] at hcopy
      simp only
      by_cases hfull : c'.rows.length = len.val
      · rw [dif_pos hfull]
        rw [hfull, Nat.sub_self] at hcopy
        exact Or.inr (Or.inl ⟨_, rfl, hcopy.symm⟩)
      · rw [dif_neg hfull]
        refine Or.inr (Or.inr ⟨c', rfl, ?_⟩)
        exact
          { next := by omega
            rest := hcopy
            joints := fun i hi => absurd hi (Nat.not_lt_zero _) }

end Arm
end FrankaKistar
