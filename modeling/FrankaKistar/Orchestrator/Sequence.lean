import FrankaKistar.Orchestrator.Trajectory

/-!
# The seven-stage sequence

`_run_full_sequence` of `planning_orchestrator.py` with the loops it calls:
`_wait_q_close`, `_ramp_hand` and `_run_trajectory`.  A location of the sequence
is the next statement with an effect, with the local variables it needs.  Each
publish, each check of the abort event, each snapshot and each sleep is one
step, so that another thread can act between any two of them.
-/

namespace FrankaKistar
namespace Orchestrator

open Foundation

/-- `HAND_DOF` encoder values. -/
abbrev Hand := Fin 16 -> Int

def handModePosition : Int := 1
def handModeCircular : Int := 2
def handSafeServoOn : Bool := true

/-- The arguments of `_run_full_sequence` that come from the command line.
`pose_wait_timeout` only decides when a deadline passes. -/
structure SequenceParams where
  frankaSafe : Joints ExactDouble
  handSafe : Hand
  handSave : Hand
  handDur : ExactDouble
  postWait : ExactDouble
  moveSpeed : ExactDouble
  maxVel : ExactDouble
  trajHz : ExactDouble
  jointTol : ExactDouble
  handCloseDelta : Int

def frankaSafePosition : Joints ExactDouble :=
  ![ .finite (5084 / 10000), .finite (-591 / 10000), .finite (-2496 / 10000),
     .finite (-22724 / 10000), .finite (6068 / 10000), .finite (22322 / 10000),
     .finite (-9324 / 10000) ]

def handSafePosition : Hand :=
  ![ 4096, -4096, -1000, 1000, -1500, 1000, 1000, 1000,
     0, 1000, 1000, 1000, 1500, 1000, 1000, 1000 ]

def handSavePoint : Hand :=
  ![ 4096, -4096, -1000, 3000, -1500, 1000, 2000, 3000,
     0, 1000, 2000, 3000, 1500, 1000, 2000, 3000 ]

def SequenceParams.default : SequenceParams where
  frankaSafe := frankaSafePosition
  handSafe := handSafePosition
  handSave := handSavePoint
  handDur := .finite 2
  postWait := .finite (3 / 2)
  moveSpeed := .finite (1 / 10)
  maxVel := .finite (1 / 10)
  trajHz := .finite 100
  jointTol := .finite (8 / 100)
  handCloseDelta := 500

def restingGoal : JointTrajectory :=
  .onePoint [0, -7 / 10, 0, -23 / 10, 0, 3 / 2, 7 / 10]

/-- The calls on the backend that publish something. -/
inductive IoCall where
  | publishFranka (q : Joints ExactDouble) (speed : ExactDouble)
  | holdFranka (q : Joints ExactDouble)
  | setServo (on : Bool)
  | setHandMode (mode : Int)
  | publishHand (h : Hand)

structure View where
  frankaQ : Joints ExactDouble
  handQ : Hand

def View.start : View := ⟨fun _ => .finite 0, fun _ => 0⟩

/-!
## Pure parts
-/

/-- `int(x)` of a float: an infinity or NaN raises. -/
def truncate : ExactDouble -> Option Int
  | .finite x => some (x.num.tdiv x.den)
  | _ => none

/-- `round(x)`: ties go to the even neighbour. -/
def roundHalfEven (x : ℚ) : Int :=
  let low := x.floor
  if x - low < 1 / 2 then low
  else if 1 / 2 < x - low then low + 1
  else if low % 2 = 0 then low else low + 1

/-- `time.sleep` returns: the time is a number, not negative, and its
nanoseconds fit the 64-bit time of the interpreter. -/
def canSleep : ExactDouble -> Bool
  | .finite x => 0 ≤ x && x * 1000000000 < 9223372036854775808
  | _ => false

/-- `steps = max(1, int(duration_s * 40.0))` -/
def rampSteps (duration : ExactDouble) : Option Nat :=
  (truncate (duration.scale 40)).map fun n => (max 1 n).toNat

/-- `h0[i] + (k / steps) * (h1[i] - h0[i])`, rounded. -/
def rampPose (h0 h1 : Hand) (steps k : Nat) : Hand :=
  fun i => roundHalfEven (h0 i + (k / steps : ℚ) * (h1 i - h0 i))

/-- `n = max(2, int(T * hz))` -/
def trajSteps (duration : ℚ) (hz : ExactDouble) : Option Nat :=
  (truncate (hz.scale duration)).map fun n => (max 2 n).toNat

/-- `1.0 / hz`; a division by zero raises like a sleep that is refused. -/
def period : ExactDouble -> ExactDouble
  | .finite hz => if hz = 0 then .nan else .finite (1 / hz)
  | _ => .nan

/-- `HAND_MOTOR_EXCLUDE_FOR_OFFSET` -/
def handMotorExclude : List (Fin 16) := [0, 1, 4, 8, 12]

def applyHandCloseOffset (h : Hand) (delta : Int) : Hand :=
  fun i =>
    if i ∈ handMotorExclude then h i
    else max (-32768) (min 32767 (h i + delta))

/-- `all(abs(qc[i] - target[i]) < tol)` -/
def poseClose (qc target : Joints ExactDouble) (tol : ExactDouble) : Bool :=
  (List.finRange armDOF).all fun i => ((qc i).sub (target i)).abs.lt tol

/-!
## Locations
-/

/-- Stage 1 and stage 7 move to the same pose. -/
inductive SafeStage where
  | first
  | last
deriving DecidableEq

def SafeStage.number : SafeStage -> Nat
  | .first => 1
  | .last => 7

inductive HandStage where
  | safe
  | grasp
  | save
deriving DecidableEq

def HandStage.number : HandStage -> Nat
  | .safe => 2
  | .grasp => 3
  | .save => 5

def HandStage.target (p : SequenceParams) : HandStage -> Hand
  | .safe => p.handSafe
  | .grasp => p.handSave
  | .save => p.handSave

inductive SeqLoc where
  | publishSafe (stage : SafeStage)
  | waitTime (stage : SafeStage)
  | waitCheck (stage : SafeStage)
  | waitRead (stage : SafeStage)
  | waitPublish (stage : SafeStage)
  | waitSleep (stage : SafeStage)
  | setServo
  | servoSleep
  | setModeCircular
  | circularSleep
  | circularCheck
  | snapshot (stage : HandStage)
  | rampCheck (stage : HandStage) (h0 : Hand) (steps k : Nat)
  | rampPublish (stage : HandStage) (h0 : Hand) (steps k : Nat)
  | rampSleep (stage : HandStage) (h0 : Hand) (steps k : Nat)
  | rampDone (stage : HandStage)
  | trajStart
  | trajCheck (n i : Nat)
  | trajHold
  | trajPublish (n i : Nat)
  | trajSleep (n i : Nat)
  | trajLast
  | trajDone
  | setModePosition
  | positionSleep
  | settle
  | settleCheck
  | closeSnapshot
  | closePublish (boosted : Hand)
  | closeSleep
  | lastCheck
  | returned (ok : Bool)
  | raised

/-- The stage that the source prints; 0 after the sequence. -/
def SeqLoc.stage : SeqLoc -> Nat
  | .publishSafe stage | .waitTime stage | .waitCheck stage
  | .waitRead stage | .waitPublish stage | .waitSleep stage => stage.number
  | .setServo | .servoSleep | .setModeCircular | .circularSleep
  | .circularCheck => 2
  | .snapshot stage | .rampCheck stage _ _ _ | .rampPublish stage _ _ _
  | .rampSleep stage _ _ _ | .rampDone stage => stage.number
  | .trajStart | .trajCheck _ _ | .trajHold | .trajPublish _ _
  | .trajSleep _ _ | .trajLast | .trajDone => 4
  | .setModePosition | .positionSleep => 5
  | .settle | .settleCheck | .closeSnapshot | .closePublish _ | .closeSleep
  | .lastCheck => 6
  | .returned _ | .raised => 0

/-- After `_wait_q_close` has returned `True`. -/
def SafeStage.next : SafeStage -> SeqLoc
  | .first => .setServo
  | .last => .returned true

def HandStage.next : HandStage -> SeqLoc
  | .safe => .snapshot .grasp
  | .grasp => .trajStart
  | .save => .settle

/-!
## Steps
-/

/-- A publish of an interpolated sample; the error of the interpolation is
raised. -/
def publishSample (p : SequenceParams) (traj : JointTrajectory) (t : ℚ)
    (next : SeqLoc) : SeqLoc × Option IoCall :=
  match interpTraj traj t with
  | .error _ => (.raised, none)
  | .ok q => (next, some (.publishFranka q p.maxVel))

/-- The next location and the call that is made.  `abort` is the event,
`timeUp` tells whether the deadline has passed. -/
def seqStep (p : SequenceParams) (traj : JointTrajectory) (abort : Bool)
    (view : View) (timeUp : Bool) : SeqLoc -> Option (SeqLoc × Option IoCall)
  | .publishSafe stage =>
      some (.waitTime stage, some (.publishFranka p.frankaSafe p.moveSpeed))
  | .waitTime stage =>
      some (if timeUp then .returned false else .waitCheck stage, none)
  | .waitCheck stage =>
      some (if abort then .returned false else .waitRead stage, none)
  | .waitRead stage =>
      some (if poseClose view.frankaQ p.frankaSafe p.jointTol then stage.next
        else .waitPublish stage, none)
  | .waitPublish stage =>
      some (.waitSleep stage,
        some (.publishFranka p.frankaSafe (.finite (15 / 100))))
  | .waitSleep stage => some (.waitTime stage, none)
  | .setServo => some (.servoSleep, some (.setServo handSafeServoOn))
  | .servoSleep => some (.setModeCircular, none)
  | .setModeCircular =>
      some (.circularSleep, some (.setHandMode handModeCircular))
  | .circularSleep => some (.circularCheck, none)
  | .circularCheck =>
      some (if abort then .returned false else .snapshot .safe, none)
  | .snapshot stage =>
      some ((rampSteps p.handDur).elim .raised fun steps =>
        .rampCheck stage view.handQ steps 0, none)
  | .rampCheck stage h0 steps k =>
      some (if abort then .rampDone stage
        else .rampPublish stage h0 steps k, none)
  | .rampPublish stage h0 steps k =>
      some (.rampSleep stage h0 steps k,
        some (.publishHand (rampPose h0 (stage.target p) steps k)))
  | .rampSleep stage h0 steps k =>
      some (if canSleep (p.handDur.scale (1 / steps)) = false then .raised
        else if k < steps then .rampCheck stage h0 steps (k + 1)
        else .rampDone stage, none)
  | .rampDone stage =>
      some (if abort then .returned false else stage.next, none)
  | .trajStart =>
      some ((trajSteps (trajDuration traj) p.trajHz).elim .raised fun n =>
        .trajCheck n 0, none)
  | .trajCheck n i =>
      some (if abort then .trajHold else .trajPublish n i, none)
  | .trajHold => some (.trajDone, some (.holdFranka view.frankaQ))
  | .trajPublish n i =>
      some (publishSample p traj (trajDuration traj * (i / n)) (.trajSleep n i))
  | .trajSleep n i =>
      some (if canSleep (period p.trajHz) = false then .raised
        else if i < n then .trajCheck n (i + 1) else .trajLast, none)
  | .trajLast => some (publishSample p traj (trajDuration traj) .trajDone)
  | .trajDone =>
      some (if abort then .returned false else .setModePosition, none)
  | .setModePosition =>
      some (.positionSleep, some (.setHandMode handModePosition))
  | .positionSleep => some (.snapshot .save, none)
  | .settle =>
      some (if canSleep p.postWait then .settleCheck else .raised, none)
  | .settleCheck =>
      some (if abort then .returned false else .closeSnapshot, none)
  | .closeSnapshot =>
      some (.closePublish (applyHandCloseOffset view.handQ p.handCloseDelta),
        none)
  | .closePublish boosted => some (.closeSleep, some (.publishHand boosted))
  | .closeSleep => some (.lastCheck, none)
  | .lastCheck =>
      some (if abort then .returned false else .publishSafe .last, none)
  | .returned _ => none
  | .raised => none

/-!
## The two outcomes of a sample
-/

theorem publishSample_cases {p : SequenceParams} {traj : JointTrajectory}
    {t : ℚ} {next loc' : SeqLoc} {call : Option IoCall}
    (h : publishSample p traj t next = (loc', call)) :
    (loc' = .raised ∧ call = none) ∨
      (loc' = next ∧ exists q, call = some (.publishFranka q p.maxVel)) := by
  unfold publishSample at h
  cases hq : interpTraj traj t with
  | error e =>
      rw [hq] at h
      cases h
      exact Or.inl ⟨rfl, rfl⟩
  | ok q =>
      rw [hq] at h
      cases h
      exact Or.inr ⟨rfl, q, rfl⟩

end Orchestrator
end FrankaKistar
