import FrankaKistar.Arm.Interleaving

/-!
# Joint state and end-effector pose

The control thread publishes a robot state on two paths.  A
`updateRightArmStateToShm` stores the joint positions, velocities, torques and
the end-effector pose; the control callback of `executeTrajFromShm` stores the
first three only, so that `Arm_C_Pos` is left from an earlier sample.
-/

namespace FrankaKistar
namespace Arm

open Foundation
open Bridge

/-!
## Published samples
-/

structure Sampled where
  split : Split
  sample : Option RobotState

def SplitEvent.sample : SplitEvent -> Option RobotState
  | .control (.robotState state) => some state
  | .control (.callback state _) => some state
  | _ => none

def sampledStep (cfg : FrankaRightArmConfig) : Machine Sampled SplitEvent :=
  fun s e => (splitStep cfg s.split e).map fun split =>
    ⟨split, e.sample.or s.sample⟩

def Sampled.start (shm : Shm) : Sampled := ⟨⟨⟨shm, .connecting⟩, []⟩, none⟩

def Sampled.msgs (s : Sampled) : SHMmsgs := s.split.ctl.shm.msgs

/-- The four fields are those of one sample. -/
structure CarriesSample (msgs : SHMmsgs) (state : RobotState) : Prop where
  jPos : msgs.armJPos = state.q
  jVel : msgs.armJVel = state.dq
  jTq : msgs.armJTq = state.tauJ
  cPos : msgs.armCPos = state.oTEE

def Coherent (s : Sampled) : Prop :=
  forall state, s.sample = some state -> CarriesSample s.msgs state

/-- The callback gets a sample whose end-effector pose is in the shared memory
already. -/
def PoseKept (s : Sampled) : SplitEvent -> Prop
  | .control (.callback state _) => state.oTEE = s.msgs.armCPos
  | _ => True

instance (s : Sampled) (e : SplitEvent) : Decidable (PoseKept s e) := by
  unfold PoseKept
  split <;> infer_instance

/-!
## Steps
-/

def armState (msgs : SHMmsgs) :
    Joints ExactDouble × Joints ExactDouble × Joints ExactDouble ×
      (Fin 16 -> ExactDouble) :=
  (msgs.armJPos, msgs.armJVel, msgs.armJTq, msgs.armCPos)

theorem carriesSample_iff (msgs : SHMmsgs) (state : RobotState) :
    CarriesSample msgs state <->
      armState msgs = (state.q, state.dq, state.tauJ, state.oTEE) := by
  constructor
  · intro h
    rw [armState, h.jPos, h.jVel, h.jTq, h.cPos]
  · intro h
    simp only [armState, Prod.mk.injEq] at h
    exact ⟨h.left, h.right.left, h.right.right.left, h.right.right.right⟩

theorem armState_apply (store : Store) (shm : Shm) :
    armState (store.apply shm).msgs = armState shm.msgs := by
  cases store <;> rfl

theorem armState_tickStep {cfg : FrankaRightArmConfig} {shm : Shm} {loc : Loc}
    {s' : Ctl} (h : tickStep cfg shm loc = some s') :
    armState s'.shm.msgs = armState shm.msgs := by
  cases loc with
  | syncPose | checkTrajState | readTrajState | loadLen | copying
  | syncTarget =>
      simp only [tickStep] at h
      split at h <;> cases h <;> rfl
  | loadTarget last target j =>
      simp only [tickStep] at h
      split at h
      · cases h
        rfl
      · split at h <;> cases h <;> rfl
  | connecting | poll | executing | finishing | afterTrajectory | ptpMotion
  | afterPtp | undefinedBehaviour => cases h
  | storeIdle | storeZeroLen | storeExecuting | rejected | storeDone | trajCatch
  | loadSpeed | sleeping | handler | retrying =>
      cases h
      rfl

theorem armState_splitStep {cfg : FrankaRightArmConfig} {s s' : Split}
    {e : SplitEvent} (hsample : e.sample = none)
    (h : splitStep cfg s e = some s') :
    armState s'.ctl.shm.msgs = armState s.ctl.shm.msgs := by
  cases e with
  | control e =>
      rcases Option.map_eq_some_iff.mp h with ⟨ctl, hctl, rfl⟩
      cases e with
      | tick => exact armState_tickStep hctl
      | robotState state => cases hsample
      | callback state period => cases hsample
      | controlReturns =>
          rcases Option.map_eq_some_iff.mp hctl with ⟨loc, _, rfl⟩
          rfl
      | throws =>
          rcases Option.map_eq_some_iff.mp hctl with ⟨loc, _, rfl⟩
          rfl
  | receive msg =>
      simp only [splitStep] at h
      split at h <;> cases h
      rfl
  | store =>
      simp only [splitStep] at h
      split at h <;> cases h
      exact armState_apply _ s.ctl.shm

theorem carriesSample_robotState {state : RobotState} {shm : Shm} {loc : Loc}
    {s' : Ctl} (h : robotStateStep state shm loc = some s') :
    CarriesSample s'.shm.msgs state := by
  cases loc <;> cases h <;> exact ⟨rfl, rfl, rfl, rfl⟩

theorem msgs_callbackStep {state : RobotState} {period : Nat} {shm : Shm}
    {loc : Loc} {s' : Ctl} (h : callbackStep state period shm loc = some s') :
    s'.shm.msgs = (publishCallbackState state shm).msgs := by
  cases loc with
  | executing tr elapsed =>
      simp only [callbackStep] at h
      split at h <;> cases h <;> rfl
  | _ => cases h

theorem carriesSample_callback {state : RobotState} {period : Nat} {shm : Shm}
    {loc : Loc} {s' : Ctl} (h : callbackStep state period shm loc = some s') :
    CarriesSample s'.shm.msgs state <-> state.oTEE = shm.msgs.armCPos := by
  rw [msgs_callbackStep h]
  constructor
  · intro hcarries
    exact hcarries.cPos.symm
  · intro hpose
    exact ⟨rfl, rfl, rfl, hpose.symm⟩

theorem coherent_step_iff {cfg : FrankaRightArmConfig} {s s' : Sampled}
    {e : SplitEvent} (hs : Coherent s) (h : sampledStep cfg s e = some s') :
    Coherent s' <-> PoseKept s e := by
  rcases Option.map_eq_some_iff.mp h with ⟨split, hsplit, rfl⟩
  have hquiet : e.sample = none ->
      (Coherent ⟨split, e.sample.or s.sample⟩ <-> True) := by
    intro hnone
    refine iff_of_true (fun state hstate => ?_) True.intro
    rw [hnone, Option.none_or] at hstate
    have hcarries := (carriesSample_iff _ _).mp (hs state hstate)
    exact (carriesSample_iff _ _).mpr
      ((armState_splitStep hnone hsplit).trans hcarries)
  cases e with
  | receive msg => exact hquiet rfl
  | store => exact hquiet rfl
  | control e =>
      rcases Option.map_eq_some_iff.mp hsplit with ⟨ctl, hctl, rfl⟩
      cases e with
      | tick => exact hquiet rfl
      | controlReturns => exact hquiet rfl
      | throws => exact hquiet rfl
      | robotState sample =>
          refine iff_of_true (fun state hstate => ?_) True.intro
          cases hstate
          exact carriesSample_robotState hctl
      | callback sample period =>
          have hcallback := carriesSample_callback hctl
          constructor
          · intro hcoherent
            exact hcallback.mp (hcoherent sample rfl)
          · intro hpose state hstate
            cases hstate
            exact hcallback.mpr hpose

/-!
## Runs
-/

/-- In every run whose callbacks find the pose of their sample in the shared
memory, the four fields belong together; the first callback that does not find
it there breaks them apart. -/
theorem coherent_of_run {cfg : FrankaRightArmConfig} {shm : Shm}
    {history : List SplitEvent} {s : Sampled}
    (h : Machine.RunWhere (sampledStep cfg) PoseKept (Sampled.start shm)
      history s) :
    Coherent s ∧ forall e s', sampledStep cfg s e = some s' ->
      (Coherent s' <-> PoseKept s e) := by
  have hcoherent : Coherent s := by
    apply Machine.invariant_of_step _ _ h
    · intro s e s' hs hcond hstep
      exact (coherent_step_iff hs hstep).mpr hcond
    · intro state hstate
      cases hstate
  exact ⟨hcoherent, fun e s' hstep => coherent_step_iff hcoherent hstep⟩

/-!
## A trajectory
-/

/-- Connect, receive a trajectory with one point, pick it up and call the
callback once. -/
def followTrajectory (state : RobotState) : List SplitEvent :=
  [.control (.robotState .atRest)] ++
    List.replicate 11 (.control .tick) ++
    [.receive (.trajectory
      (.onePoint [0, -7 / 10, 0, -23 / 10, 0, 3 / 2, 7 / 10]))] ++
    List.replicate 10 .store ++ [.control (.robotState .atRest)] ++
    List.replicate 11 (.control .tick) ++ [.control (.callback state 1)]

def moved : RobotState :=
  { RobotState.atRest with
    q := fun _ => .finite 1
    oTEE := fun _ => .finite 1 }

/-- The pose that the callback of the sample leaves is not the sample's. -/
def Sampled.stalePose (s : Sampled) : Bool :=
  s.sample.any fun state => decide (s.msgs.armCPos ≠ state.oTEE)

theorem coherent_followTrajectory :
    exists s, Coherent s ∧ s.sample.isSome = true := by
  have hrun : (((sampledStep defaultConfig).guarded PoseKept).runFrom
      (Sampled.start ⟨SHMmsgs.zero, ArmTrajBuf.zero⟩)
      (followTrajectory .atRest)).any (fun s => s.sample.isSome) = true := by
    decide +kernel
  rcases Machine.exists_runWhere_of_any hrun with ⟨s, hs, hsample⟩
  exact ⟨s, (coherent_of_run hs).left, hsample⟩

theorem not_all_coherent :
    ¬ forall cfg shm history s,
        Machine.Run (sampledStep cfg) (Sampled.start shm) history s ->
        Coherent s := by
  intro hclaim
  have hrun : ((sampledStep defaultConfig).runFrom
      (Sampled.start ⟨SHMmsgs.zero, ArmTrajBuf.zero⟩)
      (followTrajectory moved)).any Sampled.stalePose = true := by
    decide +kernel
  rcases Machine.exists_run_of_any hrun with ⟨s, hs, hstale⟩
  cases hsample : s.sample with
  | none =>
      rw [Sampled.stalePose, hsample] at hstale
      cases hstale
  | some state =>
      have hcarries := hclaim _ _ _ s hs state hsample
      rw [Sampled.stalePose, hsample, Option.any_some, decide_eq_true_eq,
        hcarries.cPos] at hstale
      exact hstale rfl

end Arm
end FrankaKistar
