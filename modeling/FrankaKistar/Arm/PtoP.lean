import FrankaKistar.Arm.Interleaving

/-!
# No unrequested motion after a trajectory

The control thread starts a PtoP motion when `Arm_j_tar` differs from
`last_target`.  Completion and reconnection leave the two equal, but a rejected
trajectory returns the value-initialised array, so `last_target` becomes zero
whatever `Arm_j_tar` is.
-/

namespace FrankaKistar
namespace Arm

open Foundation
open Bridge

def Loc.isPtpMotion : Loc -> Bool
  | .ptpMotion _ _ => true
  | _ => false

def Loc.isRejected : Loc -> Bool
  | .rejected => true
  | _ => false

/-!
## The condition
-/

/-- Nothing but the control thread writes `Arm_j_tar`. -/
def NoOutsideTarget (s : Split) : SplitEvent -> Prop
  | .store => (s.outgoing.take 1).any Store.writesTarget = false
  | _ => True

/-- A rejection is taken with an `Arm_j_tar` that is not told from zero. -/
def RejectedAtZero (s : Split) : SplitEvent -> Prop
  | .control _ =>
      s.ctl.loc.isRejected = true ->
        isTargetChanged s.ctl.shm.msgs.armJTar zeroJoints = false
  | _ => True

instance (s : Split) (e : SplitEvent) : Decidable (NoOutsideTarget s e) := by
  cases e <;> unfold NoOutsideTarget <;> infer_instance

instance (s : Split) (e : SplitEvent) : Decidable (RejectedAtZero s e) := by
  cases e <;> unfold RejectedAtZero <;> infer_instance

/-!
## The invariant

`Arm_j_tar` stays within the tolerance of `last_target`; where one of the two is
being copied from the other, the copied joints agree.
-/

def TargetServed (tar : Joints ExactDouble) : Loc -> Prop
  | .syncPose last j => forall i : Fin armDOF, i.val < j -> tar i = last i
  | .syncTarget tr j => forall i : Fin armDOF, i.val < j -> tar i = tr.qLast i
  | .checkTrajState last => isTargetChanged tar last = false
  | .storeIdle last => isTargetChanged tar last = false
  | .storeZeroLen last => isTargetChanged tar last = false
  | .poll last => isTargetChanged tar last = false
  | .readTrajState last => isTargetChanged tar last = false
  | .storeExecuting last => isTargetChanged tar last = false
  | .afterTrajectory last => isTargetChanged tar last = false
  | .sleeping last => isTargetChanged tar last = false
  | .loadTarget last target j =>
      isTargetChanged tar last = false ∧
        forall i : Fin armDOF, i.val < j -> target i = tar i
  | .loadSpeed _ => False
  | .ptpMotion _ _ => False
  | .afterPtp _ => False
  | _ => True

theorem tickStep_targetServed {cfg : FrankaRightArmConfig} {shm : Shm}
    {loc : Loc} {s' : Ctl} (hserved : TargetServed shm.msgs.armJTar loc)
    (hrejected : loc.isRejected = true ->
      isTargetChanged shm.msgs.armJTar zeroJoints = false)
    (h : tickStep cfg shm loc = some s') :
    TargetServed s'.shm.msgs.armJTar s'.loc := by
  cases loc with
  | syncPose last j =>
      simp only [tickStep] at h
      split at h
      · rename_i hj
        cases h
        exact update_agrees hj hserved
      · rename_i hj
        cases h
        show isTargetChanged shm.msgs.armJTar last = false
        rw [eq_of_agrees hj hserved]
        exact isTargetChanged_self last
  | syncTarget tr j =>
      simp only [tickStep] at h
      split at h
      · rename_i hj
        cases h
        exact update_agrees hj hserved
      · rename_i hj
        cases h
        show isTargetChanged shm.msgs.armJTar tr.qLast = false
        rw [eq_of_agrees hj hserved]
        exact isTargetChanged_self tr.qLast
  | loadTarget last target j =>
      simp only [tickStep] at h
      split at h
      · rename_i hj
        cases h
        exact ⟨hserved.left, update_agrees hj hserved.right⟩
      · rename_i hj
        rw [eq_of_agrees hj hserved.right, hserved.left,
          if_neg Bool.false_ne_true] at h
        cases h
        exact hserved.left
  | rejected =>
      cases h
      exact hrejected rfl
  | checkTrajState last =>
      simp only [tickStep] at h
      split at h <;> cases h <;> exact hserved
  | readTrajState last =>
      simp only [tickStep] at h
      split at h
      · cases h
        exact hserved
      · cases h
        exact ⟨hserved, fun i hi => absurd hi (Nat.not_lt_zero _)⟩
  | loadLen =>
      simp only [tickStep] at h
      split at h <;> cases h <;> exact True.intro
  | copying len c q j =>
      simp only [tickStep] at h
      split at h
      · cases h
        exact True.intro
      · cases h
        simp only [finishRow]
        split
        · exact True.intro
        · split <;> exact True.intro
  | storeIdle | storeZeroLen | sleeping =>
      cases h
      exact hserved
  | storeDone =>
      cases h
      exact fun i hi => absurd hi (Nat.not_lt_zero _)
  | storeExecuting | trajCatch | handler | retrying =>
      cases h
      exact True.intro
  | connecting | poll | executing | finishing | afterTrajectory | ptpMotion
  | afterPtp | undefinedBehaviour => cases h
  | loadSpeed => exact hserved.elim

theorem controlStep_targetServed {cfg : FrankaRightArmConfig} {s s' : Ctl}
    {e : ControlEvent} (hserved : TargetServed s.shm.msgs.armJTar s.loc)
    (hrejected : s.loc.isRejected = true ->
      isTargetChanged s.shm.msgs.armJTar zeroJoints = false)
    (h : controlStep cfg s e = some s') :
    TargetServed s'.shm.msgs.armJTar s'.loc := by
  rcases s with ⟨shm, loc⟩
  cases e with
  | tick => exact tickStep_targetServed hserved hrejected h
  | robotState state =>
      cases loc with
      | connecting =>
          cases h
          exact fun i hi => absurd hi (Nat.not_lt_zero _)
      | poll | afterTrajectory =>
          cases h
          exact hserved
      | afterPtp => exact hserved.elim
      | _ => cases h
  | callback state period =>
      cases loc with
      | executing tr elapsed =>
          simp only [controlStep, callbackStep] at h
          split at h
          · cases h
            exact True.intro
          · cases h
            simp only
            split <;> exact True.intro
      | _ => cases h
  | controlReturns =>
      cases loc with
      | finishing =>
          cases h
          exact True.intro
      | ptpMotion => exact hserved.elim
      | _ => cases h
  | throws => cases loc <;> cases h <;> exact True.intro

/-!
## Runs
-/

theorem splitStep_targetServed {cfg : FrankaRightArmConfig} {s s' : Split}
    {e : SplitEvent} (hs : TargetServed s.ctl.shm.msgs.armJTar s.ctl.loc)
    (houtside : NoOutsideTarget s e) (hrejected : RejectedAtZero s e)
    (h : splitStep cfg s e = some s') :
    TargetServed s'.ctl.shm.msgs.armJTar s'.ctl.loc := by
  cases e with
  | control e =>
      rcases Option.map_eq_some_iff.mp h with ⟨ctl, hctl, rfl⟩
      exact controlStep_targetServed hs hrejected hctl
  | receive msg =>
      rcases s with ⟨ctl, outgoing⟩
      cases outgoing with
      | cons store rest => cases h
      | nil =>
          cases h
          exact hs
  | store =>
      rcases s with ⟨ctl, outgoing⟩
      cases outgoing with
      | nil => cases h
      | cons store rest =>
          cases h
          have hstore : store.writesTarget = false := by
            simpa [NoOutsideTarget] using houtside
          show TargetServed (store.apply ctl.shm).msgs.armJTar ctl.loc
          rw [armJTar_of_not_writesTarget hstore]
          exact hs

theorem not_ptpMotion_of_targetServed {tar : Joints ExactDouble} {loc : Loc}
    (h : TargetServed tar loc) : loc.isPtpMotion = false := by
  cases loc with
  | ptpMotion => exact h.elim
  | _ => rfl

/-- From a pick-up without an unserved target, no PtoP motion starts as long as
nothing else writes `Arm_j_tar` and no trajectory is rejected away from zero. -/
theorem no_ptpMotion_after_pickUp {cfg : FrankaRightArmConfig}
    {start s : Split} {last : Joints ExactDouble} {history : List SplitEvent}
    (hpickUp : start.ctl.loc = .storeExecuting last)
    (hserved : isTargetChanged start.ctl.shm.msgs.armJTar last = false)
    (h : Machine.RunWhere (splitStep cfg)
      (fun s e => NoOutsideTarget s e ∧ RejectedAtZero s e) start history s) :
    s.ctl.loc.isPtpMotion = false := by
  have hinv : TargetServed s.ctl.shm.msgs.armJTar s.ctl.loc := by
    apply Machine.invariant_of_step _ _ h
    · intro s e s' hs hcond hstep
      exact splitStep_targetServed hs hcond.left hcond.right hstep
    · rw [hpickUp]
      exact hserved
  exact not_ptpMotion_of_targetServed hinv

/-!
## The rejection that starts a motion

From a rejection away from zero the thread comes back to its poll, finds
`Arm_j_tar` changed and starts a motion to it, with no step of anybody else.
-/

theorem reaches_loadTarget (cfg : FrankaRightArmConfig) (shm : Shm)
    (last target : Joints ExactDouble) {remaining j : Nat}
    (hj : j + remaining = armDOF)
    (hagree : forall i : Fin armDOF, i.val < j ->
      target i = shm.msgs.armJTar i) :
    (controlStep cfg).Reaches ⟨shm, .loadTarget last target j⟩
      ⟨shm, .loadTarget last shm.msgs.armJTar armDOF⟩ := by
  induction remaining generalizing j target with
  | zero =>
      have hfull : j = armDOF := hj
      subst hfull
      rw [eq_of_agrees (Nat.lt_irrefl _) hagree]
      exact Machine.reaches_refl _ _
  | succ remaining ih =>
      have hlt : j < armDOF := by omega
      have hstep : controlStep cfg ⟨shm, .loadTarget last target j⟩ .tick =
          some ⟨shm, .loadTarget last (Function.update target ⟨j, hlt⟩
            (shm.msgs.armJTar ⟨j, hlt⟩)) (j + 1)⟩ := by
        simp only [controlStep, tickStep]
        rw [dif_pos hlt]
      exact Machine.reaches_step hstep
        (ih _ (by omega) (update_agrees hlt hagree))

theorem ptpMotion_of_rejected_away {cfg : FrankaRightArmConfig} {shm : Shm}
    (haway : isTargetChanged shm.msgs.armJTar zeroJoints = true) :
    exists s', (controlStep cfg).Reaches ⟨shm, .rejected⟩ s' ∧
      s'.loc.isPtpMotion = true := by
  let done := (Store.trajState .done).apply shm
  let polled := updateRightArmStateToShm .atRest
    (updateRightArmStateToShm .atRest done)
  have htar : polled.msgs.armJTar = shm.msgs.armJTar := rfl
  have hstore : controlStep cfg ⟨shm, .rejected⟩ .tick =
      some ⟨done, .afterTrajectory zeroJoints⟩ := rfl
  have hread : controlStep cfg ⟨done, .afterTrajectory zeroJoints⟩
      (.robotState .atRest) =
        some ⟨updateRightArmStateToShm .atRest done, .poll zeroJoints⟩ := rfl
  have hpoll : controlStep cfg
      ⟨updateRightArmStateToShm .atRest done, .poll zeroJoints⟩
      (.robotState .atRest) =
        some ⟨polled, .readTrajState zeroJoints⟩ := rfl
  have hstate : controlStep cfg ⟨polled, .readTrajState zeroJoints⟩ .tick =
      some ⟨polled, .loadTarget zeroJoints zeroJoints 0⟩ := rfl
  have hload := reaches_loadTarget cfg polled zeroJoints zeroJoints
    (Nat.zero_add armDOF) (fun i hi => absurd hi (Nat.not_lt_zero _))
  have hchanged : controlStep cfg
      ⟨polled, .loadTarget zeroJoints polled.msgs.armJTar armDOF⟩ .tick =
        some ⟨polled, .loadSpeed polled.msgs.armJTar⟩ := by
    simp only [controlStep, tickStep]
    rw [dif_neg (Nat.lt_irrefl _), htar, haway, if_pos rfl]
  let moving : Ctl := ⟨polled, .ptpMotion polled.msgs.armJTar
    (sanitizeSpeedFactor polled.msgs.armSpeedFactor cfg.speedFactor)⟩
  have hspeed : controlStep cfg ⟨polled, .loadSpeed polled.msgs.armJTar⟩ .tick =
      some moving := rfl
  refine ⟨moving, ?_, rfl⟩
  apply Machine.reaches_step hstore
  apply Machine.reaches_step hread
  apply Machine.reaches_step hpoll
  apply Machine.reaches_step hstate
  apply Machine.reaches_trans hload
  apply Machine.reaches_step hchanged
  exact Machine.reaches_of_step hspeed

/-!
## A completed and a rejected trajectory

Both are picked up while `Arm_j_tar` equals `last_target`.  The rejected one has
joint 4 outside of its limits.
-/

def pickUpOf (positions : List ℚ) (target : Joints ExactDouble) : Split where
  ctl :=
    { shm := onFrankaTrajectory (.onePoint positions)
        ⟨{ SHMmsgs.zero with armJTar := target }, ArmTrajBuf.zero⟩
      loc := .storeExecuting target }
  outgoing := []

/-- A pose within the limits, half a radian off at joint 1. -/
def turnedPose : Joints ExactDouble := fun j =>
  .finite (![1 / 2, -7 / 10, 0, -23 / 10, 0, 3 / 2, 7 / 10] j)

def tickEvents (n : Nat) : List SplitEvent :=
  List.replicate n (.control .tick)

def completionEvents : List SplitEvent :=
  tickEvents 10 ++
    [.control (.callback .atRest 1050), .control .controlReturns] ++
    tickEvents 9 ++
    [.control (.robotState .atRest), .control (.robotState .atRest)] ++
    tickEvents 9

def rejectionEvents : List SplitEvent :=
  tickEvents 11 ++
    [.control (.robotState .atRest), .control (.robotState .atRest)] ++
    tickEvents 10

def Loc.isSleeping : Loc -> Bool
  | .sleeping _ => true
  | _ => false

theorem no_ptpMotion_after_completion :
    exists s : Split, s.ctl.loc.isSleeping = true ∧
      s.ctl.loc.isPtpMotion = false := by
  have hrun : (((splitStep defaultConfig).guarded
      (fun s e => NoOutsideTarget s e ∧ RejectedAtZero s e)).runFrom
      (pickUpOf [0, -7 / 10, 0, -23 / 10, 0, 3 / 2, 7 / 10] turnedPose)
      completionEvents).any (fun s => s.ctl.loc.isSleeping) = true := by
    decide +kernel
  rcases Machine.exists_runWhere_of_any hrun with ⟨s, hs, hsleeping⟩
  exact ⟨s, hsleeping,
    no_ptpMotion_after_pickUp rfl (isTargetChanged_self turnedPose) hs⟩

theorem not_all_no_ptpMotion :
    ¬ forall cfg start s last history,
        start.ctl.loc = .storeExecuting last ->
        start.ctl.shm.traj.state = .pending ->
        isTargetChanged start.ctl.shm.msgs.armJTar last = false ->
        Machine.RunWhere (splitStep cfg) NoOutsideTarget start history s ->
        s.ctl.loc.isPtpMotion = false := by
  intro hclaim
  have hrun : (((splitStep defaultConfig).guarded NoOutsideTarget).runFrom
      (pickUpOf [0, 0, 0, 0, 0, 0, 0] turnedPose) rejectionEvents).any
      (fun s => s.ctl.loc.isPtpMotion) = true := by
    decide +kernel
  rcases Machine.exists_runWhere_of_any hrun with ⟨s, hs, hmotion⟩
  have hpending : (pickUpOf [0, 0, 0, 0, 0, 0, 0] turnedPose).ctl.shm.traj.state =
      .pending := by
    decide +kernel
  have hno := hclaim _ _ s turnedPose _ rfl hpending
    (isTargetChanged_self turnedPose) hs
  rw [hmotion] at hno
  cases hno

end Arm
end FrankaKistar
