import FrankaKistar.Arm.ControlThread
import FrankaKistar.Bridge.Writes

/-!
# Controller and bridge together

The bridge runs one arm callback at a time.  Its stores interleave freely with
the steps of the control thread, since the two processes lock different mutexes.
A coarser machine runs each callback in one step; every run of it is a run of
the finer one.
-/

namespace FrankaKistar
namespace Arm

open Foundation
open Bridge

inductive ArmMessage where
  | trajectory (msg : JointTrajectory)
  | target (data : List ExactDouble)
  | speed (factor : ExactDouble)

/-- The stores of the callback of a message; a rejected message has none. -/
def ArmMessage.stores : ArmMessage -> List Store
  | .trajectory msg => (trajectoryStores msg).getD []
  | .target data => (targetStores data).getD []
  | .speed factor => speedStores factor

def ArmMessage.accepted : ArmMessage -> Bool
  | .trajectory msg => (trajectoryStores msg).isSome
  | _ => false

theorem ArmMessage.exists_of_accepted {msg : ArmMessage}
    (h : msg.accepted = true) :
    exists traj stores, msg = .trajectory traj ∧
      trajectoryStores traj = some stores := by
  cases msg with
  | target | speed => cases h
  | trajectory traj =>
      simp only [ArmMessage.accepted] at h
      rcases Option.isSome_iff_exists.mp h with ⟨stores, hstores⟩
      exact ⟨traj, stores, rfl, hstores⟩

theorem ArmMessage.traj_of_not_accepted {msg : ArmMessage}
    (h : msg.accepted = false) (shm : Shm) :
    (applyStores msg.stores shm).traj = shm.traj := by
  cases msg with
  | trajectory traj =>
      have hnone : trajectoryStores traj = none := by
        simpa [ArmMessage.accepted] using h
      rw [ArmMessage.stores, hnone]
      rfl
  | target data =>
      exact applyStores_of_not_writesTraj (targetStores_not_writesTraj data) shm
  | speed factor =>
      exact applyStores_of_not_writesTraj (speedStores_not_writesTraj factor)
        shm

theorem ArmMessage.state_of_accepted {msg : ArmMessage}
    (h : msg.accepted = true) (shm : Shm) :
    (applyStores msg.stores shm).traj.state = .pending := by
  rcases ArmMessage.exists_of_accepted h with ⟨traj, stores, rfl, hstores⟩
  have hlength := length_of_trajectoryStores hstores
  have haccepted :=
    onFrankaTrajectory_accepted hlength.left hlength.right shm
  rw [onFrankaTrajectory_of_stores hstores] at haccepted
  rw [ArmMessage.stores, hstores]
  exact haccepted.right.right.left

/-!
## Single stores
-/

/-- The control thread, and the stores that the running bridge callback still
has to make. -/
structure Split where
  ctl : Ctl
  outgoing : List Store

inductive SplitEvent where
  | control (e : ControlEvent)
  | receive (msg : ArmMessage)
  | store

def splitStep (cfg : FrankaRightArmConfig) : Machine Split SplitEvent
  | s, .control e =>
      (controlStep cfg s.ctl e).map fun ctl => ⟨ctl, s.outgoing⟩
  | s, .receive msg =>
      match s.outgoing with
      | [] => some ⟨s.ctl, msg.stores⟩
      | _ :: _ => none
  | s, .store =>
      match s.outgoing with
      | [] => none
      | store :: rest => some ⟨⟨store.apply s.ctl.shm, s.ctl.loc⟩, rest⟩

/-!
## Whole callbacks
-/

inductive AtomicEvent where
  | control (e : ControlEvent)
  | message (msg : ArmMessage)

def atomicStep (cfg : FrankaRightArmConfig) : Machine Ctl AtomicEvent
  | s, .control e => controlStep cfg s e
  | s, .message msg => some ⟨applyStores msg.stores s.shm, s.loc⟩

theorem reaches_stores (cfg : FrankaRightArmConfig) (stores : List Store)
    (shm : Shm) (loc : Loc) :
    (splitStep cfg).Reaches ⟨⟨shm, loc⟩, stores⟩
      ⟨⟨applyStores stores shm, loc⟩, []⟩ := by
  induction stores generalizing shm with
  | nil => exact Machine.reaches_refl _ _
  | cons store rest ih =>
      have hstep : splitStep cfg ⟨⟨shm, loc⟩, store :: rest⟩ .store =
          some ⟨⟨store.apply shm, loc⟩, rest⟩ := rfl
      exact Machine.reaches_step hstep (ih (store.apply shm))

theorem reaches_of_atomicStep {cfg : FrankaRightArmConfig} {s s' : Ctl}
    {e : AtomicEvent} (h : atomicStep cfg s e = some s') :
    (splitStep cfg).Reaches ⟨s, []⟩ ⟨s', []⟩ := by
  cases e with
  | control e =>
      have hcontrol : controlStep cfg s e = some s' := h
      have hstep : splitStep cfg ⟨s, []⟩ (.control e) = some ⟨s', []⟩ := by
        simp [splitStep, hcontrol]
      exact Machine.reaches_of_step hstep
  | message msg =>
      cases h
      have hstep : splitStep cfg ⟨s, []⟩ (.receive msg) =
          some ⟨s, msg.stores⟩ := rfl
      exact Machine.reaches_step hstep (reaches_stores cfg _ s.shm s.loc)

theorem reaches_of_atomic_run {cfg : FrankaRightArmConfig} {s s' : Ctl}
    {history : List AtomicEvent}
    (h : Machine.Run (atomicStep cfg) s history s') :
    (splitStep cfg).Reaches ⟨s, []⟩ ⟨s', []⟩ := by
  induction h with
  | nil => exact Machine.reaches_refl _ _
  | snoc _ _ hstep ih =>
      exact Machine.reaches_trans ih (reaches_of_atomicStep hstep)

/-!
## What the control thread leaves alone

The control thread never writes a row of the trajectory buffer, and it writes
only zero to the length.
-/

theorem trajectory_tickStep {cfg : FrankaRightArmConfig} {shm : Shm} {loc : Loc}
    {s' : Ctl} (h : tickStep cfg shm loc = some s') :
    s'.shm.traj.q = shm.traj.q ∧ s'.shm.traj.t = shm.traj.t ∧
      (s'.shm.traj.len = shm.traj.len ∨ s'.shm.traj.len = 0) := by
  cases loc with
  | syncPose last j =>
      simp only [tickStep] at h
      split at h <;> cases h <;> exact ⟨rfl, rfl, Or.inl rfl⟩
  | checkTrajState last =>
      simp only [tickStep] at h
      split at h <;> cases h <;> exact ⟨rfl, rfl, Or.inl rfl⟩
  | storeIdle last =>
      cases h
      exact ⟨rfl, rfl, Or.inl rfl⟩
  | storeZeroLen last =>
      cases h
      exact ⟨rfl, rfl, Or.inr rfl⟩
  | readTrajState last =>
      simp only [tickStep] at h
      split at h <;> cases h <;> exact ⟨rfl, rfl, Or.inl rfl⟩
  | loadLen =>
      simp only [tickStep] at h
      split at h <;> cases h <;> exact ⟨rfl, rfl, Or.inl rfl⟩
  | copying len c q j =>
      simp only [tickStep] at h
      split at h <;> cases h <;> exact ⟨rfl, rfl, Or.inl rfl⟩
  | syncTarget tr j =>
      simp only [tickStep] at h
      split at h <;> cases h <;> exact ⟨rfl, rfl, Or.inl rfl⟩
  | loadTarget last target j =>
      simp only [tickStep] at h
      split at h
      · cases h
        exact ⟨rfl, rfl, Or.inl rfl⟩
      · split at h <;> cases h <;> exact ⟨rfl, rfl, Or.inl rfl⟩
  | connecting | poll | executing | finishing | afterTrajectory | ptpMotion
  | afterPtp | undefinedBehaviour => cases h
  | storeExecuting | rejected | storeDone | trajCatch | loadSpeed | sleeping
  | handler | retrying =>
      cases h
      exact ⟨rfl, rfl, Or.inl rfl⟩

theorem traj_robotStateStep {state : RobotState} {shm : Shm} {loc : Loc}
    {s' : Ctl} (h : robotStateStep state shm loc = some s') :
    s'.shm.traj = shm.traj := by
  cases loc <;> cases h <;> rfl

theorem traj_callbackStep {state : RobotState} {period : Nat} {shm : Shm}
    {loc : Loc} {s' : Ctl} (h : callbackStep state period shm loc = some s') :
    s'.shm.traj = shm.traj := by
  cases loc with
  | executing tr elapsed =>
      simp only [callbackStep] at h
      split at h <;> cases h <;> rfl
  | _ => cases h

theorem trajectory_controlStep {cfg : FrankaRightArmConfig} {s s' : Ctl}
    {e : ControlEvent} (h : controlStep cfg s e = some s') :
    s'.shm.traj.q = s.shm.traj.q ∧ s'.shm.traj.t = s.shm.traj.t ∧
      (s'.shm.traj.len = s.shm.traj.len ∨ s'.shm.traj.len = 0) := by
  cases e with
  | tick => exact trajectory_tickStep h
  | robotState state =>
      rw [traj_robotStateStep h]
      exact ⟨rfl, rfl, Or.inl rfl⟩
  | callback state period =>
      rw [traj_callbackStep h]
      exact ⟨rfl, rfl, Or.inl rfl⟩
  | controlReturns =>
      rcases Option.map_eq_some_iff.mp h with ⟨loc, _, rfl⟩
      exact ⟨rfl, rfl, Or.inl rfl⟩
  | throws =>
      rcases Option.map_eq_some_iff.mp h with ⟨loc, _, rfl⟩
      exact ⟨rfl, rfl, Or.inl rfl⟩

end Arm
end FrankaKistar
