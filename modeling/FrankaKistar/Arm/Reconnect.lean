import FrankaKistar.Arm.Leftover

/-!
# After an exception

An exception of libfranka ends in the handler of the control thread, which marks
the trajectory as done and connects again.  The reconnect stores the measured
pose as the target.  So the arm does not move again before the bridge has
written something, however often the connection fails in between and whatever
is measured, a pose that is not a number included.
-/

namespace FrankaKistar
namespace Arm

open Foundation
open Bridge

def Loc.moves : Loc -> Bool
  | .executing _ _ | .finishing _ | .ptpMotion _ _ => true
  | _ => false

/-- The joints before `j` agree. -/
def AgreesBefore (j : Nat) (x y : Joints ExactDouble) : Prop :=
  forall i : Fin armDOF, i.val < j -> x i = y i

/-- What the thread knows on the way from the handler to the next poll, and
from poll to poll. -/
def Still (shm : Shm) : Loc -> Prop
  | .handler => True
  | .retrying | .connecting => shm.traj.state ≠ .pending
  | .syncPose last j =>
      AgreesBefore j shm.msgs.armJTar last ∧ shm.traj.state ≠ .pending
  | .checkTrajState last | .storeIdle last | .storeZeroLen last | .poll last
  | .readTrajState last | .sleeping last =>
      shm.msgs.armJTar = last ∧ shm.traj.state ≠ .pending
  | .loadTarget last target j =>
      shm.msgs.armJTar = last ∧ AgreesBefore j target last ∧
        shm.traj.state ≠ .pending
  | _ => False

/-- The bridge does not start a callback, and while a trajectory is pending the
process is not killed between an exception and its handler. -/
def Unattended (s : Split) : LifetimeEvent -> Prop
  | .step (.receive _) => False
  | .kill => s.ctl.shm.traj.state = .pending -> s.ctl.loc ≠ .handler
  | _ => True

theorem agreesBefore_zero {x y : Joints ExactDouble} : AgreesBefore 0 x y := by
  intro i hi
  cases hi

theorem Still.not_moves {shm : Shm} {loc : Loc} (h : Still shm loc) :
    loc.moves = false := by
  cases loc <;> first | rfl | cases h

/-!
## Steps
-/

theorem still_tickStep {cfg : FrankaRightArmConfig} {shm : Shm} {loc : Loc}
    {s' : Ctl} (hs : Still shm loc) (h : tickStep cfg shm loc = some s') :
    Still s'.shm s'.loc := by
  cases loc with
  | handler =>
      cases h
      intro hpending
      cases hpending
  | retrying =>
      cases h
      exact hs
  | syncPose last j =>
      simp only [tickStep] at h
      split at h
      · rename_i hj
        cases h
        exact ⟨update_agrees hj hs.1, hs.2⟩
      · rename_i hj
        cases h
        exact ⟨eq_of_agrees hj hs.1, hs.2⟩
  | checkTrajState last =>
      simp only [tickStep] at h
      split at h <;> cases h <;> exact hs
  | storeIdle last =>
      cases h
      refine ⟨hs.1, ?_⟩
      intro hpending
      cases hpending
  | readTrajState last =>
      simp only [tickStep, if_neg hs.2] at h
      cases h
      exact ⟨hs.1, agreesBefore_zero, hs.2⟩
  | loadTarget last target j =>
      simp only [tickStep] at h
      split at h
      · rename_i hj
        cases h
        refine ⟨hs.1, ?_, hs.2.2⟩
        rw [hs.1]
        exact update_agrees hj hs.2.1
      · rename_i hj
        rw [eq_of_agrees hj hs.2.1, isTargetChanged_self] at h
        cases h
        exact ⟨hs.1, hs.2.2⟩
  | storeZeroLen | sleeping =>
      cases h
      exact hs
  | connecting | poll => cases h
  | _ => cases hs

theorem still_controlStep {cfg : FrankaRightArmConfig} {s s' : Ctl}
    {e : ControlEvent} (hs : Still s.shm s.loc)
    (h : controlStep cfg s e = some s') : Still s'.shm s'.loc := by
  rcases s with ⟨shm, loc⟩
  cases e with
  | tick => exact still_tickStep hs h
  | robotState state =>
      cases loc with
      | connecting =>
          cases h
          exact ⟨agreesBefore_zero, hs⟩
      | poll last =>
          cases h
          exact hs
      | afterTrajectory | afterPtp => cases hs
      | _ => cases h
  | callback state period =>
      cases loc with
      | executing => cases hs
      | _ => cases h
  | controlReturns =>
      rcases Option.map_eq_some_iff.mp h with ⟨next, hnext, rfl⟩
      cases loc with
      | finishing | ptpMotion => cases hs
      | _ => cases hnext
  | throws =>
      rcases Option.map_eq_some_iff.mp h with ⟨next, hnext, rfl⟩
      cases loc with
      | connecting | poll =>
          cases hnext
          exact True.intro
      | executing | finishing | afterTrajectory | ptpMotion | afterPtp =>
          cases hs
      | _ => cases hnext

theorem state_of_still {shm : Shm} {loc : Loc} (h : Still shm loc)
    (hloc : shm.traj.state = .pending -> loc ≠ .handler) :
    shm.traj.state ≠ .pending := by
  cases loc with
  | handler => exact fun hpending => hloc hpending rfl
  | retrying | connecting => exact h
  | syncPose | checkTrajState | storeIdle | storeZeroLen | poll | readTrajState
  | sleeping => exact h.2
  | loadTarget => exact h.2.2
  | _ => cases h

structure StillInv (s : Split) : Prop where
  still : Still s.ctl.shm s.ctl.loc
  outgoing : s.outgoing = []

theorem stillInv_lifetimeStep {cfg : FrankaRightArmConfig} {s s' : Split}
    {e : LifetimeEvent} (hs : StillInv s) (hcond : Unattended s e)
    (h : lifetimeStep cfg s e = some s') : StillInv s' := by
  cases e with
  | kill =>
      cases h
      exact ⟨state_of_still hs.still hcond, hs.outgoing⟩
  | step e =>
      cases e with
      | control e =>
          rcases Option.map_eq_some_iff.mp h with ⟨ctl, hctl, rfl⟩
          exact ⟨still_controlStep hs.still hctl, hs.outgoing⟩
      | receive msg => cases hcond
      | store =>
          simp only [lifetimeStep, splitStep, hs.outgoing] at h
          cases h

/-- From an exception on, or from the start of a process that finds nothing
pending, no motion runs until the bridge is written to. -/
theorem noMotion_of_run {cfg : FrankaRightArmConfig} {ctl : Ctl}
    {history : List LifetimeEvent} {s : Split}
    (hstart : ctl.loc = .handler ∨
      (ctl.loc = .connecting ∧ ctl.shm.traj.state ≠ .pending))
    (hrun : Machine.RunWhere (lifetimeStep cfg) Unattended ⟨ctl, []⟩ history
      s) : s.ctl.loc.moves = false := by
  have hstill : Still ctl.shm ctl.loc := by
    rcases hstart with hloc | ⟨hloc, hstate⟩
    · rw [hloc]
      exact True.intro
    · rw [hloc]
      exact hstate
  have hinv : StillInv s :=
    Machine.invariant_of_step
      (fun _ _ _ hs hcond hstep => stillInv_lifetimeStep hs hcond hstep)
      ⟨hstill, rfl⟩ hrun
  exact hinv.still.not_moves

/-!
An exception while a trajectory is pending, a connection that fails, one that
succeeds, and a poll.
-/

def reconnectTwice : List LifetimeEvent :=
  List.flatten
    [List.replicate 2 (.step (.control .tick)), [.step (.control .throws)],
      List.replicate 2 (.step (.control .tick)), connectOnce 11,
      List.replicate 10 (.step (.control .tick))]

theorem unattended_reconnectTwice (e : LifetimeEvent)
    (he : e ∈ reconnectTwice) (s : Split) : Unattended s e := by
  rcases List.mem_flatten.mp he with ⟨part, hpart, hmem⟩
  simp only [List.mem_cons, List.not_mem_nil, or_false] at hpart
  rcases hpart with rfl | rfl | rfl | rfl | rfl
  · rw [List.eq_of_mem_replicate hmem]
    exact True.intro
  · rw [List.mem_singleton.mp hmem]
    exact True.intro
  · rw [List.eq_of_mem_replicate hmem]
    exact True.intro
  · simp only [connectOnce, List.mem_append, List.mem_singleton] at hmem
    rcases hmem with (rfl | hticks) | rfl
    · exact True.intro
    · rw [List.eq_of_mem_replicate hticks]
      exact True.intro
    · exact True.intro
  · rw [List.eq_of_mem_replicate hmem]
    exact True.intro

theorem noMotion_reconnectTwice :
    exists s : Split, s.ctl.loc.polls = true ∧ s.ctl.loc.moves = false := by
  have hrun : ((lifetimeStep defaultConfig).runFrom
      ⟨⟨⟨SHMmsgs.zero, { ArmTrajBuf.zero with state := .pending }⟩, .handler⟩,
        []⟩ reconnectTwice).any (fun s => s.ctl.loc.polls) = true := by
    decide +kernel
  rcases Machine.exists_runWhere_of_forall unattended_reconnectTwice hrun with
    ⟨s, hs, hpolls⟩
  exact ⟨s, hpolls, noMotion_of_run (Or.inl rfl) hs⟩

end Arm
end FrankaKistar
