import FrankaKistar.Foundation.Ownership
import FrankaKistar.Orchestrator.Stop

/-!
# Goal exclusivity

`_goal_callback` sets the busy flag for a goal and `_execute_follow_joint`
clears it in its `finally` block.  An exception inside the sequence runs the
same block.  In every run at most one accepted goal is still in front of this
reset, and the flag is set exactly when there is one.
-/

namespace FrankaKistar
namespace Orchestrator

open Foundation

variable {status : Type}

/-!
## Exceptions inside the sequence
-/

/-- `raise` is an exception out of any call that the sequence of the goal
makes. -/
inductive NodeEvent where
  | step (e : OrchEvent)
  | raise (i : Nat)

def nodeStep (server : GoalServer status) (cfg : OrchestratorConfig) :
    Machine (Orch status) NodeEvent
  | s, .step e => orchStep server cfg s e
  | s, .raise i =>
      (s.goals[i]?).bind fun g =>
        if g.loc.isRunning then
          some { s with goals := s.goals.set i (g.goto .resetBusy) }
        else none

/-!
## What is promised
-/

def BusyOwned (s : Orch status) : Prop :=
  Owned (fun g : Goal status => g.loc.holdsBusy) s.shared.goalBusy s.goals

/-- The goals and the busy flag, and what follows for the robot and for later
goals. -/
structure Exclusive (server : GoalServer status) (cfg : OrchestratorConfig)
    (s : Orch status) : Prop where
  owned : BusyOwned s
  driving : forall (i j : Nat) (g g' : Goal status),
    s.goals[i]? = some g -> s.goals[j]? = some g' ->
      g.loc.isRunning = true -> g'.loc.isRunning = true -> i = j
  notBlocked : (forall g, g ∈ s.goals -> g.loc.holdsBusy = false) ->
    forall traj,
      (validateFollowJointGoal traj cfg.expectedJointNames).toBool = true ->
        (requestStep server cfg traj s).goals.length = s.goals.length + 1

theorem exclusive_of_busyOwned {server : GoalServer status}
    {cfg : OrchestratorConfig} {s : Orch status} (h : BusyOwned s) :
    Exclusive server cfg s where
  owned := h
  driving := by
    intro i j g g' hi hj hg hg'
    exact h.single i j g g' hi hj (holdsBusy_of_isRunning hg)
      (holdsBusy_of_isRunning hg')
  notBlocked := by
    intro hidle traj hvalid
    have hclear : s.shared.goalBusy = false := by
      cases hflag : s.shared.goalBusy with
      | false => rfl
      | true =>
          rcases h.flagged.mp hflag with ⟨i, g, hi, hg⟩
          have hnot := hidle g (List.mem_of_getElem? hi)
          rw [hnot] at hg
          cases hg
    unfold requestStep
    rw [if_pos ⟨hvalid, hclear⟩, List.length_append, List.length_singleton]

/-!
## Steps of the execute callback
-/

theorem busy_execStep {server : GoalServer status} {cfg : OrchestratorConfig}
    {i : Nat} {choice : Bool} {sh sh' : Shared} {g g' : Goal status}
    (hstep : execStep server cfg i choice sh g = some (sh', g')) :
    (g'.loc.holdsBusy = g.loc.holdsBusy ∧ sh'.goalBusy = sh.goalBusy) ∨
      (g.loc.holdsBusy = true ∧ g'.loc.holdsBusy = false ∧
        sh'.goalBusy = false) := by
  unfold execStep at hstep
  cases hloc : g.loc with
  | resetBusy =>
      simp only [hloc, Option.some.injEq] at hstep
      cases hstep
      exact Or.inr ⟨rfl, rfl, rfl⟩
  | running loc =>
      simp only [hloc, Option.some.injEq] at hstep
      apply Or.inl
      unfold runningStep at hstep
      split at hstep
      · cases hstep
        cases loc <;> exact ⟨rfl, rfl⟩
      · cases hstep
        exact ⟨rfl, rfl⟩
  | normalize =>
      simp only [hloc, Option.some.injEq] at hstep
      cases hstep
      rcases (normalizeStep_spec cfg g).right.right with h | h | h <;>
        exact Or.inl ⟨by rw [h]; rfl, rfl⟩
  | done =>
      simp only [hloc] at hstep
      cases hstep
  | _ =>
      simp only [hloc, Option.some.injEq] at hstep
      cases hstep
      apply Or.inl
      refine ⟨?_, rfl⟩
      simp only [Goal.goto]
      try split_ifs
      all_goals rfl

theorem busyOwned_execute {server : GoalServer status}
    {cfg : OrchestratorConfig} {s : Orch status} {i : Nat} {choice : Bool}
    {g g' : Goal status} {sh : Shared} (hs : BusyOwned s)
    (hi : s.goals[i]? = some g)
    (hexec : execStep server cfg i choice s.shared g = some (sh, g')) :
    BusyOwned ⟨sh, s.user, s.goals.set i g'⟩ := by
  unfold BusyOwned
  rcases busy_execStep hexec with ⟨hsame, hflag⟩ | ⟨hbusy, hfree, hflag⟩
  · show Owned _ sh.goalBusy _
    rw [hflag]
    exact hs.congr (map_set_of_same hi hsame)
  · show Owned _ sh.goalBusy _
    rw [hflag]
    exact hs.release hi hbusy hfree

/-!
## Steps of the other threads
-/

def OrchEvent.isOutside : OrchEvent -> Bool
  | .request _ => false
  | .execute _ _ => false
  | _ => true

/-- The cancel callbacks, the keyboard and the state messages leave the
locations of the goals, the busy flag and the handle alone. -/
structure OutsideStep (s s' : Orch status) : Prop where
  locs : s'.goals.map Goal.loc = s.goals.map Goal.loc
  busy : s'.shared.goalBusy = s.shared.goalBusy
  active : s'.shared.activeGoal = s.shared.activeGoal

theorem outsideStep_user {server : GoalServer status} {s s' : Orch status}
    (hstep : userStep server s = some s') : OutsideStep s s' := by
  unfold userStep at hstep
  split at hstep
  · cases hstep
  · cases hstep
    exact ⟨rfl, rfl, rfl⟩
  · cases hstep
    exact ⟨rfl, rfl, rfl⟩
  · rcases Option.map_eq_some_iff.mp hstep with ⟨g, _, heq⟩
    rw [← heq]
    exact ⟨rfl, rfl, rfl⟩
  · rcases Option.map_eq_some_iff.mp hstep with ⟨g, hi, heq⟩
    rw [← heq]
    exact ⟨map_set_of_same hi rfl, rfl, rfl⟩

theorem outsideStep_orchStep {server : GoalServer status}
    {cfg : OrchestratorConfig} {s s' : Orch status} {e : OrchEvent}
    (he : e.isOutside = true) (hstep : orchStep server cfg s e = some s') :
    OutsideStep s s' := by
  cases e with
  | request traj => cases he
  | execute i choice => cases he
  | cancel i =>
      rcases Option.map_eq_some_iff.mp hstep with ⟨g, hi, heq⟩
      rw [← heq]
      exact ⟨map_set_of_same hi rfl, rfl, rfl⟩
  | cancelHold i =>
      rcases Option.bind_eq_some_iff.mp hstep with ⟨g, hi, hnext⟩
      split at hnext
      · cases hnext
      · cases hnext
        exact ⟨map_set_of_same hi rfl, rfl, rfl⟩
  | cancelAccept i =>
      rcases Option.bind_eq_some_iff.mp hstep with ⟨g, hi, hnext⟩
      split at hnext
      · cases hnext
      · cases hnext
        exact ⟨map_set_of_same hi rfl, rfl, rfl⟩
  | pressT =>
      simp only [orchStep] at hstep
      split at hstep
      · cases hstep
        refine ⟨?_, rfl, rfl⟩
        rw [List.map_map]
        rfl
      · cases hstep
  | user => exact outsideStep_user hstep
  | pressS | armState | handState =>
      cases hstep
      exact ⟨rfl, rfl, rfl⟩

theorem busyOwned_outside {s s' : Orch status} (hs : BusyOwned s)
    (h : OutsideStep s s') : BusyOwned s' := by
  unfold BusyOwned
  rw [h.busy]
  apply hs.congr
  have hmap := congrArg (List.map ExecLoc.holdsBusy) h.locs
  rwa [List.map_map, List.map_map] at hmap

/-!
## Steps of the node
-/

theorem busyOwned_request {server : GoalServer status}
    {cfg : OrchestratorConfig} {s : Orch status} (traj : JointTrajectory)
    (hs : BusyOwned s) : BusyOwned (requestStep server cfg traj s) := by
  unfold requestStep
  split
  · rename_i haccept
    unfold BusyOwned at hs
    rw [haccept.right] at hs
    exact hs.join rfl
  · exact hs

theorem busyOwned_orchStep {server : GoalServer status}
    {cfg : OrchestratorConfig} {s s' : Orch status} {e : OrchEvent}
    (hs : BusyOwned s) (hstep : orchStep server cfg s e = some s') :
    BusyOwned s' := by
  cases e with
  | request traj =>
      cases hstep
      exact busyOwned_request traj hs
  | execute i choice =>
      rcases Option.bind_eq_some_iff.mp hstep with ⟨g, hi, hnext⟩
      rcases Option.map_eq_some_iff.mp hnext with ⟨⟨sh, g'⟩, hexec, heq⟩
      rw [← heq]
      exact busyOwned_execute hs hi hexec
  | _ => exact busyOwned_outside hs (outsideStep_orchStep rfl hstep)

theorem busyOwned_nodeStep {server : GoalServer status}
    {cfg : OrchestratorConfig} {s s' : Orch status} {e : NodeEvent}
    (hs : BusyOwned s) (hstep : nodeStep server cfg s e = some s') :
    BusyOwned s' := by
  cases e with
  | step e => exact busyOwned_orchStep hs hstep
  | raise i =>
      rcases Option.bind_eq_some_iff.mp hstep with ⟨g, hi, hnext⟩
      split at hnext
      · rename_i hrunning
        cases hnext
        have hsame : (g.goto .resetBusy).loc.holdsBusy = g.loc.holdsBusy := by
          rw [holdsBusy_of_isRunning hrunning]
          rfl
        exact hs.congr (map_set_of_same hi hsame)
      · cases hnext

theorem busyOwned_start (view : View) :
    BusyOwned (Orch.start status view) :=
  owned_nil _

theorem busyOwned_of_run {server : GoalServer status}
    {cfg : OrchestratorConfig} {view : View} {history : List NodeEvent}
    {s : Orch status}
    (hrun : Machine.Run (nodeStep server cfg) (Orch.start status view) history
      s) : BusyOwned s :=
  Machine.invariant_of_step (fun _ _ _ hs _ => busyOwned_nodeStep hs)
    (busyOwned_start view) hrun

/-- In every run at most one accepted goal has not yet reset the busy flag, and
the flag is set exactly when there is one. -/
theorem exclusive_of_run {server : GoalServer status}
    {cfg : OrchestratorConfig} {view : View} {history : List NodeEvent}
    {s : Orch status}
    (hrun : Machine.Run (nodeStep server cfg) (Orch.start status view) history
      s) : Exclusive server cfg s :=
  exclusive_of_busyOwned (busyOwned_of_run hrun)

/-- The sequence of the first goal raises; a goal that comes before the reset is
rejected, and the one that comes after it is accepted. -/
def raisedThenNext (goal : JointTrajectory) : List NodeEvent :=
  .step (.request goal) :: (executeSteps 6).map .step ++
    [.raise 0, .step (.request goal)] ++ (executeSteps 1).map .step ++
    [.step (.request goal)]

def hasTwoGoals (s : Orch GoalStatus) : Bool := s.goals.length == 2

theorem exclusive_raisedThenNext :
    exists s : Orch GoalStatus,
      hasTwoGoals s = true ∧ Exclusive GoalStatus.server .default s := by
  have hrun : ((nodeStep GoalStatus.server .default).runFrom
      (Orch.start GoalStatus .start) (raisedThenNext restingGoal)).any
        hasTwoGoals = true := by
    decide +kernel
  rcases Machine.exists_run_of_any hrun with ⟨s, hs, htwo⟩
  exact ⟨s, htwo, exclusive_of_run hs⟩

end Orchestrator
end FrankaKistar
