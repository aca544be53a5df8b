import FrankaKistar.Orchestrator.Exclusivity

/-!
# The active goal handle

The `finally` block clears the busy flag before it clears the handle, so the
next goal can be accepted and registered in between, and the clear is then
applied to its handle.  When no goal makes this clear while another goal has
registered and not finished its sequence, the handle is that of the goal whose
sequence runs.
-/

namespace FrankaKistar
namespace Orchestrator

open Foundation

variable {status : Type}

/-!
## What is promised
-/

/-- From the registration of the handle to the end of the sequence. -/
def ExecLoc.awaitsHandle : ExecLoc -> Bool
  | .checkArgs => true
  | .normalize => true
  | .clearStart => true
  | .loopOk => true
  | .loopCancel => true
  | .loopAbort => true
  | .loopWait => true
  | .loopClear => true
  | .afterLoop => true
  | .secondClear => true
  | .running _ => true
  | _ => false

def ExecLoc.isResetActive : ExecLoc -> Bool
  | .resetActive => true
  | _ => false

def HandleOfRunning (s : Orch status) : Prop :=
  forall (i : Nat) (g : Goal status),
    s.goals[i]? = some g -> g.loc.isRunning = true ->
      s.shared.activeGoal = some i

def NoStaleReset (s : Orch status) : NodeEvent -> Prop
  | .step (.execute i _) =>
      forall g, g ∈ s.goals[i]? -> g.loc.isResetActive = true ->
        forall g', g' ∈ s.goals -> g'.loc.awaitsHandle = false
  | _ => True

instance (s : Orch status) (e : NodeEvent) : Decidable (NoStaleReset s e) := by
  unfold NoStaleReset
  refine NodeEvent.casesOn e (fun e => ?_) (fun _ => inferInstance)
  refine OrchEvent.casesOn e ?_ ?_ ?_ ?_ ?_ ?_ ?_ ?_ ?_ ?_ <;> intros <;>
    infer_instance

/-!
## Steps of the execute callback
-/

theorem awaitsHandle_of_isRunning {loc : ExecLoc} (h : loc.isRunning = true) :
    loc.awaitsHandle = true := by
  cases loc with
  | running loc => rfl
  | _ => cases h

theorem holdsBusy_of_awaitsHandle {loc : ExecLoc}
    (h : loc.awaitsHandle = true) : loc.holdsBusy = true := by
  cases loc <;> first | rfl | cases h

/-- What a step of the callback of goal `i` does to the handle: it is set by the
registration, and cleared by the last reset only. -/
structure HandleStep (i : Nat) (sh sh' : Shared) (g g' : Goal status) :
    Prop where
  own : g'.loc.awaitsHandle = true ->
    sh'.activeGoal = some i ∨
      (g.loc.awaitsHandle = true ∧ sh'.activeGoal = sh.activeGoal)
  others : g.loc.holdsBusy = false ->
    g.loc.isResetActive = true ∨ sh'.activeGoal = sh.activeGoal

theorem handleStep_of_same {i : Nat} {sh sh' : Shared} {g g' : Goal status}
    (hawaits : g'.loc.awaitsHandle = true -> g.loc.awaitsHandle = true)
    (hactive : sh'.activeGoal = sh.activeGoal) : HandleStep i sh sh' g g' where
  own := fun h => Or.inr ⟨hawaits h, hactive⟩
  others := fun _ => Or.inr hactive

theorem handleStep_execStep {server : GoalServer status}
    {cfg : OrchestratorConfig} {i : Nat} {choice : Bool} {sh sh' : Shared}
    {g g' : Goal status}
    (hstep : execStep server cfg i choice sh g = some (sh', g')) :
    HandleStep i sh sh' g g' := by
  unfold execStep at hstep
  cases hloc : g.loc with
  | setActive =>
      simp only [hloc, Option.some.injEq] at hstep
      cases hstep
      refine ⟨fun _ => Or.inl rfl, ?_⟩
      rw [hloc]
      intro hactive
      cases hactive
  | resetActive =>
      simp only [hloc, Option.some.injEq] at hstep
      cases hstep
      refine ⟨?_, fun _ => Or.inl ?_⟩
      · intro hawaits
        cases hawaits
      · rw [hloc]
        rfl
  | running loc =>
      simp only [hloc, Option.some.injEq] at hstep
      have hawaits : g.loc.awaitsHandle = true := by
        rw [hloc]
        rfl
      unfold runningStep at hstep
      split at hstep <;> cases hstep <;>
        exact handleStep_of_same (fun _ => hawaits) rfl
  | normalize =>
      simp only [hloc, Option.some.injEq] at hstep
      cases hstep
      refine handleStep_of_same (fun _ => ?_) rfl
      rw [hloc]
      rfl
  | done =>
      simp only [hloc] at hstep
      cases hstep
  | _ =>
      simp only [hloc, Option.some.injEq] at hstep
      cases hstep
      refine handleStep_of_same ?_ rfl
      simp only [Goal.goto, hloc]
      try split_ifs
      all_goals first | exact fun _ => rfl | (intro hawaits; cases hawaits)

/-!
## The invariant
-/

structure HandleInv (s : Orch status) : Prop where
  busy : BusyOwned s
  active : forall (i : Nat) (g : Goal status),
    s.goals[i]? = some g -> g.loc.awaitsHandle = true ->
      s.shared.activeGoal = some i

theorem handleOfRunning_of_handleInv {s : Orch status} (h : HandleInv s) :
    HandleOfRunning s :=
  fun i g hi hg => h.active i g hi (awaitsHandle_of_isRunning hg)

theorem handleInv_start (view : View) :
    HandleInv (Orch.start status view) where
  busy := busyOwned_start view
  active := by
    intro i g hi
    rw [Orch.start, List.getElem?_nil] at hi
    cases hi

/-!
## Steps of the node
-/

theorem handleInv_execute {server : GoalServer status}
    {cfg : OrchestratorConfig} {s : Orch status} {i : Nat} {choice : Bool}
    {g g' : Goal status} {sh : Shared} (hs : HandleInv s)
    (hi : s.goals[i]? = some g)
    (hcond : g.loc.isResetActive = true ->
      forall k, k ∈ s.goals -> k.loc.awaitsHandle = false)
    (hexec : execStep server cfg i choice s.shared g = some (sh, g')) :
    HandleInv ⟨sh, s.user, s.goals.set i g'⟩ := by
  have hstep := handleStep_execStep hexec
  refine ⟨busyOwned_execute hs.busy hi hexec, ?_⟩
  intro j k hj hk
  rcases getElem?_set_cases hj with ⟨hji, heq⟩ | ⟨hji, hold⟩
  · rw [heq] at hk
    rw [hji]
    rcases hstep.own hk with hset | ⟨hawaits, hkept⟩
    · exact hset
    · exact hkept.trans (hs.active i g hi hawaits)
  · -- the goal `i` is not busy while `j` counts on the handle
    have hidle : g.loc.holdsBusy = false :=
      hs.busy.other hold (holdsBusy_of_awaitsHandle hk) hi
        fun hij => hji hij.symm
    rcases hstep.others hidle with hreset | hkept
    · rw [hcond hreset k (List.mem_of_getElem? hold)] at hk
      cases hk
    · exact hkept.trans (hs.active j k hold hk)

theorem handleInv_outside {s s' : Orch status} (hs : HandleInv s)
    (h : OutsideStep s s') : HandleInv s' := by
  refine ⟨busyOwned_outside hs.busy h, ?_⟩
  intro i g hi hg
  have hloc : (s.goals[i]?).map Goal.loc = some g.loc := by
    rw [← List.getElem?_map, ← h.locs, List.getElem?_map, hi]
    rfl
  rcases Option.map_eq_some_iff.mp hloc with ⟨old, hold, heq⟩
  rw [← heq] at hg
  exact h.active.trans (hs.active i old hold hg)

theorem handleInv_request {server : GoalServer status}
    {cfg : OrchestratorConfig} {s : Orch status} (traj : JointTrajectory)
    (hs : HandleInv s) : HandleInv (requestStep server cfg traj s) := by
  refine ⟨busyOwned_request traj hs.busy, ?_⟩
  unfold requestStep
  split
  · intro i g hi hg
    rcases getElem?_concat_cases hi with ⟨_, hnew⟩ | hold
    · rw [hnew] at hg
      cases hg
    · exact hs.active i g hold hg
  · exact hs.active

theorem handleInv_orchStep {server : GoalServer status}
    {cfg : OrchestratorConfig} {s s' : Orch status} {e : OrchEvent}
    (hs : HandleInv s) (hcond : NoStaleReset s (.step e))
    (hstep : orchStep server cfg s e = some s') : HandleInv s' := by
  cases e with
  | request traj =>
      cases hstep
      exact handleInv_request traj hs
  | execute i choice =>
      rcases Option.bind_eq_some_iff.mp hstep with ⟨g, hi, hnext⟩
      rcases Option.map_eq_some_iff.mp hnext with ⟨⟨sh, g'⟩, hexec, heq⟩
      rw [← heq]
      exact handleInv_execute hs hi (hcond g hi) hexec
  | _ => exact handleInv_outside hs (outsideStep_orchStep rfl hstep)

theorem handleInv_nodeStep {server : GoalServer status}
    {cfg : OrchestratorConfig} {s s' : Orch status} {e : NodeEvent}
    (hs : HandleInv s) (hcond : NoStaleReset s e)
    (hstep : nodeStep server cfg s e = some s') : HandleInv s' := by
  cases e with
  | step e => exact handleInv_orchStep hs hcond hstep
  | raise i =>
      refine ⟨busyOwned_nodeStep hs.busy hstep, ?_⟩
      rcases Option.bind_eq_some_iff.mp hstep with ⟨g, _, hnext⟩
      split at hnext
      · cases hnext
        intro j k hj hk
        rcases getElem?_set_cases hj with ⟨_, heq⟩ | ⟨_, hold⟩
        · rw [heq] at hk
          cases hk
        · exact hs.active j k hold hk
      · cases hnext

/-- In every run in which no goal clears the handle while another goal counts on
it, the handle is that of the goal whose sequence runs. -/
theorem handleOfRunning_of_run {server : GoalServer status}
    {cfg : OrchestratorConfig} {view : View} {history : List NodeEvent}
    {s : Orch status}
    (hrun : Machine.RunWhere (nodeStep server cfg) NoStaleReset
      (Orch.start status view) history s) : HandleOfRunning s :=
  handleOfRunning_of_handleInv
    (Machine.invariant_of_step (fun _ _ _ => handleInv_nodeStep)
      (handleInv_start view) hrun)

/-!
## Two goals, one after the other

The first goal ends in stage 1, when its deadline has passed.  The second goal
is accepted before or after the first one clears the handle.
-/

def executeGoal (i n : Nat) : List NodeEvent :=
  List.replicate n (.step (.execute i false))

/-- The first goal, up to the clear of the handle. -/
def timedOutGoal (goal : JointTrajectory) : List NodeEvent :=
  .step (.request goal) :: executeGoal 0 6 ++ [.step (.execute 0 true)] ++
    executeGoal 0 4

def oneAfterTheOther (goal : JointTrajectory) : List NodeEvent :=
  timedOutGoal goal ++ executeGoal 0 1 ++ [.step (.request goal)] ++
    executeGoal 1 6

def overlappingEnd (goal : JointTrajectory) : List NodeEvent :=
  timedOutGoal goal ++ [.step (.request goal)] ++ executeGoal 1 6 ++
    executeGoal 0 1

def runsWithHandle (s : Orch GoalStatus) : Bool :=
  (s.goals[1]?).any fun g => g.loc.isRunning && s.shared.activeGoal == some 1

def runsWithoutHandle (s : Orch GoalStatus) : Bool :=
  (s.goals[1]?).any fun g => g.loc.isRunning && s.shared.activeGoal == none

theorem handleOfRunning_oneAfterTheOther :
    exists s : Orch GoalStatus,
      runsWithHandle s = true ∧ HandleOfRunning s := by
  have hrun : (((nodeStep GoalStatus.server .default).guarded
      NoStaleReset).runFrom (Orch.start GoalStatus .start)
      (oneAfterTheOther restingGoal)).any runsWithHandle = true := by
    decide +kernel
  rcases Machine.exists_runWhere_of_any hrun with ⟨s, hs, hruns⟩
  exact ⟨s, hruns, handleOfRunning_of_run hs⟩

theorem not_all_handleOfRunning :
    ¬ forall cfg view history (s : Orch GoalStatus),
        Machine.Run (nodeStep GoalStatus.server cfg)
          (Orch.start GoalStatus view) history s ->
        HandleOfRunning s := by
  intro hclaim
  have hrun : ((nodeStep GoalStatus.server .default).runFrom
      (Orch.start GoalStatus .start) (overlappingEnd restingGoal)).any
        runsWithoutHandle = true := by
    decide +kernel
  rcases Machine.exists_run_of_any hrun with ⟨s, hs, hlost⟩
  rcases (Option.any_eq_true _ _).mp hlost with ⟨g, hget, hg⟩
  rcases Bool.and_eq_true_iff.mp hg with ⟨hrunning, hnone⟩
  have hactive := hclaim _ _ _ s hs 1 g hget hrunning
  rw [hactive] at hnone
  cases hnone

end Orchestrator
end FrankaKistar
