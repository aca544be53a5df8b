import FrankaKistar.Foundation.Ownership
import FrankaKistar.Orchestrator.GoalInvariant

/-!
# Stop requests

A cancel or the key `t` sets the abort event.  The sequence reads the event, but
the execute callback clears it at its start and again before the sequence, so a
request that comes before leaves no trace in the event.  When the sequence is
not entered through the second clear after a request for its goal, the request
keeps it out of stage 7, and before stage 1 it keeps it from everything but the
safe pose.
-/

namespace FrankaKistar
namespace Orchestrator

open Foundation

variable {status : Type}

/-!
## What is promised
-/

/-- A request in time keeps the goal from stage 7 and from success; one before
stage 1 leaves the calls of stage 1 only. -/
structure StopKept (server : GoalServer status) (g : Goal status) : Prop where
  notInStage7 : g.inTime = true ->
    forall loc, g.loc = .running loc -> loc.stage ≠ 7
  noStage7 : g.inTime = true -> forall call, call ∈ g.issued -> call.1 ≠ 7
  notSucceeded : g.inTime = true -> server.succeeded g.status = false
  onlyStage1 : g.early = true -> forall call, call ∈ g.issued -> call.1 = 1

def NoStopLost (server : GoalServer status) (s : Orch status) : Prop :=
  forall g, g ∈ s.goals -> StopKept server g

/-- A goal whose stop was requested does not make the second clear. -/
def NoClearAfterStop (s : Orch status) : OrchEvent -> Prop
  | .execute i _ =>
      forall g, g ∈ s.goals[i]? -> g.loc.isSecondClear = true ->
        g.requested = false
  | _ => True

instance (s : Orch status) (e : OrchEvent) :
    Decidable (NoClearAfterStop s e) := by
  cases e <;> unfold NoClearAfterStop <;> infer_instance

/-!
## The invariant of the node
-/

/-- At most one goal is busy, and while the sequence of a stopped goal runs the
event is set. -/
structure StopInv (server : GoalServer status) (s : Orch status) : Prop where
  goal : forall (i : Nat) (g : Goal status),
    s.goals[i]? = some g -> GoalInv server g
  busy : forall (i : Nat) (g : Goal status),
    s.goals[i]? = some g -> g.loc.holdsBusy = true -> s.shared.goalBusy = true
  abort : forall (i : Nat) (g : Goal status),
    s.goals[i]? = some g -> g.loc.isRunning = true -> g.requested = true ->
      s.shared.abort = true
  single : forall (i j : Nat) (g g' : Goal status),
    s.goals[i]? = some g -> s.goals[j]? = some g' ->
      g.loc.holdsBusy = true -> g'.loc.holdsBusy = true -> i = j

theorem stopKept_of_goalInv {server : GoalServer status} {g : Goal status}
    (h : GoalInv server g) : StopKept server g where
  notInStage7 := by
    intro htime loc hloc
    have hsucc := (h.unsucceeding (Or.inl htime)).loc
    rw [hloc] at hsucc
    exact stage_ne_seven hsucc
  noStage7 := fun htime => (h.unsucceeding (Or.inl htime)).issued
  notSucceeded := fun htime => (h.unsucceeding (Or.inl htime)).status
  onlyStage1 := fun hearly => (h.early hearly).2

theorem noStopLost_of_stopInv {server : GoalServer status} {s : Orch status}
    (h : StopInv server s) : NoStopLost server s := by
  intro g hmem
  rcases List.mem_iff_getElem?.mp hmem with ⟨i, hi⟩
  exact stopKept_of_goalInv (h.goal i g hi)

theorem stopInv_start (server : GoalServer status) (view : View) :
    StopInv server (Orch.start status view) := by
  constructor <;> intro i <;> simp [Orch.start]

/-- One goal and the shared flags change.  `hself` and `hrunning` are about this
goal, `hother` about the others, which are busy only when this one is not. -/
theorem stopInv_set {server : GoalServer status} {s : Orch status} {i : Nat}
    {g g' : Goal status} {sh : Shared} {user : UserLoc}
    (hs : StopInv server s) (hi : s.goals[i]? = some g)
    (hgoal : GoalInv server g')
    (hself : g'.loc.holdsBusy = true ->
      g.loc.holdsBusy = true ∧ sh.goalBusy = s.shared.goalBusy)
    (hrunning : g'.loc.isRunning = true -> g'.requested = true ->
      sh.abort = true)
    (hother : g.loc.holdsBusy = false ->
      sh.goalBusy = s.shared.goalBusy ∧
        (s.shared.abort = true -> sh.abort = true)) :
    StopInv server ⟨sh, user, s.goals.set i g'⟩ := by
  have hidle : forall (j : Nat) (k : Goal status), j ≠ i ->
      s.goals[j]? = some k -> k.loc.holdsBusy = true ->
        g.loc.holdsBusy = false := by
    intro j k hne hj hk
    cases hbusy : g.loc.holdsBusy with
    | false => rfl
    | true => exact absurd (hs.single j i k g hj hi hk hbusy) hne
  constructor
  · intro j k hj
    rcases getElem?_set_cases hj with ⟨_, hk⟩ | ⟨_, hold⟩
    · rw [hk]
      exact hgoal
    · exact hs.goal j k hold
  · intro j k hj hk
    rcases getElem?_set_cases hj with ⟨_, heq⟩ | ⟨hne, hold⟩
    · rw [heq] at hk
      exact (hself hk).2.trans (hs.busy i g hi (hself hk).1)
    · exact (hother (hidle j k hne hold hk)).1.trans (hs.busy j k hold hk)
  · intro j k hj hk hrequested
    rcases getElem?_set_cases hj with ⟨_, heq⟩ | ⟨hne, hold⟩
    · rw [heq] at hk hrequested
      exact hrunning hk hrequested
    · exact (hother (hidle j k hne hold (holdsBusy_of_isRunning hk))).2
        (hs.abort j k hold hk hrequested)
  · intro j l k k' hj hl hk hk'
    rcases getElem?_set_cases hj with ⟨hji, heq⟩ | ⟨hji, hold⟩ <;>
      rcases getElem?_set_cases hl with ⟨hli, heq'⟩ | ⟨hli, hold'⟩
    · rw [hji, hli]
    · rw [heq] at hk
      rw [hidle l k' hli hold' hk'] at hself
      exact absurd (hself hk).1 Bool.false_ne_true
    · rw [heq'] at hk'
      rw [hidle j k hji hold hk] at hself
      exact absurd (hself hk').1 Bool.false_ne_true
    · exact hs.single j l k k' hold hold' hk hk'

theorem stopInv_shared {server : GoalServer status} {s : Orch status}
    {sh : Shared} {user : UserLoc} (hs : StopInv server s)
    (hbusy : sh.goalBusy = s.shared.goalBusy)
    (habort : s.shared.abort = true -> sh.abort = true) :
    StopInv server ⟨sh, user, s.goals⟩ where
  goal := hs.goal
  busy := fun i g hi hg => hbusy.trans (hs.busy i g hi hg)
  abort := fun i g hi hg hrequested =>
    habort (hs.abort i g hi hg hrequested)
  single := hs.single

/-!
## Steps of the node
-/

theorem stopInv_execute {server : GoalServer status}
    {cfg : OrchestratorConfig} {s : Orch status} {i : Nat} {choice : Bool}
    {g g' : Goal status} {sh : Shared} (hs : StopInv server s)
    (hi : s.goals[i]? = some g)
    (hclear : g.loc.isSecondClear = true -> g.requested = false)
    (hexec : execStep server cfg i choice s.shared g = some (sh, g')) :
    StopInv server ⟨sh, s.user, s.goals.set i g'⟩ := by
  have hshared := sharedStep_execStep hexec
  refine stopInv_set hs hi
    (goalInv_execStep (hs.goal i g hi) (hs.abort i g hi) hexec) hshared.busy
    ?_ ?_
  · intro hrunning hrequested
    rw [hshared.requested] at hrequested
    rcases hshared.running hrunning with hsecond | hbefore
    · rw [hclear hsecond] at hrequested
      cases hrequested
    · rw [hshared.abort (clears_of_isRunning hbefore)]
      exact hs.abort i g hi hbefore hrequested
  · intro hidle
    refine ⟨(hshared.idle hidle).1, fun habort => ?_⟩
    rw [(hshared.idle hidle).2]
    exact habort

theorem stopInv_status {server : GoalServer status} {s : Orch status} {i : Nat}
    {g g' : Goal status} {sh : Shared} {user : UserLoc}
    (hs : StopInv server s) (hi : s.goals[i]? = some g)
    (hsame : SameRecord g g') (hloc : g'.loc = g.loc)
    (hstatus : server.succeeded g.status = false ->
      server.succeeded g'.status = false)
    (hbusy : sh.goalBusy = s.shared.goalBusy)
    (habort : sh.abort = s.shared.abort) :
    StopInv server ⟨sh, user, s.goals.set i g'⟩ := by
  refine stopInv_set hs hi
    (goalInv_of_status (hs.goal i g hi) hsame hloc hstatus) ?_ ?_ ?_
  · intro hholds
    rw [hloc] at hholds
    exact ⟨hholds, hbusy⟩
  · intro hrunning hrequested
    rw [hloc] at hrunning
    rw [hsame.requested] at hrequested
    rw [habort]
    exact hs.abort i g hi hrunning hrequested
  · intro _
    exact ⟨hbusy, fun h => habort.trans h⟩

theorem getD_not_succeeded {server : GoalServer status} {st : status}
    {result : Option status}
    (h : forall st', result = some st' -> server.succeeded st' = false)
    (hst : server.succeeded st = false) :
    server.succeeded (result.getD st) = false := by
  cases result with
  | none => exact hst
  | some st' => exact h st' rfl

theorem stopInv_cancel {server : GoalServer status} {s : Orch status} {i : Nat}
    {g : Goal status} (hs : StopInv server s) (hi : s.goals[i]? = some g) :
    StopInv server
      { s with
        shared := { s.shared with abort := true }
        goals := s.goals.set i
          { g.markStop with holdsDue := g.holdsDue + 1 } } := by
  have hgoal : GoalInv server
      { g.markStop with holdsDue := g.holdsDue + 1 } :=
    goalInv_of_status (goalInv_markStop (hs.goal i g hi))
      ⟨rfl, rfl, rfl, rfl, rfl⟩ rfl id
  refine stopInv_set hs hi hgoal ?_ (fun _ _ => rfl) ?_
  · intro hbusy
    exact ⟨hbusy, rfl⟩
  · intro _
    exact ⟨rfl, fun _ => rfl⟩

theorem stopInv_pressT {server : GoalServer status} {s : Orch status}
    (hs : StopInv server s) :
    StopInv server
      { s with
        shared := { s.shared with abort := true }
        user := .mustHold
        goals := s.goals.map Goal.markStop } := by
  have hold : forall (i : Nat) (g : Goal status),
      (s.goals.map Goal.markStop)[i]? = some g ->
        exists old, s.goals[i]? = some old ∧ old.markStop = g := by
    intro i g hi
    rw [List.getElem?_map] at hi
    exact Option.map_eq_some_iff.mp hi
  constructor
  · intro i g hi
    rcases hold i g hi with ⟨old, hget, hmark⟩
    rw [← hmark]
    exact goalInv_markStop (hs.goal i old hget)
  · intro i g hi hbusy
    rcases hold i g hi with ⟨old, hget, hmark⟩
    rw [← hmark] at hbusy
    exact hs.busy i old hget hbusy
  · intro _ _ _ _ _
    rfl
  · intro i j g g' hi hj hbusy hbusy'
    rcases hold i g hi with ⟨old, hget, hmark⟩
    rcases hold j g' hj with ⟨old', hget', hmark'⟩
    rw [← hmark] at hbusy
    rw [← hmark'] at hbusy'
    exact hs.single i j old old' hget hget' hbusy hbusy'

theorem stopInv_user {server : GoalServer status} {s s' : Orch status}
    (hs : StopInv server s) (hstep : userStep server s = some s') :
    StopInv server s' := by
  unfold userStep at hstep
  split at hstep
  · cases hstep
  · cases hstep
    exact stopInv_shared hs rfl id
  · cases hstep
    exact stopInv_shared hs rfl id
  · rcases Option.map_eq_some_iff.mp hstep with ⟨g, _, heq⟩
    rw [← heq]
    exact stopInv_shared hs rfl id
  · rename_i i _
    rcases Option.map_eq_some_iff.mp hstep with ⟨g, hi, heq⟩
    rw [← heq]
    refine stopInv_status hs hi ⟨rfl, rfl, rfl, rfl, rfl⟩ rfl ?_ rfl rfl
    exact getD_not_succeeded fun st' =>
      server.finish_not_succeeded .abort g.status st' (by decide)

theorem stopInv_concat {server : GoalServer status} {s : Orch status}
    {g : Goal status} {sh : Shared} (hs : StopInv server s)
    (hgoal : GoalInv server g) (hrequested : g.requested = false)
    (hidle : forall (i : Nat) (old : Goal status),
      s.goals[i]? = some old -> old.loc.holdsBusy = false)
    (hbusy : sh.goalBusy = true) :
    StopInv server ⟨sh, s.user, s.goals ++ [g]⟩ := by
  have hnew : forall (i : Nat) (k : Goal status),
      (s.goals ++ [g])[i]? = some k -> k.loc.holdsBusy = true ->
        i = s.goals.length ∧ k = g := by
    intro i k hi hk
    rcases getElem?_concat_cases hi with hself | hold
    · exact hself
    · rw [hidle i k hold] at hk
      cases hk
  constructor
  · intro i k hi
    rcases getElem?_concat_cases hi with ⟨_, heq⟩ | hold
    · rw [heq]
      exact hgoal
    · exact hs.goal i k hold
  · intro _ _ _ _
    exact hbusy
  · intro i k hi hk hstop
    rw [(hnew i k hi (holdsBusy_of_isRunning hk)).2, hrequested] at hstop
    cases hstop
  · intro i j k k' hi hj hk hk'
    rw [(hnew i k hi hk).1, (hnew j k' hj hk').1]

theorem stopInv_request {server : GoalServer status}
    {cfg : OrchestratorConfig} {s : Orch status} (traj : JointTrajectory)
    (hs : StopInv server s) :
    StopInv server (requestStep server cfg traj s) := by
  unfold requestStep
  split
  · rename_i haccept
    refine stopInv_concat hs (goalInv_accepted server rfl rfl rfl rfl rfl) rfl
      ?_ rfl
    intro i g hi
    cases hbusy : g.loc.holdsBusy with
    | false => rfl
    | true =>
        have hset := hs.busy i g hi hbusy
        rw [haccept.2] at hset
        cases hset
  · exact hs

theorem stopInv_step {server : GoalServer status} {cfg : OrchestratorConfig}
    {s s' : Orch status} {e : OrchEvent} (hs : StopInv server s)
    (hcond : NoClearAfterStop s e)
    (hstep : orchStep server cfg s e = some s') : StopInv server s' := by
  cases e with
  | request traj =>
      cases hstep
      exact stopInv_request traj hs
  | execute i choice =>
      rcases Option.bind_eq_some_iff.mp hstep with ⟨g, hi, hnext⟩
      rcases Option.map_eq_some_iff.mp hnext with ⟨⟨sh, g'⟩, hexec, heq⟩
      rw [← heq]
      exact stopInv_execute hs hi (hcond g hi) hexec
  | cancel i =>
      rcases Option.map_eq_some_iff.mp hstep with ⟨g, hi, heq⟩
      rw [← heq]
      exact stopInv_cancel hs hi
  | cancelHold i =>
      rcases Option.bind_eq_some_iff.mp hstep with ⟨g, hi, hnext⟩
      split at hnext
      · cases hnext
      · cases hnext
        exact stopInv_status hs hi ⟨rfl, rfl, rfl, rfl, rfl⟩ rfl id rfl rfl
  | cancelAccept i =>
      rcases Option.bind_eq_some_iff.mp hstep with ⟨g, hi, hnext⟩
      split at hnext
      · cases hnext
      · cases hnext
        refine stopInv_status hs hi ⟨rfl, rfl, rfl, rfl, rfl⟩ rfl ?_ rfl rfl
        exact getD_not_succeeded (server.cancelGoal_not_succeeded g.status)
  | pressT =>
      simp only [orchStep] at hstep
      split at hstep
      · cases hstep
        exact stopInv_pressT hs
      · cases hstep
  | user => exact stopInv_user hs hstep
  | pressS =>
      cases hstep
      exact stopInv_shared hs rfl id
  | armState q =>
      cases hstep
      exact stopInv_shared hs rfl id
  | handState h =>
      cases hstep
      exact stopInv_shared hs rfl id

/-- In every run in which no goal makes the second clear after a request to stop
it, no request is lost. -/
theorem noStopLost_of_run {server : GoalServer status}
    {cfg : OrchestratorConfig} {view : View} {history : List OrchEvent}
    {s : Orch status}
    (hrun : Machine.RunWhere (orchStep server cfg) NoClearAfterStop
      (Orch.start status view) history s) : NoStopLost server s :=
  noStopLost_of_stopInv
    (Machine.invariant_of_step (fun _ _ _ => stopInv_step)
      (stopInv_start server view) hrun)

/-!
## A cancel around the clears

A cancel in the first stage ends the goal as canceled.  A cancel between the
acceptance of the goal and the first clear is accepted by the server, and the
sequence runs on into the hand stages.
-/

def OrchestratorConfig.default : OrchestratorConfig where
  params := .default
  expectedJointNames :=
    [ "fr3_joint1", "fr3_joint2", "fr3_joint3", "fr3_joint4", "fr3_joint5",
      "fr3_joint6", "fr3_joint7" ]
  requireTerminalS := false
  attached := true

def cancelGoalZero : List OrchEvent :=
  [.cancel 0, .cancelHold 0, .cancelAccept 0]

def executeSteps (n : Nat) : List OrchEvent :=
  List.replicate n (.execute 0 false)

def canceledInStage1 (goal : JointTrajectory) : List OrchEvent :=
  .request goal :: executeSteps 6 ++ cancelGoalZero ++ executeSteps 8

def canceledBeforeClear (goal : JointTrajectory) : List OrchEvent :=
  .request goal :: .armState frankaSafePosition :: cancelGoalZero ++
    executeSteps 10

def endedCanceled (s : Orch GoalStatus) : Bool :=
  s.goals.any fun g => g.inTime && g.status == .canceled

def commandsAfterStop (s : Orch GoalStatus) : Bool :=
  s.goals.any fun g => g.early && g.issued.any fun call => call.1 != 1

theorem noStopLost_canceledInStage1 :
    exists s : Orch GoalStatus,
      endedCanceled s = true ∧ NoStopLost GoalStatus.server s := by
  have hrun : (((orchStep GoalStatus.server .default).guarded
      NoClearAfterStop).runFrom (Orch.start GoalStatus .start)
      (canceledInStage1 restingGoal)).any endedCanceled = true := by
    decide +kernel
  rcases Machine.exists_runWhere_of_any hrun with ⟨s, hs, hended⟩
  exact ⟨s, hended, noStopLost_of_run hs⟩

theorem not_all_noStopLost :
    ¬ forall cfg view history (s : Orch GoalStatus),
        Machine.Run (orchStep GoalStatus.server cfg)
          (Orch.start GoalStatus view) history s ->
        NoStopLost GoalStatus.server s := by
  intro hclaim
  have hrun : ((orchStep GoalStatus.server .default).runFrom
      (Orch.start GoalStatus .start)
      (canceledBeforeClear restingGoal)).any commandsAfterStop = true := by
    decide +kernel
  rcases Machine.exists_run_of_any hrun with ⟨s, hs, hlost⟩
  rcases List.any_eq_true.mp hlost with ⟨g, hmem, hg⟩
  rcases Bool.and_eq_true_iff.mp hg with ⟨hearly, hissued⟩
  rcases List.any_eq_true.mp hissued with ⟨call, hcall, hstage⟩
  have hkept := (hclaim _ _ _ s hs g hmem).onlyStage1 hearly call hcall
  rw [hkept] at hstage
  cases hstage

end Orchestrator
end FrankaKistar
