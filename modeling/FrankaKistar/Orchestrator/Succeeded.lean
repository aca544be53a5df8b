import FrankaKistar.Orchestrator.Exclusivity
import FrankaKistar.Orchestrator.Transcript

/-!
# What a succeeded goal has done

The execute callback runs `_run_full_sequence` inside the node, where other
goals are requested, stops come in and states arrive between any two of its
steps.  Seen from one goal this is a run of the sequence alone: no clear of the
abort event falls into it, since only the goal that owns the busy flag clears
the event.  So a goal whose handle says succeeded has said the transcript of its
own normalised trajectory, all seven stages of it.
-/

namespace FrankaKistar
namespace Orchestrator

open Foundation

variable {status : Type}

/-!
## The run of one goal
-/

def Goal.calls (g : Goal status) : List IoCall :=
  (g.issued.map Prod.snd).reverse

def Goal.Normalized (cfg : OrchestratorConfig) (g : Goal status) : Prop :=
  normalizeTrajectoryForArm g.request cfg.expectedJointNames = .ok g.traj

def ExecLoc.isFresh : ExecLoc -> Bool
  | .firstClear | .setActive | .checkArgs | .normalize | .clearStart
  | .loopOk | .loopCancel | .loopAbort | .loopWait | .loopClear | .afterLoop
  | .secondClear => true
  | _ => false

/-- The goal has been normalised, and it may still succeed. -/
def ExecLoc.isNormal : ExecLoc -> Bool
  | .clearStart | .loopOk | .loopCancel | .loopAbort | .loopWait | .loopClear
  | .afterLoop | .secondClear | .running _ | .finish _
  | .ending .succeed => true
  | _ => false

def ExecLoc.verdict : ExecLoc -> Option Bool
  | .finish ok => some ok
  | .ending .succeed => some true
  | _ => none

/-- The callback has made its terminal call, or it was left by an error. -/
def ExecLoc.isOver : ExecLoc -> Bool
  | .resetBusy | .resetActive | .conclude | .done => true
  | _ => false

structure GoalSequence (server : GoalServer status) (cfg : OrchestratorConfig)
    (abort : Bool) (g : Goal status) : Prop where
  fresh : g.loc.isFresh = true -> g.issued = []
  normal : g.loc.isNormal = true -> g.Normalized cfg
  running : forall loc, g.loc = .running loc ->
    Follows cfg.params g.traj g.calls abort loc
  returned : forall ok, g.loc.verdict = some ok ->
    Follows cfg.params g.traj g.calls true (.returned ok)
  succeeded : server.succeeded g.status = true ->
    g.loc.isOver = true ∧ g.Normalized cfg ∧
      Follows cfg.params g.traj g.calls true (.returned true)

/-!
## Steps that leave the sequence alone
-/

/-- The request, the trajectory and the calls of a goal stay, and it does not
become succeeded. -/
structure SameGoal (server : GoalServer status) (g g' : Goal status) :
    Prop where
  request : g'.request = g.request
  traj : g'.traj = g.traj
  issued : g'.issued = g.issued
  status : server.succeeded g'.status = true -> server.succeeded g.status = true

theorem SameGoal.follows {server : GoalServer status}
    {cfg : OrchestratorConfig} {g g' : Goal status} {abort : Bool}
    {loc : SeqLoc} (h : SameGoal server g g')
    (hg : Follows cfg.params g.traj g.calls abort loc) :
    Follows cfg.params g'.traj g'.calls abort loc := by
  unfold Goal.calls
  rw [h.traj, h.issued]
  exact hg

theorem SameGoal.normalized {server : GoalServer status}
    {cfg : OrchestratorConfig} {g g' : Goal status} (h : SameGoal server g g')
    (hg : g.Normalized cfg) : g'.Normalized cfg := by
  unfold Goal.Normalized
  rw [h.request, h.traj]
  exact hg

theorem sameGoal_goto (server : GoalServer status) (g : Goal status)
    (loc : ExecLoc) : SameGoal server g (g.goto loc) := ⟨rfl, rfl, rfl, id⟩

theorem GoalSequence.congr {server : GoalServer status}
    {cfg : OrchestratorConfig} {g g' : Goal status} {abort abort' : Bool}
    (hg : GoalSequence server cfg abort g) (hsame : SameGoal server g g')
    (hloc : g'.loc = g.loc)
    (habort : g.loc.isRunning = true -> abort = true -> abort' = true) :
    GoalSequence server cfg abort' g' where
  fresh := by
    intro h
    rw [hloc] at h
    rw [hsame.issued]
    exact hg.fresh h
  normal := by
    intro h
    rw [hloc] at h
    exact hsame.normalized (hg.normal h)
  running := by
    intro loc h
    rw [hloc] at h
    exact hsame.follows ((hg.running loc h).mono (habort (by rw [h]; rfl)))
  returned := by
    intro ok h
    rw [hloc] at h
    exact hsame.follows (hg.returned ok h)
  succeeded := by
    intro h
    rcases hg.succeeded (hsame.status h) with ⟨hover, hnormal, hfollows⟩
    rw [hloc]
    exact ⟨hover, hsame.normalized hnormal, hsame.follows hfollows⟩

theorem GoalSequence.move {server : GoalServer status}
    {cfg : OrchestratorConfig} {g g' : Goal status} {abort abort' : Bool}
    (hg : GoalSequence server cfg abort g) (hsame : SameGoal server g g')
    (hfresh : g'.loc.isFresh = true -> g.loc.isFresh = true)
    (hnormal : g'.loc.isNormal = true -> g.loc.isNormal = true)
    (hrunning : g'.loc.isRunning = false) (hverdict : g'.loc.verdict = none)
    (hover : g.loc.isOver = true -> g'.loc.isOver = true) :
    GoalSequence server cfg abort' g' where
  fresh := by
    intro h
    rw [hsame.issued]
    exact hg.fresh (hfresh h)
  normal := fun h => hsame.normalized (hg.normal (hnormal h))
  running := by
    intro loc h
    rw [h] at hrunning
    cases hrunning
  returned := by
    intro ok h
    rw [hverdict] at h
    cases h
  succeeded := by
    intro h
    rcases hg.succeeded (hsame.status h) with ⟨hleft, hnormal, hfollows⟩
    exact ⟨hover hleft, hsame.normalized hnormal, hsame.follows hfollows⟩

theorem GoalSequence.not_succeeded {server : GoalServer status}
    {cfg : OrchestratorConfig} {g : Goal status} {abort : Bool} {P : Prop}
    (hg : GoalSequence server cfg abort g) (hloc : g.loc.isOver = false)
    (hsucc : server.succeeded g.status = true) : P := by
  have hover := (hg.succeeded hsucc).1
  rw [hloc] at hover
  cases hover

/-!
## Steps of the execute callback
-/

theorem calls_eq_nil {g : Goal status} (h : g.issued = []) : g.calls = [] := by
  rw [Goal.calls, h]
  rfl

theorem calls_advance (g : Goal status) (loc : SeqLoc)
    (next : SeqLoc × Option IoCall) :
    (g.advance loc next).calls = g.calls ++ next.2.toList :=
  reverse_map_advance g.issued loc.stage next.2

theorem goalSequence_running {server : GoalServer status}
    {cfg : OrchestratorConfig} {choice : Bool} {sh : Shared}
    {g : Goal status} {loc : SeqLoc}
    (hg : GoalSequence server cfg sh.abort g) (hloc : g.loc = .running loc) :
    GoalSequence server cfg sh.abort (runningStep cfg choice sh g loc).2 := by
  have hfollows := hg.running loc hloc
  have hnormal : g.Normalized cfg := hg.normal (by rw [hloc]; rfl)
  have hbefore : g.loc.isOver = false := by
    rw [hloc]
    rfl
  unfold runningStep
  split
  · cases loc with
    | returned ok =>
        refine ⟨?_, fun _ => hnormal, ?_, ?_, hg.not_succeeded hbefore⟩
        · intro h
          cases h
        · intro loc h
          cases h
        · intro ok' h
          cases h
          exact hfollows.mono fun _ => rfl
    | _ =>
        refine hg.move (sameGoal_goto server g _) ?_ ?_ rfl rfl fun _ => rfl
        · intro h
          cases h
        · intro h
          cases h
  · rename_i next hstep
    refine ⟨?_, fun _ => hnormal, ?_, ?_, hg.not_succeeded hbefore⟩
    · intro h
      cases h
    · intro loc' h
      cases h
      rw [calls_advance]
      exact follows_advance hfollows hstep
    · intro ok h
      cases h

theorem goalSequence_normalize {server : GoalServer status}
    {cfg : OrchestratorConfig} {g : Goal status} {abort : Bool}
    (hg : GoalSequence server cfg abort g) (hloc : g.loc = .normalize) :
    GoalSequence server cfg abort (normalizeStep cfg g) := by
  have hissued : g.issued = [] := hg.fresh (by rw [hloc]; rfl)
  have hbefore : g.loc.isOver = false := by
    rw [hloc]
    rfl
  unfold normalizeStep
  split
  · refine hg.move (sameGoal_goto server g _) ?_ ?_ rfl rfl fun _ => rfl
    · intro h
      cases h
    · intro h
      cases h
  · rename_i traj hnormal
    refine ⟨fun _ => hissued, fun _ => hnormal, ?_, ?_,
      hg.not_succeeded hbefore⟩
    · intro loc h
      cases hS : cfg.requireTerminalS <;> simp [hS] at h
    · intro ok h
      cases hS : cfg.requireTerminalS <;> simp [hS, ExecLoc.verdict] at h

theorem goalSequence_ending {server : GoalServer status}
    {cfg : OrchestratorConfig} {g : Goal status} {abort : Bool} {e : Ending}
    (hg : GoalSequence server cfg abort g) (hloc : g.loc = .ending e) :
    GoalSequence server cfg abort
      { g with
        loc := .resetBusy
        status := (server.finish e g.status).getD g.status } := by
  have hbefore : g.loc.isOver = false := by
    rw [hloc]
    rfl
  refine ⟨?_, ?_, ?_, ?_, ?_⟩
  · intro h
    cases h
  · intro h
    cases h
  · intro loc h
    cases h
  · intro ok h
    cases h
  · intro hsucc
    refine ⟨rfl, ?_⟩
    by_cases he : e = .succeed
    · rw [he] at hloc
      exact ⟨hg.normal (by rw [hloc]; rfl),
        hg.returned true (by rw [hloc]; rfl)⟩
    · have hold : server.succeeded g.status = true := by
        cases hfinish : server.finish e g.status with
        | none => simpa [hfinish] using hsucc
        | some st =>
            have hnot := server.finish_not_succeeded e g.status st he hfinish
            simp [hfinish, hnot] at hsucc
      exact hg.not_succeeded hbefore hold

theorem goalSequence_finish {server : GoalServer status}
    {cfg : OrchestratorConfig} {g : Goal status} {abort ok canceled : Bool}
    (hg : GoalSequence server cfg abort g) (hloc : g.loc = .finish ok) :
    GoalSequence server cfg abort
      (g.goto (.ending (if canceled then .canceled
        else if ok then .succeed else .abort))) := by
  have hbefore : g.loc.isOver = false := by
    rw [hloc]
    rfl
  refine ⟨?_, fun _ => hg.normal (by rw [hloc]; rfl), ?_, ?_,
    hg.not_succeeded hbefore⟩
  · intro h
    cases h
  · intro loc h
    cases h
  · intro ok' h
    cases canceled with
    | true => cases h
    | false =>
        cases ok with
        | true =>
            cases h
            exact hg.returned true (by rw [hloc]; rfl)
        | false => cases h

theorem goalSequence_execStep {server : GoalServer status}
    {cfg : OrchestratorConfig} {i : Nat} {choice : Bool} {sh sh' : Shared}
    {g g' : Goal status} (hg : GoalSequence server cfg sh.abort g)
    (hstep : execStep server cfg i choice sh g = some (sh', g')) :
    GoalSequence server cfg sh'.abort g' := by
  unfold execStep at hstep
  cases hloc : g.loc with
  | running loc =>
      simp only [hloc, Option.some.injEq] at hstep
      have hrun : GoalSequence server cfg sh.abort
          (runningStep cfg choice sh g loc).2 := goalSequence_running hg hloc
      rw [hstep] at hrun
      have habort : sh'.abort = sh.abort := by
        unfold runningStep at hstep
        split at hstep <;> cases hstep <;> rfl
      rwa [habort]
  | normalize =>
      simp only [hloc, Option.some.injEq] at hstep
      cases hstep
      exact goalSequence_normalize hg hloc
  | secondClear =>
      simp only [hloc, Option.some.injEq] at hstep
      cases hstep
      refine ⟨?_, fun _ => hg.normal (by rw [hloc]; rfl), ?_, ?_, ?_⟩
      · intro h
        cases h
      · intro loc h
        cases h
        have hcalls := calls_eq_nil (hg.fresh (by rw [hloc]; rfl))
        show Follows cfg.params g.traj g.calls _ _
        rw [hcalls]
        exact follows_start
      · intro ok h
        cases h
      · exact hg.not_succeeded (by rw [hloc]; rfl)
  | finish ok =>
      simp only [hloc, Option.some.injEq] at hstep
      cases hstep
      exact goalSequence_finish hg hloc
  | ending e =>
      simp only [hloc, Option.some.injEq] at hstep
      cases hstep
      exact goalSequence_ending hg hloc
  | conclude =>
      simp only [hloc, Option.some.injEq] at hstep
      cases hstep
      refine hg.move ⟨rfl, rfl, rfl, ?_⟩ ?_ ?_ rfl rfl fun _ => rfl
      · intro h
        rwa [← server.conclude_succeeded]
      · intro h
        cases h
      · intro h
        cases h
  | done =>
      simp only [hloc] at hstep
      cases hstep
  | _ =>
      simp only [hloc, Option.some.injEq] at hstep
      cases hstep
      refine hg.move (sameGoal_goto server g _) ?_ ?_ ?_ ?_ ?_ <;>
        simp only [Goal.goto, hloc] <;> (try split_ifs) <;> decide

/-!
## Steps of the node
-/

structure SequenceInv (server : GoalServer status) (cfg : OrchestratorConfig)
    (s : Orch status) : Prop where
  busy : BusyOwned s
  goal : forall (i : Nat) (g : Goal status), s.goals[i]? = some g ->
    GoalSequence server cfg s.shared.abort g

theorem abort_kept_of_running {server : GoalServer status}
    {cfg : OrchestratorConfig} {s : Orch status} {i j : Nat} {choice : Bool}
    {g g' other : Goal status} {sh : Shared} (hs : BusyOwned s)
    (hi : s.goals[i]? = some g) (hj : s.goals[j]? = some other) (hne : j ≠ i)
    (hexec : execStep server cfg i choice s.shared g = some (sh, g'))
    (hrunning : other.loc.isRunning = true) :
    sh.abort = s.shared.abort := by
  apply (sharedStep_execStep hexec).abort
  cases hclears : g.loc.clears with
  | false => rfl
  | true =>
      have hidle := hs.other hi (holdsBusy_of_clears hclears) hj hne
      rw [holdsBusy_of_isRunning hrunning] at hidle
      cases hidle

theorem goalSequence_set {server : GoalServer status}
    {cfg : OrchestratorConfig} {s : Orch status} {i : Nat} {g' : Goal status}
    {abort : Bool}
    (hs : forall (j : Nat) (g : Goal status), s.goals[j]? = some g -> j ≠ i ->
      GoalSequence server cfg abort g)
    (hg : GoalSequence server cfg abort g') (j : Nat) (g : Goal status)
    (hj : (s.goals.set i g')[j]? = some g) :
    GoalSequence server cfg abort g := by
  rcases getElem?_set_cases hj with ⟨_, heq⟩ | ⟨hne, hold⟩
  · rw [heq]
    exact hg
  · exact hs j g hold hne

theorem goalSequence_touch {server : GoalServer status}
    {cfg : OrchestratorConfig} {s : Orch status} {i : Nat}
    {g g' : Goal status} {abort : Bool} (hs : SequenceInv server cfg s)
    (hi : s.goals[i]? = some g) {j : Nat} {other : Goal status}
    (hj : (s.goals.set i g')[j]? = some other) (hsame : SameGoal server g g')
    (hloc : g'.loc = g.loc)
    (habort : s.shared.abort = true -> abort = true) :
    GoalSequence server cfg abort other := by
  refine goalSequence_set ?_ ?_ j other hj
  · intro k k' hk _
    exact (hs.goal k k' hk).congr ⟨rfl, rfl, rfl, id⟩ rfl fun _ => habort
  · exact (hs.goal i g hi).congr hsame hloc fun _ => habort

theorem sameGoal_status {server : GoalServer status} (g : Goal status)
    {next : Option status}
    (h : forall st, next = some st -> server.succeeded st = false) :
    SameGoal server g { g with status := next.getD g.status } := by
  refine ⟨rfl, rfl, rfl, ?_⟩
  intro hsucc
  cases hnext : next with
  | none => simpa [hnext] using hsucc
  | some st =>
      have hnot := h st hnext
      simp [hnext, hnot] at hsucc

theorem goalSequence_accepted {server : GoalServer status}
    {cfg : OrchestratorConfig} {g : Goal status} {abort : Bool}
    (hloc : g.loc = .firstClear) (hstatus : g.status = server.accepted)
    (hissued : g.issued = []) : GoalSequence server cfg abort g := by
  refine ⟨fun _ => hissued, ?_, ?_, ?_, ?_⟩
  · intro h
    rw [hloc] at h
    cases h
  · intro loc h
    rw [hloc] at h
    cases h
  · intro ok h
    rw [hloc] at h
    cases h
  · intro h
    rw [hstatus, server.accepted_not_succeeded] at h
    cases h

theorem goalSequence_user {server : GoalServer status}
    {cfg : OrchestratorConfig} {s s' : Orch status}
    (hs : SequenceInv server cfg s) (hstep : userStep server s = some s')
    (j : Nat) (g : Goal status) (hj : s'.goals[j]? = some g) :
    GoalSequence server cfg s'.shared.abort g := by
  unfold userStep at hstep
  split at hstep
  · cases hstep
  · cases hstep
    exact hs.goal j g hj
  · cases hstep
    exact hs.goal j g hj
  · rcases Option.map_eq_some_iff.mp hstep with ⟨_, _, heq⟩
    rw [← heq] at hj ⊢
    exact hs.goal j g hj
  · rcases Option.map_eq_some_iff.mp hstep with ⟨g0, hi, heq⟩
    rw [← heq] at hj ⊢
    refine goalSequence_touch hs hi hj (sameGoal_status g0 ?_) rfl id
    intro st hst
    exact server.finish_not_succeeded .abort g0.status st
      (fun h => by cases h) hst

theorem goalSequence_pressT {server : GoalServer status}
    {cfg : OrchestratorConfig} {s : Orch status}
    (hs : SequenceInv server cfg s) (j : Nat) (g : Goal status)
    (hj : (s.goals.map Goal.markStop)[j]? = some g) :
    GoalSequence server cfg true g := by
  rw [List.getElem?_map] at hj
  rcases Option.map_eq_some_iff.mp hj with ⟨g0, hg0, heq⟩
  rw [← heq]
  exact (hs.goal j g0 hg0).congr ⟨rfl, rfl, rfl, id⟩ rfl fun _ _ => rfl

theorem goalSequence_request {server : GoalServer status}
    {cfg : OrchestratorConfig} {s : Orch status} (traj : JointTrajectory)
    (hs : SequenceInv server cfg s) (j : Nat) (g : Goal status)
    (hj : (requestStep server cfg traj s).goals[j]? = some g) :
    GoalSequence server cfg (requestStep server cfg traj s).shared.abort g := by
  unfold requestStep at hj ⊢
  split at hj
  · rename_i haccept
    rw [if_pos haccept]
    rcases getElem?_concat_cases hj with ⟨_, heq⟩ | hold
    · rw [heq]
      exact goalSequence_accepted rfl rfl rfl
    · exact hs.goal j g hold
  · rename_i hreject
    rw [if_neg hreject]
    exact hs.goal j g hj

theorem goalSequence_orchStep {server : GoalServer status}
    {cfg : OrchestratorConfig} {s s' : Orch status} {e : OrchEvent}
    (hs : SequenceInv server cfg s)
    (hstep : orchStep server cfg s e = some s') (j : Nat) (g : Goal status)
    (hj : s'.goals[j]? = some g) :
    GoalSequence server cfg s'.shared.abort g := by
  cases e with
  | request traj =>
      cases hstep
      exact goalSequence_request traj hs j g hj
  | execute i choice =>
      rcases Option.bind_eq_some_iff.mp hstep with ⟨g0, hi, hnext⟩
      rcases Option.map_eq_some_iff.mp hnext with ⟨⟨sh, g'⟩, hexec, heq⟩
      rw [← heq] at hj ⊢
      refine goalSequence_set ?_ (goalSequence_execStep (hs.goal i g0 hi) hexec)
        j g hj
      intro k k' hk hne
      refine (hs.goal k k' hk).congr ⟨rfl, rfl, rfl, id⟩ rfl ?_
      intro hrunning habort
      show sh.abort = true
      rwa [abort_kept_of_running hs.busy hi hk hne hexec hrunning]
  | cancel i =>
      rcases Option.map_eq_some_iff.mp hstep with ⟨g0, hi, heq⟩
      rw [← heq] at hj ⊢
      exact goalSequence_touch hs hi hj ⟨rfl, rfl, rfl, id⟩ rfl fun _ => rfl
  | cancelHold i =>
      rcases Option.bind_eq_some_iff.mp hstep with ⟨g0, hi, hnext⟩
      split at hnext
      · cases hnext
      · cases hnext
        exact goalSequence_touch hs hi hj ⟨rfl, rfl, rfl, id⟩ rfl id
  | cancelAccept i =>
      rcases Option.bind_eq_some_iff.mp hstep with ⟨g0, hi, hnext⟩
      split at hnext
      · cases hnext
      · cases hnext
        have hsame := sameGoal_status g0
          (server.cancelGoal_not_succeeded g0.status)
        exact goalSequence_touch hs hi hj ⟨rfl, rfl, rfl, hsame.status⟩ rfl id
  | pressT =>
      simp only [orchStep] at hstep
      split at hstep
      · cases hstep
        exact goalSequence_pressT hs j g hj
      · cases hstep
  | user => exact goalSequence_user hs hstep j g hj
  | pressS | armState | handState =>
      cases hstep
      exact hs.goal j g hj

theorem sequenceInv_nodeStep {server : GoalServer status}
    {cfg : OrchestratorConfig} {s s' : Orch status} {e : NodeEvent}
    (hs : SequenceInv server cfg s)
    (hstep : nodeStep server cfg s e = some s') :
    SequenceInv server cfg s' := by
  refine ⟨busyOwned_nodeStep hs.busy hstep, ?_⟩
  intro j g hj
  cases e with
  | step e => exact goalSequence_orchStep hs hstep j g hj
  | raise i =>
      rcases Option.bind_eq_some_iff.mp hstep with ⟨g0, hi, hnext⟩
      split at hnext
      · rename_i hrunning
        cases hnext
        refine goalSequence_set (fun k k' hk _ => hs.goal k k' hk) ?_ j g hj
        refine (hs.goal i g0 hi).move (sameGoal_goto server g0 _) ?_ ?_ rfl rfl
          fun _ => rfl
        · intro h
          cases h
        · intro h
          cases h
      · cases hnext

theorem sequenceInv_start (server : GoalServer status)
    (cfg : OrchestratorConfig) (view : View) :
    SequenceInv server cfg (Orch.start status view) := by
  refine ⟨busyOwned_start view, ?_⟩
  intro i g hi
  cases hi

/-!
## Every run of the node
-/

/-- A succeeded goal has said the seven stages of the trajectory that its
request normalises to. -/
structure SucceededInFull (server : GoalServer status)
    (cfg : OrchestratorConfig) (g : Goal status) : Prop where
  normalized : server.succeeded g.status = true -> g.Normalized cfg
  transcript : server.succeeded g.status = true ->
    g.calls ∈ fullTranscript cfg.params g.traj

theorem succeededInFull_of_run {server : GoalServer status}
    {cfg : OrchestratorConfig} {view : View} {history : List NodeEvent}
    {s : Orch status}
    (hrun : Machine.Run (nodeStep server cfg) (Orch.start status view) history
      s) (g : Goal status) (hg : g ∈ s.goals) :
    SucceededInFull server cfg g := by
  have hinv : SequenceInv server cfg s :=
    Machine.invariant_of_step (fun _ _ _ hs _ => sequenceInv_nodeStep hs)
      (sequenceInv_start server cfg view) hrun
  rcases List.getElem?_of_mem hg with ⟨i, hi⟩
  have hgoal := hinv.goal i g hi
  refine ⟨fun hsucc => (hgoal.succeeded hsucc).2.1, ?_⟩
  intro hsucc
  exact (hgoal.succeeded hsucc).2.2.fullTranscript

/-!
## A goal that succeeds

Ramps of one step, and the goal is held for one second.
-/

def quickConfig : OrchestratorConfig :=
  { OrchestratorConfig.default with
    params :=
      { SequenceParams.default with
        handDur := .finite 0
        trajHz := .finite 1 } }

def executedToTheEnd (goal : JointTrajectory) : List NodeEvent :=
  .step (.armState frankaSafePosition) :: .step (.request goal) ::
    (executeSteps 65).map .step

def hasSucceeded (g : Goal GoalStatus) : Bool := g.status == .succeeded

theorem succeededInFull_executedToTheEnd :
    exists g : Goal GoalStatus,
      hasSucceeded g = true ∧
        SucceededInFull GoalStatus.server quickConfig g := by
  have hrun : ((nodeStep GoalStatus.server quickConfig).runFrom
      (Orch.start GoalStatus .start) (executedToTheEnd restingGoal)).any
        (fun s => s.goals.any hasSucceeded) = true := by
    decide +kernel
  rcases Machine.exists_run_of_any hrun with ⟨s, hs, hsucceeded⟩
  rcases List.any_eq_true.mp hsucceeded with ⟨g, hmem, hg⟩
  exact ⟨g, hg, succeededInFull_of_run hs g hmem⟩

end Orchestrator
end FrankaKistar
