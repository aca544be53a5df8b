import FrankaKistar.Orchestrator.Sequence
import FrankaKistar.Foundation.Runs

/-!
# Goals of the orchestrator

The threads of `OrchestratorNode`: the goal callback, one execute callback for
each accepted goal, the cancel callbacks and the keyboard thread.  They share
the abort event, the start event, the busy flag and the active goal handle.  The
action server itself is a parameter: it keeps the status of a goal handle and
says which calls on the handle are refused.
-/

namespace FrankaKistar
namespace Orchestrator

open Foundation

/-!
## The action server
-/

inductive Ending where
  | canceled
  | abort
  | succeed
deriving DecidableEq

/-- The status of a goal handle as the node sees it.  A refused call raises and
is `none`.  `conclude` is the status the server leaves when the execute callback
has ended: a goal without a terminal status is aborted. -/
structure GoalServer (status : Type) where
  accepted : status
  isActive : status -> Bool
  isCancelRequested : status -> Bool
  succeeded : status -> Bool
  cancelGoal : status -> Option status
  finish : Ending -> status -> Option status
  conclude : status -> status
  accepted_not_succeeded : succeeded accepted = false
  cancelGoal_not_succeeded : forall st st',
    cancelGoal st = some st' -> succeeded st' = false
  finish_not_succeeded : forall e st st',
    e ≠ .succeed -> finish e st = some st' -> succeeded st' = false
  conclude_succeeded : forall st, succeeded (conclude st) = succeeded st

inductive GoalStatus where
  | executing
  | canceling
  | succeeded
  | aborted
  | canceled
deriving DecidableEq

namespace GoalStatus

def isActive : GoalStatus -> Bool
  | executing => true
  | canceling => true
  | _ => false

def finish : Ending -> GoalStatus -> Option GoalStatus
  | .canceled, canceling => some canceled
  | .abort, executing => some aborted
  | .abort, canceling => some aborted
  | .succeed, executing => some succeeded
  | .succeed, canceling => some succeeded
  | _, _ => none

def cancelGoal : GoalStatus -> Option GoalStatus
  | executing => some canceling
  | _ => none

/-- The states of a ROS 2 goal; an accepted goal is not told apart from an
executing one. -/
def server : GoalServer GoalStatus where
  accepted := executing
  isActive := isActive
  isCancelRequested := fun st => st == canceling
  succeeded := fun st => st == .succeeded
  cancelGoal := cancelGoal
  finish := finish
  conclude := fun st => if isActive st then aborted else st
  accepted_not_succeeded := rfl
  cancelGoal_not_succeeded := by
    intro st st' h
    cases st <;> cases h
    rfl
  finish_not_succeeded := by
    intro e st st' he h
    cases e with
    | canceled =>
        cases st <;> cases h
        rfl
    | abort => cases st <;> cases h <;> rfl
    | succeed => exact absurd rfl he
  conclude_succeeded := by
    intro st
    cases st <;> rfl

end GoalStatus

/-!
## State
-/

structure OrchestratorConfig where
  params : SequenceParams
  expectedJointNames : List String
  requireTerminalS : Bool
  attached : Bool

/-- The next statement of `_execute_follow_joint`, then of the server. -/
inductive ExecLoc where
  | firstClear
  | setActive
  | checkArgs
  | normalize
  | clearStart
  | loopOk
  | loopCancel
  | loopAbort
  | loopWait
  | loopClear
  | afterLoop
  | secondClear
  | running (loc : SeqLoc)
  | finish (ok : Bool)
  | ending (e : Ending)
  | resetBusy
  | resetActive
  | conclude
  | done

/-- A goal that was accepted.  The last five fields only record what happened:
the calls of its sequence with their stages, whether the check before stage 7
was made, whether a stop was requested, and whether that was before this check
and before stage 1. -/
structure Goal (status : Type) where
  request : JointTrajectory
  traj : JointTrajectory
  loc : ExecLoc
  status : status
  holdsDue : Nat
  acceptsDue : Nat
  issued : List (Nat × IoCall)
  checked : Bool
  requested : Bool
  inTime : Bool
  early : Bool

structure Shared where
  abort : Bool
  startSeq : Bool
  goalBusy : Bool
  activeGoal : Option Nat
  view : View
  published : List IoCall

/-- The next statement of `goal_abort_from_user` in the keyboard thread. -/
inductive UserLoc where
  | idle
  | mustHold
  | mustRead
  | mustCheck (i : Nat)
  | mustAbort (i : Nat)
deriving DecidableEq

structure Orch (status : Type) where
  shared : Shared
  user : UserLoc
  goals : List (Goal status)

def Orch.start (status : Type) (view : View) : Orch status :=
  ⟨⟨false, false, false, none, view, []⟩, .idle, []⟩

variable {status : Type}

def SeqLoc.isLastCheck : SeqLoc -> Bool
  | .lastCheck => true
  | _ => false

/-!
## The execute callback
-/

def Goal.goto (g : Goal status) (loc : ExecLoc) : Goal status :=
  { g with loc := loc }

/-- Where the callback continues when the sequence has no next step. -/
def SeqLoc.exit : SeqLoc -> ExecLoc
  | .returned ok => .finish ok
  | _ => .resetBusy

def Goal.advance (g : Goal status) (loc : SeqLoc)
    (next : SeqLoc × Option IoCall) : Goal status :=
  { g with
    loc := .running next.1
    issued := (next.2.map fun call => (loc.stage, call)).toList ++ g.issued
    checked := g.checked || loc.isLastCheck }

def runningStep (cfg : OrchestratorConfig) (choice : Bool) (sh : Shared)
    (g : Goal status) (loc : SeqLoc) : Shared × Goal status :=
  match seqStep cfg.params g.traj sh.abort sh.view choice loc with
  | none => (sh, g.goto loc.exit)
  | some next =>
      ({ sh with published := next.2.toList ++ sh.published },
        g.advance loc next)

/-- The trajectory is normalised again; an error runs the `finally` block. -/
def normalizeStep (cfg : OrchestratorConfig) (g : Goal status) : Goal status :=
  match normalizeTrajectoryForArm g.request cfg.expectedJointNames with
  | .error _ => g.goto .resetBusy
  | .ok traj =>
      { g with
        traj := traj
        loc := if cfg.requireTerminalS then .clearStart else .secondClear }

/-- One step of the callback of goal `i`.  `choice` is what the outside decides:
in the loop whether ROS was shut down, in the sequence whether the deadline has
passed. -/
def execStep (server : GoalServer status) (cfg : OrchestratorConfig) (i : Nat)
    (choice : Bool) (sh : Shared) (g : Goal status) :
    Option (Shared × Goal status) :=
  match g.loc with
  | .firstClear => some ({ sh with abort := false }, g.goto .setActive)
  | .setActive => some ({ sh with activeGoal := some i }, g.goto .checkArgs)
  | .checkArgs =>
      some (sh, g.goto (if cfg.attached then .normalize else .ending .abort))
  | .normalize => some (sh, normalizeStep cfg g)
  | .clearStart => some ({ sh with startSeq := false }, g.goto .loopOk)
  | .loopOk => some (sh, g.goto (if choice then .afterLoop else .loopCancel))
  | .loopCancel =>
      some (sh, g.goto (if server.isCancelRequested g.status
        then .ending .canceled else .loopAbort))
  | .loopAbort =>
      some (sh, g.goto (if sh.abort then .ending .abort else .loopWait))
  | .loopWait =>
      some (sh, g.goto (if sh.startSeq then .loopClear else .loopOk))
  | .loopClear => some ({ sh with startSeq := false }, g.goto .afterLoop)
  | .afterLoop =>
      some (sh, g.goto (if server.isCancelRequested g.status
        then .ending .canceled else .secondClear))
  | .secondClear =>
      some ({ sh with abort := false }, g.goto (.running (.publishSafe .first)))
  | .running loc => some (runningStep cfg choice sh g loc)
  | .finish ok =>
      some (sh, g.goto (.ending (if server.isCancelRequested g.status
        then .canceled else if ok then .succeed else .abort)))
  | .ending e =>
      some (sh,
        { g with
          loc := .resetBusy
          status := (server.finish e g.status).getD g.status })
  | .resetBusy => some ({ sh with goalBusy := false }, g.goto .resetActive)
  | .resetActive => some ({ sh with activeGoal := none }, g.goto .conclude)
  | .conclude =>
      some (sh, { g with loc := .done, status := server.conclude g.status })
  | .done => none

/-!
## The other threads
-/

/-- `_goal_callback`; a rejected goal changes nothing. -/
def requestStep (server : GoalServer status) (cfg : OrchestratorConfig)
    (traj : JointTrajectory) (s : Orch status) : Orch status :=
  if (validateFollowJointGoal traj cfg.expectedJointNames).toBool = true ∧
      s.shared.goalBusy = false then
    { s with
      shared := { s.shared with goalBusy := true }
      goals := s.goals ++
        [{ request := traj, traj := traj, loc := .firstClear,
           status := server.accepted, holdsDue := 0, acceptsDue := 0,
           issued := [], checked := false, requested := false,
           inTime := false, early := false }] }
  else s

def Goal.markStop (g : Goal status) : Goal status :=
  { g with
    requested := true
    inTime := g.inTime || !g.checked
    early := g.early || g.issued.isEmpty }

def Shared.hold (sh : Shared) : Shared :=
  { sh with published := .holdFranka sh.view.frankaQ :: sh.published }

/-- The keyboard thread after `_abort_event.set()`. -/
def userStep (server : GoalServer status) (s : Orch status) :
    Option (Orch status) :=
  match s.user with
  | .idle => none
  | .mustHold => some { s with shared := s.shared.hold, user := .mustRead }
  | .mustRead =>
      some { s with user := s.shared.activeGoal.elim .idle .mustCheck }
  | .mustCheck i =>
      (s.goals[i]?).map fun g =>
        { s with user := if server.isActive g.status then .mustAbort i
            else .idle }
  | .mustAbort i =>
      (s.goals[i]?).map fun g =>
        { s with
          user := .idle
          goals := s.goals.set i
            { g with
              status := (server.finish .abort g.status).getD g.status } }

inductive OrchEvent where
  | request (traj : JointTrajectory)
  | execute (i : Nat) (choice : Bool)
  | cancel (i : Nat)
  | cancelHold (i : Nat)
  | cancelAccept (i : Nat)
  | pressT
  | user
  | pressS
  | armState (q : Joints ExactDouble)
  | handState (h : Hand)

/-- `_cancel_callback` is `cancel` and `cancelHold`; `cancelAccept` is the server
after it.  The server collects the goals to cancel first, so a callback can also
run for a goal that has ended since. -/
def orchStep (server : GoalServer status) (cfg : OrchestratorConfig) :
    Machine (Orch status) OrchEvent
  | s, .request traj => some (requestStep server cfg traj s)
  | s, .execute i choice =>
      (s.goals[i]?).bind fun g =>
        (execStep server cfg i choice s.shared g).map fun r =>
          { s with shared := r.1, goals := s.goals.set i r.2 }
  | s, .cancel i =>
      (s.goals[i]?).map fun g =>
        { s with
          shared := { s.shared with abort := true }
          goals := s.goals.set i
            { g.markStop with holdsDue := g.holdsDue + 1 } }
  | s, .cancelHold i =>
      (s.goals[i]?).bind fun g =>
        if g.holdsDue = 0 then none
        else
          some
            { s with
              shared := s.shared.hold
              goals := s.goals.set i
                { g with
                  holdsDue := g.holdsDue - 1
                  acceptsDue := g.acceptsDue + 1 } }
  | s, .cancelAccept i =>
      (s.goals[i]?).bind fun g =>
        if g.acceptsDue = 0 then none
        else
          some
            { s with
              goals := s.goals.set i
                { g with
                  acceptsDue := g.acceptsDue - 1
                  status := (server.cancelGoal g.status).getD g.status } }
  | s, .pressT =>
      if s.user = .idle then
        some
          { s with
            shared := { s.shared with abort := true }
            user := .mustHold
            goals := s.goals.map Goal.markStop }
      else none
  | s, .user => userStep server s
  | s, .pressS => some { s with shared := { s.shared with startSeq := true } }
  | s, .armState q =>
      some { s with shared :=
        { s.shared with view := { s.shared.view with frankaQ := q } } }
  | s, .handState h =>
      some { s with shared :=
        { s.shared with view := { s.shared.view with handQ := h } } }

end Orchestrator
end FrankaKistar
