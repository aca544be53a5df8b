import FrankaKistar.Orchestrator.Sequence
import FrankaKistar.Foundation.Runs

/-!
# The hold of an aborted sequence

A thread that aborts the sequence sets the abort event and then publishes the
measured pose as a hold.  The sequence checks the event between its publishes,
not at them, so a target whose check came before the abort can still be
published after the hold.  Only the trajectory loop publishes the hold again
when it stops.
-/

namespace FrankaKistar
namespace Orchestrator

open Foundation

/-- One sequence and the threads that abort it.  `holdsPending` counts the
threads between `_abort_event.set()` and `io.hold_franka()`; `calls` are the
backend calls, newest first. -/
structure HoldState where
  loc : SeqLoc
  abort : Bool
  view : View
  holdsPending : Nat
  calls : List IoCall

inductive HoldEvent where
  | sequence (timeUp : Bool)
  | setAbort
  | hold
  | armState (q : Joints ExactDouble)
  | handState (h : Hand)

def record (call : Option IoCall) (calls : List IoCall) : List IoCall :=
  match call with
  | none => calls
  | some c => c :: calls

def holdStep (p : SequenceParams) (traj : JointTrajectory) :
    Machine HoldState HoldEvent
  | s, .sequence timeUp =>
      (seqStep p traj s.abort s.view timeUp s.loc).map fun next =>
        { s with loc := next.1, calls := record next.2 s.calls }
  | s, .setAbort =>
      some { s with abort := true, holdsPending := s.holdsPending + 1 }
  | s, .hold =>
      if s.holdsPending = 0 then none
      else
        some
          { s with
            holdsPending := s.holdsPending - 1
            calls := .holdFranka s.view.frankaQ :: s.calls }
  | s, .armState q => some { s with view := { s.view with frankaQ := q } }
  | s, .handState h => some { s with view := { s.view with handQ := h } }

/-- The entry of `_run_full_sequence`, after the event was cleared. -/
def HoldState.start (view : View) : HoldState :=
  ⟨.publishSafe .first, false, view, 0, []⟩

/-!
## What is promised
-/

def IoCall.isFranka : IoCall -> Bool
  | .publishFranka _ _ => true
  | .holdFranka _ => true
  | _ => false

def IoCall.isHold : IoCall -> Bool
  | .holdFranka _ => true
  | _ => false

def lastIsHold (calls : List IoCall) : Bool :=
  (calls.find? IoCall.isFranka).any IoCall.isHold

def SeqLoc.isReturned : SeqLoc -> Bool
  | .returned _ => true
  | _ => false

/-- Once an aborted sequence has returned and the holds are published, the last
Franka target is a hold. -/
def HeldAtReturn (s : HoldState) : Prop :=
  s.loc.isReturned = true -> s.abort = true -> s.holdsPending = 0 ->
    lastIsHold s.calls = true

instance (s : HoldState) : Decidable (HeldAtReturn s) := by
  unfold HeldAtReturn
  infer_instance

/-!
## When it holds
-/

/-- A target is published before the next check of the event: the check has
passed, or there is none. -/
def SeqLoc.committed : SeqLoc -> Bool
  | .publishSafe _ => true
  | .waitPublish _ => true
  | .trajPublish n i => n ≤ i
  | .trajSleep n i => n ≤ i
  | .trajLast => true
  | _ => false

def SeqLoc.isWaitRead : SeqLoc -> Bool
  | .waitRead _ => true
  | _ => false

/-- The last pending hold is not published while a target is committed, and the
wait loop does not read a pose away from its target after that hold. -/
def HoldNotOvertaken (p : SequenceParams) (s : HoldState) : HoldEvent -> Prop
  | .hold => s.holdsPending = 1 -> s.loc.committed = false
  | .sequence _ =>
      s.abort = true -> s.holdsPending = 0 -> s.loc.isWaitRead = true ->
        poseClose s.view.frankaQ p.frankaSafe p.jointTol = true
  | _ => True

instance (p : SequenceParams) (s : HoldState) (e : HoldEvent) :
    Decidable (HoldNotOvertaken p s e) := by
  cases e <;> unfold HoldNotOvertaken <;> infer_instance

/-!
## The invariant
-/

/-- The trajectory loop raises, or it reaches its next check and publishes the
hold there. -/
def SeqLoc.holdsNext : SeqLoc -> Bool
  | .trajCheck _ _ => true
  | .trajHold => true
  | .trajPublish n i => i < n
  | .trajSleep n i => i < n
  | .raised => true
  | _ => false

structure Held (s : HoldState) : Prop where
  uncommitted : s.loc.committed = false
  last : lastIsHold s.calls = true ∨ s.loc.holdsNext = true

def HoldInv (s : HoldState) : Prop :=
  s.abort = true -> s.holdsPending = 0 -> Held s

theorem heldAtReturn_of_holdInv {s : HoldState} (h : HoldInv s) :
    HeldAtReturn s := by
  intro hreturned habort hpending
  rcases (h habort hpending).last with hlast | hnext
  · exact hlast
  · cases hloc : s.loc <;> simp [hloc, SeqLoc.isReturned, SeqLoc.holdsNext]
      at hreturned hnext

/-!
## Steps
-/

theorem lastIsHold_record_of_not_franka {call : Option IoCall}
    (h : call.any IoCall.isFranka = false) (calls : List IoCall) :
    lastIsHold (record call calls) = lastIsHold calls := by
  cases call with
  | none => rfl
  | some c =>
      have hc : c.isFranka = false := h
      simp [record, lastIsHold, hc]

theorem committed_of_abort {p : SequenceParams} {traj : JointTrajectory}
    {view : View} {timeUp : Bool} {loc loc' : SeqLoc} {call : Option IoCall}
    (hstep : seqStep p traj true view timeUp loc = some (loc', call))
    (hloc : loc.committed = false)
    (hread : loc.isWaitRead = true ->
      poseClose view.frankaQ p.frankaSafe p.jointTol = true) :
    loc'.committed = false := by
  cases loc with
  | publishSafe stage => cases hloc
  | waitPublish stage => cases hloc
  | trajLast => cases hloc
  | returned ok => cases hstep
  | raised => cases hstep
  | waitTime stage =>
      cases hstep
      cases timeUp <;> rfl
  | waitRead stage =>
      cases hstep
      rw [if_pos (hread rfl)]
      cases stage <;> rfl
  | snapshot stage =>
      cases hstep
      cases rampSteps p.handDur <;> rfl
  | rampSleep stage h0 steps k =>
      cases hstep
      split_ifs <;> rfl
  | trajStart =>
      cases hstep
      cases trajSteps (trajDuration traj) p.trajHz <;> rfl
  | trajPublish n i =>
      rcases publishSample_cases (Option.some.inj hstep) with
        ⟨hraised, _⟩ | ⟨hnext, _⟩
      · rw [hraised]
        rfl
      · rw [hnext]
        exact hloc
  | trajSleep n i =>
      have hlt : i < n := by simpa [SeqLoc.committed] using hloc
      cases hstep
      rw [if_pos hlt]
      split_ifs <;> rfl
  | settle =>
      cases hstep
      split_ifs <;> rfl
  | _ =>
      cases hstep
      rfl

/-- An uncommitted location publishes no target, except for a sample whose hold
is still to come. -/
theorem holdsNext_of_publish {p : SequenceParams} {traj : JointTrajectory}
    {view : View} {timeUp : Bool} {loc loc' : SeqLoc} {call : Option IoCall}
    (hstep : seqStep p traj true view timeUp loc = some (loc', call))
    (hloc : loc.committed = false) :
    call.any IoCall.isFranka = false ∨
      call = some (.holdFranka view.frankaQ) ∨ loc'.holdsNext = true := by
  cases loc with
  | publishSafe stage => cases hloc
  | waitPublish stage => cases hloc
  | trajLast => cases hloc
  | returned ok => cases hstep
  | raised => cases hstep
  | trajHold =>
      cases hstep
      exact Or.inr (Or.inl rfl)
  | trajPublish n i =>
      refine Or.inr (Or.inr ?_)
      rcases publishSample_cases (Option.some.inj hstep) with
        ⟨hraised, _⟩ | ⟨hnext, _⟩
      · rw [hraised]
        rfl
      · rw [hnext]
        simpa [SeqLoc.holdsNext, SeqLoc.committed] using hloc
  | _ =>
      cases hstep
      exact Or.inl rfl

theorem holdsNext_of_abort {p : SequenceParams} {traj : JointTrajectory}
    {view : View} {timeUp : Bool} {loc loc' : SeqLoc} {call : Option IoCall}
    (hstep : seqStep p traj true view timeUp loc = some (loc', call))
    (hloc : loc.holdsNext = true) :
    call = some (.holdFranka view.frankaQ) ∨ loc'.holdsNext = true := by
  cases loc with
  | trajCheck n i =>
      cases hstep
      exact Or.inr rfl
  | trajHold =>
      cases hstep
      exact Or.inl rfl
  | trajPublish n i =>
      refine Or.inr ?_
      rcases publishSample_cases (Option.some.inj hstep) with
        ⟨hraised, _⟩ | ⟨hnext, _⟩
      · rw [hraised]
        rfl
      · rw [hnext]
        exact hloc
  | trajSleep n i =>
      have hlt : i < n := by simpa [SeqLoc.holdsNext] using hloc
      cases hstep
      rw [if_pos hlt]
      split_ifs <;> exact Or.inr rfl
  | raised => cases hstep
  | _ => cases hloc

theorem held_of_sequence {p : SequenceParams} {traj : JointTrajectory}
    {s : HoldState} {timeUp : Bool} {next : SeqLoc × Option IoCall}
    (habort : s.abort = true) (hs : Held s)
    (hread : s.loc.isWaitRead = true ->
      poseClose s.view.frankaQ p.frankaSafe p.jointTol = true)
    (hstep : seqStep p traj s.abort s.view timeUp s.loc = some next) :
    Held { s with loc := next.1, calls := record next.2 s.calls } := by
  rw [habort] at hstep
  refine ⟨committed_of_abort hstep hs.uncommitted hread, ?_⟩
  rcases holdsNext_of_publish hstep hs.uncommitted with hquiet | hhold | hnext
  · rcases hs.last with hlast | hloc
    · rw [← lastIsHold_record_of_not_franka hquiet] at hlast
      exact Or.inl hlast
    · rcases holdsNext_of_abort hstep hloc with hhold | hnext
      · rw [hhold] at hquiet
        cases hquiet
      · exact Or.inr hnext
  · rw [hhold]
    exact Or.inl rfl
  · exact Or.inr hnext

theorem holdInv_step {p : SequenceParams} {traj : JointTrajectory}
    {s s' : HoldState} {e : HoldEvent} (hs : HoldInv s)
    (hcond : HoldNotOvertaken p s e)
    (hstep : holdStep p traj s e = some s') : HoldInv s' := by
  cases e with
  | sequence timeUp =>
      rcases Option.map_eq_some_iff.mp hstep with ⟨next, hseq, hnext⟩
      rw [← hnext]
      intro habort hpending
      exact held_of_sequence habort (hs habort hpending)
        (hcond habort hpending) hseq
  | setAbort =>
      cases hstep
      intro _ hpending
      cases hpending
  | hold =>
      simp only [holdStep] at hstep
      split at hstep
      · cases hstep
      · rename_i hpositive
        cases hstep
        intro _ hpending
        have hone : s.holdsPending = 1 := by
          have hzero : s.holdsPending - 1 = 0 := hpending
          omega
        exact ⟨hcond hone, Or.inl rfl⟩
  | armState q =>
      cases hstep
      intro habort hpending
      exact ⟨(hs habort hpending).uncommitted, (hs habort hpending).last⟩
  | handState h =>
      cases hstep
      intro habort hpending
      exact ⟨(hs habort hpending).uncommitted, (hs habort hpending).last⟩

/-- In every run that keeps the condition, the sequence returns with the arm
held. -/
theorem heldAtReturn_of_run {p : SequenceParams} {traj : JointTrajectory}
    {view : View} {history : List HoldEvent} {s : HoldState}
    (hrun : Machine.RunWhere (holdStep p traj) (HoldNotOvertaken p)
      (HoldState.start view) history s) : HeldAtReturn s := by
  refine heldAtReturn_of_holdInv
    (Machine.invariant_of_step (fun _ _ _ => holdInv_step) ?_ hrun)
  intro habort
  cases habort

/-!
## An abort in the first stage

When the abort comes before the check of the wait loop, the loop returns and the
hold stands.  When it comes after the check, the loop still publishes the safe
pose over the hold.
-/

def abortBeforeCheck : List HoldEvent :=
  [.sequence false, .sequence false, .setAbort, .hold, .sequence false]

def abortAfterCheck : List HoldEvent :=
  [ .sequence false, .sequence false, .sequence false, .setAbort, .hold,
    .sequence false, .sequence false, .sequence false, .sequence false,
    .sequence false ]

/-- The sequence has returned after an abort whose hold was published. -/
def HoldState.stopped (s : HoldState) : Bool :=
  s.loc.isReturned && s.abort && s.holdsPending == 0

theorem heldAtReturn_abortBeforeCheck :
    exists s : HoldState, s.stopped = true ∧ HeldAtReturn s := by
  have hrun : (((holdStep .default restingGoal).guarded
      (HoldNotOvertaken .default)).runFrom
      (HoldState.start .start) abortBeforeCheck).any HoldState.stopped
        = true := by
    decide +kernel
  rcases Machine.exists_runWhere_of_any hrun with ⟨s, hs, hstopped⟩
  exact ⟨s, hstopped, heldAtReturn_of_run hs⟩

theorem not_all_heldAtReturn :
    ¬ forall p traj view history s,
        Machine.Run (holdStep p traj) (HoldState.start view) history s ->
        HeldAtReturn s := by
  intro hclaim
  have hrun : ((holdStep .default restingGoal).runFrom
      (HoldState.start .start) abortAfterCheck).any
      (fun s => decide (¬ HeldAtReturn s)) = true := by
    decide +kernel
  rcases Machine.exists_run_of_any hrun with ⟨s, hs, hlost⟩
  exact of_decide_eq_true hlost (hclaim _ _ _ _ s hs)

end Orchestrator
end FrankaKistar
