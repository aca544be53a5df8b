import FrankaKistar.Orchestrator.Sequence
import FrankaKistar.Foundation.Runs
import Mathlib.Computability.Language

/-!
# The transcript of a sequence

What `_run_full_sequence` says to the backend, from its first call on.  The
seven stages are languages of calls, and a run that returns `True` has spoken
exactly one word of their product: no call is missing, repeated or out of place,
whatever the other threads did to the abort event and to the received states.
-/

namespace FrankaKistar
namespace Orchestrator

open Foundation

/-!
## Runs
-/

/-- The sequence, the abort event as it saw it last, the rounds of the wait loop
it is in, and its calls, oldest first. -/
structure SeqRun where
  loc : SeqLoc
  abort : Bool
  rounds : Nat
  calls : List IoCall

/-- The entry of `_run_full_sequence`, after the event was cleared. -/
def SeqRun.start : SeqRun := ⟨.publishSafe .first, false, 0, []⟩

/-- What the other threads have done before a step: whether one has set the
event, which state was received last, and whether the deadline has passed. -/
structure Tick where
  stop : Bool
  view : View
  timeUp : Bool

/-- The rounds of the wait loop that have begun. -/
def SeqLoc.countRounds : SeqLoc -> Nat -> Nat
  | .publishSafe _, _ => 0
  | .waitTime _, rounds => rounds + 1
  | _, rounds => rounds

def sequenceStep (p : SequenceParams) (traj : JointTrajectory) :
    Machine SeqRun Tick :=
  fun s tick =>
    (seqStep p traj (s.abort || tick.stop) tick.view tick.timeUp s.loc).map
      fun next =>
        { loc := next.1
          abort := s.abort || tick.stop
          rounds := s.loc.countRounds s.rounds
          calls := s.calls ++ next.2.toList }

theorem eq_of_sequenceStep {p : SequenceParams} {traj : JointTrajectory}
    {s s' : SeqRun} {tick : Tick} (h : sequenceStep p traj s tick = some s') :
    exists next,
      seqStep p traj (s.abort || tick.stop) tick.view tick.timeUp s.loc =
        some next ∧
      s' = ⟨next.1, s.abort || tick.stop, s.loc.countRounds s.rounds,
        s.calls ++ next.2.toList⟩ := by
  rcases Option.map_eq_some_iff.mp h with ⟨next, hnext, heq⟩
  exact ⟨next, hnext, heq.symm⟩

/-!
## The stages as languages

A ramp starts at a received hand vector and a sample at the time of its round,
so both are existential here.
-/

abbrev Calls := Language IoCall

/-- Stages 1 and 7: the pose once with the speed of the sequence, and then once
a round until it is reached. -/
def approach (p : SequenceParams) : Calls :=
  {calls | exists rounds, calls =
    .publishFranka p.frankaSafe p.moveSpeed ::
      List.replicate rounds (.publishFranka p.frankaSafe (.finite (15 / 100)))}

def only (call : IoCall) : Calls := {calls | calls = [call]}

/-- The first `k` poses of a ramp. -/
def rampCalls (p : SequenceParams) (stage : HandStage) (h0 : Hand)
    (steps k : Nat) : List IoCall :=
  (List.range k).map fun j =>
    .publishHand (rampPose h0 (stage.target p) steps j)

/-- A ramp in its round `k`. -/
def rampBegun (p : SequenceParams) (stage : HandStage) (h0 : Hand)
    (steps k : Nat) : Calls :=
  {calls | rampSteps p.handDur = some steps ∧ k ≤ steps ∧
    calls = rampCalls p stage h0 steps k}

/-- A ramp in its round `k`, after the publish. -/
def rampSent (p : SequenceParams) (stage : HandStage) (h0 : Hand)
    (steps k : Nat) : Calls :=
  {calls | rampSteps p.handDur = some steps ∧ k ≤ steps ∧
    calls = rampCalls p stage h0 steps (k + 1)}

def ramp (p : SequenceParams) (stage : HandStage) : Calls :=
  {calls | exists h0 steps, rampSteps p.handDur = some steps ∧
    calls = rampCalls p stage h0 steps (steps + 1)}

/-- The time of sample `i` of `n`. -/
def sampleTime (traj : JointTrajectory) (n i : Nat) : ℚ :=
  trajDuration traj * (i / n)

/-- The first `k` samples. -/
def sampleCalls (p : SequenceParams) (traj : JointTrajectory) (n k : Nat) :
    Calls :=
  {calls | exists q : Nat -> Joints ExactDouble,
    (forall i, i < k -> interpTraj traj (sampleTime traj n i) = .ok (q i)) ∧
      calls = (List.range k).map fun i => .publishFranka (q i) p.maxVel}

/-- The samples before round `i`. -/
def samplesBegun (p : SequenceParams) (traj : JointTrajectory) (n i : Nat) :
    Calls :=
  {calls | trajSteps (trajDuration traj) p.trajHz = some n ∧ i ≤ n ∧
    calls ∈ sampleCalls p traj n i}

/-- The samples with the one of round `i`. -/
def samplesSent (p : SequenceParams) (traj : JointTrajectory) (n i : Nat) :
    Calls :=
  {calls | trajSteps (trajDuration traj) p.trajHz = some n ∧ i ≤ n ∧
    calls ∈ sampleCalls p traj n (i + 1)}

def samplesDone (p : SequenceParams) (traj : JointTrajectory) : Calls :=
  {calls | exists n, trajSteps (trajDuration traj) p.trajHz = some n ∧
    calls ∈ sampleCalls p traj n (n + 1)}

def endSample (p : SequenceParams) (traj : JointTrajectory) : Calls :=
  {calls | exists q, interpTraj traj (trajDuration traj) = .ok q ∧
    calls = [.publishFranka q p.maxVel]}

def closeCall (p : SequenceParams) : Calls :=
  {calls | exists h,
    calls = [.publishHand (applyHandCloseOffset h p.handCloseDelta)]}

/-!
## The words in front of a stage
-/

def prepared (p : SequenceParams) : Calls :=
  approach p * only (.setServo handSafeServoOn) *
    only (.setHandMode handModeCircular)

def grasped (p : SequenceParams) : Calls :=
  prepared p * ramp p .safe * ramp p .grasp

def moved (p : SequenceParams) (traj : JointTrajectory) : Calls :=
  grasped p * samplesDone p traj * endSample p traj

def HandStage.before (p : SequenceParams) (traj : JointTrajectory) :
    HandStage -> Calls
  | .safe => prepared p
  | .grasp => prepared p * ramp p .safe
  | .save => moved p traj * only (.setHandMode handModePosition)

def saved (p : SequenceParams) (traj : JointTrajectory) : Calls :=
  HandStage.before p traj .save * ramp p .save

def closed (p : SequenceParams) (traj : JointTrajectory) : Calls :=
  saved p traj * closeCall p

def fullTranscript (p : SequenceParams) (traj : JointTrajectory) : Calls :=
  closed p traj * approach p

def SafeStage.before (p : SequenceParams) (traj : JointTrajectory) :
    SafeStage -> Calls
  | .first => 1
  | .last => closed p traj

/-- What was said when the sequence is at a location; nothing is promised of a
sequence that gives up. -/
def SeqLoc.transcript (p : SequenceParams) (traj : JointTrajectory) :
    SeqLoc -> Calls
  | .publishSafe stage => stage.before p traj
  | .waitTime stage | .waitCheck stage | .waitRead stage
  | .waitPublish stage | .waitSleep stage => stage.before p traj * approach p
  | .setServo => approach p
  | .servoSleep | .setModeCircular =>
      approach p * only (.setServo handSafeServoOn)
  | .circularSleep | .circularCheck => prepared p
  | .snapshot stage => stage.before p traj
  | .rampCheck stage h0 steps k | .rampPublish stage h0 steps k =>
      stage.before p traj * rampBegun p stage h0 steps k
  | .rampSleep stage h0 steps k =>
      stage.before p traj * rampSent p stage h0 steps k
  | .rampDone stage => stage.before p traj * ramp p stage
  | .trajStart => grasped p
  | .trajCheck n i | .trajPublish n i => grasped p * samplesBegun p traj n i
  | .trajSleep n i => grasped p * samplesSent p traj n i
  | .trajLast => grasped p * samplesDone p traj
  | .trajHold => 0
  | .trajDone | .setModePosition => moved p traj
  | .positionSleep => HandStage.before p traj .save
  | .settle | .settleCheck | .closeSnapshot => saved p traj
  | .closePublish boosted =>
      {calls | calls ∈ saved p traj ∧
        exists h, boosted = applyHandCloseOffset h p.handCloseDelta}
  | .closeSleep | .lastCheck => closed p traj
  | .returned true => fullTranscript p traj
  | .returned false => ⊤
  | .raised => ⊤

/-- An aborted loop goes on to the check behind it. -/
def SeqLoc.isAfterLoop : SeqLoc -> Bool
  | .rampDone _ => true
  | .trajHold => true
  | .trajDone => true
  | _ => false

/-- The sequence has said its transcript, or it is about to see the event. -/
def Spoken (p : SequenceParams) (traj : JointTrajectory) (s : SeqRun) : Prop :=
  s.calls ∈ s.loc.transcript p traj ∨
    (s.abort = true ∧ s.loc.isAfterLoop = true)

/-!
## Words that grow
-/

theorem mem_top (calls : List IoCall) : calls ∈ (⊤ : Calls) :=
  Set.mem_univ calls

theorem append_right_mem {first part grown : Calls} {calls more : List IoCall}
    (h : calls ∈ first * part)
    (hgrow : forall word, word ∈ part -> word ++ more ∈ grown) :
    calls ++ more ∈ first * grown := by
  rcases Language.mem_mul.mp h with ⟨before, hbefore, word, hword, heq⟩
  rw [← heq, List.append_assoc]
  exact Language.append_mem_mul hbefore (hgrow word hword)

theorem append_mem_mul_of_mem {first part : Calls} {calls more : List IoCall}
    (h : calls ∈ first) (hmore : more ∈ part) :
    calls ++ more ∈ first * part :=
  Language.append_mem_mul h hmore

theorem mem_mul_of_nil_mem {first part : Calls} {calls : List IoCall}
    (h : calls ∈ first) (hnil : [] ∈ part) : calls ∈ first * part := by
  have happend := Language.append_mem_mul h hnil
  rwa [List.append_nil] at happend

theorem mem_mul_mono {first part part' : Calls} {calls : List IoCall}
    (h : calls ∈ first * part) (hpart : forall word, word ∈ part ->
      word ∈ part') : calls ∈ first * part' := by
  rcases Language.mem_mul.mp h with ⟨before, hbefore, word, hword, heq⟩
  rw [← heq]
  exact Language.append_mem_mul hbefore (hpart word hword)

theorem approach_begins (p : SequenceParams) :
    [.publishFranka p.frankaSafe p.moveSpeed] ∈ approach p := ⟨0, rfl⟩

theorem approach_again (p : SequenceParams) {calls : List IoCall}
    (h : calls ∈ approach p) :
    calls ++ [.publishFranka p.frankaSafe (.finite (15 / 100))] ∈
      approach p := by
  rcases h with ⟨rounds, heq⟩
  refine ⟨rounds + 1, ?_⟩
  rw [heq, List.replicate_succ']
  rfl

theorem rampBegun_zero {p : SequenceParams} {steps : Nat}
    (hsteps : rampSteps p.handDur = some steps) (stage : HandStage)
    (h0 : Hand) : [] ∈ rampBegun p stage h0 steps 0 :=
  ⟨hsteps, Nat.zero_le steps, rfl⟩

theorem rampSent_of_begun {p : SequenceParams} {stage : HandStage} {h0 : Hand}
    {steps k : Nat} {calls : List IoCall}
    (h : calls ∈ rampBegun p stage h0 steps k) :
    calls ++ [.publishHand (rampPose h0 (stage.target p) steps k)] ∈
      rampSent p stage h0 steps k := by
  rcases h with ⟨hsteps, hk, heq⟩
  refine ⟨hsteps, hk, ?_⟩
  rw [heq, rampCalls, rampCalls, List.range_succ, List.map_append]
  rfl

theorem rampBegun_of_sent {p : SequenceParams} {stage : HandStage} {h0 : Hand}
    {steps k : Nat} {calls : List IoCall}
    (h : calls ∈ rampSent p stage h0 steps k) (hk : k < steps) :
    calls ∈ rampBegun p stage h0 steps (k + 1) :=
  ⟨h.1, hk, h.2.2⟩

theorem ramp_of_sent {p : SequenceParams} {stage : HandStage} {h0 : Hand}
    {steps k : Nat} {calls : List IoCall}
    (h : calls ∈ rampSent p stage h0 steps k) (hk : ¬ k < steps) :
    calls ∈ ramp p stage := by
  have hlast : k = steps := Nat.le_antisymm h.2.1 (Nat.not_lt.mp hk)
  refine ⟨h0, steps, h.1, ?_⟩
  rw [h.2.2, hlast]

theorem samplesBegun_zero {p : SequenceParams} {traj : JointTrajectory}
    {n : Nat} (hn : trajSteps (trajDuration traj) p.trajHz = some n) :
    [] ∈ samplesBegun p traj n 0 := by
  refine ⟨hn, Nat.zero_le n, fun _ => fun _ => .finite 0, ?_, rfl⟩
  intro i hi
  exact absurd hi (Nat.not_lt_zero i)

theorem samplesSent_of_begun {p : SequenceParams} {traj : JointTrajectory}
    {n i : Nat} {calls : List IoCall} {q : Joints ExactDouble}
    (h : calls ∈ samplesBegun p traj n i)
    (hq : interpTraj traj (sampleTime traj n i) = .ok q) :
    calls ++ [.publishFranka q p.maxVel] ∈ samplesSent p traj n i := by
  rcases h with ⟨hn, hi, qs, hqs, heq⟩
  refine ⟨hn, hi, Function.update qs i q, ?_, ?_⟩
  · intro j hj
    by_cases hji : j = i
    · rw [hji, Function.update_self]
      exact hq
    · rw [Function.update_of_ne hji]
      exact hqs j (by omega)
  · rw [heq, List.range_succ, List.map_append, List.map_singleton,
      Function.update_self]
    congr 1
    apply List.map_congr_left
    intro j hj
    rw [Function.update_of_ne (Nat.ne_of_lt (List.mem_range.mp hj))]

theorem samplesBegun_of_sent {p : SequenceParams} {traj : JointTrajectory}
    {n i : Nat} {calls : List IoCall} (h : calls ∈ samplesSent p traj n i)
    (hi : i < n) : calls ∈ samplesBegun p traj n (i + 1) :=
  ⟨h.1, hi, h.2.2⟩

theorem samplesDone_of_sent {p : SequenceParams} {traj : JointTrajectory}
    {n i : Nat} {calls : List IoCall} (h : calls ∈ samplesSent p traj n i)
    (hi : ¬ i < n) : calls ∈ samplesDone p traj := by
  have hlast : i = n := Nat.le_antisymm h.2.1 (Nat.not_lt.mp hi)
  refine ⟨n, h.1, ?_⟩
  have hsent := h.2.2
  rwa [hlast] at hsent

theorem publishSample_spec (p : SequenceParams) (traj : JointTrajectory)
    (t : ℚ) (next : SeqLoc) :
    publishSample p traj t next = (.raised, none) ∨
      exists q, interpTraj traj t = .ok q ∧
        publishSample p traj t next =
          (next, some (.publishFranka q p.maxVel)) := by
  unfold publishSample
  cases hq : interpTraj traj t with
  | error e => exact Or.inl rfl
  | ok q => exact Or.inr ⟨q, rfl, rfl⟩

/-!
## One step
-/

/-- What is said at the next location, when the transcript was said at this
one. -/
def SpokenNext (p : SequenceParams) (traj : JointTrajectory) (abort : Bool)
    (calls : List IoCall) (next : SeqLoc × Option IoCall) : Prop :=
  calls ++ next.2.toList ∈ next.1.transcript p traj ∨
    (abort = true ∧ next.1.isAfterLoop = true)

variable {p : SequenceParams} {traj : JointTrajectory} {abort : Bool}
  {calls : List IoCall}

theorem spokenNext_silent {loc : SeqLoc} (h : calls ∈ loc.transcript p traj) :
    SpokenNext p traj abort calls (loc, none) := by
  apply Or.inl
  show calls ++ [] ∈ _
  rwa [List.append_nil]

theorem spokenNext_call {loc : SeqLoc} {call : IoCall}
    (h : calls ++ [call] ∈ loc.transcript p traj) :
    SpokenNext p traj abort calls (loc, some call) := Or.inl h

theorem spokenNext_raised : SpokenNext p traj abort calls (.raised, none) :=
  spokenNext_silent (mem_top calls)

theorem spokenNext_check {loc : SeqLoc} (h : calls ∈ loc.transcript p traj) :
    SpokenNext p traj abort calls
      (if abort then .returned false else loc, none) := by
  cases abort with
  | true => exact spokenNext_silent (mem_top calls)
  | false => exact spokenNext_silent h

theorem spokenNext_waitRead (stage : SafeStage) (close : Bool)
    (h : calls ∈ (SeqLoc.waitRead stage).transcript p traj) :
    SpokenNext p traj abort calls
      (if close then stage.next else .waitPublish stage, none) := by
  cases close with
  | false => exact spokenNext_silent h
  | true =>
      apply spokenNext_silent
      cases stage with
      | first =>
          have hfirst : calls ∈ 1 * approach p := h
          rwa [one_mul] at hfirst
      | last => exact h

theorem spokenNext_rampSleep {stage : HandStage} {h0 : Hand} {steps k : Nat}
    (sleeps : Bool)
    (h : calls ∈ (SeqLoc.rampSleep stage h0 steps k).transcript p traj) :
    SpokenNext p traj abort calls
      (if sleeps = false then .raised
        else if k < steps then .rampCheck stage h0 steps (k + 1)
        else .rampDone stage, none) := by
  cases sleeps with
  | false => exact spokenNext_raised
  | true =>
      rw [if_neg (Ne.symm Bool.false_ne_true)]
      split_ifs with hk
      · exact spokenNext_silent
          (mem_mul_mono h fun word hword => rampBegun_of_sent hword hk)
      · exact spokenNext_silent
          (mem_mul_mono h fun word hword => ramp_of_sent hword hk)

theorem spokenNext_rampDone (stage : HandStage)
    (h : calls ∈ (SeqLoc.rampDone stage).transcript p traj) :
    SpokenNext p traj abort calls
      (if abort then .returned false else stage.next, none) := by
  apply spokenNext_check
  cases stage <;> exact h

theorem spokenNext_trajSleep {n i : Nat} (sleeps : Bool)
    (h : calls ∈ (SeqLoc.trajSleep n i).transcript p traj) :
    SpokenNext p traj abort calls
      (if sleeps = false then .raised
        else if i < n then .trajCheck n (i + 1) else .trajLast, none) := by
  cases sleeps with
  | false => exact spokenNext_raised
  | true =>
      rw [if_neg (Ne.symm Bool.false_ne_true)]
      split_ifs with hi
      · exact spokenNext_silent
          (mem_mul_mono h fun word hword => samplesBegun_of_sent hword hi)
      · exact spokenNext_silent
          (mem_mul_mono h fun word hword => samplesDone_of_sent hword hi)

theorem spokenNext_trajPublish {n i : Nat}
    (h : calls ∈ (SeqLoc.trajPublish n i).transcript p traj) :
    SpokenNext p traj abort calls
      (publishSample p traj (sampleTime traj n i) (.trajSleep n i)) := by
  rcases publishSample_spec p traj (sampleTime traj n i) (.trajSleep n i) with
    heq | ⟨q, hq, heq⟩
  · rw [heq]
    exact spokenNext_raised
  · rw [heq]
    exact spokenNext_call
      (append_right_mem h fun word hword => samplesSent_of_begun hword hq)

theorem spokenNext_trajLast
    (h : calls ∈ SeqLoc.trajLast.transcript p traj) :
    SpokenNext p traj abort calls
      (publishSample p traj (trajDuration traj) .trajDone) := by
  rcases publishSample_spec p traj (trajDuration traj) .trajDone with
    heq | ⟨q, hq, heq⟩
  · rw [heq]
    exact spokenNext_raised
  · rw [heq]
    exact spokenNext_call (append_mem_mul_of_mem h ⟨q, hq, rfl⟩)

/-- One statement of the sequence says what its stage asks for next.  An abort
inside a loop leads to the check behind the loop. -/
theorem spokenNext_of_seqStep {view : View} {timeUp : Bool} {loc : SeqLoc}
    {next : SeqLoc × Option IoCall}
    (hstep : seqStep p traj abort view timeUp loc = some next)
    (h : calls ∈ loc.transcript p traj) :
    SpokenNext p traj abort calls next := by
  cases loc with
  | publishSafe stage =>
      cases hstep
      exact spokenNext_call (append_mem_mul_of_mem h (approach_begins p))
  | waitTime stage =>
      cases hstep
      cases timeUp with
      | true => exact spokenNext_silent (mem_top calls)
      | false => exact spokenNext_silent h
  | waitCheck stage =>
      cases hstep
      exact spokenNext_check h
  | waitRead stage =>
      cases hstep
      exact spokenNext_waitRead stage _ h
  | waitPublish stage =>
      cases hstep
      exact spokenNext_call
        (append_right_mem h fun _ hword => approach_again p hword)
  | waitSleep stage =>
      cases hstep
      exact spokenNext_silent h
  | setServo =>
      cases hstep
      exact spokenNext_call (append_mem_mul_of_mem h rfl)
  | servoSleep =>
      cases hstep
      exact spokenNext_silent h
  | setModeCircular =>
      cases hstep
      exact spokenNext_call (append_mem_mul_of_mem h rfl)
  | circularSleep =>
      cases hstep
      exact spokenNext_silent h
  | circularCheck =>
      cases hstep
      exact spokenNext_check h
  | snapshot stage =>
      cases hstep
      cases hsteps : rampSteps p.handDur with
      | none => exact spokenNext_raised
      | some steps =>
          exact spokenNext_silent
            (mem_mul_of_nil_mem h (rampBegun_zero hsteps stage view.handQ))
  | rampCheck stage h0 steps k =>
      cases hstep
      cases abort with
      | true => exact Or.inr ⟨rfl, rfl⟩
      | false => exact spokenNext_silent h
  | rampPublish stage h0 steps k =>
      cases hstep
      exact spokenNext_call
        (append_right_mem h fun _ hword => rampSent_of_begun hword)
  | rampSleep stage h0 steps k =>
      cases hstep
      exact spokenNext_rampSleep _ h
  | rampDone stage =>
      cases hstep
      exact spokenNext_rampDone stage h
  | trajStart =>
      cases hstep
      cases hn : trajSteps (trajDuration traj) p.trajHz with
      | none => exact spokenNext_raised
      | some n =>
          exact spokenNext_silent
            (mem_mul_of_nil_mem h (samplesBegun_zero hn))
  | trajCheck n i =>
      cases hstep
      cases abort with
      | true => exact Or.inr ⟨rfl, rfl⟩
      | false => exact spokenNext_silent h
  | trajHold => exact absurd h (Language.notMem_zero calls)
  | trajPublish n i =>
      cases hstep
      exact spokenNext_trajPublish h
  | trajSleep n i =>
      cases hstep
      exact spokenNext_trajSleep _ h
  | trajLast =>
      cases hstep
      exact spokenNext_trajLast h
  | trajDone =>
      cases hstep
      exact spokenNext_check h
  | setModePosition =>
      cases hstep
      exact spokenNext_call (append_mem_mul_of_mem h rfl)
  | positionSleep =>
      cases hstep
      exact spokenNext_silent h
  | settle =>
      cases hstep
      cases canSleep p.postWait with
      | true => exact spokenNext_silent h
      | false => exact spokenNext_raised
  | settleCheck =>
      cases hstep
      exact spokenNext_check h
  | closeSnapshot =>
      cases hstep
      apply spokenNext_silent
      exact ⟨h, view.handQ, rfl⟩
  | closePublish boosted =>
      cases hstep
      rcases h with ⟨hsaved, hand, hboosted⟩
      refine spokenNext_call (append_mem_mul_of_mem hsaved ⟨hand, ?_⟩)
      rw [hboosted]
  | closeSleep =>
      cases hstep
      exact spokenNext_silent h
  | lastCheck =>
      cases hstep
      exact spokenNext_check h
  | returned ok => cases hstep
  | raised => cases hstep

theorem spokenNext_of_aborted {view : View} {timeUp : Bool} {loc : SeqLoc}
    {next : SeqLoc × Option IoCall}
    (hstep : seqStep p traj true view timeUp loc = some next)
    (hloc : loc.isAfterLoop = true) : SpokenNext p traj true calls next := by
  cases loc with
  | rampDone stage =>
      cases hstep
      show SpokenNext p traj true calls (.returned false, none)
      exact spokenNext_silent (mem_top calls)
  | trajHold =>
      cases hstep
      exact Or.inr ⟨rfl, rfl⟩
  | trajDone =>
      cases hstep
      show SpokenNext p traj true calls (.returned false, none)
      exact spokenNext_silent (mem_top calls)
  | _ => cases hloc

/-!
## Whole runs
-/

theorem spoken_start (p : SequenceParams) (traj : JointTrajectory) :
    Spoken p traj .start := Or.inl Language.nil_mem_one

theorem spoken_step {s s' : SeqRun} {tick : Tick} (hs : Spoken p traj s)
    (hstep : sequenceStep p traj s tick = some s') : Spoken p traj s' := by
  rcases eq_of_sequenceStep hstep with ⟨next, hnext, heq⟩
  rw [heq]
  rcases hs with hsaid | ⟨habort, hloc⟩
  · exact spokenNext_of_seqStep hnext hsaid
  · rw [habort, Bool.true_or] at hnext ⊢
    exact spokenNext_of_aborted hnext hloc

theorem spoken_of_run {s : SeqRun} {history : List Tick}
    (hrun : Machine.Run (sequenceStep p traj) .start history s) :
    Spoken p traj s :=
  Machine.invariant_of_step (fun _ _ _ hs _ hstep => spoken_step hs hstep)
    (spoken_start p traj) hrun

/-!
## A sequence inside a thread

Calls that are a run of the sequence, which has seen the event only if it is
set.
-/

def Follows (p : SequenceParams) (traj : JointTrajectory)
    (calls : List IoCall) (abort : Bool) (loc : SeqLoc) : Prop :=
  exists ticks s,
    Machine.Run (sequenceStep p traj) .start ticks s ∧
      s.loc = loc ∧ s.calls = calls ∧ (s.abort = true -> abort = true)

theorem Follows.mono {abort' : Bool} {loc : SeqLoc}
    (h : Follows p traj calls abort loc)
    (habort : abort = true -> abort' = true) :
    Follows p traj calls abort' loc := by
  rcases h with ⟨ticks, s, hrun, hloc, hcalls, hseen⟩
  exact ⟨ticks, s, hrun, hloc, hcalls, fun hs => habort (hseen hs)⟩

theorem follows_start : Follows p traj [] abort (.publishSafe .first) := by
  refine ⟨[], .start, Machine.RunWhere.nil, rfl, rfl, ?_⟩
  intro h
  cases h

theorem follows_advance {timeUp : Bool} {view : View} {loc : SeqLoc}
    {next : SeqLoc × Option IoCall} (h : Follows p traj calls abort loc)
    (hstep : seqStep p traj abort view timeUp loc = some next) :
    Follows p traj (calls ++ next.2.toList) abort next.1 := by
  rcases h with ⟨ticks, s, hrun, hloc, hcalls, hseen⟩
  have habort : (s.abort || abort) = abort := by
    cases hs : s.abort with
    | false => rfl
    | true => exact (hseen hs).symm
  have hnext : sequenceStep p traj s ⟨abort, view, timeUp⟩ =
      some ⟨next.1, abort, s.loc.countRounds s.rounds,
        s.calls ++ next.2.toList⟩ := by
    simp only [sequenceStep, habort, hloc, hstep, Option.map_some]
  refine ⟨_, _, Machine.RunWhere.snoc hrun True.intro hnext, rfl, ?_, id⟩
  rw [hcalls]

theorem Follows.fullTranscript
    (h : Follows p traj calls abort (.returned true)) :
    calls ∈ fullTranscript p traj := by
  rcases h with ⟨ticks, s, hrun, hloc, hcalls, _⟩
  rw [← hcalls]
  rcases spoken_of_run hrun with hsaid | ⟨_, hafter⟩
  · rwa [hloc] at hsaid
  · rw [hloc] at hafter
    cases hafter

theorem reverse_map_advance (issued : List (Nat × IoCall)) (stage : Nat)
    (call : Option IoCall) :
    (((call.map fun c => (stage, c)).toList ++ issued).map Prod.snd).reverse =
      (issued.map Prod.snd).reverse ++ call.toList := by
  cases call with
  | none => exact (List.append_nil _).symm
  | some c =>
      show (c :: issued.map Prod.snd).reverse = _
      rw [List.reverse_cons]
      rfl

end Orchestrator
end FrankaKistar
