import FrankaKistar.Orchestrator.Transcript

/-!
# How long a sequence goes on

Two bounds on runs of `_run_full_sequence`.  After the abort event is set the
sequence is over within six statements and makes at most two more calls.  And a
sequence whose wait loops reach their deadlines is over after a number of
statements that its parameters and its trajectory determine.
-/

namespace FrankaKistar
namespace Orchestrator

open Foundation

variable {p : SequenceParams} {traj : JointTrajectory}

def SeqLoc.isEnd : SeqLoc -> Bool
  | .returned _ => true
  | .raised => true
  | _ => false

theorem sequenceStep_isSome (s : SeqRun) (tick : Tick)
    (hloc : s.loc.isEnd = false) :
    (sequenceStep p traj s tick).isSome = true := by
  unfold sequenceStep
  rw [Option.isSome_map]
  cases h : s.loc with
  | returned ok =>
      rw [h] at hloc
      cases hloc
  | raised =>
      rw [h] at hloc
      cases hloc
  | _ => rfl

/-!
## After an abort
-/

def SeqLoc.stepsAfterAbort : SeqLoc -> Nat
  | .publishSafe _ => 3
  | .waitTime _ => 2
  | .waitCheck _ => 1
  | .waitRead _ => 6
  | .waitPublish _ => 4
  | .waitSleep _ => 3
  | .setServo => 5
  | .servoSleep => 4
  | .setModeCircular => 3
  | .circularSleep => 2
  | .circularCheck => 1
  | .snapshot _ => 3
  | .rampCheck _ _ _ _ => 2
  | .rampPublish _ _ _ _ => 4
  | .rampSleep _ _ _ _ => 3
  | .rampDone _ => 1
  | .trajStart => 4
  | .trajCheck _ _ => 3
  | .trajHold => 2
  | .trajPublish _ _ => 5
  | .trajSleep _ _ => 4
  | .trajLast => 2
  | .trajDone => 1
  | .setModePosition => 5
  | .positionSleep => 4
  | .settle => 2
  | .settleCheck => 1
  | .closeSnapshot => 4
  | .closePublish _ => 3
  | .closeSleep => 2
  | .lastCheck => 1
  | .returned _ => 0
  | .raised => 0

def SeqLoc.callsAfterAbort : SeqLoc -> Nat
  | .waitRead _ => 2
  | .setServo => 2
  | .trajPublish _ _ => 2
  | .publishSafe _ | .waitPublish _ | .servoSleep | .setModeCircular
  | .rampPublish _ _ _ _ | .trajStart | .trajCheck _ _ | .trajHold
  | .trajSleep _ _ | .trajLast | .setModePosition | .closeSnapshot
  | .closePublish _ => 1
  | _ => 0

/-- The next statement returns `True`, or one has. -/
def SeqLoc.mayReturnTrue : SeqLoc -> Bool
  | .waitRead .last => true
  | .returned ok => ok
  | _ => false

theorem stepsAfterAbort_le (loc : SeqLoc) : loc.stepsAfterAbort ≤ 6 := by
  cases loc <;> exact Nat.le_of_ble_eq_true rfl

theorem callsAfterAbort_le (loc : SeqLoc) : loc.callsAfterAbort ≤ 2 := by
  cases loc <;> exact Nat.le_of_ble_eq_true rfl

theorem isEnd_of_noStepsAfterAbort {loc : SeqLoc}
    (h : loc.stepsAfterAbort = 0) : loc.isEnd = true := by
  cases loc with
  | returned ok => rfl
  | raised => rfl
  | _ => cases h

structure Leaves (loc : SeqLoc) (next : SeqLoc × Option IoCall) : Prop where
  steps : next.1.stepsAfterAbort < loc.stepsAfterAbort
  calls : next.2.toList.length + next.1.callsAfterAbort ≤ loc.callsAfterAbort
  verdict : next.1.mayReturnTrue = true -> loc.mayReturnTrue = true

/-- The three parts for a given location and its successor are computed. -/
theorem leaves_of_ble {loc : SeqLoc} {next : SeqLoc × Option IoCall}
    (hsteps : Nat.ble (next.1.stepsAfterAbort + 1) loc.stepsAfterAbort = true)
    (hcalls : Nat.ble (next.2.toList.length + next.1.callsAfterAbort)
      loc.callsAfterAbort = true)
    (hverdict : (!next.1.mayReturnTrue || loc.mayReturnTrue) = true) :
    Leaves loc next where
  steps := Nat.le_of_ble_eq_true hsteps
  calls := Nat.le_of_ble_eq_true hcalls
  verdict := by
    intro h
    rwa [h, Bool.not_true, Bool.false_or] at hverdict

theorem leaves_publishSample (p : SequenceParams) (traj : JointTrajectory)
    (t : ℚ) {loc next : SeqLoc}
    (hraised : Leaves loc (.raised, none))
    (hnext : forall call, Leaves loc (next, some call)) :
    Leaves loc (publishSample p traj t next) := by
  rcases publishSample_spec p traj t next with heq | ⟨q, _, heq⟩
  · rw [heq]
    exact hraised
  · rw [heq]
    exact hnext _

theorem leaves_of_abort {view : View} {timeUp : Bool} {loc : SeqLoc}
    {next : SeqLoc × Option IoCall}
    (hstep : seqStep p traj true view timeUp loc = some next) :
    Leaves loc next := by
  cases loc with
  | waitTime stage =>
      cases hstep
      cases timeUp <;> exact leaves_of_ble rfl rfl rfl
  | waitRead stage =>
      cases hstep
      cases poseClose view.frankaQ p.frankaSafe p.jointTol <;>
        cases stage <;> exact leaves_of_ble rfl rfl rfl
  | snapshot stage =>
      cases hstep
      cases rampSteps p.handDur <;> exact leaves_of_ble rfl rfl rfl
  | rampSleep stage h0 steps k =>
      cases hstep
      split_ifs <;> exact leaves_of_ble rfl rfl rfl
  | trajStart =>
      cases hstep
      cases trajSteps (trajDuration traj) p.trajHz <;>
        exact leaves_of_ble rfl rfl rfl
  | trajSleep n i =>
      cases hstep
      split_ifs <;> exact leaves_of_ble rfl rfl rfl
  | trajPublish n i =>
      cases hstep
      exact leaves_publishSample p traj _ (leaves_of_ble rfl rfl rfl)
        fun _ => leaves_of_ble rfl rfl rfl
  | trajLast =>
      cases hstep
      exact leaves_publishSample p traj _ (leaves_of_ble rfl rfl rfl)
        fun _ => leaves_of_ble rfl rfl rfl
  | settle =>
      cases hstep
      cases canSleep p.postWait <;> exact leaves_of_ble rfl rfl rfl
  | returned ok => cases hstep
  | raised => cases hstep
  | _ =>
      cases hstep
      exact leaves_of_ble rfl rfl rfl

/-- The sequence at `s'` was aborted at `s` and has said little since. -/
structure Stopping (s s' : SeqRun) : Prop where
  abort : s'.abort = true
  calls : exists more, s'.calls = s.calls ++ more ∧
    more.length + s'.loc.callsAfterAbort ≤ s.loc.callsAfterAbort
  verdict : s'.loc.mayReturnTrue = true -> s.loc.mayReturnTrue = true

theorem stopping_refl {s : SeqRun} (h : s.abort = true) : Stopping s s where
  abort := h
  calls := ⟨[], (List.append_nil _).symm, (Nat.zero_add _).le⟩
  verdict := id

theorem leaves_of_sequenceStep {s s' : SeqRun} {tick : Tick}
    (habort : s.abort = true) (hstep : sequenceStep p traj s tick = some s') :
    exists next, Leaves s.loc next ∧ s'.loc = next.1 ∧ s'.abort = true ∧
      s'.calls = s.calls ++ next.2.toList := by
  rcases eq_of_sequenceStep hstep with ⟨next, hnext, heq⟩
  rw [habort, Bool.true_or] at hnext heq
  refine ⟨next, leaves_of_abort hnext, ?_⟩
  rw [heq]
  exact ⟨rfl, rfl, rfl⟩

theorem stopping_step {start s s' : SeqRun} {tick : Tick}
    (hs : Stopping start s) (hstep : sequenceStep p traj s tick = some s') :
    Stopping start s' := by
  rcases leaves_of_sequenceStep hs.abort hstep with
    ⟨next, hleaves, hloc, habort, hcalls⟩
  rcases hs.calls with ⟨more, hmore, hlength⟩
  refine ⟨habort, ⟨more ++ next.2.toList, ?_, ?_⟩, ?_⟩
  · rw [hcalls, hmore, List.append_assoc]
  · have hleft := hleaves.calls
    rw [hloc, List.length_append]
    omega
  · intro h
    rw [hloc] at h
    exact hs.verdict (hleaves.verdict h)

/-- What is left of a sequence whose event is set: at most six statements and
two calls, and it returns `True` only if it was about to. -/
structure StopsSoon (s s' : SeqRun) (history : List Tick) : Prop where
  steps : history.length ≤ 6
  ends : history.length = 6 -> s'.loc.isEnd = true
  calls : exists more, s'.calls = s.calls ++ more ∧ more.length ≤ 2
  verdict : s'.loc.mayReturnTrue = true -> s.loc.mayReturnTrue = true

/-- From any state with the event set, reached or not. -/
theorem stopsSoon_of_run {s s' : SeqRun} {history : List Tick}
    (habort : s.abort = true)
    (hrun : Machine.Run (sequenceStep p traj) s history s') :
    StopsSoon s s' history := by
  have hstopping : Stopping s s' :=
    Machine.invariant_of_step (fun _ _ _ hs _ => stopping_step hs)
      (stopping_refl habort) hrun
  have hlength : history.length + s'.loc.stepsAfterAbort ≤
      s.loc.stepsAfterAbort := by
    refine Machine.length_add_rank_le (fun t => t.loc.stepsAfterAbort)
      (fun _ _ _ hs _ => stopping_step hs) ?_ (stopping_refl habort) hrun
    intro t tick t' ht _ hstep
    rcases leaves_of_sequenceStep ht.abort hstep with ⟨next, hleaves, hloc, _⟩
    show t'.loc.stepsAfterAbort < t.loc.stepsAfterAbort
    rw [hloc]
    exact hleaves.steps
  have hmost := stepsAfterAbort_le s.loc
  refine ⟨by omega, ?_, ?_, hstopping.verdict⟩
  · intro hsix
    exact isEnd_of_noStepsAfterAbort (by omega)
  · rcases hstopping.calls with ⟨more, hmore, hle⟩
    have htwo := callsAfterAbort_le s.loc
    exact ⟨more, hmore, by omega⟩

def stoppedAtWaitRead : SeqRun := ⟨.waitRead .first, true, 1, []⟩

def safeTicks : List Tick :=
  List.replicate 6 ⟨true, ⟨frankaSafePosition, fun _ => 0⟩, false⟩

def hasGivenUp (s : SeqRun) : Bool := s.loc.isEnd && !s.loc.mayReturnTrue

theorem stopsSoon_stoppedAtWaitRead :
    exists s', hasGivenUp s' = true ∧
      StopsSoon stoppedAtWaitRead s' safeTicks := by
  have hrun : ((sequenceStep .default restingGoal).runFrom stoppedAtWaitRead
      safeTicks).any hasGivenUp = true := by
    decide +kernel
  rcases Machine.exists_run_of_any hrun with ⟨s', hs', htest⟩
  exact ⟨s', htest, stopsSoon_of_run rfl hs'⟩

/-!
## With deadlines

`rounds` is how many rounds of a wait loop its deadline allows.  The costs below
are the statements that are left, from the last stage to the first.
-/

/-- The deadline has passed after this many rounds of a wait loop. -/
def DeadlineAfter (rounds : Nat) (s : SeqRun) (tick : Tick) : Prop :=
  forall stage, s.loc = .waitTime stage -> rounds ≤ s.rounds ->
    tick.timeUp = true

def waitCost (rounds begun : Nat) : Nat := 5 * (rounds - begun) + 1

/-- From the settle of stage 6 on. -/
def closeCost (rounds : Nat) : Nat := 6 + (1 + waitCost rounds 0)

/-- A ramp with its snapshot and the check behind it. -/
def rampCost (steps next : Nat) : Nat := 1 + (3 * steps + 3) + (1 + next)

/-- From the mode of stage 5 on. -/
def saveCost (rounds steps : Nat) : Nat :=
  2 + rampCost steps (closeCost rounds)

/-- Stage 4 from its loop on; the last two statements are the sample behind the
loop and the check. -/
def trajCost (rounds steps n : Nat) : Nat :=
  1 + (3 * n + 3) + (2 + saveCost rounds steps)

/-- From the servo of stage 2 on. -/
def handCost (rounds steps n : Nat) : Nat :=
  5 + rampCost steps (rampCost steps (trajCost rounds steps n))

def SafeStage.after (rounds steps n : Nat) : SafeStage -> Nat
  | .first => handCost rounds steps n
  | .last => 0

def HandStage.after (rounds steps n : Nat) : HandStage -> Nat
  | .safe => rampCost steps (trajCost rounds steps n)
  | .grasp => trajCost rounds steps n
  | .save => closeCost rounds

/-- The statements that are left at a location, when `begun` rounds of the wait
loop have begun. -/
def SeqLoc.budget (rounds steps n begun : Nat) : SeqLoc -> Nat
  | .publishSafe stage => 1 + waitCost rounds 0 + stage.after rounds steps n
  | .waitTime stage => waitCost rounds begun + stage.after rounds steps n
  | .waitCheck stage => 4 + waitCost rounds begun + stage.after rounds steps n
  | .waitRead stage => 3 + waitCost rounds begun + stage.after rounds steps n
  | .waitPublish stage =>
      2 + waitCost rounds begun + stage.after rounds steps n
  | .waitSleep stage => 1 + waitCost rounds begun + stage.after rounds steps n
  | .setServo => handCost rounds steps n
  | .servoSleep => 4 + rampCost steps (HandStage.safe.after rounds steps n)
  | .setModeCircular =>
      3 + rampCost steps (HandStage.safe.after rounds steps n)
  | .circularSleep => 2 + rampCost steps (HandStage.safe.after rounds steps n)
  | .circularCheck => 1 + rampCost steps (HandStage.safe.after rounds steps n)
  | .snapshot stage => rampCost steps (stage.after rounds steps n)
  | .rampCheck stage _ m k =>
      3 * (m - k) + 3 + (1 + stage.after rounds steps n)
  | .rampPublish stage _ m k =>
      3 * (m - k) + 2 + (1 + stage.after rounds steps n)
  | .rampSleep stage _ m k =>
      3 * (m - k) + 1 + (1 + stage.after rounds steps n)
  | .rampDone stage => 1 + stage.after rounds steps n
  | .trajStart => trajCost rounds steps n
  | .trajCheck m i => 3 * (m - i) + 3 + (2 + saveCost rounds steps)
  | .trajPublish m i => 3 * (m - i) + 2 + (2 + saveCost rounds steps)
  | .trajSleep m i => 3 * (m - i) + 1 + (2 + saveCost rounds steps)
  | .trajHold | .trajLast => 2 + saveCost rounds steps
  | .trajDone => 1 + saveCost rounds steps
  | .setModePosition => saveCost rounds steps
  | .positionSleep => 1 + rampCost steps (closeCost rounds)
  | .settle => closeCost rounds
  | .settleCheck => 5 + (1 + waitCost rounds 0)
  | .closeSnapshot => 4 + (1 + waitCost rounds 0)
  | .closePublish _ => 3 + (1 + waitCost rounds 0)
  | .closeSleep => 2 + (1 + waitCost rounds 0)
  | .lastCheck => 1 + (1 + waitCost rounds 0)
  | .returned _ => 0
  | .raised => 0

def handSteps (p : SequenceParams) : Nat := (rampSteps p.handDur).getD 0

def loopSteps (p : SequenceParams) (traj : JointTrajectory) : Nat :=
  (trajSteps (trajDuration traj) p.trajHz).getD 0

def SeqRun.budget (p : SequenceParams) (traj : JointTrajectory) (rounds : Nat)
    (s : SeqRun) : Nat :=
  s.loc.budget rounds (handSteps p) (loopSteps p traj) s.rounds

theorem waitCost_succ {rounds begun : Nat} (h : begun < rounds) :
    waitCost rounds begun = 5 + waitCost rounds (begun + 1) := by
  unfold waitCost
  omega

variable {abort timeUp : Bool} {view : View} {rounds begun steps n : Nat}

theorem budget_ite_lt {cost : Nat} {loc next : SeqLoc} {b : Prop} [Decidable b]
    (hloc : loc.budget rounds steps n begun < cost)
    (hnext : next.budget rounds steps n begun < cost) :
    (if b then loc else next).budget rounds steps n begun < cost := by
  split_ifs
  · exact hloc
  · exact hnext

theorem budget_publishSample {cost : Nat} {t : ℚ} {next : SeqLoc}
    (hpos : 0 < cost) (hnext : next.budget rounds steps n begun < cost) :
    (publishSample p traj t next).1.budget rounds steps n begun < cost := by
  rcases publishSample_spec p traj t next with heq | ⟨q, _, heq⟩
  · rw [heq]
    exact hpos
  · rw [heq]
    exact hnext

/-- A statement lowers the budget, when no round begins after the deadline. -/
theorem budget_lt_of_seqStep {loc : SeqLoc} {next : SeqLoc × Option IoCall}
    (hdeadline : forall stage, loc = .waitTime stage -> rounds ≤ begun ->
      timeUp = true)
    (hstep : seqStep p traj abort view timeUp loc = some next) :
    next.1.budget rounds (handSteps p) (loopSteps p traj)
        (loc.countRounds begun) <
      loc.budget rounds (handSteps p) (loopSteps p traj) begun := by
  cases loc with
  | publishSafe stage =>
      cases hstep
      simp only [SeqLoc.budget, SeqLoc.countRounds]
      omega
  | waitTime stage =>
      cases hstep
      cases htime : timeUp with
      | true =>
          simp only [SeqLoc.budget, waitCost, if_true]
          omega
      | false =>
          have hbegun : begun < rounds := by
            by_contra hnot
            have hup := hdeadline stage rfl (Nat.not_lt.mp hnot)
            rw [htime] at hup
            cases hup
          simp only [SeqLoc.budget, SeqLoc.countRounds, waitCost_succ hbegun,
            Bool.false_eq_true, if_false]
          omega
  | waitRead stage =>
      cases hstep
      refine budget_ite_lt ?_ ?_
      · cases stage <;>
          simp only [SafeStage.next, SeqLoc.budget, SafeStage.after] <;> omega
      · simp only [SeqLoc.budget, SeqLoc.countRounds]
        omega
  | snapshot stage =>
      cases hstep
      cases hsteps : rampSteps p.handDur with
      | none =>
          simp only [Option.elim_none, SeqLoc.budget, rampCost]
          omega
      | some m =>
          simp only [Option.elim_some, SeqLoc.budget, rampCost, handSteps,
            hsteps, Option.getD_some]
          omega
  | trajStart =>
      cases hstep
      cases hsteps : trajSteps (trajDuration traj) p.trajHz with
      | none =>
          simp only [Option.elim_none, SeqLoc.budget, trajCost]
          omega
      | some m =>
          simp only [Option.elim_some, SeqLoc.budget, trajCost, loopSteps,
            hsteps, Option.getD_some]
          omega
  | rampSleep stage h0 m k =>
      cases hstep
      refine budget_ite_lt ?_ ?_
      · simp only [SeqLoc.budget]
        omega
      · split_ifs <;> simp only [SeqLoc.budget] <;> omega
  | rampDone stage =>
      cases hstep
      refine budget_ite_lt ?_ ?_
      · simp only [SeqLoc.budget]
        omega
      · cases stage <;>
          simp only [HandStage.next, SeqLoc.budget, HandStage.after] <;> omega
  | trajSleep m i =>
      cases hstep
      refine budget_ite_lt ?_ ?_
      · simp only [SeqLoc.budget]
        omega
      · split_ifs <;> simp only [SeqLoc.budget] <;> omega
  | trajPublish m i =>
      cases hstep
      refine budget_publishSample ?_ ?_ <;> simp only [SeqLoc.budget] <;> omega
  | trajLast =>
      cases hstep
      refine budget_publishSample ?_ ?_ <;> simp only [SeqLoc.budget] <;> omega
  | returned ok => cases hstep
  | raised => cases hstep
  | waitCheck stage | circularCheck | rampCheck stage h0 m k | trajCheck m i
  | trajDone | settle | settleCheck | lastCheck =>
      cases hstep
      refine budget_ite_lt ?_ ?_ <;>
        simp only [SeqLoc.budget, SeqLoc.countRounds, closeCost, saveCost,
          SafeStage.after] <;> omega
  | _ =>
      cases hstep
      simp only [SeqLoc.budget, SeqLoc.countRounds, handCost, saveCost,
        HandStage.after]
      omega

theorem budget_start (p : SequenceParams) (traj : JointTrajectory)
    (rounds : Nat) :
    SeqRun.start.budget p traj rounds =
      10 * rounds + 9 * handSteps p + 3 * loopSteps p traj + 38 := by
  simp only [SeqRun.budget, SeqRun.start, SeqLoc.budget, SafeStage.after,
    handCost, rampCost, trajCost, saveCost, closeCost, waitCost]
  omega

/-- Every run is short, and a sequence that is not over has a next statement:
it can only wait for its deadlines. -/
structure Terminates (p : SequenceParams) (traj : JointTrajectory)
    (rounds : Nat) : Prop where
  bounded : forall history s,
    Machine.RunWhere (sequenceStep p traj) (DeadlineAfter rounds) .start
      history s ->
      history.length ≤
        10 * rounds + 9 * handSteps p + 3 * loopSteps p traj + 38
  progress : forall (s : SeqRun) (tick : Tick), s.loc.isEnd = false ->
    (sequenceStep p traj s tick).isSome = true

/-- For all parameters, with samples that raise and sleeps that are refused
among them, and whatever the other threads do. -/
theorem sequence_terminates (p : SequenceParams) (traj : JointTrajectory)
    (rounds : Nat) : Terminates p traj rounds where
  bounded := by
    intro history s hrun
    have hlength : history.length + s.budget p traj rounds ≤
        SeqRun.start.budget p traj rounds := by
      refine Machine.length_add_rank_le (SeqRun.budget p traj rounds)
        (fun _ _ _ _ _ _ => True.intro) ?_ True.intro hrun
      intro t tick t' _ hdeadline hstep
      rcases eq_of_sequenceStep hstep with ⟨next, hnext, heq⟩
      rw [heq]
      exact budget_lt_of_seqStep hdeadline hnext
    rw [budget_start] at hlength
    omega
  progress := fun s tick hloc => sequenceStep_isSome s tick hloc

end Orchestrator
end FrankaKistar
