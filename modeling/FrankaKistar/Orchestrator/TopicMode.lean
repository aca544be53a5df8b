import FrankaKistar.Orchestrator.Stop
import FrankaKistar.Orchestrator.Transcript

/-!
# The topic mode

Without an action server `main` runs the sequence itself.  A cycle clears both
events, waits for the key `S`, takes the newest trajectory of the topic,
normalises it and runs the sequence.  The abort event is cleared once, in front
of the wait, so unlike with goals a key `t` that comes after this clear stops
the sequence of the cycle wherever it is.
-/

namespace FrankaKistar
namespace Orchestrator

open Foundation

/-!
## State
-/

/-- The next statement of `main`. -/
inductive TopicLoc where
  | loopOk
  | clearStart
  | clearAbort
  | waitOk
  | waitStart
  | checkOk
  | getTraj
  | normalize (raw : JointTrajectory)
  | running (traj : JointTrajectory) (loc : SeqLoc)
  | ended

/-- What happened since the clears of the cycle: the newest message when the
trajectory was taken, the message that it runs, the calls of its sequence with
their stages, what it has returned, whether its last check was made, and whether
a stop came, came before that check, and came before the first call. -/
structure Cycle where
  newest : Option JointTrajectory
  raw : Option JointTrajectory
  issued : List (Nat × IoCall)
  verdict : Option Bool
  checked : Bool
  requested : Bool
  inTime : Bool
  early : Bool

def Cycle.fresh : Cycle := ⟨none, none, [], none, false, false, false, false⟩

/-- `latestTraj` is what `_on_traj` has kept, and `received` are all messages,
newest first.  `holding` is the keyboard thread between `_abort_event.set()` and
`io.hold_franka()`. -/
structure Topic where
  loc : TopicLoc
  rosOk : Bool
  abort : Bool
  startSeq : Bool
  latestTraj : Option JointTrajectory
  received : List JointTrajectory
  view : View
  holding : Bool
  published : List IoCall
  cycle : Cycle

def Topic.start (view : View) : Topic where
  loc := .loopOk
  rosOk := true
  abort := false
  startSeq := false
  latestTraj := none
  received := []
  view := view
  holding := false
  published := []
  cycle := .fresh

/-!
## Steps
-/

/-- `main` runs the sequence to its return; an error leaves the loop. -/
def TopicLoc.afterSequence : SeqLoc -> TopicLoc
  | .returned _ => .loopOk
  | _ => .ended

def SeqLoc.verdict : SeqLoc -> Option Bool
  | .returned ok => some ok
  | _ => none

def Cycle.advance (c : Cycle) (loc : SeqLoc)
    (next : SeqLoc × Option IoCall) : Cycle :=
  { c with
    issued := (next.2.map fun call => (loc.stage, call)).toList ++ c.issued
    checked := c.checked || loc.isLastCheck }

def Cycle.markStop (c : Cycle) : Cycle :=
  { c with
    requested := true
    inTime := c.inTime || !c.checked
    early := c.early || c.issued.isEmpty }

def runningTopic (cfg : OrchestratorConfig) (timeUp : Bool) (s : Topic)
    (traj : JointTrajectory) (loc : SeqLoc) : Topic :=
  match seqStep cfg.params traj s.abort s.view timeUp loc with
  | none =>
      { s with
        loc := .afterSequence loc
        cycle := { s.cycle with verdict := loc.verdict } }
  | some next =>
      { s with
        loc := .running traj next.1
        published := next.2.toList ++ s.published
        cycle := s.cycle.advance loc next }

/-- A message that is refused ends the cycle. -/
def normalizeTopic (cfg : OrchestratorConfig) (s : Topic)
    (raw : JointTrajectory) : Topic :=
  match normalizeTrajectoryForArm raw cfg.expectedJointNames with
  | .error _ => { s with loc := .loopOk }
  | .ok traj =>
      { s with
        loc := .running traj (.publishSafe .first)
        cycle := { s.cycle with raw := some raw } }

/-- One statement of `main`; `timeUp` is used by the sequence only. -/
def mainStep (cfg : OrchestratorConfig) (timeUp : Bool) (s : Topic) :
    Option Topic :=
  match s.loc with
  | .loopOk =>
      some { s with loc := if s.rosOk then .clearStart else .ended }
  | .clearStart =>
      some { s with loc := .clearAbort, startSeq := false, cycle := .fresh }
  | .clearAbort =>
      some { s with loc := .waitOk, abort := false, cycle := .fresh }
  | .waitOk => some { s with loc := if s.rosOk then .waitStart else .checkOk }
  | .waitStart =>
      some { s with loc := if s.startSeq then .checkOk else .waitOk }
  | .checkOk => some { s with loc := if s.rosOk then .getTraj else .ended }
  | .getTraj =>
      some
        { s with
          loc := s.latestTraj.elim .loopOk .normalize
          cycle := { s.cycle with newest := s.received.head? } }
  | .normalize raw => some (normalizeTopic cfg s raw)
  | .running traj loc => some (runningTopic cfg timeUp s traj loc)
  | .ended => none

inductive TopicEvent where
  | main (timeUp : Bool)
  | traj (msg : JointTrajectory)
  | pressS
  | pressT
  | hold
  | armState (q : Joints ExactDouble)
  | handState (h : Hand)
  | shutdown

def topicStep (cfg : OrchestratorConfig) : Machine Topic TopicEvent
  | s, .main timeUp => mainStep cfg timeUp s
  | s, .traj msg =>
      some { s with latestTraj := some msg, received := msg :: s.received }
  | s, .pressS => if s.holding then none else some { s with startSeq := true }
  | s, .pressT =>
      if s.holding then none
      else
        some
          { s with abort := true, holding := true, cycle := s.cycle.markStop }
  | s, .hold =>
      if s.holding then
        some
          { s with
            holding := false
            published := .holdFranka s.view.frankaQ :: s.published }
      else none
  | s, .armState q => some { s with view := { s.view with frankaQ := q } }
  | s, .handState h => some { s with view := { s.view with handQ := h } }
  | s, .shutdown => some { s with rosOk := false }

/-!
## What is promised
-/

def Cycle.calls (c : Cycle) : List IoCall := (c.issued.map Prod.snd).reverse

/-- The message was the newest when it was taken, and it normalises to the
trajectory. -/
def Topic.Source (cfg : OrchestratorConfig) (s : Topic)
    (traj : JointTrajectory) : Prop :=
  exists raw, s.cycle.raw = some raw ∧ s.cycle.newest = some raw ∧
    normalizeTrajectoryForArm raw cfg.expectedJointNames = .ok traj

def Topic.Runs (cfg : OrchestratorConfig) (s : Topic)
    (traj : JointTrajectory) : Prop :=
  exists ticks run,
    Machine.Run (sequenceStep cfg.params traj) .start ticks run ∧
      run.calls = s.cycle.calls

/-- The cycle has commanded nothing before the key `S`, and nothing but the
sequence of its trajectory.  A stop in time keeps stage 7 and the success away,
one before the first call keeps everything but stage 1 away, and a success has
said all seven stages. -/
structure CycleKept (cfg : OrchestratorConfig) (s : Topic) : Prop where
  started : s.cycle.issued ≠ [] -> s.startSeq = true
  sequence : s.cycle.issued ≠ [] ->
    exists traj, s.Source cfg traj ∧ s.Runs cfg traj
  stopped : s.cycle.inTime = true ->
    s.cycle.verdict ≠ some true ∧
      forall call, call ∈ s.cycle.issued -> call.1 ≠ 7
  early : s.cycle.early = true ->
    forall call, call ∈ s.cycle.issued -> call.1 = 1
  complete : s.cycle.verdict = some true ->
    exists traj, s.Source cfg traj ∧
      s.cycle.calls ∈ fullTranscript cfg.params traj

/-!
## The invariant
-/

/-- From the clear of the event to the sequence. -/
def TopicLoc.isIdle : TopicLoc -> Bool
  | .waitOk | .waitStart | .checkOk | .getTraj | .normalize _ => true
  | _ => false

/-- The key `S` has let the cycle go on. -/
def TopicLoc.isStarted : TopicLoc -> Bool
  | .getTraj | .normalize _ | .running _ _ => true
  | _ => false

/-- What holds while the sequence runs. -/
structure RunningTopic (cfg : OrchestratorConfig) (s : Topic)
    (traj : JointTrajectory) (loc : SeqLoc) : Prop where
  source : s.Source cfg traj
  follows : Follows cfg.params traj s.cycle.calls s.abort loc
  heard : s.cycle.requested = true -> s.abort = true
  stopped : s.cycle.inTime = true ∨ s.cycle.checked = false ->
    loc.succeeding = false ∧ forall call, call ∈ s.cycle.issued -> call.1 ≠ 7
  early : s.cycle.early = true ->
    loc.unchecked = true ∧ forall call, call ∈ s.cycle.issued -> call.1 = 1
  begun : s.cycle.issued = [] -> (ExecLoc.running loc).atFirstCall = true
  marked : s.cycle.inTime = true ∨ s.cycle.early = true ->
    s.cycle.requested = true
  verdict : s.cycle.verdict = none

/-- A stop that comes now is in time when the last check is still ahead. -/
structure CycleInv (cfg : OrchestratorConfig) (s : Topic) : Prop where
  kept : CycleKept cfg s
  unchecked : s.cycle.checked = false ->
    s.cycle.verdict ≠ some true ∧
      forall call, call ∈ s.cycle.issued -> call.1 ≠ 7

structure TopicInv (cfg : OrchestratorConfig) (s : Topic) : Prop where
  cycle : CycleInv cfg s
  idle : s.loc.isIdle = true ->
    s.cycle.issued = [] ∧ s.cycle.verdict = none ∧ s.cycle.checked = false ∧
      (s.cycle.requested = true -> s.abort = true) ∧
      (s.cycle.inTime = true ∨ s.cycle.early = true ->
        s.cycle.requested = true)
  checkOk : s.loc = .checkOk -> s.rosOk = false ∨ s.startSeq = true
  started : s.loc.isStarted = true -> s.startSeq = true
  latest : s.latestTraj = s.received.head?
  raw : forall msg, s.loc = .normalize msg -> s.cycle.newest = some msg
  running : forall traj loc, s.loc = .running traj loc ->
    RunningTopic cfg s traj loc

theorem cycleInv_of_silent {cfg : OrchestratorConfig} {s : Topic}
    (hissued : s.cycle.issued = []) (hverdict : s.cycle.verdict = none) :
    CycleInv cfg s := by
  have hsilent : s.cycle.verdict ≠ some true ∧
      forall call, call ∈ s.cycle.issued -> call.1 ≠ 7 := by
    rw [hverdict, hissued]
    refine ⟨(Option.some_ne_none true).symm, ?_⟩
    intro call hcall
    cases hcall
  refine ⟨⟨fun h => absurd hissued h, fun h => absurd hissued h,
    fun _ => hsilent, ?_, ?_⟩, fun _ => hsilent⟩
  · intro _ call hcall
    rw [hissued] at hcall
    cases hcall
  · intro h
    rw [hverdict] at h
    cases h

theorem RunningTopic.runs {cfg : OrchestratorConfig} {s : Topic}
    {traj : JointTrajectory} {loc : SeqLoc} (hs : RunningTopic cfg s traj loc) :
    s.Runs cfg traj := by
  rcases hs.follows with ⟨ticks, run, hrun, _, hcalls, _⟩
  exact ⟨ticks, run, hrun, hcalls⟩

theorem cycleInv_of_running {cfg : OrchestratorConfig} {s : Topic}
    {traj : JointTrajectory} {loc : SeqLoc} (hs : RunningTopic cfg s traj loc)
    (hstart : s.startSeq = true) : CycleInv cfg s := by
  have hstopped : s.cycle.inTime = true ∨ s.cycle.checked = false ->
      s.cycle.verdict ≠ some true ∧
        forall call, call ∈ s.cycle.issued -> call.1 ≠ 7 := by
    intro h
    rw [hs.verdict]
    exact ⟨(Option.some_ne_none true).symm, (hs.stopped h).2⟩
  refine ⟨⟨fun _ => hstart, fun _ => ⟨traj, hs.source, hs.runs⟩,
    fun h => hstopped (Or.inl h), fun h => (hs.early h).2, ?_⟩,
    fun h => hstopped (Or.inr h)⟩
  intro h
  rw [hs.verdict] at h
  cases h

/-!
## The steps of the sequence
-/

theorem runningTopic_advance {cfg : OrchestratorConfig} {s : Topic}
    {traj : JointTrajectory} {loc : SeqLoc} {timeUp : Bool}
    {next : SeqLoc × Option IoCall} {s' : Topic}
    (hs : RunningTopic cfg s traj loc)
    (hstep : seqStep cfg.params traj s.abort s.view timeUp loc = some next)
    (heq : s' =
      { s with
        loc := .running traj next.1
        published := next.2.toList ++ s.published
        cycle := s.cycle.advance loc next }) :
    RunningTopic cfg s' traj next.1 := by
  rw [heq]
  refine ⟨hs.source, ?_, hs.heard, ?_, ?_, ?_, hs.marked, hs.verdict⟩
  · have hcalls : (s.cycle.advance loc next).calls =
        s.cycle.calls ++ next.2.toList :=
      reverse_map_advance s.cycle.issued loc.stage next.2
    show Follows cfg.params traj (s.cycle.advance loc next).calls _ _
    rw [hcalls]
    exact follows_advance hs.follows hstep
  · intro h
    have hbefore : s.cycle.inTime = true ∨ s.cycle.checked = false := by
      rcases h with htime | hchecked
      · exact Or.inl htime
      · exact Or.inr (Bool.or_eq_false_iff.mp hchecked).1
    rcases hs.stopped hbefore with ⟨hsucc, hissued⟩
    refine ⟨succeeding_of_step hstep hsucc ?_, ?_⟩
    · intro hlast
      rcases h with htime | hchecked
      · exact hs.heard (hs.marked (Or.inl htime))
      · have hnot := (Bool.or_eq_false_iff.mp hchecked).2
        rw [hlast] at hnot
        cases hnot
    · intro call hcall
      rcases List.mem_append.mp hcall with hnew | hold
      · rcases Option.map_eq_some_iff.mp (Option.mem_toList.mp hnew) with
          ⟨_, _, hcalled⟩
        rw [← hcalled]
        exact stage_ne_seven hsucc
      · exact hissued call hold
  · intro hearly
    rcases hs.early hearly with ⟨hunchecked, hissued⟩
    rw [hs.heard (hs.marked (Or.inr hearly))] at hstep
    have hafter := unchecked_of_abort hstep hunchecked
    refine ⟨hafter.1, ?_⟩
    intro call hcall
    rcases List.mem_append.mp hcall with hnew | hold
    · rcases Option.map_eq_some_iff.mp (Option.mem_toList.mp hnew) with
        ⟨_, _, hcalled⟩
      rw [← hcalled]
      exact hafter.2
    · exact hissued call hold
  · intro hnil
    rcases List.append_eq_nil_iff.mp hnil with ⟨hnone, hissued⟩
    rcases Option.isSome_iff_exists.mp
      (call_of_atFirstCall hstep (hs.begun hissued)) with ⟨call, hcall⟩
    rw [hcall] at hnone
    cases hnone

theorem cycleInv_ended {cfg : OrchestratorConfig} {s s' : Topic}
    {traj : JointTrajectory} {loc : SeqLoc} (hs : RunningTopic cfg s traj loc)
    (hstart : s.startSeq = true)
    (heq : s' =
      { s with
        loc := .afterSequence loc
        cycle := { s.cycle with verdict := loc.verdict } }) :
    CycleInv cfg s' := by
  rw [heq]
  have hstopped : s.cycle.inTime = true ∨ s.cycle.checked = false ->
      loc.verdict ≠ some true ∧
        forall call, call ∈ s.cycle.issued -> call.1 ≠ 7 := by
    intro h
    rcases hs.stopped h with ⟨hsucc, hissued⟩
    refine ⟨?_, hissued⟩
    intro hverdict
    cases loc with
    | returned ok =>
        have hfalse : ok = false := hsucc
        rw [hfalse] at hverdict
        cases hverdict
    | _ => cases hverdict
  refine ⟨⟨fun _ => hstart, fun _ => ⟨traj, hs.source, hs.runs⟩,
    fun h => hstopped (Or.inl h), fun h => (hs.early h).2, ?_⟩,
    fun h => hstopped (Or.inr h)⟩
  intro hverdict
  cases loc with
  | returned ok =>
      have htrue : ok = true := Option.some.inj hverdict
      have hfollows := hs.follows
      rw [htrue] at hfollows
      exact ⟨traj, hs.source, hfollows.fullTranscript⟩
  | _ => cases hverdict

/-!
## The steps of `main`
-/

theorem topicInv_of_cycle {cfg : OrchestratorConfig} {s : Topic}
    (hcycle : CycleInv cfg s) (hidle : s.loc.isIdle = false)
    (hstarted : s.loc.isStarted = false)
    (hlatest : s.latestTraj = s.received.head?) : TopicInv cfg s where
  cycle := hcycle
  idle := by
    intro h
    rw [hidle] at h
    cases h
  checkOk := by
    intro h
    rw [h] at hidle
    cases hidle
  started := by
    intro h
    rw [hstarted] at h
    cases h
  latest := hlatest
  raw := by
    intro msg h
    rw [h] at hidle
    cases hidle
  running := by
    intro traj loc h
    rw [h] at hstarted
    cases hstarted

theorem topicInv_wait {cfg : OrchestratorConfig} {s : Topic} {loc : TopicLoc}
    (hs : TopicInv cfg s) (hfrom : s.loc.isIdle = true)
    (hto : loc.isIdle = true)
    (hcheck : loc = .checkOk -> s.rosOk = false ∨ s.startSeq = true)
    (hstarted : loc.isStarted = true -> s.startSeq = true)
    (hraw : forall msg, loc = .normalize msg -> s.cycle.newest = some msg) :
    TopicInv cfg { s with loc := loc } where
  cycle := cycleInv_of_silent (hs.idle hfrom).1 (hs.idle hfrom).2.1
  idle := fun _ => hs.idle hfrom
  checkOk := hcheck
  started := hstarted
  latest := hs.latest
  raw := hraw
  running := by
    intro traj seq h
    have hrunning : loc = .running traj seq := h
    rw [hrunning] at hto
    cases hto

theorem topicInv_take {cfg : OrchestratorConfig} {s : Topic}
    (hs : TopicInv cfg s) (hloc : s.loc = .getTraj) :
    TopicInv cfg
      { s with cycle := { s.cycle with newest := s.received.head? } } where
  cycle :=
    have hidle := hs.idle (by rw [hloc]; rfl)
    cycleInv_of_silent hidle.1 hidle.2.1
  idle := hs.idle
  checkOk := hs.checkOk
  started := hs.started
  latest := hs.latest
  raw := by
    intro msg h
    dsimp only at h
    rw [hloc] at h
    cases h
  running := by
    intro traj loc h
    dsimp only at h
    rw [hloc] at h
    cases h

theorem topicInv_normalize {cfg : OrchestratorConfig} {s : Topic}
    {raw : JointTrajectory} (hs : TopicInv cfg s) (hloc : s.loc = .normalize raw) :
    TopicInv cfg (normalizeTopic cfg s raw) := by
  have hidle := hs.idle (by rw [hloc]; rfl)
  have hstart := hs.started (by rw [hloc]; rfl)
  unfold normalizeTopic
  split
  · exact topicInv_of_cycle (cycleInv_of_silent hidle.1 hidle.2.1) rfl rfl
      hs.latest
  · rename_i traj hnormal
    have hcalls : s.cycle.calls = [] := by
      rw [Cycle.calls, hidle.1]
      rfl
    have hrunning : RunningTopic cfg
        { s with
          loc := .running traj (.publishSafe .first)
          cycle := { s.cycle with raw := some raw } }
        traj (.publishSafe .first) := by
      refine ⟨⟨raw, rfl, hs.raw raw hloc, hnormal⟩, ?_, hidle.2.2.2.1, ?_, ?_,
        fun _ => rfl, hidle.2.2.2.2, hidle.2.1⟩
      · show Follows cfg.params traj s.cycle.calls _ _
        rw [hcalls]
        exact follows_start
      · intro _
        refine ⟨rfl, ?_⟩
        intro call hcall
        have hmem : call ∈ s.cycle.issued := hcall
        rw [hidle.1] at hmem
        cases hmem
      · intro _
        refine ⟨rfl, ?_⟩
        intro call hcall
        have hmem : call ∈ s.cycle.issued := hcall
        rw [hidle.1] at hmem
        cases hmem
    refine ⟨cycleInv_of_running hrunning hstart, ?_, ?_, fun _ => hstart,
      hs.latest, ?_, ?_⟩
    · intro h
      cases h
    · intro h
      cases h
    · intro msg h
      cases h
    · intro traj' loc' h
      cases h
      exact hrunning

theorem topicInv_running {cfg : OrchestratorConfig} {timeUp : Bool} {s : Topic}
    {traj : JointTrajectory} {loc : SeqLoc} (hs : TopicInv cfg s)
    (hloc : s.loc = .running traj loc) :
    TopicInv cfg (runningTopic cfg timeUp s traj loc) := by
  have hrunning := hs.running traj loc hloc
  have hstart := hs.started (by rw [hloc]; rfl)
  unfold runningTopic
  split
  · refine topicInv_of_cycle (cycleInv_ended hrunning hstart rfl) ?_ ?_
      hs.latest
    · cases loc <;> rfl
    · cases loc <;> rfl
  · rename_i next hstep
    have hnext := runningTopic_advance hrunning hstep rfl
    refine ⟨cycleInv_of_running hnext hstart, ?_, ?_, fun _ => hstart,
      hs.latest, ?_, ?_⟩
    · intro h
      cases h
    · intro h
      cases h
    · intro msg h
      cases h
    · intro traj' loc' h
      cases h
      exact hnext

theorem topicInv_mainStep {cfg : OrchestratorConfig} {timeUp : Bool}
    {s s' : Topic} (hs : TopicInv cfg s)
    (hstep : mainStep cfg timeUp s = some s') : TopicInv cfg s' := by
  unfold mainStep at hstep
  cases hloc : s.loc with
  | loopOk =>
      simp only [hloc, Option.some.injEq] at hstep
      cases hstep
      have hkept := hs.cycle.kept
      refine topicInv_of_cycle ⟨⟨hkept.started, hkept.sequence, hkept.stopped,
        hkept.early, hkept.complete⟩, hs.cycle.unchecked⟩ ?_ ?_ hs.latest <;>
        simp only <;> split_ifs <;> rfl
  | clearStart =>
      simp only [hloc, Option.some.injEq] at hstep
      cases hstep
      exact topicInv_of_cycle (cycleInv_of_silent rfl rfl) rfl rfl hs.latest
  | clearAbort =>
      simp only [hloc, Option.some.injEq] at hstep
      cases hstep
      refine ⟨cycleInv_of_silent rfl rfl, ?_, ?_, ?_, hs.latest, ?_, ?_⟩
      · intro _
        refine ⟨rfl, rfl, rfl, ?_, ?_⟩
        · intro h
          cases h
        · intro h
          rcases h with h | h <;> cases h
      · intro h
        cases h
      · intro h
        cases h
      · intro msg h
        cases h
      · intro traj loc h
        cases h
  | waitOk =>
      simp only [hloc, Option.some.injEq] at hstep
      cases hstep
      refine topicInv_wait hs (by rw [hloc]; rfl) ?_ ?_ ?_ ?_
      · split_ifs <;> rfl
      · intro h
        split_ifs at h with hok
        exact Or.inl (Bool.eq_false_iff.mpr hok)
      · intro h
        split_ifs at h <;> cases h
      · intro msg h
        split_ifs at h
  | waitStart =>
      simp only [hloc, Option.some.injEq] at hstep
      cases hstep
      refine topicInv_wait hs (by rw [hloc]; rfl) ?_ ?_ ?_ ?_
      · split_ifs <;> rfl
      · intro h
        split_ifs at h with hstart
        exact Or.inr hstart
      · intro h
        split_ifs at h <;> cases h
      · intro msg h
        split_ifs at h
  | checkOk =>
      simp only [hloc, Option.some.injEq] at hstep
      cases hstep
      have hidle := hs.idle (by rw [hloc]; rfl)
      by_cases hok : s.rosOk = true
      · rw [if_pos hok]
        have hstart : s.startSeq = true := by
          rcases hs.checkOk hloc with hdown | hstart
          · rw [hok] at hdown
            cases hdown
          · exact hstart
        refine topicInv_wait hs (by rw [hloc]; rfl) rfl ?_ (fun _ => hstart) ?_
        · intro h
          cases h
        · intro msg h
          cases h
      · rw [if_neg hok]
        exact topicInv_of_cycle (cycleInv_of_silent hidle.1 hidle.2.1) rfl
          rfl hs.latest
  | getTraj =>
      simp only [hloc, Option.some.injEq] at hstep
      cases hstep
      have hidle := hs.idle (by rw [hloc]; rfl)
      have hstart := hs.started (by rw [hloc]; rfl)
      by_cases hlatest : exists raw, s.latestTraj = some raw
      · rcases hlatest with ⟨raw, hraw⟩
        have hnext : s.latestTraj.elim TopicLoc.loopOk TopicLoc.normalize =
            .normalize raw := by
          rw [hraw]
          rfl
        rw [hnext]
        refine topicInv_wait (topicInv_take hs hloc) ?_ rfl ?_
          (fun _ => hstart) ?_
        · dsimp only
          rw [hloc]
          rfl
        · intro h
          cases h
        · intro msg h
          cases h
          dsimp only
          rw [<- hs.latest]
          exact hraw
      · have hnone : s.latestTraj = none := by
          rw [Option.eq_none_iff_forall_ne_some]
          exact fun raw hraw => hlatest ⟨raw, hraw⟩
        have hnext : s.latestTraj.elim TopicLoc.loopOk TopicLoc.normalize =
            .loopOk := by
          rw [hnone]
          rfl
        rw [hnext]
        exact topicInv_of_cycle (cycleInv_of_silent hidle.1 hidle.2.1) rfl
          rfl hs.latest
  | normalize raw =>
      simp only [hloc, Option.some.injEq] at hstep
      cases hstep
      exact topicInv_normalize hs hloc
  | running traj loc =>
      simp only [hloc, Option.some.injEq] at hstep
      cases hstep
      exact topicInv_running hs hloc
  | ended =>
      simp only [hloc] at hstep
      cases hstep

/-!
## The steps of the other threads
-/

/-- The callbacks and the key `S` leave the cycle and the abort event alone. -/
structure OutsideTopic (s s' : Topic) : Prop where
  loc : s'.loc = s.loc
  cycle : s'.cycle = s.cycle
  abort : s'.abort = s.abort
  rosOk : s.rosOk = false -> s'.rosOk = false
  startSeq : s.startSeq = true -> s'.startSeq = true
  latest : s.latestTraj = s.received.head? ->
    s'.latestTraj = s'.received.head?

theorem OutsideTopic.source {cfg : OrchestratorConfig} {s s' : Topic}
    {traj : JointTrajectory} (h : OutsideTopic s s')
    (hs : s.Source cfg traj) : s'.Source cfg traj := by
  unfold Topic.Source at hs ⊢
  rw [h.cycle]
  exact hs

theorem OutsideTopic.runs {cfg : OrchestratorConfig} {s s' : Topic}
    {traj : JointTrajectory} (h : OutsideTopic s s') (hs : s.Runs cfg traj) :
    s'.Runs cfg traj := by
  unfold Topic.Runs at hs ⊢
  rw [h.cycle]
  exact hs

theorem topicInv_outside {cfg : OrchestratorConfig} {s s' : Topic}
    (hs : TopicInv cfg s) (h : OutsideTopic s s') : TopicInv cfg s' := by
  have hkept := hs.cycle.kept
  refine ⟨⟨⟨?_, ?_, ?_, ?_, ?_⟩, ?_⟩, ?_, ?_, ?_, h.latest hs.latest, ?_, ?_⟩
  · rw [h.cycle]
    exact fun hissued => h.startSeq (hkept.started hissued)
  · intro hissued
    rw [h.cycle] at hissued
    rcases hkept.sequence hissued with ⟨traj, hsource, hruns⟩
    exact ⟨traj, h.source hsource, h.runs hruns⟩
  · rw [h.cycle]
    exact hkept.stopped
  · rw [h.cycle]
    exact hkept.early
  · intro hverdict
    rw [h.cycle] at hverdict
    rcases hkept.complete hverdict with ⟨traj, hsource, hcalls⟩
    rw [h.cycle]
    exact ⟨traj, h.source hsource, hcalls⟩
  · rw [h.cycle]
    exact hs.cycle.unchecked
  · rw [h.loc, h.cycle, h.abort]
    exact hs.idle
  · intro hloc
    rw [h.loc] at hloc
    exact (hs.checkOk hloc).imp h.rosOk h.startSeq
  · intro hloc
    rw [h.loc] at hloc
    exact h.startSeq (hs.started hloc)
  · intro msg hloc
    rw [h.loc] at hloc
    rw [h.cycle]
    exact hs.raw msg hloc
  · intro traj loc hloc
    rw [h.loc] at hloc
    have hrunning := hs.running traj loc hloc
    refine ⟨h.source hrunning.source, ?_, ?_, ?_, ?_, ?_, ?_, ?_⟩ <;>
      rw [h.cycle]
    · rw [h.abort]
      exact hrunning.follows
    · rw [h.abort]
      exact hrunning.heard
    · exact hrunning.stopped
    · exact hrunning.early
    · exact hrunning.begun
    · exact hrunning.marked
    · exact hrunning.verdict

theorem runningTopic_pressT {cfg : OrchestratorConfig} {s : Topic}
    {traj : JointTrajectory} {loc : SeqLoc}
    (hs : RunningTopic cfg s traj loc) :
    RunningTopic cfg
      { s with abort := true, holding := true, cycle := s.cycle.markStop }
      traj loc where
  source := hs.source
  follows := hs.follows.mono fun _ => rfl
  heard := fun _ => rfl
  stopped := by
    intro h
    have hbefore : s.cycle.inTime = true ∨ s.cycle.checked = false := by
      simpa [Cycle.markStop, or_assoc] using h
    exact hs.stopped hbefore
  early := by
    intro h
    rcases Bool.or_eq_true_iff.mp h with hearly | hempty
    · exact hs.early hearly
    · have hnil : s.cycle.issued = [] := List.isEmpty_iff.mp hempty
      refine ⟨unchecked_of_atFirstCall (hs.begun hnil), ?_⟩
      intro call hcall
      rw [show s.cycle.markStop.issued = [] from hnil] at hcall
      cases hcall
  begun := hs.begun
  marked := fun _ => rfl
  verdict := hs.verdict

theorem topicInv_pressT {cfg : OrchestratorConfig} {s : Topic}
    (hs : TopicInv cfg s) :
    TopicInv cfg
      { s with abort := true, holding := true, cycle := s.cycle.markStop } := by
  have hkept := hs.cycle.kept
  refine ⟨⟨⟨hkept.started, hkept.sequence, ?_, ?_, hkept.complete⟩,
    hs.cycle.unchecked⟩, ?_, hs.checkOk, hs.started, hs.latest, hs.raw, ?_⟩
  · intro h
    rcases Bool.or_eq_true_iff.mp h with htime | hchecked
    · exact hkept.stopped htime
    · have hbefore : s.cycle.checked = false := by
        simpa using hchecked
      exact hs.cycle.unchecked hbefore
  · intro h
    rcases Bool.or_eq_true_iff.mp h with hearly | hempty
    · exact hkept.early hearly
    · have hnil : s.cycle.issued = [] := List.isEmpty_iff.mp hempty
      intro call hcall
      rw [show s.cycle.markStop.issued = [] from hnil] at hcall
      cases hcall
  · intro hloc
    have hidle := hs.idle hloc
    exact ⟨hidle.1, hidle.2.1, hidle.2.2.1, fun _ => rfl, fun _ => rfl⟩
  · intro traj loc hloc
    exact runningTopic_pressT (hs.running traj loc hloc)

theorem topicInv_step {cfg : OrchestratorConfig} {s s' : Topic}
    {e : TopicEvent} (hs : TopicInv cfg s)
    (hstep : topicStep cfg s e = some s') : TopicInv cfg s' := by
  cases e with
  | main timeUp => exact topicInv_mainStep hs hstep
  | traj msg =>
      cases hstep
      exact topicInv_outside hs ⟨rfl, rfl, rfl, id, id, fun _ => rfl⟩
  | pressS =>
      simp only [topicStep] at hstep
      split at hstep
      · cases hstep
      · cases hstep
        exact topicInv_outside hs ⟨rfl, rfl, rfl, id, fun _ => rfl, id⟩
  | pressT =>
      simp only [topicStep] at hstep
      split at hstep
      · cases hstep
      · cases hstep
        exact topicInv_pressT hs
  | hold =>
      simp only [topicStep] at hstep
      split at hstep
      · cases hstep
        exact topicInv_outside hs ⟨rfl, rfl, rfl, id, id, id⟩
      · cases hstep
  | armState q =>
      cases hstep
      exact topicInv_outside hs ⟨rfl, rfl, rfl, id, id, id⟩
  | handState h =>
      cases hstep
      exact topicInv_outside hs ⟨rfl, rfl, rfl, id, id, id⟩
  | shutdown =>
      cases hstep
      exact topicInv_outside hs ⟨rfl, rfl, rfl, fun _ => rfl, id, id⟩

theorem topicInv_start (cfg : OrchestratorConfig) (view : View) :
    TopicInv cfg (.start view) := by
  exact topicInv_of_cycle (cycleInv_of_silent rfl rfl) rfl rfl rfl

/-- In every run of the topic mode, every cycle keeps what it has to. -/
theorem cycleKept_of_run {cfg : OrchestratorConfig} {view : View}
    {history : List TopicEvent} {s : Topic}
    (hrun : Machine.Run (topicStep cfg) (.start view) history s) :
    CycleKept cfg s :=
  (Machine.invariant_of_step (fun _ _ _ hs _ => topicInv_step hs)
    (topicInv_start cfg view) hrun).cycle.kept

/-- A message comes in, `S` starts its sequence, and `t` stops it in stage 1. -/
def stoppedByKey : List TopicEvent :=
  .traj restingGoal :: List.replicate 3 (.main false) ++ [.pressS] ++
    List.replicate 8 (.main false) ++ [.pressT, .hold] ++
    List.replicate 6 (.main false)

def stoppedInCycle (s : Topic) : Bool :=
  s.cycle.inTime && s.cycle.verdict == some false && !s.cycle.issued.isEmpty

theorem cycleKept_stoppedByKey :
    exists s : Topic, stoppedInCycle s = true ∧ CycleKept .default s := by
  have hrun : ((topicStep .default).runFrom (.start .start) stoppedByKey).any
      stoppedInCycle = true := by
    decide +kernel
  rcases Machine.exists_run_of_any hrun with ⟨s, hs, hstopped⟩
  exact ⟨s, hstopped, cycleKept_of_run hs⟩

end Orchestrator
end FrankaKistar
