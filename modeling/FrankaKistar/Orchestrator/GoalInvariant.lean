import FrankaKistar.Orchestrator.Goals

/-!
# One goal and its stop requests

What a step of the execute callback preserves for its goal.  Stage 7 is reached
through the last check of the abort event only, and stage 2 through the first
wait loop only, so a goal whose request is recorded and whose event is set stays
where it was.
-/

namespace FrankaKistar
namespace Orchestrator

open Foundation

variable {status : Type}

/-!
## Locations
-/

def ExecLoc.holdsBusy : ExecLoc -> Bool
  | .resetActive => false
  | .conclude => false
  | .done => false
  | _ => true

def ExecLoc.clears : ExecLoc -> Bool
  | .firstClear => true
  | .secondClear => true
  | _ => false

def ExecLoc.isSecondClear : ExecLoc -> Bool
  | .secondClear => true
  | _ => false

def ExecLoc.isRunning : ExecLoc -> Bool
  | .running _ => true
  | _ => false

theorem holdsBusy_of_isRunning {loc : ExecLoc} (h : loc.isRunning = true) :
    loc.holdsBusy = true := by
  cases loc with
  | running loc => rfl
  | _ => cases h

/-- Stage 7 and the way from it to success. -/
def SeqLoc.succeeding : SeqLoc -> Bool
  | .returned ok => ok
  | loc => loc.stage == 7

def ExecLoc.succeeding : ExecLoc -> Bool
  | .running loc => loc.succeeding
  | .finish ok => ok
  | .ending e => e == .succeed
  | _ => false

/-- Up to the first check of the event, and after the sequence. -/
def SeqLoc.unchecked : SeqLoc -> Bool
  | .publishSafe .first => true
  | .waitTime .first => true
  | .waitCheck .first => true
  | .returned _ => true
  | .raised => true
  | _ => false

def ExecLoc.unchecked : ExecLoc -> Bool
  | .running loc => loc.unchecked
  | _ => true

/-- The sequence is not running, or about to make its first call. -/
def ExecLoc.atFirstCall : ExecLoc -> Bool
  | .running (.publishSafe .first) => true
  | .running _ => false
  | _ => true

theorem unchecked_of_atFirstCall {loc : ExecLoc} (h : loc.atFirstCall = true) :
    loc.unchecked = true := by
  cases loc with
  | running loc =>
      cases loc with
      | publishSafe stage =>
          cases stage with
          | first => rfl
          | last => cases h
      | _ => cases h
  | _ => rfl

/-!
## Steps of the sequence
-/

theorem succeeding_of_step {p : SequenceParams} {traj : JointTrajectory}
    {abort choice : Bool} {view : View} {loc : SeqLoc}
    {next : SeqLoc × Option IoCall}
    (hstep : seqStep p traj abort view choice loc = some next)
    (hloc : loc.succeeding = false)
    (hcheck : loc.isLastCheck = true -> abort = true) :
    next.1.succeeding = false := by
  cases loc with
  | publishSafe stage =>
      cases hstep
      exact hloc
  | waitTime stage =>
      cases hstep
      cases choice with
      | false => exact hloc
      | true => rfl
  | waitCheck stage =>
      cases hstep
      cases abort with
      | false => exact hloc
      | true => rfl
  | waitRead stage =>
      cases stage with
      | first =>
          cases hstep
          simp only
          split_ifs <;> rfl
      | last => cases hloc
  | waitPublish stage =>
      cases hstep
      exact hloc
  | waitSleep stage =>
      cases hstep
      exact hloc
  | snapshot stage =>
      cases hstep
      cases rampSteps p.handDur with
      | none => rfl
      | some steps => cases stage <;> rfl
  | rampCheck stage h0 steps k =>
      cases hstep
      cases abort <;> exact hloc
  | rampPublish stage h0 steps k =>
      cases hstep
      exact hloc
  | rampSleep stage h0 steps k =>
      cases hstep
      simp only
      split_ifs
      · rfl
      · exact hloc
      · exact hloc
  | rampDone stage =>
      cases hstep
      cases abort with
      | false => cases stage <;> rfl
      | true => rfl
  | trajStart =>
      cases hstep
      cases trajSteps (trajDuration traj) p.trajHz <;> rfl
  | trajPublish n i =>
      rcases publishSample_cases (Option.some.inj hstep) with
        ⟨hraised, _⟩ | ⟨hnext, _⟩
      · rw [hraised]
        rfl
      · rw [hnext]
        rfl
  | trajSleep n i =>
      cases hstep
      simp only
      split_ifs <;> rfl
  | trajLast =>
      rcases publishSample_cases (Option.some.inj hstep) with
        ⟨hraised, _⟩ | ⟨hnext, _⟩
      · rw [hraised]
        rfl
      · rw [hnext]
        rfl
  | settle =>
      cases hstep
      simp only
      split_ifs <;> rfl
  | lastCheck =>
      rw [hcheck rfl] at hstep
      cases hstep
      rfl
  | circularCheck =>
      cases hstep
      cases abort <;> rfl
  | trajCheck n i =>
      cases hstep
      cases abort <;> rfl
  | trajDone =>
      cases hstep
      cases abort <;> rfl
  | settleCheck =>
      cases hstep
      cases abort <;> rfl
  | returned ok => cases hstep
  | raised => cases hstep
  | _ =>
      cases hstep
      rfl

/-- With the event set, the first wait loop returns at its first check; until
then only stage 1 is issued. -/
theorem unchecked_of_abort {p : SequenceParams} {traj : JointTrajectory}
    {choice : Bool} {view : View} {loc : SeqLoc}
    {next : SeqLoc × Option IoCall}
    (hstep : seqStep p traj true view choice loc = some next)
    (hloc : loc.unchecked = true) :
    next.1.unchecked = true ∧ loc.stage = 1 := by
  cases loc with
  | publishSafe stage =>
      cases stage with
      | first =>
          cases hstep
          exact ⟨rfl, rfl⟩
      | last => cases hloc
  | waitTime stage =>
      cases stage with
      | first =>
          cases hstep
          refine ⟨?_, rfl⟩
          cases choice <;> rfl
      | last => cases hloc
  | waitCheck stage =>
      cases stage with
      | first =>
          cases hstep
          exact ⟨rfl, rfl⟩
      | last => cases hloc
  | returned ok => cases hstep
  | raised => cases hstep
  | _ => cases hloc

/-- The first call is made in the step that begins stage 1. -/
theorem call_of_atFirstCall {p : SequenceParams} {traj : JointTrajectory}
    {abort choice : Bool} {view : View} {loc : SeqLoc}
    {next : SeqLoc × Option IoCall}
    (hstep : seqStep p traj abort view choice loc = some next)
    (hloc : (ExecLoc.running loc).atFirstCall = true) :
    next.2.isSome = true := by
  cases loc with
  | publishSafe stage =>
      cases hstep
      rfl
  | _ => cases hloc

theorem stage_ne_seven {loc : SeqLoc} (h : loc.succeeding = false) :
    loc.stage ≠ 7 := by
  intro hstage
  cases loc with
  | returned ok => cases hstage
  | _ =>
      simp only [SeqLoc.succeeding, beq_eq_false_iff_ne, ne_eq] at h
      exact h hstage

/-!
## The invariant of a goal
-/

structure Unsucceeding (server : GoalServer status) (g : Goal status) :
    Prop where
  issued : forall call, call ∈ g.issued -> call.1 ≠ 7
  loc : g.loc.succeeding = false
  status : server.succeeded g.status = false

structure GoalInv (server : GoalServer status) (g : Goal status) : Prop where
  unsucceeding : g.inTime = true ∨ g.checked = false -> Unsucceeding server g
  early : g.early = true ->
    g.loc.unchecked = true ∧ forall call, call ∈ g.issued -> call.1 = 1
  begun : g.issued = [] -> g.loc.atFirstCall = true
  marked : g.inTime = true ∨ g.early = true -> g.requested = true

structure SameRecord (g g' : Goal status) : Prop where
  issued : g'.issued = g.issued
  checked : g'.checked = g.checked
  requested : g'.requested = g.requested
  inTime : g'.inTime = g.inTime
  early : g'.early = g.early

theorem goalInv_of_sameRecord {server : GoalServer status} {g g' : Goal status}
    (hg : GoalInv server g) (hsame : SameRecord g g')
    (hfirst : g'.loc.atFirstCall = true)
    (hsucc : g.loc.succeeding = false -> server.succeeded g.status = false ->
      g'.loc.succeeding = false ∧ server.succeeded g'.status = false) :
    GoalInv server g' := by
  constructor
  · intro h
    rw [hsame.inTime, hsame.checked] at h
    have hold := hg.unsucceeding h
    have hnew := hsucc hold.loc hold.status
    refine ⟨?_, hnew.1, hnew.2⟩
    rw [hsame.issued]
    exact hold.issued
  · intro h
    rw [hsame.early] at h
    refine ⟨unchecked_of_atFirstCall hfirst, ?_⟩
    rw [hsame.issued]
    exact (hg.early h).2
  · intro _
    exact hfirst
  · intro h
    rw [hsame.inTime, hsame.early] at h
    rw [hsame.requested]
    exact hg.marked h

theorem goalInv_of_status {server : GoalServer status} {g g' : Goal status}
    (hg : GoalInv server g) (hsame : SameRecord g g') (hloc : g'.loc = g.loc)
    (hstatus : server.succeeded g.status = false ->
      server.succeeded g'.status = false) :
    GoalInv server g' := by
  constructor
  · intro h
    rw [hsame.inTime, hsame.checked] at h
    have hold := hg.unsucceeding h
    refine ⟨?_, ?_, hstatus hold.status⟩
    · rw [hsame.issued]
      exact hold.issued
    · rw [hloc]
      exact hold.loc
  · intro h
    rw [hsame.early] at h
    rw [hloc, hsame.issued]
    exact hg.early h
  · intro h
    rw [hsame.issued] at h
    rw [hloc]
    exact hg.begun h
  · intro h
    rw [hsame.inTime, hsame.early] at h
    rw [hsame.requested]
    exact hg.marked h

theorem goalInv_markStop {server : GoalServer status} {g : Goal status}
    (hg : GoalInv server g) : GoalInv server g.markStop := by
  constructor
  · intro h
    have hold : g.inTime = true ∨ g.checked = false := by
      simpa [Goal.markStop, or_assoc] using h
    exact ⟨(hg.unsucceeding hold).issued, (hg.unsucceeding hold).loc,
      (hg.unsucceeding hold).status⟩
  · intro h
    rcases Bool.or_eq_true_iff.mp h with hearly | hempty
    · exact hg.early hearly
    · have hnil : g.issued = [] := List.isEmpty_iff.mp hempty
      refine ⟨unchecked_of_atFirstCall (hg.begun hnil), ?_⟩
      intro call hcall
      rw [show g.markStop.issued = [] from hnil] at hcall
      cases hcall
  · exact hg.begun
  · intro _
    rfl

theorem goalInv_accepted (server : GoalServer status) {g : Goal status}
    (hloc : g.loc = .firstClear) (hstatus : g.status = server.accepted)
    (hissued : g.issued = []) (htime : g.inTime = false)
    (hearly : g.early = false) : GoalInv server g := by
  constructor
  · intro _
    refine ⟨?_, ?_, ?_⟩
    · intro call hcall
      rw [hissued] at hcall
      cases hcall
    · rw [hloc]
      rfl
    · rw [hstatus]
      exact server.accepted_not_succeeded
  · intro h
    rw [hearly] at h
    cases h
  · intro _
    rw [hloc]
    rfl
  · intro h
    rw [htime, hearly] at h
    simp at h

/-!
## Steps of the execute callback
-/

theorem goalInv_advance {server : GoalServer status} {g : Goal status}
    {loc : SeqLoc} {p : SequenceParams} {abort choice : Bool} {view : View}
    {next : SeqLoc × Option IoCall} (hg : GoalInv server g)
    (hloc : g.loc = .running loc)
    (habort : g.requested = true -> abort = true)
    (hstep : seqStep p g.traj abort view choice loc = some next) :
    GoalInv server (g.advance loc next) := by
  constructor
  · intro h
    have hold : g.inTime = true ∨ g.checked = false := by
      rcases h with htime | hchecked
      · exact Or.inl htime
      · exact Or.inr (Bool.or_eq_false_iff.mp hchecked).1
    have hbefore := hg.unsucceeding hold
    have hsucc : loc.succeeding = false := by
      have hrunning := hbefore.loc
      rwa [hloc] at hrunning
    refine ⟨?_, succeeding_of_step hstep hsucc ?_, hbefore.status⟩
    · intro call hcall
      rcases List.mem_append.mp hcall with hnew | hprevious
      · rcases Option.map_eq_some_iff.mp (Option.mem_toList.mp hnew) with
          ⟨_, _, heq⟩
        rw [← heq]
        exact stage_ne_seven hsucc
      · exact hbefore.issued call hprevious
    · intro hlast
      rcases h with htime | hchecked
      · exact habort (hg.marked (Or.inl htime))
      · have hnot := (Bool.or_eq_false_iff.mp hchecked).2
        rw [hlast] at hnot
        cases hnot
  · intro hearly
    have hunchecked := (hg.early hearly).1
    rw [hloc] at hunchecked
    rw [habort (hg.marked (Or.inr hearly))] at hstep
    have hafter := unchecked_of_abort hstep hunchecked
    refine ⟨hafter.1, ?_⟩
    intro call hcall
    rcases List.mem_append.mp hcall with hnew | hprevious
    · rcases Option.map_eq_some_iff.mp (Option.mem_toList.mp hnew) with
        ⟨_, _, heq⟩
      rw [← heq]
      exact hafter.2
    · exact (hg.early hearly).2 call hprevious
  · intro hnil
    rcases List.append_eq_nil_iff.mp hnil with ⟨hnone, hissued⟩
    have hfirst := hg.begun hissued
    rw [hloc] at hfirst
    rcases Option.isSome_iff_exists.mp (call_of_atFirstCall hstep hfirst) with
      ⟨call, hcall⟩
    rw [hcall] at hnone
    cases hnone
  · exact hg.marked

theorem goalInv_runningStep {server : GoalServer status}
    {cfg : OrchestratorConfig} {choice : Bool} {sh : Shared}
    {g : Goal status} {loc : SeqLoc} (hg : GoalInv server g)
    (hloc : g.loc = .running loc)
    (habort : g.requested = true -> sh.abort = true) :
    GoalInv server (runningStep cfg choice sh g loc).2 := by
  unfold runningStep
  split
  · refine goalInv_of_sameRecord hg ⟨rfl, rfl, rfl, rfl, rfl⟩ ?_ ?_
    · cases loc <;> rfl
    · intro hsucc hstatus
      rw [hloc] at hsucc
      refine ⟨?_, hstatus⟩
      cases loc with
      | returned ok => exact hsucc
      | _ => rfl
  · rename_i next hstep
    exact goalInv_advance hg hloc habort hstep

theorem sameRecord_goto (g : Goal status) (loc : ExecLoc) :
    SameRecord g (g.goto loc) := ⟨rfl, rfl, rfl, rfl, rfl⟩

theorem normalizeStep_spec (cfg : OrchestratorConfig) (g : Goal status) :
    SameRecord g (normalizeStep cfg g) ∧
      (normalizeStep cfg g).status = g.status ∧
      ((normalizeStep cfg g).loc = .resetBusy ∨
        (normalizeStep cfg g).loc = .clearStart ∨
        (normalizeStep cfg g).loc = .secondClear) := by
  unfold normalizeStep
  cases normalizeTrajectoryForArm g.request cfg.expectedJointNames with
  | error e => exact ⟨sameRecord_goto g _, rfl, Or.inl rfl⟩
  | ok traj =>
      refine ⟨⟨rfl, rfl, rfl, rfl, rfl⟩, rfl, Or.inr ?_⟩
      cases cfg.requireTerminalS with
      | false => exact Or.inr rfl
      | true => exact Or.inl rfl

theorem goalInv_goto {server : GoalServer status} {g : Goal status}
    {loc : ExecLoc} (hg : GoalInv server g)
    (hfirst : loc.atFirstCall = true)
    (hsucc : g.loc.succeeding = false -> loc.succeeding = false) :
    GoalInv server (g.goto loc) :=
  goalInv_of_sameRecord hg (sameRecord_goto g loc) hfirst
    fun hloc hstatus => ⟨hsucc hloc, hstatus⟩

theorem goalInv_ending {server : GoalServer status} {g g' : Goal status}
    {e : Ending} (hg : GoalInv server g) (hloc : g.loc = .ending e)
    (hsame : SameRecord g g') (hloc' : g'.loc = .resetBusy)
    (hstatus : g'.status = (server.finish e g.status).getD g.status) :
    GoalInv server g' := by
  refine goalInv_of_sameRecord hg hsame (by rw [hloc']; rfl) ?_
  intro hsucc hold
  refine ⟨by rw [hloc']; rfl, ?_⟩
  rw [hstatus]
  cases hfinish : server.finish e g.status with
  | none => exact hold
  | some st =>
      refine server.finish_not_succeeded e g.status st ?_ hfinish
      intro heq
      rw [hloc, heq] at hsucc
      cases hsucc

theorem goalInv_execStep {server : GoalServer status}
    {cfg : OrchestratorConfig} {i : Nat} {choice : Bool} {sh sh' : Shared}
    {g g' : Goal status} (hg : GoalInv server g)
    (habort : g.loc.isRunning = true -> g.requested = true -> sh.abort = true)
    (hstep : execStep server cfg i choice sh g = some (sh', g')) :
    GoalInv server g' := by
  unfold execStep at hstep
  cases hloc : g.loc with
  | running loc =>
      simp only [hloc, Option.some.injEq] at hstep
      have hrun : GoalInv server (runningStep cfg choice sh g loc).2 :=
        goalInv_runningStep hg hloc (habort (by rw [hloc]; rfl))
      rw [hstep] at hrun
      exact hrun
  | normalize =>
      simp only [hloc, Option.some.injEq] at hstep
      cases hstep
      rcases normalizeStep_spec cfg g with ⟨hsame, hstatus, hnext⟩
      refine goalInv_of_sameRecord hg hsame ?_ ?_
      · rcases hnext with h | h | h <;> rw [h] <;> rfl
      · intro _ hold
        rw [hstatus]
        refine ⟨?_, hold⟩
        rcases hnext with h | h | h <;> rw [h] <;> rfl
  | finish ok =>
      simp only [hloc, Option.some.injEq] at hstep
      cases hstep
      refine goalInv_goto hg rfl ?_
      rw [hloc]
      intro hok
      have hfalse : ok = false := hok
      rw [hfalse, if_neg Bool.false_ne_true]
      split_ifs <;> rfl
  | ending e =>
      simp only [hloc, Option.some.injEq] at hstep
      cases hstep
      exact goalInv_ending hg hloc ⟨rfl, rfl, rfl, rfl, rfl⟩ rfl rfl
  | conclude =>
      simp only [hloc, Option.some.injEq] at hstep
      cases hstep
      refine goalInv_of_sameRecord hg ⟨rfl, rfl, rfl, rfl, rfl⟩ rfl ?_
      intro _ hold
      exact ⟨rfl, (server.conclude_succeeded g.status).trans hold⟩
  | done =>
      simp only [hloc] at hstep
      cases hstep
  | _ =>
      simp only [hloc, Option.some.injEq] at hstep
      cases hstep
      try split_ifs
      all_goals exact goalInv_goto hg rfl fun _ => rfl

/-- What a step of the callback does to the flags that the goals share. -/
structure SharedStep (sh sh' : Shared) (g g' : Goal status) : Prop where
  requested : g'.requested = g.requested
  running : g'.loc.isRunning = true ->
    g.loc.isSecondClear = true ∨ g.loc.isRunning = true
  busy : g'.loc.holdsBusy = true ->
    g.loc.holdsBusy = true ∧ sh'.goalBusy = sh.goalBusy
  idle : g.loc.holdsBusy = false ->
    sh'.goalBusy = sh.goalBusy ∧ sh'.abort = sh.abort
  abort : g.loc.clears = false -> sh'.abort = sh.abort

theorem sharedStep_of_same {sh sh' : Shared} {g g' : Goal status}
    (hrequested : g'.requested = g.requested)
    (hrunning : g'.loc.isRunning = true -> g.loc.isRunning = true)
    (hbusy : g'.loc.holdsBusy = true -> g.loc.holdsBusy = true)
    (hflag : sh'.goalBusy = sh.goalBusy) (habort : sh'.abort = sh.abort) :
    SharedStep sh sh' g g' where
  requested := hrequested
  running := fun h => Or.inr (hrunning h)
  busy := fun h => ⟨hbusy h, hflag⟩
  idle := fun _ => ⟨hflag, habort⟩
  abort := fun _ => habort

theorem clears_of_isRunning {loc : ExecLoc} (h : loc.isRunning = true) :
    loc.clears = false := by
  cases loc with
  | running loc => rfl
  | _ => cases h

theorem holdsBusy_of_clears {loc : ExecLoc} (h : loc.clears = true) :
    loc.holdsBusy = true := by
  cases loc with
  | firstClear => rfl
  | secondClear => rfl
  | _ => cases h

theorem sharedStep_of_clear {sh : Shared} {g : Goal status} {loc : ExecLoc}
    (h : g.loc.clears = true)
    (hrunning : loc.isRunning = true -> g.loc.isSecondClear = true) :
    SharedStep sh { sh with abort := false } g (g.goto loc) where
  requested := rfl
  running := fun hnext => Or.inl (hrunning hnext)
  busy := fun _ => ⟨holdsBusy_of_clears h, rfl⟩
  idle := by
    intro hidle
    rw [holdsBusy_of_clears h] at hidle
    cases hidle
  abort := by
    intro hclears
    rw [h] at hclears
    cases hclears

theorem sharedStep_execStep {server : GoalServer status}
    {cfg : OrchestratorConfig} {i : Nat} {choice : Bool} {sh sh' : Shared}
    {g g' : Goal status}
    (hstep : execStep server cfg i choice sh g = some (sh', g')) :
    SharedStep sh sh' g g' := by
  unfold execStep at hstep
  cases hloc : g.loc with
  | firstClear =>
      simp only [hloc, Option.some.injEq] at hstep
      cases hstep
      exact sharedStep_of_clear (by rw [hloc]; rfl) nofun
  | secondClear =>
      simp only [hloc, Option.some.injEq] at hstep
      cases hstep
      exact sharedStep_of_clear (by rw [hloc]; rfl) fun _ => by rw [hloc]; rfl
  | running loc =>
      simp only [hloc, Option.some.injEq] at hstep
      unfold runningStep at hstep
      have hrun : g.loc.isRunning = true := by
        rw [hloc]
        rfl
      split at hstep <;> cases hstep <;>
        exact sharedStep_of_same rfl (fun _ => hrun)
          (fun _ => holdsBusy_of_isRunning hrun) rfl rfl
  | normalize =>
      simp only [hloc, Option.some.injEq] at hstep
      cases hstep
      rcases normalizeStep_spec cfg g with ⟨hsame, _, hnext⟩
      refine sharedStep_of_same hsame.requested ?_
        (fun _ => by rw [hloc]; rfl) rfl rfl
      rcases hnext with h | h | h <;> rw [h] <;> nofun
  | resetBusy =>
      simp only [hloc, Option.some.injEq] at hstep
      cases hstep
      refine ⟨rfl, nofun, nofun, ?_, fun _ => rfl⟩
      rw [hloc]
      nofun
  | resetActive =>
      simp only [hloc, Option.some.injEq] at hstep
      cases hstep
      exact sharedStep_of_same rfl nofun nofun rfl rfl
  | conclude =>
      simp only [hloc, Option.some.injEq] at hstep
      cases hstep
      exact sharedStep_of_same rfl nofun nofun rfl rfl
  | done =>
      simp only [hloc] at hstep
      cases hstep
  | _ =>
      simp only [hloc, Option.some.injEq] at hstep
      cases hstep
      refine sharedStep_of_same rfl ?_ (fun _ => by rw [hloc]; rfl) rfl rfl
      simp only [Goal.goto]
      try split_ifs
      all_goals nofun

end Orchestrator
end FrankaKistar
