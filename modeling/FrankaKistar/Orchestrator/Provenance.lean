import FrankaKistar.Orchestrator.Interpolant
import FrankaKistar.Orchestrator.Ramp
import FrankaKistar.Orchestrator.Succeeded

/-!
# Where commands come from

Every call of the node on its backend is built from what the node was given: the
safe pose and the hand poses of its parameters, the trajectories of the goals it
has accepted, and the states it has received.  So a set that holds all of these,
and that is closed under interpolation, holds every target that the node
publishes.
-/

namespace FrankaKistar
namespace Orchestrator

open Foundation

variable {status : Type}

/-!
## What the node is given
-/

/-- What is known of the received arm poses, of the received hand vectors and of
the accepted trajectories after their normalisation. -/
structure Inputs where
  pose : Joints ExactDouble -> Prop
  hand : Hand -> Prop
  traj : JointTrajectory -> Prop

def View.Given (known : Inputs) (view : View) : Prop :=
  known.pose view.frankaQ ∧ known.hand view.handQ

def RequestKnown (cfg : OrchestratorConfig) (known : Inputs)
    (traj : JointTrajectory) : Prop :=
  (validateFollowJointGoal traj cfg.expectedJointNames).toBool = true ->
    forall norm,
      normalizeTrajectoryForArm traj cfg.expectedJointNames = .ok norm ->
        known.traj norm

def Receives (cfg : OrchestratorConfig) (known : Inputs) (_ : Orch status) :
    NodeEvent -> Prop
  | .step (.armState q) => known.pose q
  | .step (.handState h) => known.hand h
  | .step (.request traj) => RequestKnown cfg known traj
  | _ => True

/-!
## What a call may say
-/

inductive Sanctioned (p : SequenceParams) (known : Inputs) : IoCall -> Prop where
  | safe {speed : ExactDouble} :
      speed = p.moveSpeed ∨ speed = .finite (15 / 100) ->
      Sanctioned p known (.publishFranka p.frankaSafe speed)
  | sample {traj : JointTrajectory} {t : ℚ} {q : Joints ExactDouble} :
      known.traj traj ->
      interpTraj traj t = .ok q ->
      Sanctioned p known (.publishFranka q p.maxVel)
  | hold {q : Joints ExactDouble} :
      known.pose q ->
      Sanctioned p known (.holdFranka q)
  | servo :
      Sanctioned p known (.setServo handSafeServoOn)
  | mode {mode : Int} :
      mode = handModePosition ∨ mode = handModeCircular ->
      Sanctioned p known (.setHandMode mode)
  | ramp {stage : HandStage} {h0 : Hand} {steps k : Nat} :
      known.hand h0 ->
      0 < steps ->
      k ≤ steps ->
      Sanctioned p known (.publishHand (rampPose h0 (stage.target p) steps k))
  | close {h : Hand} :
      known.hand h ->
      Sanctioned p known
        (.publishHand (applyHandCloseOffset h p.handCloseDelta))

/-!
## Steps of the sequence
-/

/-- The local variables of the sequence hold received vectors. -/
def SeqLoc.Known (p : SequenceParams) (known : Inputs) : SeqLoc -> Prop
  | .rampCheck _ h0 steps k | .rampPublish _ h0 steps k
  | .rampSleep _ h0 steps k => known.hand h0 ∧ 0 < steps ∧ k ≤ steps
  | .closePublish boosted => exists h, known.hand h ∧
      boosted = applyHandCloseOffset h p.handCloseDelta
  | _ => True

structure NextKnown (p : SequenceParams) (known : Inputs)
    (next : SeqLoc × Option IoCall) : Prop where
  loc : next.1.Known p known
  call : forall c, next.2 = some c -> Sanctioned p known c

variable {p : SequenceParams} {known : Inputs}

theorem nextKnown_silent {loc : SeqLoc} (h : loc.Known p known) :
    NextKnown p known (loc, none) where
  loc := h
  call := by
    intro c hc
    cases hc

theorem nextKnown_call {loc : SeqLoc} {call : IoCall}
    (hloc : loc.Known p known) (hcall : Sanctioned p known call) :
    NextKnown p known (loc, some call) where
  loc := hloc
  call := by
    intro c hc
    cases hc
    exact hcall

theorem nextKnown_publishSample {traj : JointTrajectory} {t : ℚ}
    {next : SeqLoc} (htraj : known.traj traj) (hnext : next.Known p known) :
    NextKnown p known (publishSample p traj t next) := by
  rcases publishSample_spec p traj t next with heq | ⟨q, hq, heq⟩
  · rw [heq]
    exact nextKnown_silent True.intro
  · rw [heq]
    exact nextKnown_call hnext (.sample htraj hq)

theorem rampSteps_pos {duration : ExactDouble} {steps : Nat}
    (h : rampSteps duration = some steps) : 0 < steps := by
  rcases Option.map_eq_some_iff.mp h with ⟨n, _, heq⟩
  rw [← heq]
  omega

theorem known_ite {loc next : SeqLoc} {b : Prop} [Decidable b]
    (hloc : loc.Known p known) (hnext : next.Known p known) :
    (if b then loc else next).Known p known := by
  split_ifs
  · exact hloc
  · exact hnext

theorem nextKnown_of_seqStep {traj : JointTrajectory} {abort timeUp : Bool}
    {view : View} {loc : SeqLoc} {next : SeqLoc × Option IoCall}
    (htraj : known.traj traj) (hview : view.Given known)
    (hloc : loc.Known p known)
    (hstep : seqStep p traj abort view timeUp loc = some next) :
    NextKnown p known next := by
  cases loc with
  | publishSafe stage =>
      cases hstep
      exact nextKnown_call True.intro (.safe (Or.inl rfl))
  | waitPublish stage =>
      cases hstep
      exact nextKnown_call True.intro (.safe (Or.inr rfl))
  | waitRead stage =>
      cases hstep
      apply nextKnown_silent
      cases stage <;> exact known_ite True.intro True.intro
  | setServo =>
      cases hstep
      exact nextKnown_call True.intro .servo
  | setModeCircular =>
      cases hstep
      exact nextKnown_call True.intro (.mode (Or.inr rfl))
  | setModePosition =>
      cases hstep
      exact nextKnown_call True.intro (.mode (Or.inl rfl))
  | snapshot stage =>
      cases hstep
      apply nextKnown_silent
      cases hsteps : rampSteps p.handDur with
      | none => exact True.intro
      | some steps =>
          exact ⟨hview.2, rampSteps_pos hsteps, Nat.zero_le steps⟩
  | rampCheck stage h0 steps k =>
      cases hstep
      exact nextKnown_silent (known_ite True.intro hloc)
  | rampPublish stage h0 steps k =>
      cases hstep
      exact nextKnown_call hloc (.ramp hloc.1 hloc.2.1 hloc.2.2)
  | rampSleep stage h0 steps k =>
      cases hstep
      apply nextKnown_silent
      refine known_ite True.intro ?_
      split_ifs with hk
      · exact ⟨hloc.1, hloc.2.1, hk⟩
      · exact True.intro
  | rampDone stage =>
      cases hstep
      apply nextKnown_silent
      cases stage <;> exact known_ite True.intro True.intro
  | trajStart =>
      cases hstep
      apply nextKnown_silent
      cases trajSteps (trajDuration traj) p.trajHz <;> exact True.intro
  | trajHold =>
      cases hstep
      exact nextKnown_call True.intro (.hold hview.1)
  | trajPublish n i =>
      cases hstep
      exact nextKnown_publishSample htraj True.intro
  | trajSleep n i =>
      cases hstep
      apply nextKnown_silent
      refine known_ite True.intro ?_
      split_ifs <;> exact True.intro
  | trajLast =>
      cases hstep
      exact nextKnown_publishSample htraj True.intro
  | closeSnapshot =>
      cases hstep
      exact nextKnown_silent ⟨view.handQ, hview.2, rfl⟩
  | closePublish boosted =>
      cases hstep
      rcases hloc with ⟨h, hhand, hboosted⟩
      rw [hboosted]
      exact nextKnown_call True.intro (.close hhand)
  | waitTime stage | waitCheck stage | circularCheck | trajCheck n i
  | trajDone | settle | settleCheck | lastCheck =>
      cases hstep
      exact nextKnown_silent (known_ite True.intro True.intro)
  | returned ok => cases hstep
  | raised => cases hstep
  | _ =>
      cases hstep
      exact nextKnown_silent True.intro

/-!
## Steps of the node
-/

/-- The goal was requested with a known trajectory, and its sequence holds
received vectors. -/
structure GoalKnown (cfg : OrchestratorConfig) (known : Inputs)
    (g : Goal status) : Prop where
  request : forall norm,
    normalizeTrajectoryForArm g.request cfg.expectedJointNames = .ok norm ->
      known.traj norm
  loc : forall loc, g.loc = .running loc -> loc.Known cfg.params known

structure KnownState (cfg : OrchestratorConfig) (known : Inputs)
    (s : Orch status) : Prop where
  view : s.shared.view.Given known
  published : forall c, c ∈ s.shared.published ->
    Sanctioned cfg.params known c
  goal : forall g, g ∈ s.goals -> GoalKnown cfg known g

structure ProvenanceInv (server : GoalServer status) (cfg : OrchestratorConfig)
    (known : Inputs) (s : Orch status) : Prop where
  sequence : SequenceInv server cfg s
  state : KnownState cfg known s

/-- A step of a goal keeps what it was requested with, publishes a sanctioned
call at most, and stays at known locations. -/
structure ExecKnown (cfg : OrchestratorConfig) (known : Inputs)
    (sh sh' : Shared) (g' : Goal status) : Prop where
  view : sh'.view = sh.view
  published : forall c, c ∈ sh'.published ->
    c ∈ sh.published ∨ Sanctioned cfg.params known c
  goal : GoalKnown cfg known g'

theorem execKnown_of_same {cfg : OrchestratorConfig} {sh sh' : Shared}
    {g g' : Goal status} (hg : GoalKnown cfg known g)
    (hrequest : g'.request = g.request) (hview : sh'.view = sh.view)
    (hpublished : sh'.published = sh.published)
    (hloc : forall loc, g'.loc = .running loc ->
      loc.Known cfg.params known) :
    ExecKnown cfg known sh sh' g' where
  view := hview
  published := by
    intro c hc
    rw [hpublished] at hc
    exact Or.inl hc
  goal := by
    refine ⟨?_, hloc⟩
    rw [hrequest]
    exact hg.request

theorem execKnown_running {cfg : OrchestratorConfig} {choice : Bool}
    {sh : Shared} {g : Goal status} {loc : SeqLoc}
    (hg : GoalKnown cfg known g) (hnormal : g.Normalized cfg)
    (hview : sh.view.Given known) (hloc : g.loc = .running loc) :
    ExecKnown cfg known sh (runningStep cfg choice sh g loc).1
      (runningStep cfg choice sh g loc).2 := by
  unfold runningStep
  split
  · refine execKnown_of_same hg rfl rfl rfl ?_
    intro loc' h
    cases loc <;> cases h
  · rename_i next hstep
    have hnext := nextKnown_of_seqStep (hg.request _ hnormal) hview
      (hg.loc loc hloc) hstep
    refine ⟨rfl, ?_, hg.request, ?_⟩
    · intro c hc
      rcases List.mem_append.mp hc with hnew | hold
      · exact Or.inr (hnext.call c (Option.mem_toList.mp hnew))
      · exact Or.inl hold
    · intro loc' h
      cases h
      exact hnext.loc

theorem execKnown_execStep {server : GoalServer status}
    {cfg : OrchestratorConfig} {i : Nat} {choice : Bool} {sh sh' : Shared}
    {g g' : Goal status} (hg : GoalKnown cfg known g)
    (hsequence : GoalSequence server cfg sh.abort g)
    (hview : sh.view.Given known)
    (hstep : execStep server cfg i choice sh g = some (sh', g')) :
    ExecKnown cfg known sh sh' g' := by
  unfold execStep at hstep
  cases hloc : g.loc with
  | running loc =>
      simp only [hloc, Option.some.injEq] at hstep
      have hrun : ExecKnown cfg known sh (runningStep cfg choice sh g loc).1
          (runningStep cfg choice sh g loc).2 :=
        execKnown_running hg (hsequence.normal (by rw [hloc]; rfl)) hview hloc
      rw [hstep] at hrun
      exact hrun
  | normalize =>
      simp only [hloc, Option.some.injEq] at hstep
      cases hstep
      have hspec := normalizeStep_spec cfg g
      refine execKnown_of_same hg ?_ rfl rfl ?_
      · unfold normalizeStep
        split <;> rfl
      · intro loc h
        rcases hspec.2.2 with hnext | hnext | hnext <;> rw [hnext] at h <;>
          cases h
  | secondClear =>
      simp only [hloc, Option.some.injEq] at hstep
      cases hstep
      refine execKnown_of_same hg rfl rfl rfl ?_
      intro loc h
      cases h
      exact True.intro
  | done =>
      simp only [hloc] at hstep
      cases hstep
  | _ =>
      simp only [hloc, Option.some.injEq] at hstep
      cases hstep
      refine execKnown_of_same hg rfl rfl rfl ?_
      simp only [Goal.goto]
      try split_ifs
      all_goals
        intro loc h
        cases h

theorem goalKnown_set {cfg : OrchestratorConfig} {s : Orch status} {i : Nat}
    {g' : Goal status} (hs : forall g, g ∈ s.goals -> GoalKnown cfg known g)
    (hg : GoalKnown cfg known g') (g : Goal status)
    (hmem : g ∈ s.goals.set i g') : GoalKnown cfg known g := by
  rcases List.mem_or_eq_of_mem_set hmem with hold | heq
  · exact hs g hold
  · rw [heq]
    exact hg

theorem goalKnown_of_same {cfg : OrchestratorConfig} {g g' : Goal status}
    (hg : GoalKnown cfg known g) (hrequest : g'.request = g.request)
    (hloc : g'.loc = g.loc) : GoalKnown cfg known g' := by
  refine ⟨?_, ?_⟩
  · rw [hrequest]
    exact hg.request
  · rw [hloc]
    exact hg.loc

theorem sanctioned_hold {cfg : OrchestratorConfig} {sh : Shared}
    (hview : sh.view.Given known)
    (hold : forall c, c ∈ sh.published -> Sanctioned cfg.params known c)
    (c : IoCall) (hc : c ∈ sh.hold.published) :
    Sanctioned cfg.params known c := by
  rcases List.mem_cons.mp hc with hnew | hbefore
  · rw [hnew]
    exact .hold hview.1
  · exact hold c hbefore

theorem knownState_user {server : GoalServer status} {cfg : OrchestratorConfig}
    {s s' : Orch status} (hs : KnownState cfg known s)
    (hstep : userStep server s = some s') : KnownState cfg known s' := by
  unfold userStep at hstep
  split at hstep
  · cases hstep
  · cases hstep
    exact ⟨hs.view, sanctioned_hold hs.view hs.published, hs.goal⟩
  · cases hstep
    exact ⟨hs.view, hs.published, hs.goal⟩
  · rcases Option.map_eq_some_iff.mp hstep with ⟨_, _, heq⟩
    rw [← heq]
    exact ⟨hs.view, hs.published, hs.goal⟩
  · rcases Option.map_eq_some_iff.mp hstep with ⟨g0, hi, heq⟩
    rw [← heq]
    exact ⟨hs.view, hs.published, goalKnown_set hs.goal
      (goalKnown_of_same (hs.goal g0 (List.mem_of_getElem? hi)) rfl rfl)⟩

theorem knownState_request {server : GoalServer status}
    {cfg : OrchestratorConfig} {s : Orch status} {traj : JointTrajectory}
    (hs : KnownState cfg known s) (htraj : RequestKnown cfg known traj) :
    KnownState cfg known (requestStep server cfg traj s) := by
  unfold requestStep
  split
  · rename_i haccept
    refine ⟨hs.view, hs.published, ?_⟩
    intro g hg
    rcases List.mem_append.mp hg with hold | hnew
    · exact hs.goal g hold
    · rw [List.mem_singleton.mp hnew]
      refine ⟨htraj haccept.1, ?_⟩
      intro loc h
      cases h
  · exact hs

theorem knownState_orchStep {server : GoalServer status}
    {cfg : OrchestratorConfig} {s s' : Orch status} {e : OrchEvent}
    (hs : KnownState cfg known s) (hsequence : SequenceInv server cfg s)
    (hcond : Receives cfg known s (.step e))
    (hstep : orchStep server cfg s e = some s') : KnownState cfg known s' := by
  cases e with
  | request traj =>
      cases hstep
      exact knownState_request hs hcond
  | execute i choice =>
      rcases Option.bind_eq_some_iff.mp hstep with ⟨g0, hi, hnext⟩
      rcases Option.map_eq_some_iff.mp hnext with ⟨⟨sh, g'⟩, hexec, heq⟩
      rw [← heq]
      have hknown := execKnown_execStep
        (hs.goal g0 (List.mem_of_getElem? hi)) (hsequence.goal i g0 hi) hs.view
        hexec
      refine ⟨?_, ?_, goalKnown_set hs.goal hknown.goal⟩
      · show sh.view.Given known
        rw [hknown.view]
        exact hs.view
      · intro c hc
        rcases hknown.published c hc with hold | hnew
        · exact hs.published c hold
        · exact hnew
  | cancel i =>
      rcases Option.map_eq_some_iff.mp hstep with ⟨g0, hi, heq⟩
      rw [← heq]
      exact ⟨hs.view, hs.published, goalKnown_set hs.goal
        (goalKnown_of_same (hs.goal g0 (List.mem_of_getElem? hi)) rfl rfl)⟩
  | cancelHold i =>
      rcases Option.bind_eq_some_iff.mp hstep with ⟨g0, hi, hnext⟩
      split at hnext
      · cases hnext
      · cases hnext
        exact ⟨hs.view, sanctioned_hold hs.view hs.published,
          goalKnown_set hs.goal
            (goalKnown_of_same (hs.goal g0 (List.mem_of_getElem? hi)) rfl rfl)⟩
  | cancelAccept i =>
      rcases Option.bind_eq_some_iff.mp hstep with ⟨g0, hi, hnext⟩
      split at hnext
      · cases hnext
      · cases hnext
        exact ⟨hs.view, hs.published, goalKnown_set hs.goal
          (goalKnown_of_same (hs.goal g0 (List.mem_of_getElem? hi)) rfl rfl)⟩
  | pressT =>
      simp only [orchStep] at hstep
      split at hstep
      · cases hstep
        refine ⟨hs.view, hs.published, ?_⟩
        intro g hg
        rcases List.mem_map.mp hg with ⟨g0, hmem, heq⟩
        rw [← heq]
        exact goalKnown_of_same (hs.goal g0 hmem) rfl rfl
      · cases hstep
  | user => exact knownState_user hs hstep
  | pressS =>
      cases hstep
      exact ⟨hs.view, hs.published, hs.goal⟩
  | armState q =>
      cases hstep
      exact ⟨⟨hcond, hs.view.2⟩, hs.published, hs.goal⟩
  | handState h =>
      cases hstep
      exact ⟨⟨hs.view.1, hcond⟩, hs.published, hs.goal⟩

theorem knownState_nodeStep {server : GoalServer status}
    {cfg : OrchestratorConfig} {s s' : Orch status} {e : NodeEvent}
    (hs : KnownState cfg known s) (hsequence : SequenceInv server cfg s)
    (hcond : Receives cfg known s e)
    (hstep : nodeStep server cfg s e = some s') : KnownState cfg known s' := by
  cases e with
  | step e => exact knownState_orchStep hs hsequence hcond hstep
  | raise i =>
      rcases Option.bind_eq_some_iff.mp hstep with ⟨g0, hi, hnext⟩
      split at hnext
      · cases hnext
        refine ⟨hs.view, hs.published, goalKnown_set hs.goal ?_⟩
        refine ⟨(hs.goal g0 (List.mem_of_getElem? hi)).request, ?_⟩
        intro loc h
        cases h
      · cases hnext

theorem sanctioned_of_run {server : GoalServer status}
    {cfg : OrchestratorConfig} {view : View} {history : List NodeEvent}
    {s : Orch status} (hview : view.Given known)
    (hrun : Machine.RunWhere (nodeStep server cfg) (Receives cfg known)
      (Orch.start status view) history s) (c : IoCall)
    (hc : c ∈ s.shared.published) : Sanctioned cfg.params known c := by
  have hinv : ProvenanceInv server cfg known s := by
    refine Machine.invariant_of_step ?_ ?_ hrun
    · intro t e t' ht hcond hstep
      exact ⟨sequenceInv_nodeStep ht.sequence hstep,
        knownState_nodeStep ht.state ht.sequence hcond hstep⟩
    · refine ⟨sequenceInv_start server cfg view, hview, ?_, ?_⟩
      · intro c hc
        cases hc
      · intro g hg
        cases hg
  exact hinv.state.published c hc

/-!
## Targets in a box

The joint limits of the robot are such a box, and so are any narrower bounds
that a start is given.
-/

/-- Bounds for the seven joints of the arm and for the motors of the hand. -/
structure Box where
  lower : Fin armDOF -> ℚ
  upper : Fin armDOF -> ℚ
  low : Hand
  high : Hand

def Box.Arm (box : Box) (q : Joints ExactDouble) : Prop :=
  forall j, (q j).isFinite = true ∧
    box.lower j ≤ (q j).toRat ∧ (q j).toRat ≤ box.upper j

def Box.Hand (box : Box) (h : Hand) : Prop :=
  forall i, box.low i ≤ h i ∧ h i ≤ box.high i

def Box.Waypoints (box : Box) (traj : JointTrajectory) : Prop :=
  forall pt, pt ∈ traj.points -> box.Arm (waypoint pt)

instance (box : Box) (q : Joints ExactDouble) : Decidable (box.Arm q) :=
  inferInstanceAs (Decidable (forall j, (q j).isFinite = true ∧
    box.lower j ≤ (q j).toRat ∧ (q j).toRat ≤ box.upper j))

instance (box : Box) (h : Hand) : Decidable (box.Hand h) :=
  inferInstanceAs (Decidable (forall i, box.low i ≤ h i ∧ h i ≤ box.high i))

instance (box : Box) (traj : JointTrajectory) :
    Decidable (box.Waypoints traj) :=
  inferInstanceAs
    (Decidable (forall pt, pt ∈ traj.points -> box.Arm (waypoint pt)))

structure Box.HoldsStart (box : Box) (p : SequenceParams) (view : View) :
    Prop where
  frankaSafe : box.Arm p.frankaSafe
  handSafe : box.Hand p.handSafe
  handSave : box.Hand p.handSave
  frankaQ : box.Arm view.frankaQ
  handQ : box.Hand view.handQ

def Box.Receives (box : Box) (cfg : OrchestratorConfig) (_ : Orch status) :
    NodeEvent -> Prop
  | .step (.armState q) => box.Arm q
  | .step (.handState h) => box.Hand h
  | .step (.request traj) => forall norm,
      normalizeTrajectoryForArm traj cfg.expectedJointNames = .ok norm ->
        box.Waypoints norm
  | _ => True

/-- A target of the arm lies in the box, and one of the hand does too or closes
a vector of the box. -/
def Box.Frames (box : Box) (delta : Int) : IoCall -> Prop
  | .publishFranka q _ => box.Arm q
  | .holdFranka q => box.Arm q
  | .publishHand h => box.Hand h ∨
      exists h0, box.Hand h0 ∧ h = applyHandCloseOffset h0 delta
  | .setServo _ => True
  | .setHandMode _ => True

def Box.inputs (box : Box) : Inputs where
  pose := box.Arm
  hand := box.Hand
  traj := fun traj => FullPoints traj ∧ box.Waypoints traj

theorem mem_of_mem_uIcc {α : Type} [LinearOrder α] {lower upper x y z : α}
    (hx : lower ≤ x ∧ x ≤ upper) (hy : lower ≤ y ∧ y ≤ upper)
    (hz : z ∈ Set.uIcc x y) : lower ≤ z ∧ z ≤ upper :=
  ⟨le_trans (le_inf hx.1 hy.1) hz.1, le_trans hz.2 (sup_le hx.2 hy.2)⟩

theorem waypoint_mem_box {box : Box} {traj : JointTrajectory}
    (h : box.Waypoints traj) {a b : JointTrajectoryPoint}
    (hab : Neighbours traj.points a b) :
    box.Arm (waypoint a) ∧ box.Arm (waypoint b) := by
  rcases hab with ⟨ha, heq⟩ | ⟨k, ha, hb⟩
  · rw [heq]
    exact ⟨h a ha, h a ha⟩
  · exact ⟨h a (List.mem_of_getElem? ha), h b (List.mem_of_getElem? hb)⟩

theorem sample_mem_box {box : Box} {traj : JointTrajectory} {t : ℚ}
    {q : Joints ExactDouble} (hfull : FullPoints traj)
    (h : box.Waypoints traj) (hq : interpTraj traj t = .ok q) : box.Arm q := by
  rcases exists_between_traj hfull t with ⟨q', hq', a, b, hab, hbetween⟩
  rw [hq] at hq'
  cases hq'
  rcases waypoint_mem_box h hab with ⟨ha, hb⟩
  intro j
  rcases exists_finite_of_isFinite (ha j).1 with ⟨x, hx⟩
  rcases exists_finite_of_isFinite (hb j).1 with ⟨y, hy⟩
  have hxbox := (ha j).2
  have hybox := (hb j).2
  rw [hx] at hxbox
  rw [hy] at hybox
  rcases hbetween j x y hx hy with ⟨z, hz, hmem⟩
  rw [hz]
  exact ⟨rfl, mem_of_mem_uIcc hxbox hybox hmem⟩

theorem ramp_mem_box {box : Box} {h0 h1 : Hand} {steps k : Nat}
    (hstart : box.Hand h0) (hend : box.Hand h1) (hsteps : 0 < steps)
    (hk : k ≤ steps) : box.Hand (rampPose h0 h1 steps k) := by
  intro i
  exact mem_of_mem_uIcc (hstart i) (hend i)
    ((rampPose_rampOf h0 h1 hsteps i).inside k hk)

theorem frames_of_sanctioned {box : Box} {p : SequenceParams} {view : View}
    (hbox : box.HoldsStart p view) {c : IoCall}
    (h : Sanctioned p box.inputs c) : box.Frames p.handCloseDelta c := by
  cases h with
  | safe _ => exact hbox.frankaSafe
  | sample htraj hq => exact sample_mem_box htraj.1 htraj.2 hq
  | hold hq => exact hq
  | servo => exact True.intro
  | mode _ => exact True.intro
  | ramp hhand hsteps hk =>
      rename_i stage h0 steps k
      refine Or.inl (ramp_mem_box hhand ?_ hsteps hk)
      cases stage with
      | safe => exact hbox.handSafe
      | grasp => exact hbox.handSave
      | save => exact hbox.handSave
  | close hhand => exact Or.inr ⟨_, hhand, rfl⟩

theorem ok_of_toBool {ε : Type} {result : Except ε Unit}
    (h : result.toBool = true) : result = .ok () := by
  cases result with
  | error e => cases h
  | ok u => rfl

theorem receives_inputs {box : Box} {cfg : OrchestratorConfig}
    (hexpected : cfg.expectedJointNames = [] ∨
      cfg.expectedJointNames.length = armDOF)
    (s : Orch status) (e : NodeEvent) (h : box.Receives cfg s e) :
    Receives cfg box.inputs s e := by
  cases e with
  | raise i => exact True.intro
  | step e =>
      cases e with
      | request traj =>
          intro hvalid norm hnormal
          have hpoints := points_of_validate (ok_of_toBool hvalid)
          exact ⟨fullPoints_of_normalize hexpected hpoints hnormal,
            h norm hnormal⟩
      | armState q => exact h
      | handState q => exact h
      | _ => exact True.intro

/-- In every run that keeps to a box, every target stays in the box. -/
theorem frames_of_run {server : GoalServer status} {cfg : OrchestratorConfig}
    {box : Box} {view : View} {history : List NodeEvent} {s : Orch status}
    (hexpected : cfg.expectedJointNames = [] ∨
      cfg.expectedJointNames.length = armDOF)
    (hbox : box.HoldsStart cfg.params view)
    (hrun : Machine.RunWhere (nodeStep server cfg) (box.Receives cfg)
      (Orch.start status view) history s) (c : IoCall)
    (hc : c ∈ s.shared.published) :
    box.Frames cfg.params.handCloseDelta c :=
  frames_of_sanctioned hbox
    (sanctioned_of_run ⟨hbox.frankaQ, hbox.handQ⟩
      (Machine.runWhere_mono (receives_inputs hexpected) hrun) c hc)

/-!
The goal that waits at the ready pose, in a box around the default poses.
-/

def wideBox : Box where
  lower := fun _ => -3
  upper := fun _ => 3
  low := fun _ => -4096
  high := fun _ => 4096

def View.safe : View := ⟨frankaSafePosition, handSafePosition⟩

theorem receives_executedToTheEnd (e : NodeEvent)
    (he : e ∈ executedToTheEnd restingGoal) (s : Orch GoalStatus) :
    wideBox.Receives quickConfig s e := by
  have hgoal : forall norm,
      normalizeTrajectoryForArm restingGoal quickConfig.expectedJointNames =
        .ok norm -> wideBox.Waypoints norm := by
    intro norm hnorm
    have hkept : normalizeTrajectoryForArm restingGoal
        quickConfig.expectedJointNames = .ok restingGoal := by rfl
    rw [hkept] at hnorm
    cases hnorm
    decide +kernel
  rcases List.mem_cons.mp he with heq | hrest
  · rw [heq]
    show wideBox.Arm frankaSafePosition
    decide +kernel
  · rcases List.mem_cons.mp hrest with heq | hsteps
    · rw [heq]
      exact hgoal
    · rcases List.mem_map.mp hsteps with ⟨step, hstep, heq⟩
      rw [← heq, List.eq_of_mem_replicate hstep]
      exact True.intro

theorem frames_executedToTheEnd :
    exists s : Orch GoalStatus,
      s.goals.any hasSucceeded = true ∧
        forall c, c ∈ s.shared.published ->
          wideBox.Frames quickConfig.params.handCloseDelta c := by
  have hrun : ((nodeStep GoalStatus.server quickConfig).runFrom
      (Orch.start GoalStatus .safe) (executedToTheEnd restingGoal)).any
        (fun s => s.goals.any hasSucceeded) = true := by
    decide +kernel
  rcases Machine.exists_runWhere_of_forall receives_executedToTheEnd hrun with
    ⟨s, hs, hsucceeded⟩
  have hbox : wideBox.HoldsStart quickConfig.params .safe := by
    constructor <;> decide +kernel
  exact ⟨s, hsucceeded, frames_of_run (Or.inr rfl) hbox hs⟩

/-!
## On the wire

What the two backends send for the calls, from the first one on.
-/

def SpeedInRange (speed : ExactDouble) : Prop :=
  exists x, speed = .finite x ∧ 1 / 1000 ≤ x ∧ x ≤ 1

def BridgeMessage.InRange : BridgeMessage -> Prop
  | .targetSpeedFactor speed => SpeedInRange speed
  | .frankaTargetJoint _ => True
  | .handTargetJoint h => IsInt16 h
  | .handTargetMode mode => mode = handModePosition ∨ mode = handModeCircular
  | .handTargetServoOn on => on = 1

def HandTarget.InRange (m : HandTarget) : Prop :=
  IsInt16 m.joints ∧
    (forall mode, m.mode = some mode ->
      mode = handModePosition ∨ mode = handModeCircular) ∧
    forall on, m.servo = some on -> on = true

def WhitePcMessage.InRange : WhitePcMessage -> Prop
  | .armTarget _ speed => forall v, speed = some v -> SpeedInRange v
  | .handTarget m => m.InRange

def bridgeSent (calls : List IoCall) : List BridgeMessage :=
  calls.flatMap shmBridgeCall

def WhitePc.sent (fields : WhitePcFields) :
    WhitePc -> List IoCall -> List WhitePcMessage
  | _, [] => []
  | b, c :: rest => (b.call fields c).2 ++ (b.call fields c).1.sent fields rest

/-- NaN and the infinities are clamped too. -/
theorem clampSpeed_inRange (speed : ExactDouble) :
    SpeedInRange (clampSpeed speed) := by
  have hlow : exists x, (if speed.lt (.finite 1) then speed else .finite 1) =
      .finite x ∧ x ≤ 1 ∨
        (if speed.lt (.finite 1) then speed else .finite 1) = .negInf := by
    cases speed with
    | finite x =>
        by_cases hx : x < 1
        · exact ⟨x, Or.inl ⟨by simp [hx], le_of_lt hx⟩⟩
        · exact ⟨1, Or.inl ⟨by simp [hx], le_refl 1⟩⟩
    | posInf => exact ⟨1, Or.inl ⟨rfl, le_refl 1⟩⟩
    | negInf => exact ⟨1, Or.inr rfl⟩
    | nan => exact ⟨1, Or.inl ⟨rfl, le_refl 1⟩⟩
  unfold clampSpeed
  rcases hlow with ⟨x, ⟨heq, hx⟩ | heq⟩
  · simp only [heq, ExactDouble.lt_finite, decide_eq_true_eq]
    split_ifs with hlt
    · exact ⟨x, rfl, le_of_lt hlt, hx⟩
    · exact ⟨1 / 1000, rfl, le_refl _, by norm_num⟩
  · simp only [heq]
    exact ⟨1 / 1000, rfl, le_refl _, by norm_num⟩

theorem clampHand_isInt16 (h : Hand) : IsInt16 (clampHand h) := by
  intro i
  exact ⟨le_max_left _ _, max_le (by decide) (min_le_left _ _)⟩

theorem shmBridgeCall_inRange {c : IoCall} (h : Sanctioned p known c)
    (m : BridgeMessage) (hm : m ∈ shmBridgeCall c) : m.InRange := by
  cases h with
  | safe _ | sample _ _ =>
      rcases List.mem_cons.mp hm with heq | hrest
      · rw [heq]
        exact clampSpeed_inRange _
      · rw [List.mem_singleton.mp hrest]
        exact True.intro
  | hold _ =>
      rw [List.mem_singleton.mp hm]
      exact True.intro
  | servo =>
      rw [List.mem_singleton.mp hm]
      rfl
  | mode hmode =>
      rw [List.mem_singleton.mp hm]
      exact hmode
  | ramp _ _ _ | close _ =>
      rw [List.mem_singleton.mp hm]
      exact clampHand_isInt16 _

structure WhitePc.Repeats (b : WhitePc) : Prop where
  hand : IsInt16 b.lastHand
  mode : b.lastHandMode = handModePosition ∨
    b.lastHandMode = handModeCircular

theorem repeats_start : WhitePc.start.Repeats where
  hand := by decide
  mode := Or.inl rfl

theorem setField_eq_some {α : Type} {present : Bool} {value x : α}
    (h : setField present value = some x) : x = value := by
  unfold setField at h
  split at h
  · exact (Option.some.inj h).symm
  · cases h

theorem handTarget_inRange {joints : Hand} {present : Bool} {mode : Int}
    {servo : Option Bool} (hjoints : IsInt16 joints)
    (hmode : mode = handModePosition ∨ mode = handModeCircular)
    (hservo : forall on, servo = some on -> on = true) :
    HandTarget.InRange ⟨joints, setField present mode, servo⟩ := by
  refine ⟨hjoints, ?_, hservo⟩
  intro m hm
  rw [setField_eq_some hm]
  exact hmode

theorem call_inRange {c : IoCall} (h : Sanctioned p known c)
    (fields : WhitePcFields) {b : WhitePc} (hb : b.Repeats) :
    (b.call fields c).1.Repeats ∧
      forall m, m ∈ (b.call fields c).2 -> m.InRange := by
  cases h with
  | safe _ | sample _ _ | hold _ =>
      refine ⟨⟨hb.hand, hb.mode⟩, ?_⟩
      intro m hm
      rw [List.mem_singleton.mp hm]
      intro v hv
      rw [setField_eq_some hv]
      exact clampSpeed_inRange _
  | servo =>
      refine ⟨hb, ?_⟩
      intro m hm
      simp only [WhitePc.call] at hm
      split at hm
      · rw [List.mem_singleton.mp hm]
        exact handTarget_inRange hb.hand hb.mode
          fun on hon => (Option.some.inj hon).symm
      · cases hm
  | mode hmode =>
      refine ⟨⟨hb.hand, hmode⟩, ?_⟩
      intro m hm
      simp only [WhitePc.call] at hm
      split at hm
      · rw [List.mem_singleton.mp hm]
        refine ⟨hb.hand, ?_, fun on hon => by cases hon⟩
        intro m' hm'
        rw [← Option.some.inj hm']
        exact hmode
      · cases hm
  | ramp _ _ _ | close _ =>
      refine ⟨⟨clampHand_isInt16 _, hb.mode⟩, ?_⟩
      intro m hm
      rw [List.mem_singleton.mp hm]
      exact handTarget_inRange (clampHand_isInt16 _) hb.mode
        fun on hon => by cases hon

theorem sent_inRange (fields : WhitePcFields) {b : WhitePc}
    {calls : List IoCall} (hb : b.Repeats)
    (h : forall c, c ∈ calls -> Sanctioned p known c) (m : WhitePcMessage)
    (hm : m ∈ b.sent fields calls) : m.InRange := by
  induction calls generalizing b with
  | nil => cases hm
  | cons c rest ih =>
      have hcall := call_inRange (h c List.mem_cons_self) fields hb
      rcases List.mem_append.mp hm with hnow | hlater
      · exact hcall.2 m hnow
      · exact ih hcall.1 (fun c' hc' => h c' (List.mem_cons_of_mem c hc'))
          hlater

/-- Both backends send speeds from 0.001 to 1, 16-bit joint targets, the modes
1 and 2, and the servo on. -/
structure WireInRange (fields : WhitePcFields) (calls : List IoCall) :
    Prop where
  bridge : forall m, m ∈ bridgeSent calls -> m.InRange
  whitePc : forall m, m ∈ WhitePc.start.sent fields calls -> m.InRange

/-- Nothing is assumed of the goals and of the received states. -/
def Inputs.any : Inputs := ⟨fun _ => True, fun _ => True, fun _ => True⟩

theorem receives_any {cfg : OrchestratorConfig} (s : Orch status)
    (e : NodeEvent) : Receives cfg .any s e := by
  cases e with
  | raise i => exact True.intro
  | step e =>
      cases e with
      | request traj => exact fun _ _ _ => True.intro
      | _ => exact True.intro

theorem wireInRange_of_run {server : GoalServer status}
    {cfg : OrchestratorConfig} (fields : WhitePcFields) {view : View}
    {history : List NodeEvent} {s : Orch status}
    (hrun : Machine.Run (nodeStep server cfg) (Orch.start status view) history
      s) : WireInRange fields s.shared.published.reverse := by
  have hcalls : forall c, c ∈ s.shared.published.reverse ->
      Sanctioned cfg.params .any c := by
    intro c hc
    exact sanctioned_of_run ⟨True.intro, True.intro⟩
      (Machine.runWhere_mono (fun t e _ => receives_any t e) hrun) c
      (List.mem_reverse.mp hc)
  constructor
  · intro m hm
    rcases List.mem_flatMap.mp hm with ⟨c, hc, hmem⟩
    exact shmBridgeCall_inRange (hcalls c hc) m hmem
  · exact fun m hm => sent_inRange fields repeats_start hcalls m hm

theorem wireInRange_executedToTheEnd :
    exists s : Orch GoalStatus,
      s.goals.any hasSucceeded = true ∧
        WireInRange ⟨true, true, true⟩ s.shared.published.reverse := by
  have hrun : ((nodeStep GoalStatus.server quickConfig).runFrom
      (Orch.start GoalStatus .start) (executedToTheEnd restingGoal)).any
        (fun s => s.goals.any hasSucceeded) = true := by
    decide +kernel
  rcases Machine.exists_run_of_any hrun with ⟨s, hs, hsucceeded⟩
  exact ⟨s, hsucceeded, wireInRange_of_run ⟨true, true, true⟩ hs⟩

end Orchestrator
end FrankaKistar
