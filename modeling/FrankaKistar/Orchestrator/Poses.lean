import FrankaKistar.Orchestrator.Backends
import FrankaKistar.Orchestrator.Exclusivity
import FrankaKistar.Orchestrator.Hold

/-!
# Poses that were received

`hold_franka` publishes the cached arm vector, and every ramp starts from the
cached hand vector.  Both caches start as zeros, and nothing tells the filler
from a received state.  The whitepc backend also fills up a short hand state
with zeros.  When the caches are read after a full state has come in, every
held pose and every ramp start was carried by a message.
-/

namespace FrankaKistar
namespace Orchestrator

open Foundation

variable {status : Type}

/-!
## The node with its messages
-/

def carriedHand (backend : Backend) (values : List ExactDouble) :
    Option Hand :=
  if values.length < handDOF then none else handVector backend values

structure Received (status : Type) where
  orch : Orch status
  arms : List (List ExactDouble)
  hands : List (List ExactDouble)
  ramps : List Hand

def Received.start (status : Type) : Received status :=
  ⟨Orch.start status .start, [], [], []⟩

inductive ReceiveEvent where
  | node (e : NodeEvent)
  | armMessage (values : List ExactDouble)
  | handMessage (values : List ExactDouble)

def NodeEvent.isState : NodeEvent -> Bool
  | .step (.armState _) => true
  | .step (.handState _) => true
  | _ => false

def ExecLoc.holds : ExecLoc -> Bool
  | .running .trajHold => true
  | _ => false

def ExecLoc.snapshots : ExecLoc -> Bool
  | .running (.snapshot _) => true
  | _ => false

/-- The step calls `hold_franka`. -/
def holdsAt (s : Orch status) : NodeEvent -> Bool
  | .step (.cancelHold _) => true
  | .step .user => s.user == .mustHold
  | .step (.execute i _) => (s.goals[i]?).any fun g => g.loc.holds
  | _ => false

def rampStart (s : Orch status) : NodeEvent -> Option Hand
  | .step (.execute i _) =>
      if (s.goals[i]?).any fun g => g.loc.snapshots then
        some s.shared.view.handQ
      else none
  | _ => none

def Orch.withArm (s : Orch status) (q : Option (Joints ExactDouble)) :
    Orch status :=
  { s with shared :=
    { s.shared with view :=
      { s.shared.view with frankaQ := q.getD s.shared.view.frankaQ } } }

def Orch.withHand (s : Orch status) (h : Option Hand) : Orch status :=
  { s with shared :=
    { s.shared with view :=
      { s.shared.view with handQ := h.getD s.shared.view.handQ } } }

def receiveStep (server : GoalServer status) (cfg : OrchestratorConfig)
    (backend : Backend) : Machine (Received status) ReceiveEvent
  | s, .node e =>
      if e.isState then none
      else
        (nodeStep server cfg s.orch e).map fun orch =>
          { s with
            orch := orch
            ramps := (rampStart s.orch e).toList ++ s.ramps }
  | s, .armMessage values =>
      some
        { s with
          orch := s.orch.withArm (armVector values)
          arms := values :: s.arms }
  | s, .handMessage values =>
      some
        { s with
          orch := s.orch.withHand (handVector backend values)
          hands := values :: s.hands }

/-!
## What is promised
-/

structure PosesReceived (backend : Backend) (s : Received status) : Prop where
  held : forall q, IoCall.holdFranka q ∈ s.orch.shared.published ->
    exists values, values ∈ s.arms ∧ armVector values = some q
  ramped : forall h, h ∈ s.ramps ->
    exists values, values ∈ s.hands ∧ carriedHand backend values = some h

def newestHand (backend : Backend) (s : Received status) :
    Option (List ExactDouble) :=
  s.hands.find? fun values => (handVector backend values).isSome

def ArmKnown (s : Received status) : Prop :=
  exists values, values ∈ s.arms ∧ armDOF ≤ values.length

def HandKnown (backend : Backend) (s : Received status) : Prop :=
  exists values, values ∈ newestHand backend s ∧ handDOF ≤ values.length

instance (s : Received status) : Decidable (ArmKnown s) := by
  unfold ArmKnown
  infer_instance

instance (backend : Backend) (s : Received status) :
    Decidable (HandKnown backend s) := by
  unfold HandKnown
  infer_instance

def CachesKnown (backend : Backend) (s : Received status) :
    ReceiveEvent -> Prop
  | .node e =>
      (holdsAt s.orch e = true -> ArmKnown s) ∧
        ((rampStart s.orch e).isSome = true -> HandKnown backend s)
  | _ => True

instance (backend : Backend) (s : Received status) (e : ReceiveEvent) :
    Decidable (CachesKnown backend s e) := by
  cases e <;> unfold CachesKnown <;> infer_instance

/-!
## What a step publishes
-/

/-- A step keeps the caches, and holds only the cached pose. -/
structure HoldStep (s s' : Orch status) (holds : Prop) : Prop where
  view : s'.shared.view = s.shared.view
  held : forall q, IoCall.holdFranka q ∈ s'.shared.published ->
    IoCall.holdFranka q ∈ s.shared.published ∨
      (q = s.shared.view.frankaQ ∧ holds)

theorem holdStep_of_same {s s' : Orch status} {holds : Prop}
    (hview : s'.shared.view = s.shared.view)
    (hpublished : s'.shared.published = s.shared.published) :
    HoldStep s s' holds where
  view := hview
  held := by
    intro q hq
    rw [hpublished] at hq
    exact Or.inl hq

theorem holdFranka_of_seqStep {p : SequenceParams} {traj : JointTrajectory}
    {abort choice : Bool} {view : View} {loc : SeqLoc}
    {next : SeqLoc × Option IoCall} {q : Joints ExactDouble}
    (hstep : seqStep p traj abort view choice loc = some next)
    (hcall : next.2 = some (.holdFranka q)) :
    loc = .trajHold ∧ q = view.frankaQ := by
  cases loc with
  | trajHold =>
      cases hstep
      cases hcall
      exact ⟨rfl, rfl⟩
  | trajPublish n i =>
      rcases publishSample_cases (Option.some.inj hstep) with
        ⟨_, hnone⟩ | ⟨_, q', hsome⟩
      · rw [hnone] at hcall
        cases hcall
      · rw [hsome] at hcall
        cases hcall
  | trajLast =>
      rcases publishSample_cases (Option.some.inj hstep) with
        ⟨_, hnone⟩ | ⟨_, q', hsome⟩
      · rw [hnone] at hcall
        cases hcall
      · rw [hsome] at hcall
        cases hcall
  | _ =>
      cases hstep
      try cases hcall

theorem holdStep_execStep {server : GoalServer status}
    {cfg : OrchestratorConfig} {i : Nat} {choice : Bool} {s : Orch status}
    {sh : Shared} {g g' : Goal status}
    (hexec : execStep server cfg i choice s.shared g = some (sh, g')) :
    HoldStep s ⟨sh, s.user, s.goals.set i g'⟩ (g.loc.holds = true) := by
  unfold execStep at hexec
  cases hloc : g.loc with
  | running loc =>
      simp only [hloc, Option.some.injEq] at hexec
      unfold runningStep at hexec
      split at hexec
      · cases hexec
        exact holdStep_of_same rfl rfl
      · rename_i next hseq
        cases hexec
        refine ⟨rfl, ?_⟩
        intro q hq
        rcases List.mem_append.mp hq with hnew | hold
        · rcases holdFranka_of_seqStep hseq (Option.mem_toList.mp hnew) with
            ⟨hhold, hview⟩
          rw [hhold]
          exact Or.inr ⟨hview, rfl⟩
        · exact Or.inl hold
  | done =>
      simp only [hloc] at hexec
      cases hexec
  | _ =>
      simp only [hloc, Option.some.injEq] at hexec
      cases hexec
      exact holdStep_of_same rfl rfl

theorem holdStep_hold {s : Orch status} {user : UserLoc}
    {goals : List (Goal status)} {holds : Prop} (h : holds) :
    HoldStep s ⟨s.shared.hold, user, goals⟩ holds where
  view := rfl
  held := by
    intro q hq
    rcases List.mem_cons.mp hq with hnew | hold
    · cases hnew
      exact Or.inr ⟨rfl, h⟩
    · exact Or.inl hold

theorem holdStep_user {server : GoalServer status} {s s' : Orch status}
    (hstep : userStep server s = some s') :
    HoldStep s s' (holdsAt s (.step .user) = true) := by
  unfold userStep at hstep
  cases huser : s.user with
  | idle =>
      rw [huser] at hstep
      cases hstep
  | mustHold =>
      rw [huser] at hstep
      cases hstep
      refine holdStep_hold ?_
      rw [holdsAt, huser]
      rfl
  | mustRead =>
      rw [huser] at hstep
      cases hstep
      exact holdStep_of_same rfl rfl
  | mustCheck i =>
      rw [huser] at hstep
      rcases Option.map_eq_some_iff.mp hstep with ⟨g, _, heq⟩
      rw [← heq]
      exact holdStep_of_same rfl rfl
  | mustAbort i =>
      rw [huser] at hstep
      rcases Option.map_eq_some_iff.mp hstep with ⟨g, _, heq⟩
      rw [← heq]
      exact holdStep_of_same rfl rfl

theorem holdStep_orchStep {server : GoalServer status}
    {cfg : OrchestratorConfig} {s s' : Orch status} {e : OrchEvent}
    (he : (NodeEvent.step e).isState = false)
    (hstep : orchStep server cfg s e = some s') :
    HoldStep s s' (holdsAt s (.step e) = true) := by
  cases e with
  | request traj =>
      cases hstep
      unfold requestStep
      split <;> exact holdStep_of_same rfl rfl
  | execute i choice =>
      rcases Option.bind_eq_some_iff.mp hstep with ⟨g, hi, hnext⟩
      rcases Option.map_eq_some_iff.mp hnext with ⟨⟨sh, g'⟩, hexec, heq⟩
      have hhold : holdsAt s (.step (.execute i choice)) = g.loc.holds := by
        rw [holdsAt, hi]
        rfl
      rw [← heq, hhold]
      exact holdStep_execStep hexec
  | cancel i =>
      rcases Option.map_eq_some_iff.mp hstep with ⟨g, _, heq⟩
      rw [← heq]
      exact holdStep_of_same rfl rfl
  | cancelHold i =>
      rcases Option.bind_eq_some_iff.mp hstep with ⟨g, _, hnext⟩
      split at hnext
      · cases hnext
      · cases hnext
        exact holdStep_hold rfl
  | cancelAccept i =>
      rcases Option.bind_eq_some_iff.mp hstep with ⟨g, _, hnext⟩
      split at hnext
      · cases hnext
      · cases hnext
        exact holdStep_of_same rfl rfl
  | pressT =>
      simp only [orchStep] at hstep
      split at hstep
      · cases hstep
        exact holdStep_of_same rfl rfl
      · cases hstep
  | user => exact holdStep_user hstep
  | pressS =>
      cases hstep
      exact holdStep_of_same rfl rfl
  | armState q => cases he
  | handState h => cases he

theorem holdStep_nodeStep {server : GoalServer status}
    {cfg : OrchestratorConfig} {s s' : Orch status} {e : NodeEvent}
    (he : e.isState = false) (hstep : nodeStep server cfg s e = some s') :
    HoldStep s s' (holdsAt s e = true) := by
  cases e with
  | step e => exact holdStep_orchStep he hstep
  | raise i =>
      rcases Option.bind_eq_some_iff.mp hstep with ⟨g, _, hnext⟩
      split at hnext
      · cases hnext
        exact holdStep_of_same rfl rfl
      · cases hnext

theorem rampStart_eq_some {s : Orch status} {e : NodeEvent} {h : Hand}
    (hramp : rampStart s e = some h) : h = s.shared.view.handQ := by
  unfold rampStart at hramp
  split at hramp
  · split at hramp
    · exact (Option.some.inj hramp).symm
    · cases hramp
  · cases hramp

/-!
## The invariant
-/

/-- The caches hold what the newest readable messages carried. -/
structure PosesInv (backend : Backend) (s : Received status) : Prop where
  poses : PosesReceived backend s
  arm : ArmKnown s ->
    exists values, values ∈ s.arms ∧
      armVector values = some s.orch.shared.view.frankaQ
  hand : forall values, newestHand backend s = some values ->
    handVector backend values = some s.orch.shared.view.handQ

theorem posesInv_start (backend : Backend) :
    PosesInv backend (Received.start status) where
  poses := ⟨nofun, nofun⟩
  arm := fun ⟨_, hmem, _⟩ => nomatch hmem
  hand := nofun

theorem carriedHand_of_known {backend : Backend} {s : Received status}
    (hs : PosesInv backend s) (hknown : HandKnown backend s) :
    exists values, values ∈ s.hands ∧
      carriedHand backend values = some s.orch.shared.view.handQ := by
  rcases hknown with ⟨values, hnewest, hlength⟩
  refine ⟨values, List.mem_of_find?_eq_some hnewest, ?_⟩
  rw [carriedHand, if_neg (Nat.not_lt.mpr hlength)]
  exact hs.hand values hnewest

theorem posesInv_node {server : GoalServer status} {cfg : OrchestratorConfig}
    {backend : Backend} {s : Received status} {e : NodeEvent}
    {orch : Orch status} (hs : PosesInv backend s)
    (hcond : CachesKnown backend s (.node e)) (he : e.isState = false)
    (hstep : nodeStep server cfg s.orch e = some orch) :
    PosesInv backend
      { s with
        orch := orch
        ramps := (rampStart s.orch e).toList ++ s.ramps } := by
  have hhold := holdStep_nodeStep he hstep
  refine ⟨⟨?_, ?_⟩, ?_, ?_⟩
  · intro q hq
    rcases hhold.held q hq with hold | ⟨hview, hnow⟩
    · exact hs.poses.held q hold
    · rw [hview]
      exact hs.arm (hcond.1 hnow)
  · intro h hh
    rcases List.mem_append.mp hh with hnew | hold
    · have hramp : rampStart s.orch e = some h := Option.mem_toList.mp hnew
      rw [rampStart_eq_some hramp]
      refine carriedHand_of_known hs (hcond.2 ?_)
      rw [hramp]
      rfl
    · exact hs.poses.ramped h hold
  · intro hknown
    show exists values, values ∈ s.arms ∧
      armVector values = some orch.shared.view.frankaQ
    rw [hhold.view]
    exact hs.arm hknown
  · intro values hnewest
    show handVector backend values = some orch.shared.view.handQ
    rw [hhold.view]
    exact hs.hand values hnewest

theorem posesInv_armMessage {backend : Backend} {s : Received status}
    (values : List ExactDouble) (hs : PosesInv backend s) :
    PosesInv backend
      { s with
        orch := s.orch.withArm (armVector values)
        arms := values :: s.arms } := by
  refine ⟨⟨?_, hs.poses.ramped⟩, ?_, hs.hand⟩
  · intro q hq
    rcases hs.poses.held q hq with ⟨old, hmem, hold⟩
    exact ⟨old, List.mem_cons_of_mem _ hmem, hold⟩
  · intro hknown
    by_cases hshort : values.length < armDOF
    · have hnone : armVector values = none := if_pos hshort
      have hbefore : ArmKnown s := by
        rcases hknown with ⟨old, hmem, hlength⟩
        rcases List.mem_cons.mp hmem with heq | hrest
        · rw [heq] at hlength
          exact absurd hshort (Nat.not_lt.mpr hlength)
        · exact ⟨old, hrest, hlength⟩
      rcases hs.arm hbefore with ⟨old, hmem, hold⟩
      refine ⟨old, List.mem_cons_of_mem _ hmem, ?_⟩
      rw [hnone]
      exact hold
    · refine ⟨values, List.mem_cons_self, ?_⟩
      rw [armVector, if_neg hshort]
      rfl

theorem posesInv_handMessage {backend : Backend} {s : Received status}
    (values : List ExactDouble) (hs : PosesInv backend s) :
    PosesInv backend
      { s with
        orch := s.orch.withHand (handVector backend values)
        hands := values :: s.hands } := by
  refine ⟨⟨hs.poses.held, ?_⟩, hs.arm, ?_⟩
  · intro h hh
    rcases hs.poses.ramped h hh with ⟨old, hmem, hold⟩
    exact ⟨old, List.mem_cons_of_mem _ hmem, hold⟩
  · intro newest hnewest
    unfold newestHand at hnewest
    rw [List.find?_cons] at hnewest
    cases hread : handVector backend values with
    | none =>
        rw [hread] at hnewest
        exact hs.hand newest hnewest
    | some h =>
        rw [hread] at hnewest
        cases hnewest
        exact hread

theorem posesInv_step {server : GoalServer status} {cfg : OrchestratorConfig}
    {backend : Backend} {s s' : Received status} {e : ReceiveEvent}
    (hs : PosesInv backend s) (hcond : CachesKnown backend s e)
    (hstep : receiveStep server cfg backend s e = some s') :
    PosesInv backend s' := by
  cases e with
  | node e =>
      simp only [receiveStep] at hstep
      split at hstep
      · cases hstep
      · rename_i hstate
        rcases Option.map_eq_some_iff.mp hstep with ⟨orch, hnode, heq⟩
        rw [← heq]
        exact posesInv_node hs hcond (Bool.eq_false_iff.mpr hstate) hnode
  | armMessage values =>
      cases hstep
      exact posesInv_armMessage values hs
  | handMessage values =>
      cases hstep
      exact posesInv_handMessage values hs

def holdByKey : List ReceiveEvent :=
  [.node (.step .pressT), .node (.step .user)]

def holdAfterState : List ReceiveEvent :=
  .armMessage (List.ofFn frankaSafePosition) ::
    .handMessage (List.replicate 16 (.finite 500)) ::
    .node (.step (.request restingGoal)) ::
    (executeSteps 20).map (fun e => .node (.step e)) ++ holdByKey

def heldWithoutState (s : Received GoalStatus) : Bool :=
  s.arms.isEmpty && s.orch.shared.published.any IoCall.isHold

def heldInRamp (s : Received GoalStatus) : Bool :=
  !s.ramps.isEmpty && s.orch.shared.published.any IoCall.isHold

end Orchestrator
end FrankaKistar
