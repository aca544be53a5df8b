import FrankaKistar.Arm.Tearing

/-!
# Whole PtoP targets

`Arm_j_tar` has three writers, `on_franka_target` and the two store loops of the
control thread, and one reader.  Each of them copies seven joints under the lock
of its own process.  When no loop of the bridge overlaps a loop of the control
thread, every target of a PtoP motion is a vector that one loop has written
whole; when they overlap, joints of two vectors can be mixed.
-/

namespace FrankaKistar
namespace Arm

open Foundation
open Bridge

/-!
## Vectors that one loop writes
-/

/-- The vector that a store loop of the control thread begins to write. -/
def Loc.storeLoop? : Loc -> Option (Joints ExactDouble)
  | .syncPose last 0 => some last
  | .syncTarget tr 0 => some tr.qLast
  | _ => none

def targetVector (data : List ExactDouble) : Joints ExactDouble :=
  fun j => data.getD j.val (.finite 0)

def AcceptedTarget (history : List SplitEvent) (x : Joints ExactDouble) : Prop :=
  exists data, SplitEvent.receive (.target data) ∈ history ∧
    data.length = armDOF ∧ x = targetVector data

def LoopVector (cfg : FrankaRightArmConfig) (start : Split)
    (history : List SplitEvent) (x : Joints ExactDouble) : Prop :=
  exists before s, before <+: history ∧
    (splitStep cfg).runFrom start before = some s ∧
    s.ctl.loc.storeLoop? = some x

def Origin (cfg : FrankaRightArmConfig) (start : Split)
    (history : List SplitEvent) (x : Joints ExactDouble) : Prop :=
  AcceptedTarget history x ∨ LoopVector cfg start history x

theorem origin_append {cfg : FrankaRightArmConfig} {start : Split}
    {history : List SplitEvent} {x : Joints ExactDouble} (e : SplitEvent)
    (h : Origin cfg start history x) : Origin cfg start (history ++ [e]) x := by
  rcases h with ⟨data, hmem, hvector⟩ | ⟨before, s, hprefix, hloop⟩
  · exact Or.inl ⟨data, List.mem_append_left _ hmem, hvector⟩
  · exact Or.inr ⟨before, s, hprefix.trans (List.prefix_append _ _), hloop⟩

/-!
## The condition

A loop of the control thread makes its first to its last access while the bridge
is not between the first and the last store of a target.
-/

/-- The joint that a loop over `Arm_j_tar` comes to next. -/
def Loc.targetIndex? : Loc -> Option Nat
  | .syncPose _ j => some j
  | .syncTarget _ j => some j
  | .loadTarget _ _ j => some j
  | _ => none

def Loc.accessesTarget (loc : Loc) : Bool :=
  loc.targetIndex?.any fun j => decide (j < armDOF)

/-- Some joints have been accessed and some not. -/
def Loc.insideTarget (loc : Loc) : Bool :=
  loc.targetIndex?.any fun j => decide (0 < j ∧ j < armDOF)

def storingTarget : List Store -> Bool
  | .armJTar j _ :: _ => decide (j.val ≠ 0)
  | _ => false

def TargetExcluded (s : Split) : SplitEvent -> Prop
  | .control _ =>
      s.ctl.loc.accessesTarget = true -> storingTarget s.outgoing = false
  | .store =>
      s.ctl.loc.insideTarget = true ->
        (s.outgoing.take 1).any Store.writesTarget = false
  | .receive _ => True

instance (s : Split) : forall e, Decidable (TargetExcluded s e)
  | .control _ => inferInstanceAs (Decidable (_ -> _))
  | .store => inferInstanceAs (Decidable (_ -> _))
  | .receive _ => inferInstanceAs (Decidable True)

/-!
## The control thread

What the thread has copied from or to a whole vector `v`, where `P` tells the
whole vectors.
-/

/-- The joints before `j` are copied; after the last joint, all of them are
whole. -/
def CopiedTo (P : Joints ExactDouble -> Prop) (j : Nat)
    (x source : Joints ExactDouble) : Prop :=
  (j < armDOF -> forall i : Fin armDOF, i.val < j -> x i = source i) ∧
    (¬j < armDOF -> P x)

def LocWhole (P : Joints ExactDouble -> Prop) (v : Joints ExactDouble) :
    Loc -> Prop
  | .connecting => True
  | .handler => True
  | .retrying => True
  | .undefinedBehaviour => True
  | .syncPose last j => P last ∧ CopiedTo P j v last
  | .syncTarget tr j => P tr.qLast ∧ CopiedTo P j v tr.qLast
  | .loadTarget _ target j => P v ∧ CopiedTo P j target v
  | .loadSpeed target => P v ∧ P target
  | .ptpMotion target _ => P v ∧ P target
  | _ => P v

section CopiedTo

variable {P : Joints ExactDouble -> Prop} {x source : Joints ExactDouble}

theorem copiedTo_zero : CopiedTo P 0 x source :=
  ⟨fun _ _ hi => absurd hi (Nat.not_lt_zero _),
    fun h => absurd (by decide : 0 < armDOF) h⟩

theorem copiedTo_succ {j : Nat} (hj : j < armDOF) (hsource : P source)
    (h : CopiedTo P j x source) :
    CopiedTo P (j + 1) (Function.update x ⟨j, hj⟩ (source ⟨j, hj⟩)) source := by
  have hagree := update_agrees hj (h.left hj)
  refine ⟨fun _ => hagree, ?_⟩
  intro hend
  rw [eq_of_agrees hend hagree]
  exact hsource

theorem copiedTo_mono {Q : Joints ExactDouble -> Prop} {j : Nat}
    (hPQ : forall y, P y -> Q y) (h : CopiedTo P j x source) :
    CopiedTo Q j x source :=
  ⟨h.left, fun hend => hPQ x (h.right hend)⟩

end CopiedTo

theorem locWhole_mono {P Q : Joints ExactDouble -> Prop}
    (hPQ : forall y, P y -> Q y) {v : Joints ExactDouble} {loc : Loc}
    (h : LocWhole P v loc) : LocWhole Q v loc := by
  cases loc with
  | connecting | handler | retrying | undefinedBehaviour => exact True.intro
  | syncPose | syncTarget | loadTarget =>
      exact ⟨hPQ _ h.left, copiedTo_mono hPQ h.right⟩
  | loadSpeed | ptpMotion => exact ⟨hPQ _ h.left, hPQ _ h.right⟩
  | _ => exact hPQ _ h

theorem locWhole_replace {P : Joints ExactDouble -> Prop}
    {v v' : Joints ExactDouble} {loc : Loc} (h : LocWhole P v loc)
    (hinside : loc.insideTarget = false) (hv' : P v') : LocWhole P v' loc := by
  have hreplace : forall {j x source}, loc.targetIndex? = some j ->
      CopiedTo P j x source -> forall x' source', (¬j < armDOF -> P x') ->
        CopiedTo P j x' source' := by
    intro j x source hindex _ x' source' hend
    refine ⟨?_, hend⟩
    intro hj i hi
    rw [Loc.insideTarget, hindex, Option.any_some, decide_eq_false_iff_not]
      at hinside
    exact absurd ⟨Nat.lt_of_le_of_lt (Nat.zero_le _) hi, hj⟩ hinside
  cases loc with
  | connecting | handler | retrying | undefinedBehaviour => exact True.intro
  | syncPose | syncTarget =>
      exact ⟨h.left, hreplace rfl h.right _ _ fun _ => hv'⟩
  | loadTarget =>
      exact ⟨hv', hreplace rfl h.right _ _ h.right.right⟩
  | loadSpeed | ptpMotion => exact ⟨hv', h.right⟩
  | _ => exact hv'

/-- The outcome of a step: `Arm_j_tar` is left alone, or a store loop has
written one more joint of it. -/
def StepWhole (P : Joints ExactDouble -> Prop) (v : Joints ExactDouble)
    (s s' : Ctl) : Prop :=
  (s'.shm.msgs.armJTar = s.shm.msgs.armJTar ∧ LocWhole P v s'.loc) ∨
    (s.loc.accessesTarget = true ∧
      LocWhole P s'.shm.msgs.armJTar s'.loc)

theorem stepWhole_stored {P : Joints ExactDouble -> Prop}
    {v source : Joints ExactDouble} {shm shm' : Shm} {loc loc' : Loc} {j : Nat}
    (hj : j < armDOF) (haccesses : loc.accessesTarget = true)
    (hv : shm.msgs.armJTar = v)
    (hstore : shm'.msgs.armJTar =
      Function.update shm.msgs.armJTar ⟨j, hj⟩ (source ⟨j, hj⟩))
    (hwhole : P source ∧ CopiedTo P j v source)
    (hnext : forall x, P source ∧ CopiedTo P (j + 1) x source ->
      LocWhole P x loc') :
    StepWhole P v ⟨shm, loc⟩ ⟨shm', loc'⟩ := by
  refine Or.inr ⟨haccesses, hnext _ ⟨hwhole.left, ?_⟩⟩
  rw [<- hv] at hwhole
  rw [hstore]
  exact copiedTo_succ hj hwhole.left hwhole.right

theorem tickStep_whole {cfg : FrankaRightArmConfig}
    {P : Joints ExactDouble -> Prop} {v : Joints ExactDouble} {shm : Shm}
    {loc : Loc} {s' : Ctl} (hwhole : LocWhole P v loc)
    (hv : loc.accessesTarget = true -> shm.msgs.armJTar = v)
    (hloop : forall x, s'.loc.storeLoop? = some x -> P x)
    (h : tickStep cfg shm loc = some s') : StepWhole P v ⟨shm, loc⟩ s' := by
  cases loc with
  | syncPose last j =>
      simp only [tickStep] at h
      split at h
      · rename_i hj
        have haccesses := decide_eq_true hj
        cases h
        exact stepWhole_stored hj haccesses (hv haccesses) rfl hwhole
          fun _ hnext => hnext
      · rename_i hj
        cases h
        exact Or.inl ⟨rfl, hwhole.right.right hj⟩
  | syncTarget tr j =>
      simp only [tickStep] at h
      split at h
      · rename_i hj
        have haccesses := decide_eq_true hj
        cases h
        exact stepWhole_stored hj haccesses (hv haccesses) rfl hwhole
          fun _ hnext => hnext
      · rename_i hj
        cases h
        exact Or.inl ⟨rfl, hwhole.right.right hj⟩
  | loadTarget last target j =>
      simp only [tickStep] at h
      split at h
      · rename_i hj
        have hload := hv (decide_eq_true hj)
        cases h
        rw [hload]
        exact Or.inl ⟨rfl, hwhole.left,
          copiedTo_succ hj hwhole.left hwhole.right⟩
      · rename_i hj
        split at h
        · cases h
          exact Or.inl ⟨rfl, hwhole.left, hwhole.right.right hj⟩
        · cases h
          exact Or.inl ⟨rfl, hwhole.left⟩
  | readTrajState last =>
      simp only [tickStep] at h
      split at h
      · cases h
        exact Or.inl ⟨rfl, hwhole⟩
      · cases h
        exact Or.inl ⟨rfl, hwhole, copiedTo_zero⟩
  | storeDone tr =>
      cases h
      exact Or.inl ⟨rfl, hloop tr.qLast rfl, copiedTo_zero⟩
  | checkTrajState last =>
      simp only [tickStep] at h
      split at h <;> cases h <;> exact Or.inl ⟨rfl, hwhole⟩
  | loadLen =>
      simp only [tickStep] at h
      split at h <;> cases h <;> exact Or.inl ⟨rfl, hwhole⟩
  | copying len c q j =>
      simp only [tickStep] at h
      split at h
      · cases h
        exact Or.inl ⟨rfl, hwhole⟩
      · cases h
        refine Or.inl ⟨rfl, ?_⟩
        simp only [finishRow]
        split
        · exact hwhole
        · split <;> exact hwhole
  | storeIdle | storeZeroLen | storeExecuting | rejected | sleeping =>
      cases h
      exact Or.inl ⟨rfl, hwhole⟩
  | loadSpeed target =>
      cases h
      exact Or.inl ⟨rfl, hwhole⟩
  | trajCatch | handler | retrying =>
      cases h
      exact Or.inl ⟨rfl, True.intro⟩
  | connecting | poll | executing | finishing | afterTrajectory | ptpMotion
  | afterPtp | undefinedBehaviour => cases h

theorem controlStep_whole {cfg : FrankaRightArmConfig}
    {P : Joints ExactDouble -> Prop} {v : Joints ExactDouble} {s s' : Ctl}
    {e : ControlEvent} (hwhole : LocWhole P v s.loc)
    (hv : s.loc.accessesTarget = true -> s.shm.msgs.armJTar = v)
    (hloop : forall x, s'.loc.storeLoop? = some x -> P x)
    (h : controlStep cfg s e = some s') : StepWhole P v s s' := by
  rcases s with ⟨shm, loc⟩
  cases e with
  | tick => exact tickStep_whole hwhole hv hloop h
  | robotState state =>
      cases loc with
      | connecting =>
          cases h
          exact Or.inl ⟨rfl, hloop state.q rfl, copiedTo_zero⟩
      | poll | afterTrajectory | afterPtp =>
          cases h
          exact Or.inl ⟨rfl, hwhole⟩
      | _ => cases h
  | callback state period =>
      cases loc with
      | executing tr elapsed =>
          simp only [controlStep, callbackStep] at h
          split at h
          · cases h
            exact Or.inl ⟨rfl, True.intro⟩
          · cases h
            refine Or.inl ⟨rfl, ?_⟩
            simp only
            split <;> exact hwhole
      | _ => cases h
  | controlReturns =>
      cases loc with
      | finishing =>
          cases h
          exact Or.inl ⟨rfl, hwhole⟩
      | ptpMotion =>
          cases h
          exact Or.inl ⟨rfl, hwhole.left⟩
      | _ => cases h
  | throws =>
      cases loc with
      | executing | finishing =>
          cases h
          exact Or.inl ⟨rfl, hwhole⟩
      | connecting | poll | afterTrajectory | ptpMotion | afterPtp =>
          cases h
          exact Or.inl ⟨rfl, True.intro⟩
      | _ => cases h

/-!
## The bridge

Between its callbacks and before the first store of a target the bridge has
nothing to do with the content; from the first store on it is about to be the
vector of the message.
-/

inductive BridgeWhole (history : List SplitEvent) (x v : Joints ExactDouble) :
    List Store -> Prop where
  | quiet {stores : List Store} :
      x = v -> stores.any Store.writesTarget = false ->
      BridgeWhole history x v stores
  | ready {y : Joints ExactDouble} :
      x = v -> AcceptedTarget history y ->
      BridgeWhole history x v (armTargetStores y)
  | storing {j : Nat} :
      0 < j -> j < armDOF -> AcceptedTarget history v ->
      (forall i : Fin armDOF, i.val < j -> x i = v i) ->
      BridgeWhole history x v ((armTargetStores v).drop j)

theorem armTargetStores_drop (y : Joints ExactDouble) {j : Nat}
    (hj : j < armDOF) :
    (armTargetStores y).drop j =
      Store.armJTar ⟨j, hj⟩ (y ⟨j, hj⟩) :: (armTargetStores y).drop (j + 1) := by
  have hlength : j < (armTargetStores y).length := by
    simpa [armTargetStores] using hj
  rw [List.drop_eq_getElem_cons hlength]
  simp [armTargetStores]

theorem armTargetStores_end (y : Joints ExactDouble) {j : Nat}
    (hj : ¬j < armDOF) : (armTargetStores y).drop j = [] := by
  apply List.drop_eq_nil_of_le
  simpa [armTargetStores] using Nat.le_of_not_lt hj

theorem acceptedTarget_append {history : List SplitEvent}
    {x : Joints ExactDouble} (e : SplitEvent) (h : AcceptedTarget history x) :
    AcceptedTarget (history ++ [e]) x := by
  rcases h with ⟨data, hmem, hvector⟩
  exact ⟨data, List.mem_append_left _ hmem, hvector⟩

theorem bridgeWhole_append {history : List SplitEvent}
    {x v : Joints ExactDouble} {stores : List Store} (e : SplitEvent)
    (h : BridgeWhole history x v stores) :
    BridgeWhole (history ++ [e]) x v stores := by
  cases h with
  | quiet hv hquiet => exact .quiet hv hquiet
  | ready hv hsource => exact .ready hv (acceptedTarget_append e hsource)
  | storing hpos hlt hsource hagree =>
      exact .storing hpos hlt (acceptedTarget_append e hsource) hagree

theorem eq_of_bridgeWhole {history : List SplitEvent}
    {x v : Joints ExactDouble} {stores : List Store}
    (h : BridgeWhole history x v stores)
    (hstoring : storingTarget stores = false) : x = v := by
  cases h with
  | quiet hv _ => exact hv
  | ready hv _ => exact hv
  | storing hpos hlt _ _ =>
      rw [armTargetStores_drop v hlt] at hstoring
      exact absurd (of_decide_eq_false hstoring)
        (not_not_intro (Nat.ne_of_gt hpos))

theorem bridgeWhole_write {history : List SplitEvent}
    {x v : Joints ExactDouble} {stores : List Store}
    (h : BridgeWhole history x v stores)
    (hstoring : storingTarget stores = false) (x' : Joints ExactDouble) :
    BridgeWhole history x' x' stores := by
  cases h with
  | quiet _ hquiet => exact .quiet rfl hquiet
  | ready _ hsource => exact .ready rfl hsource
  | storing hpos hlt _ _ =>
      rw [armTargetStores_drop v hlt] at hstoring
      exact absurd (of_decide_eq_false hstoring)
        (not_not_intro (Nat.ne_of_gt hpos))

theorem bridgeWhole_stored {history : List SplitEvent}
    {x v : Joints ExactDouble} {j : Nat} (hj : j < armDOF)
    (hsource : AcceptedTarget history v)
    (hagree : forall i : Fin armDOF, i.val < j -> x i = v i) :
    BridgeWhole history (Function.update x ⟨j, hj⟩ (v ⟨j, hj⟩)) v
      ((armTargetStores v).drop (j + 1)) := by
  have hnext := update_agrees hj hagree
  by_cases hend : j + 1 < armDOF
  · exact .storing (Nat.succ_pos j) hend hsource hnext
  · rw [armTargetStores_end v hend, eq_of_agrees hend hnext]
    exact .quiet rfl rfl

/-!
## Messages
-/

theorem rowsStores_not_writesTarget (names : List String) (i : Nat)
    (pts : List JointTrajectoryPoint) :
    (rowsStores names i pts).any Store.writesTarget = false := by
  induction pts generalizing i with
  | nil => rfl
  | cons pt rest ih =>
      rw [rowsStores, List.any_append, ih, Bool.or_false, rowStores,
        List.any_append, List.any_map]
      rfl

theorem trajectoryStores_not_writesTarget (msg : JointTrajectory) :
    ((trajectoryStores msg).getD []).any Store.writesTarget = false := by
  unfold trajectoryStores
  simp only
  split
  · rfl
  · rw [Option.getD_some, List.any_cons, List.any_append,
      rowsStores_not_writesTarget]
    rfl

theorem speedStores_not_writesTarget (factor : ExactDouble) :
    (speedStores factor).any Store.writesTarget = false := by
  unfold speedStores
  split
  · rfl
  · split <;> rfl

theorem bridgeWhole_receive {history : List SplitEvent}
    {x : Joints ExactDouble} (msg : ArmMessage) :
    BridgeWhole (history ++ [.receive msg]) x x msg.stores := by
  cases msg with
  | trajectory traj => exact .quiet rfl (trajectoryStores_not_writesTarget traj)
  | speed factor => exact .quiet rfl (speedStores_not_writesTarget factor)
  | target data =>
      by_cases hlength : data.length = armDOF
      · have hstores : (ArmMessage.target data).stores =
            armTargetStores (targetVector data) := by
          rw [ArmMessage.stores, targetStores, if_neg (not_not_intro hlength)]
          rfl
        rw [hstores]
        exact .ready rfl
          ⟨data, List.mem_append_right _ (.head _), hlength, rfl⟩
      · have hstores : (ArmMessage.target data).stores = [] := by
          rw [ArmMessage.stores, targetStores, if_pos hlength]
          rfl
        rw [hstores]
        exact .quiet rfl rfl

/-!
## Runs
-/

/-- `Arm_j_tar` holds a whole vector, or a loop is on the way to one. -/
structure TargetsWhole (cfg : FrankaRightArmConfig) (start : Split)
    (history : List SplitEvent) (s : Split) : Prop where
  run : (splitStep cfg).runFrom start history = some s
  content : exists v,
    LocWhole (Origin cfg start history) v s.ctl.loc ∧
      BridgeWhole history s.ctl.shm.msgs.armJTar v s.outgoing

theorem storeLoop_origin {cfg : FrankaRightArmConfig} {start s : Split}
    {history : List SplitEvent} {x : Joints ExactDouble}
    (hrun : (splitStep cfg).runFrom start history = some s)
    (hloop : s.ctl.loc.storeLoop? = some x) : Origin cfg start history x :=
  Or.inr ⟨history, s, List.prefix_refl _, hrun, hloop⟩

theorem content_control {cfg : FrankaRightArmConfig} {start s s' : Split}
    {history : List SplitEvent} {e : ControlEvent}
    (hs : TargetsWhole cfg start history s)
    (hcond : TargetExcluded s (.control e))
    (hrun : (splitStep cfg).runFrom start (history ++ [.control e]) = some s')
    (h : splitStep cfg s (.control e) = some s') :
    exists v, LocWhole (Origin cfg start (history ++ [.control e])) v
        s'.ctl.loc ∧
      BridgeWhole (history ++ [.control e]) s'.ctl.shm.msgs.armJTar v
        s'.outgoing := by
  rcases Option.map_eq_some_iff.mp h with ⟨ctl, hctl, rfl⟩
  rcases hs.content with ⟨v, hwhole, hbridge⟩
  have hsettled : s.ctl.loc.accessesTarget = true ->
      s.ctl.shm.msgs.armJTar = v :=
    fun haccess => eq_of_bridgeWhole hbridge (hcond haccess)
  have hbridge' := bridgeWhole_append (.control e) hbridge
  rcases controlStep_whole
      (locWhole_mono (fun _ => origin_append (.control e)) hwhole) hsettled
      (fun _ => storeLoop_origin hrun) hctl with
    ⟨hsame, hwhole'⟩ | ⟨haccess, hwhole'⟩
  · refine ⟨v, hwhole', ?_⟩
    rw [hsame]
    exact hbridge'
  · exact ⟨_, hwhole', bridgeWhole_write hbridge' (hcond haccess) _⟩

theorem content_store {P : Joints ExactDouble -> Prop}
    {history : List SplitEvent} {loc : Loc} {shm : Shm} {store : Store}
    {rest : List Store} {v : Joints ExactDouble}
    (haccepted : forall y, AcceptedTarget history y -> P y)
    (hcond : loc.insideTarget = true -> store.writesTarget = false)
    (hwhole : LocWhole P v loc)
    (hbridge : BridgeWhole history shm.msgs.armJTar v (store :: rest)) :
    exists v', LocWhole P v' loc ∧
      BridgeWhole history (store.apply shm).msgs.armJTar v' rest := by
  generalize hstores : store :: rest = stores at hbridge
  cases hbridge with
  | quiet hv hquiet =>
      subst hstores
      rw [List.any_cons, Bool.or_eq_false_iff] at hquiet
      rw [armJTar_of_not_writesTarget hquiet.left]
      exact ⟨v, hwhole, .quiet hv hquiet.right⟩
  | @ready y hv hsource =>
      have hdrop := armTargetStores_drop y (by decide : 0 < armDOF)
      rw [List.drop_zero] at hdrop
      rw [hdrop] at hstores
      cases hstores
      have houtside : loc.insideTarget = false := by
        cases hinside : loc.insideTarget with
        | false => rfl
        | true => cases hcond hinside
      exact ⟨y, locWhole_replace hwhole houtside (haccepted y hsource),
        bridgeWhole_stored (by decide) hsource
          fun i hi => absurd hi (Nat.not_lt_zero _)⟩
  | storing hpos hlt hsource hagree =>
      rw [armTargetStores_drop v hlt] at hstores
      cases hstores
      exact ⟨v, hwhole, bridgeWhole_stored hlt hsource hagree⟩

theorem targetsWhole_step {cfg : FrankaRightArmConfig} {start s s' : Split}
    {history : List SplitEvent} {e : SplitEvent}
    (hs : TargetsWhole cfg start history s) (hcond : TargetExcluded s e)
    (h : splitStep cfg s e = some s') :
    TargetsWhole cfg start (history ++ [e]) s' := by
  have hrun : (splitStep cfg).runFrom start (history ++ [e]) = some s' := by
    rw [Machine.runFrom_append, hs.run, Option.bind_some,
      Machine.runFrom_cons_of_step h]
    rfl
  refine ⟨hrun, ?_⟩
  cases e with
  | control e => exact content_control hs hcond hrun h
  | receive msg =>
      rcases hs.content with ⟨v, hwhole, hbridge⟩
      rcases s with ⟨ctl, outgoing⟩
      cases outgoing with
      | cons store rest => cases h
      | nil =>
          cases h
          have hv := eq_of_bridgeWhole hbridge rfl
          refine ⟨v, locWhole_mono (fun _ => origin_append _) hwhole, ?_⟩
          rw [hv]
          exact bridgeWhole_receive msg
  | store =>
      rcases hs.content with ⟨v, hwhole, hbridge⟩
      rcases s with ⟨ctl, outgoing⟩
      cases outgoing with
      | nil => cases h
      | cons store rest =>
          cases h
          refine content_store (fun _ => Or.inl) ?_
            (locWhole_mono (fun _ => origin_append _) hwhole)
            (bridgeWhole_append _ hbridge)
          intro hinside
          simpa [TargetExcluded] using hcond hinside

def Split.connecting (shm : Shm) : Split := ⟨⟨shm, .connecting⟩, []⟩

theorem targetsWhole_of_run {cfg : FrankaRightArmConfig} {shm : Shm}
    {history : List SplitEvent} {s : Split}
    (h : Machine.RunWhere (splitStep cfg) TargetExcluded
      (Split.connecting shm) history s) :
    TargetsWhole cfg (Split.connecting shm) history s := by
  apply Machine.history_invariant_of_step _ _ h
  · intro history s e s' hs hcond hstep
    exact targetsWhole_step hs hcond hstep
  · exact ⟨rfl, _, True.intro, .quiet rfl rfl⟩

/-- Every target of a PtoP motion is a whole vector, in every run whose loops do
not overlap. -/
theorem ptpMotion_origin {cfg : FrankaRightArmConfig} {shm : Shm}
    {history : List SplitEvent} {s : Split} {target : Joints ExactDouble}
    {speed : ExactDouble}
    (h : Machine.RunWhere (splitStep cfg) TargetExcluded
      (Split.connecting shm) history s)
    (hloc : s.ctl.loc = .ptpMotion target speed) :
    Origin cfg (Split.connecting shm) history target := by
  rcases (targetsWhole_of_run h).content with ⟨v, hwhole, _⟩
  rw [hloc] at hwhole
  exact hwhole.right

/-!
## Two runs

The controller connects and polls.  In the first run a target is stored before
the thread loads it; in the second it is stored when three joints have been
loaded.
-/

def raisedTarget : List ExactDouble :=
  [.finite 1, .finite 1, .finite 1, .finite 1, .finite 1, .finite 1, .finite 1]

def targetMessageEvents : List SplitEvent :=
  .receive (.target raisedTarget) :: List.replicate 7 .store

def connectAndWait : List SplitEvent :=
  .control (.robotState .atRest) :: ticks 11

def wholeMotion : List SplitEvent :=
  List.flatten
    [connectAndWait, targetMessageEvents, [.control (.robotState .atRest)],
      ticks 10]

def tornMotion : List SplitEvent :=
  List.flatten
    [connectAndWait, [.control (.robotState .atRest)], ticks 4,
      targetMessageEvents, ticks 6]

def Loc.ptpTarget? : Loc -> Option (Joints ExactDouble)
  | .ptpMotion target _ => some target
  | _ => none

theorem exists_ptpMotion_of_target {loc : Loc} {target : Joints ExactDouble}
    (h : loc.ptpTarget? = some target) :
    exists speed, loc = .ptpMotion target speed := by
  cases loc with
  | ptpMotion target' speed =>
      cases h
      exact ⟨speed, rfl⟩
  | _ => cases h

/-- No message of the history and no store loop of the run is `x`. -/
def withoutOrigin (cfg : FrankaRightArmConfig) (start : Split)
    (history : List SplitEvent) (x : Joints ExactDouble) : Bool :=
  (history.all fun
    | .receive (.target data) => decide (x ≠ targetVector data)
    | _ => true) &&
  history.inits.all fun before =>
    ((splitStep cfg).runFrom start before).all fun s =>
      s.ctl.loc.storeLoop?.all fun y => decide (x ≠ y)

theorem not_origin_of_withoutOrigin {cfg : FrankaRightArmConfig}
    {start : Split} {history : List SplitEvent} {x : Joints ExactDouble}
    (h : withoutOrigin cfg start history x = true) :
    ¬Origin cfg start history x := by
  rw [withoutOrigin, Bool.and_eq_true, List.all_eq_true, List.all_eq_true] at h
  intro horigin
  rcases horigin with ⟨data, hmem, _, hvector⟩ | ⟨before, s, hprefix, hrun, hloop⟩
  · exact of_decide_eq_true (h.left _ hmem) hvector
  · have hbefore := h.right before ((List.mem_inits before history).mpr hprefix)
    rw [hrun, Option.all_some, hloop, Option.all_some] at hbefore
    exact of_decide_eq_true hbefore rfl

theorem ptpMotion_origin_wholeMotion :
    exists (s : Split) (target : Joints ExactDouble) (speed : ExactDouble),
      s.ctl.loc = .ptpMotion target speed ∧
        Origin defaultConfig
          (Split.connecting ⟨SHMmsgs.zero, ArmTrajBuf.zero⟩) wholeMotion
          target := by
  have hrun : (((splitStep defaultConfig).guarded TargetExcluded).runFrom
      (Split.connecting ⟨SHMmsgs.zero, ArmTrajBuf.zero⟩) wholeMotion).any
      (fun s => s.ctl.loc.ptpTarget?.isSome) = true := by
    decide +kernel
  rcases Machine.exists_runWhere_of_any hrun with ⟨s, hs, hloc⟩
  rcases Option.isSome_iff_exists.mp hloc with ⟨target, htarget⟩
  rcases exists_ptpMotion_of_target htarget with ⟨speed, hspeed⟩
  exact ⟨s, target, speed, hspeed, ptpMotion_origin hs hspeed⟩

theorem not_all_ptpMotion_origin :
    ¬forall cfg shm history s target speed,
        Machine.Run (splitStep cfg) (Split.connecting shm) history s ->
        s.ctl.loc = .ptpMotion target speed ->
        Origin cfg (Split.connecting shm) history target := by
  intro hclaim
  have hrun : ((splitStep defaultConfig).runFrom
      (Split.connecting ⟨SHMmsgs.zero, ArmTrajBuf.zero⟩) tornMotion).any
      (fun s => s.ctl.loc.ptpTarget?.any fun target =>
        withoutOrigin defaultConfig
          (Split.connecting ⟨SHMmsgs.zero, ArmTrajBuf.zero⟩) tornMotion
          target) = true := by
    decide +kernel
  rcases Machine.exists_run_of_any hrun with ⟨s, hs, htest⟩
  cases htarget : s.ctl.loc.ptpTarget? with
  | none =>
      rw [htarget] at htest
      cases htest
  | some target =>
      rw [htarget, Option.any_some] at htest
      rcases exists_ptpMotion_of_target htarget with ⟨speed, hspeed⟩
      exact not_origin_of_withoutOrigin htest
        (hclaim _ _ _ s target speed hs hspeed)

end Arm
end FrankaKistar
