import FrankaKistar.Arm.Handshake
import FrankaKistar.Arm.Tearing

/-!
# The latest command

A target and a trajectory are both commands for the arm, and the one that was
accepted last should be the one that the arm ends at.  The control thread writes
`Arm_j_tar` itself, at connection and after each trajectory, without looking at
what the bridge has written meanwhile.  A target that comes before such a sync
is lost; otherwise the latest command wins.
-/

namespace FrankaKistar
namespace Arm

open Foundation
open Bridge

/-- Where a message sends the arm: its target, or its last waypoint. -/
def ArmMessage.goal? : ArmMessage -> Option (Joints ExactDouble)
  | .trajectory msg =>
      (trajectoryStores msg).bind fun _ =>
        (messageRows msg).getLast?.map Prod.fst
  | .target data =>
      (targetStores data).map fun _ => fun j => data.getD j.val (.finite 0)
  | .speed _ => none

/-- The control thread and the bridge, the pose at which the arm was connected
or ended its last motion, and the goal of the last message accepted since. -/
structure Commanded where
  ctl : Ctl
  endPose : Joints ExactDouble
  goal : Option (Joints ExactDouble)

def Loc.isConnecting : Loc -> Bool
  | .connecting => true
  | _ => false

theorem Loc.eq_connecting {loc : Loc} (h : loc.isConnecting = true) :
    loc = .connecting := by
  cases loc <;> first | rfl | cases h

/-- The pose at which the motion ends that `robot.control` returns from. -/
def Loc.motionEnd? : Loc -> Option (Joints ExactDouble)
  | .finishing tr => some tr.qLast
  | .ptpMotion target _ => some target
  | _ => none

def Commanded.after (s : Commanded) (ctl : Ctl) : AtomicEvent -> Commanded
  | .control (.robotState state) =>
      if s.ctl.loc.isConnecting then ⟨ctl, state.q, none⟩
      else { s with ctl := ctl }
  | .control .controlReturns =>
      { s with
        ctl := ctl
        endPose := s.ctl.loc.motionEnd?.getD s.endPose }
  | .control _ => { s with ctl := ctl }
  | .message msg => { s with ctl := ctl, goal := msg.goal?.or s.goal }

def commandedStep (cfg : FrankaRightArmConfig) : Machine Commanded AtomicEvent :=
  fun s e => (atomicStep cfg s.ctl e).map fun ctl => s.after ctl e

def Commanded.start (shm : Shm) : Commanded :=
  ⟨⟨shm, .connecting⟩, zeroJoints, none⟩

/-- What `Arm_j_tar` is compared with in the polling loop. -/
def Loc.polling? : Loc -> Option (Joints ExactDouble)
  | .poll last => some last
  | .readTrajState last => some last
  | .loadTarget last _ _ => some last
  | .sleeping last => some last
  | _ => none

/-- The thread is polling, no trajectory is pending, and `Arm_j_tar` starts no
motion. -/
def Ctl.Quiet (c : Ctl) : Prop :=
  exists last, c.loc.polling? = some last ∧ c.shm.traj.state ≠ .pending ∧
    isTargetChanged c.shm.msgs.armJTar last = false

def LatestWins (s : Commanded) : Prop :=
  s.ctl.Quiet -> forall goal, s.goal = some goal ->
    isTargetChanged goal s.endPose = false

/-!
## The condition
-/

/-- A trajectory has been picked up and its end is not yet stored. -/
def Loc.takesTrajectory : Loc -> Bool
  | .storeExecuting _ => true
  | .loadLen => true
  | .copying _ _ _ _ => true
  | .executing _ _ => true
  | .finishing _ => true
  | .storeDone _ => true
  | _ => false

/-- `Arm_j_tar` is overwritten before it is looked at again. -/
def Loc.overwritesTarget : Loc -> Bool
  | .syncPose _ j => decide (j < armDOF)
  | .syncTarget _ j => decide (j < armDOF)
  | loc => loc.takesTrajectory

/-- No exceptions; trajectories are valid, and none is posted while another is
pending or executing. -/
def WellPosted (s : Commanded) : AtomicEvent -> Prop
  | .control .throws => False
  | .control _ => True
  | .message msg => msg.accepted = true ->
      s.ctl.shm.traj.state ≠ .pending ∧ s.ctl.loc.takesTrajectory = false ∧
        (loadTrajectory (applyStores msg.stores s.ctl.shm).traj).isSome = true

/-- No target is accepted while a trajectory waits or `Arm_j_tar` is about to be
overwritten, and no trajectory while the state is about to be overwritten. -/
def CommandKept (s : Commanded) : AtomicEvent -> Prop
  | .message (.target data) =>
      (targetStores data).isSome = true -> s.ctl.loc.isConnecting = false ->
        s.ctl.shm.traj.state ≠ .pending ∧ s.ctl.loc.overwritesTarget = false
  | .message msg => msg.accepted = true -> s.ctl.loc.clears = false
  | .control _ => True

def LatestKept (s : Commanded) (e : AtomicEvent) : Prop :=
  WellPosted s e ∧ CommandKept s e

instance (s : Commanded) : forall e, Decidable (WellPosted s e)
  | .control .throws => inferInstanceAs (Decidable False)
  | .control .tick => inferInstanceAs (Decidable True)
  | .control (.robotState _) => inferInstanceAs (Decidable True)
  | .control (.callback _ _) => inferInstanceAs (Decidable True)
  | .control .controlReturns => inferInstanceAs (Decidable True)
  | .message _ => inferInstanceAs (Decidable (_ -> _))

instance (s : Commanded) : forall e, Decidable (CommandKept s e)
  | .message (.target _) => inferInstanceAs (Decidable (_ -> _))
  | .message (.speed _) => inferInstanceAs (Decidable (_ -> _))
  | .message (.trajectory _) => inferInstanceAs (Decidable (_ -> _))
  | .control _ => inferInstanceAs (Decidable True)

instance (s : Commanded) (e : AtomicEvent) : Decidable (LatestKept s e) :=
  inferInstanceAs (Decidable (_ ∧ _))

/-!
## Loading, step by step
-/

theorem copyTo_of_load {buf : ArmTrajBuf} {tr : Trajectory}
    (h : loadTrajectory buf = some tr) :
    exists len, TrajLen.ofInt? buf.len = some len ∧
      CopyTo buf (some tr.rows) len CheckedRows.empty zeroJoints 0 := by
  have hrows := loadedRows_eq_some h
  cases hlen : TrajLen.ofInt? buf.len with
  | none =>
      rw [loadedRows_of_refused hlen] at hrows
      cases hrows
  | some len =>
      have hcopy := copyTo_loadedRows hlen
      rw [hrows] at hcopy
      exact ⟨len, rfl, hcopy⟩

theorem finishRow_of_load {buf : ArmTrajBuf} {tr : Trajectory} {len : TrajLen}
    {c : CheckedRows} {q : Joints ExactDouble} {j : Nat}
    (h : CopyTo buf (some tr.rows) len c q j) (hj : ¬ j < armDOF) :
    finishRow len c q (buf.t c.rows.length) = .executing tr 0 ∨
      exists c', finishRow len c q (buf.t c.rows.length) =
          .copying len c' zeroJoints 0 ∧
        CopyTo buf (some tr.rows) len c' zeroJoints 0 := by
  rcases finishRow_of_copyTo h hj with
    ⟨_, hnone⟩ | ⟨tr', hexecute, hrows⟩ | hnext
  · cases hnone
  · rw [Trajectory.eq_of_rows (Option.some.inj hrows)]
    exact Or.inl hexecute
  · exact Or.inr hnext

/-!
## The command in force

A trajectory that is pending or taken is in force with its last waypoint;
otherwise `Arm_j_tar` is, with the joints that a sync has still to write.
-/

def Posts (buf : ArmTrajBuf) (goal : Joints ExactDouble) : Prop :=
  exists tr, loadTrajectory buf = some tr ∧ tr.qLast = goal

/-- `x` up to joint `j`, and `y` from there on. -/
def mixed (j : Nat) (x y : Joints ExactDouble) : Joints ExactDouble :=
  fun i => if i.val < j then x i else y i

theorem mixed_zero (x y : Joints ExactDouble) : mixed 0 x y = y := rfl

theorem mixed_of_le {j : Nat} (hj : ¬ j < armDOF) (x y : Joints ExactDouble) :
    mixed j x y = x := by
  funext i
  exact if_pos (Nat.lt_of_lt_of_le i.isLt (Nat.le_of_not_lt hj))

theorem mixed_update {j : Nat} (hj : j < armDOF) (x y : Joints ExactDouble) :
    mixed (j + 1) (Function.update x ⟨j, hj⟩ (y ⟨j, hj⟩)) y = mixed j x y := by
  funext i
  unfold mixed
  by_cases hij : i = ⟨j, hj⟩
  · subst hij
    rw [if_pos (Nat.lt_succ_self _), if_neg (Nat.lt_irrefl _),
      Function.update_self]
  · have hne : i.val ≠ j := fun hval => hij (Fin.ext hval)
    rw [Function.update_of_ne hij]
    by_cases hlt : i.val < j
    · rw [if_pos hlt, if_pos (Nat.lt_succ_of_lt hlt)]
    · rw [if_neg hlt, if_neg (by omega)]

structure Settled (buf : ArmTrajBuf) (target goal : Joints ExactDouble) :
    Prop where
  pending : buf.state = .pending -> Posts buf goal
  idle : buf.state ≠ .pending -> target = goal

theorem settled_syncJoint {buf : ArmTrajBuf} {tar y goal : Joints ExactDouble}
    {j : Nat} (hj : j < armDOF) (h : Settled buf (mixed j tar y) goal) :
    Settled buf (mixed (j + 1) (Function.update tar ⟨j, hj⟩ (y ⟨j, hj⟩)) y)
      goal := by
  rw [mixed_update hj]
  exact h

theorem settled_synced {buf : ArmTrajBuf} {tar y goal : Joints ExactDouble}
    {j : Nat} (hj : ¬ j < armDOF) (h : Settled buf (mixed j tar y) goal) :
    Settled buf tar goal := by
  rw [mixed_of_le hj] at h
  exact h

/-- `goal` is in force with the buffer `buf` and with `tar` in `Arm_j_tar`. -/
def InForce (buf : ArmTrajBuf) (tar goal : Joints ExactDouble) : Loc -> Prop
  | .syncPose last j => Settled buf (mixed j tar last) goal
  | .storeIdle _ => buf.state ≠ .pending ∧ tar = goal
  | .storeZeroLen _ => buf.state ≠ .pending ∧ tar = goal
  | .storeExecuting _ => Posts buf goal
  | .loadLen => Posts buf goal
  | .copying len c q j =>
      exists tr : Trajectory, CopyTo buf (some tr.rows) len c q j ∧
        tr.qLast = goal
  | .executing tr _ => tr.qLast = goal
  | .finishing tr => tr.qLast = goal
  | .storeDone tr => tr.qLast = goal
  | .syncTarget tr j => Settled buf (mixed j tar tr.qLast) goal
  | .rejected => False
  | .trajCatch => False
  | .handler => False
  | .retrying => False
  | .undefinedBehaviour => True
  | _ => Settled buf tar goal

/-- `last_target` is where the arm is. -/
def EndsAt (endPose : Joints ExactDouble) : Loc -> Prop
  | .syncPose last _ => last = endPose
  | .checkTrajState last => last = endPose
  | .storeIdle last => last = endPose
  | .storeZeroLen last => last = endPose
  | .poll last => last = endPose
  | .readTrajState last => last = endPose
  | .storeExecuting last => last = endPose
  | .storeDone tr => tr.qLast = endPose
  | .syncTarget tr _ => tr.qLast = endPose
  | .afterTrajectory last => last = endPose
  | .loadTarget last _ _ => last = endPose
  | .afterPtp target => target = endPose
  | .sleeping last => last = endPose
  | _ => True

structure LatestInv (s : Commanded) : Prop where
  force : exists goal,
    InForce s.ctl.shm.traj s.ctl.shm.msgs.armJTar goal s.ctl.loc ∧
      (s.ctl.loc.isConnecting = false ->
        forall g, s.goal = some g -> g = goal)
  last : EndsAt s.endPose s.ctl.loc

theorem latestWins_of_latestInv {s : Commanded} (h : LatestInv s) :
    LatestWins s := by
  rcases s with ⟨⟨shm, loc⟩, endPose, current⟩
  intro hquiet goal hgoal
  rcases hquiet with ⟨last, hpolling, hstate, hsame⟩
  rcases h.force with ⟨inForce, hforce, hlink⟩
  have hend := h.last
  cases loc with
  | poll | readTrajState | loadTarget | sleeping =>
      cases hpolling
      have htarget : shm.msgs.armJTar = inForce := hforce.idle hstate
      have hlast : last = endPose := hend
      rw [hlink rfl goal hgoal, ← htarget, ← hlast]
      exact hsame
  | _ => cases hpolling

/-!
## Steps of the control thread
-/

theorem posts_trajState {buf : ArmTrajBuf} {goal : Joints ExactDouble}
    (h : Posts buf goal) (state : TrajState) :
    Posts { buf with state := state } goal := by
  rcases h with ⟨tr, hload, hgoal⟩
  exact ⟨tr, (loadTrajectory_trajState buf state).trans hload, hgoal⟩

theorem inForce_tickStep {cfg : FrankaRightArmConfig} {shm : Shm} {loc : Loc}
    {s' : Ctl} {goal : Joints ExactDouble}
    (hs : InForce shm.traj shm.msgs.armJTar goal loc)
    (h : tickStep cfg shm loc = some s') :
    InForce s'.shm.traj s'.shm.msgs.armJTar goal s'.loc := by
  cases loc with
  | syncPose last j =>
      simp only [tickStep] at h
      split at h
      · rename_i hj
        cases h
        exact settled_syncJoint hj hs
      · rename_i hj
        cases h
        exact settled_synced hj hs
  | checkTrajState last =>
      simp only [tickStep] at h
      split at h
      · rename_i hclear
        cases h
        exact ⟨hclear.left, hs.idle hclear.left⟩
      · cases h
        exact hs
  | storeIdle last =>
      cases h
      refine ⟨?_, hs.right⟩
      intro hpending
      cases hpending
  | storeZeroLen last =>
      cases h
      refine ⟨?_, fun _ => hs.right⟩
      intro hpending
      exact absurd hpending hs.left
  | readTrajState last =>
      simp only [tickStep] at h
      split at h
      · rename_i hpending
        cases h
        exact hs.pending hpending
      · cases h
        exact hs
  | storeExecuting last =>
      cases h
      exact posts_trajState hs .executing
  | loadLen =>
      rcases hs with ⟨tr, hload, hgoal⟩
      rcases copyTo_of_load hload with ⟨len, hlen, hcopy⟩
      simp only [tickStep, hlen] at h
      cases h
      exact ⟨tr, hcopy, hgoal⟩
  | copying len c q j =>
      rcases hs with ⟨tr, hcopy, hgoal⟩
      simp only [tickStep] at h
      split at h
      · rename_i hj
        cases h
        exact ⟨tr, { hcopy with joints := update_agrees hj hcopy.joints },
          hgoal⟩
      · rename_i hj
        cases h
        rcases finishRow_of_load hcopy hj with hexecute | ⟨c', hnext, hc'⟩
        · rw [hexecute]
          exact hgoal
        · rw [hnext]
          exact ⟨tr, hc', hgoal⟩
  | storeDone tr =>
      cases h
      refine ⟨?_, fun _ => (mixed_zero _ _).trans hs⟩
      intro hpending
      cases hpending
  | syncTarget tr j =>
      simp only [tickStep] at h
      split at h
      · rename_i hj
        cases h
        exact settled_syncJoint hj hs
      · rename_i hj
        cases h
        exact settled_synced hj hs
  | loadTarget last target j =>
      simp only [tickStep] at h
      split at h
      · cases h
        exact hs
      · split at h <;> cases h <;> exact hs
  | loadSpeed | sleeping =>
      cases h
      exact hs
  | rejected | trajCatch | handler | retrying => cases hs
  | connecting | poll | executing | finishing | afterTrajectory | ptpMotion
  | afterPtp | undefinedBehaviour => cases h

theorem endsAt_tickStep {cfg : FrankaRightArmConfig} {shm : Shm} {loc : Loc}
    {s' : Ctl} {goal endPose : Joints ExactDouble}
    (hforce : InForce shm.traj shm.msgs.armJTar goal loc)
    (hs : EndsAt endPose loc) (h : tickStep cfg shm loc = some s') :
    EndsAt endPose s'.loc := by
  cases loc with
  | syncPose | checkTrajState | readTrajState | syncTarget =>
      simp only [tickStep] at h
      split at h <;> cases h <;> exact hs
  | loadTarget last target j =>
      simp only [tickStep] at h
      split at h
      · cases h
        exact hs
      · split at h
        · cases h
          exact True.intro
        · cases h
          exact hs
  | loadLen =>
      simp only [tickStep] at h
      split at h <;> cases h <;> exact True.intro
  | copying len c q j =>
      simp only [tickStep] at h
      split at h
      · cases h
        exact True.intro
      · rename_i hj
        cases h
        rcases hforce with ⟨tr, hcopy, _⟩
        rcases finishRow_of_load hcopy hj with hexecute | ⟨c', hnext, _⟩
        · rw [hexecute]
          exact True.intro
        · rw [hnext]
          exact True.intro
  | storeIdle | storeZeroLen | storeDone | sleeping =>
      cases h
      exact hs
  | storeExecuting | loadSpeed =>
      cases h
      exact True.intro
  | rejected | trajCatch | handler | retrying => cases hforce
  | connecting | poll | executing | finishing | afterTrajectory | ptpMotion
  | afterPtp | undefinedBehaviour => cases h

theorem inForce_controlStep {cfg : FrankaRightArmConfig} {s s' : Ctl}
    {e : ControlEvent} {goal : Joints ExactDouble}
    (hs : InForce s.shm.traj s.shm.msgs.armJTar goal s.loc)
    (hconnected : s.loc.isConnecting = false) (he : e ≠ .throws)
    (h : controlStep cfg s e = some s') :
    InForce s'.shm.traj s'.shm.msgs.armJTar goal s'.loc := by
  rcases s with ⟨shm, loc⟩
  cases e with
  | tick => exact inForce_tickStep hs h
  | robotState state =>
      cases loc with
      | poll | afterTrajectory | afterPtp =>
          cases h
          exact hs
      | connecting => cases hconnected
      | _ => cases h
  | callback state period =>
      cases loc with
      | executing tr elapsed =>
          simp only [controlStep, callbackStep] at h
          split at h
          · cases h
            exact True.intro
          · cases h
            simp only
            split <;> exact hs
      | _ => cases h
  | controlReturns =>
      cases loc with
      | finishing | ptpMotion =>
          cases h
          exact hs
      | _ => cases h
  | throws => exact absurd rfl he

theorem endsAt_controlStep {cfg : FrankaRightArmConfig} {s : Commanded}
    {ctl : Ctl} {e : ControlEvent} {goal : Joints ExactDouble}
    (hforce : InForce s.ctl.shm.traj s.ctl.shm.msgs.armJTar goal s.ctl.loc)
    (hs : EndsAt s.endPose s.ctl.loc) (he : e ≠ .throws)
    (h : controlStep cfg s.ctl e = some ctl) :
    EndsAt (s.after ctl (.control e)).endPose ctl.loc := by
  rcases s with ⟨⟨shm, loc⟩, endPose, current⟩
  cases e with
  | tick => exact endsAt_tickStep hforce hs h
  | robotState state =>
      cases loc with
      | connecting =>
          cases h
          rfl
      | poll | afterTrajectory | afterPtp =>
          cases h
          exact hs
      | _ => cases h
  | callback state period =>
      cases loc with
      | executing tr elapsed =>
          simp only [controlStep, callbackStep] at h
          split at h
          · cases h
            exact True.intro
          · cases h
            simp only
            split <;> exact True.intro
      | _ => cases h
  | controlReturns =>
      cases loc with
      | finishing | ptpMotion =>
          cases h
          rfl
      | _ => cases h
  | throws => exact absurd rfl he

theorem latestInv_connect {s : Commanded} {state : RobotState}
    (hs : LatestInv s) (hloc : s.ctl.loc = .connecting) :
    LatestInv ⟨⟨updateRightArmStateToShm state s.ctl.shm,
      .syncPose state.q 0⟩, state.q, none⟩ := by
  rcases hs.force with ⟨goal, hforce, _⟩
  rw [hloc] at hforce
  have hsettled : Settled s.ctl.shm.traj s.ctl.shm.msgs.armJTar goal := hforce
  refine ⟨?_, rfl⟩
  by_cases hpending : s.ctl.shm.traj.state = .pending
  · refine ⟨goal, ⟨fun _ => hsettled.pending hpending, ?_⟩, nofun⟩
    intro hidle
    exact absurd hpending hidle
  · refine ⟨state.q, ⟨?_, fun _ => mixed_zero _ _⟩, nofun⟩
    intro hwaiting
    exact absurd hwaiting hpending

theorem latestInv_control {cfg : FrankaRightArmConfig} {s : Commanded}
    {ctl : Ctl} {e : ControlEvent} (hs : LatestInv s) (he : e ≠ .throws)
    (h : controlStep cfg s.ctl e = some ctl) :
    LatestInv (s.after ctl (.control e)) := by
  rcases hs.force with ⟨goal, hforce, hlink⟩
  cases hconnecting : s.ctl.loc.isConnecting with
  | true =>
      have hloc := Loc.eq_connecting hconnecting
      have hstep : controlStep cfg ⟨s.ctl.shm, .connecting⟩ e = some ctl := by
        rw [← hloc]
        exact h
      cases e with
      | robotState state =>
          cases hstep
          simp only [Commanded.after, hconnecting, if_true]
          exact latestInv_connect hs hloc
      | tick | callback | controlReturns => cases hstep
      | throws => exact absurd rfl he
  | false =>
      have hgoal : (s.after ctl (.control e)).goal = s.goal := by
        cases e <;> simp [Commanded.after, hconnecting]
      have hctl : (s.after ctl (.control e)).ctl = ctl := by
        cases e <;> simp [Commanded.after, hconnecting]
      refine ⟨⟨goal, ?_, ?_⟩, ?_⟩
      · rw [hctl]
        exact inForce_controlStep hforce hconnecting he h
      · intro _
        rw [hgoal]
        exact hlink hconnecting
      · rw [hctl]
        exact endsAt_controlStep hforce hs.last he h

/-!
## Steps of the bridge
-/

theorem rows_of_holdsRows {buf : ArmTrajBuf} {tr : Trajectory}
    {rows : List (Joints ExactDouble × ExactDouble)} (h : HoldsRows buf rows)
    (hload : loadTrajectory buf = some tr) :
    tr.rows.map Waypoint.row = rows := by
  have hholds := loadTrajectory_eq_some_iff.mp hload
  have hlength : tr.rows.length = rows.length := by
    have hleft := hholds.left
    have hright := h.left
    omega
  rw [hholds.right, hlength]
  apply List.ext_getElem
  · simp
  · intro k _ hk
    simpa using h.right k hk

theorem goal?_of_trajectory {msg : JointTrajectory} {stores : List Store}
    {shm : Shm} {tr : Trajectory} (h : trajectoryStores msg = some stores)
    (hload : loadTrajectory (applyStores stores shm).traj = some tr) :
    (ArmMessage.trajectory msg).goal? = some tr.qLast := by
  have hrows := rows_of_holdsRows (holdsRows_of_stores h shm) hload
  have hlast : tr.rows.getLast? = some tr.lastRow := by
    rw [List.getLast?_eq_getElem?]
    exact List.getElem?_eq_getElem _
  rw [ArmMessage.goal?, h, Option.bind_some, ← hrows, List.getLast?_map, hlast]
  rfl

theorem applyStores_targetStores {data : List ExactDouble}
    {stores : List Store} (h : targetStores data = some stores) (shm : Shm) :
    (applyStores stores shm).traj = shm.traj ∧
      (applyStores stores shm).msgs.armJTar =
        fun j => data.getD j.val (.finite 0) := by
  unfold targetStores at h
  split at h
  · cases h
  · cases h
    have happly := applyStores_armTargetStores
      (fun j => data.getD j.val (.finite 0)) shm
    rw [armTargetStores] at happly
    rw [happly]
    exact ⟨rfl, rfl⟩

theorem applyStores_speedStores (factor : ExactDouble) (shm : Shm) :
    (applyStores (speedStores factor) shm).traj = shm.traj ∧
      (applyStores (speedStores factor) shm).msgs.armJTar =
        shm.msgs.armJTar := by
  unfold speedStores
  split
  · exact ⟨rfl, rfl⟩
  · split <;> exact ⟨rfl, rfl⟩

theorem inForce_target {buf : ArmTrajBuf} {tar old goal : Joints ExactDouble}
    {loc : Loc} (hs : InForce buf tar old loc) (hstate : buf.state ≠ .pending)
    (hloc : loc.overwritesTarget = false) : InForce buf goal goal loc := by
  have hpending : buf.state = .pending -> Posts buf goal :=
    fun hwaiting => absurd hwaiting hstate
  cases loc with
  | syncPose | syncTarget =>
      have hj := of_decide_eq_false hloc
      exact ⟨hpending, fun _ => mixed_of_le hj _ _⟩
  | storeIdle | storeZeroLen => exact ⟨hstate, rfl⟩
  | storeExecuting | loadLen | copying | executing | finishing | storeDone =>
      cases hloc
  | rejected | trajCatch | handler | retrying => cases hs
  | undefinedBehaviour => exact True.intro
  | connecting | checkTrajState | poll | readTrajState | afterTrajectory
  | loadTarget | loadSpeed | ptpMotion | afterPtp | sleeping =>
      exact ⟨hpending, fun _ => rfl⟩

theorem inForce_posted {buf buf' : ArmTrajBuf}
    {tar tar' old goal : Joints ExactDouble} {loc : Loc}
    (hs : InForce buf tar old loc) (hclears : loc.clears = false)
    (htakes : loc.takesTrajectory = false) (hstate : buf'.state = .pending)
    (hposts : Posts buf' goal) : InForce buf' tar' goal loc := by
  have hsettled : forall target, Settled buf' target goal :=
    fun _ => ⟨fun _ => hposts, fun hidle => absurd hstate hidle⟩
  cases loc with
  | storeIdle | storeZeroLen => cases hclears
  | storeExecuting | loadLen | copying | executing | finishing | storeDone =>
      cases htakes
  | rejected | trajCatch | handler | retrying => cases hs
  | undefinedBehaviour => exact True.intro
  | syncPose | syncTarget | connecting | checkTrajState | poll | readTrajState
  | afterTrajectory | loadTarget | loadSpeed | ptpMotion | afterPtp
  | sleeping => exact hsettled _

theorem latestInv_ignored {s : Commanded} {shm : Shm} (hs : LatestInv s)
    (htraj : shm.traj = s.ctl.shm.traj)
    (htar : shm.msgs.armJTar = s.ctl.shm.msgs.armJTar) :
    LatestInv { s with ctl := ⟨shm, s.ctl.loc⟩ } := by
  rcases hs.force with ⟨goal, hforce, hlink⟩
  refine ⟨⟨goal, ?_, hlink⟩, hs.last⟩
  rw [htraj, htar]
  exact hforce

theorem latestInv_target {s : Commanded} {data : List ExactDouble}
    (hs : LatestInv s) (hcond : CommandKept s (.message (.target data))) :
    LatestInv (s.after ⟨applyStores (ArmMessage.target data).stores s.ctl.shm,
      s.ctl.loc⟩ (.message (.target data))) := by
  cases hstores : targetStores data with
  | none =>
      simp only [Commanded.after, ArmMessage.goal?, ArmMessage.stores, hstores]
      exact latestInv_ignored hs rfl rfl
  | some stores =>
      simp only [Commanded.after, ArmMessage.goal?, ArmMessage.stores, hstores]
      rcases applyStores_targetStores hstores s.ctl.shm with ⟨htraj, htar⟩
      rcases hs.force with ⟨old, hforce, _⟩
      refine ⟨?_, hs.last⟩
      rw [Option.getD_some, htraj, htar]
      cases hconnecting : s.ctl.loc.isConnecting with
      | false =>
          have hkept := hcond (by rw [hstores]; rfl) hconnecting
          refine ⟨_, inForce_target hforce hkept.left hkept.right, ?_⟩
          intro _ g hg
          exact (Option.some.inj hg).symm
      | true =>
          have hloc := Loc.eq_connecting hconnecting
          rw [hloc] at hforce ⊢
          by_cases hpending : s.ctl.shm.traj.state = .pending
          · have hposts := Settled.pending hforce hpending
            refine ⟨old, ⟨fun _ => hposts, ?_⟩, ?_⟩
            · intro hidle
              exact absurd hpending hidle
            · intro hconnected
              cases hconnected
          · refine ⟨_, inForce_target hforce hpending rfl, ?_⟩
            intro hconnected
            cases hconnected

theorem latestInv_posted {s : Commanded} {shm : Shm} {tr : Trajectory}
    (hs : LatestInv s) (hclears : s.ctl.loc.clears = false)
    (htakes : s.ctl.loc.takesTrajectory = false)
    (hstate : shm.traj.state = .pending)
    (hload : loadTrajectory shm.traj = some tr) :
    LatestInv ⟨⟨shm, s.ctl.loc⟩, s.endPose, some tr.qLast⟩ := by
  rcases hs.force with ⟨old, hforce, _⟩
  refine ⟨⟨tr.qLast, ?_, ?_⟩, hs.last⟩
  · exact inForce_posted hforce hclears htakes hstate ⟨tr, hload, rfl⟩
  · intro _ g hg
    exact (Option.some.inj hg).symm

theorem latestInv_trajectory {s : Commanded} {msg : JointTrajectory}
    (hs : LatestInv s)
    (hcond : LatestKept s (.message (.trajectory msg))) :
    LatestInv (s.after
      ⟨applyStores (ArmMessage.trajectory msg).stores s.ctl.shm, s.ctl.loc⟩
      (.message (.trajectory msg))) := by
  cases hstores : trajectoryStores msg with
  | none =>
      simp only [Commanded.after, ArmMessage.goal?, ArmMessage.stores, hstores]
      exact latestInv_ignored hs rfl rfl
  | some stores =>
      have haccepted : (ArmMessage.trajectory msg).accepted = true := by
        rw [ArmMessage.accepted, hstores]
        rfl
      rcases hcond.left haccepted with ⟨_, htakes, hloads⟩
      have hclears := hcond.right haccepted
      have hstate := ArmMessage.state_of_accepted haccepted s.ctl.shm
      rcases Option.isSome_iff_exists.mp hloads with ⟨tr, hload⟩
      have hgoal : (ArmMessage.trajectory msg).goal? = some tr.qLast := by
        apply goal?_of_trajectory hstores
        rw [ArmMessage.stores, hstores] at hload
        exact hload
      simp only [Commanded.after, hgoal]
      exact latestInv_posted hs hclears htakes hstate hload

theorem latestInv_of_step {cfg : FrankaRightArmConfig} {s s' : Commanded}
    {e : AtomicEvent} (hs : LatestInv s) (hcond : LatestKept s e)
    (h : commandedStep cfg s e = some s') : LatestInv s' := by
  rcases Option.map_eq_some_iff.mp h with ⟨ctl, hctl, rfl⟩
  cases e with
  | control e =>
      apply latestInv_control hs _ hctl
      intro hthrows
      subst hthrows
      exact hcond.left
  | message msg =>
      cases hctl
      cases msg with
      | trajectory msg => exact latestInv_trajectory hs hcond
      | target data => exact latestInv_target hs hcond.right
      | speed factor =>
          rcases applyStores_speedStores factor s.ctl.shm with ⟨htraj, htar⟩
          exact latestInv_ignored hs htraj htar

/-!
## Runs
-/

def ValidAtStart (shm : Shm) : Prop :=
  shm.traj.state = .pending -> (loadTrajectory shm.traj).isSome = true

theorem latestInv_start {shm : Shm} (h : ValidAtStart shm) :
    LatestInv (Commanded.start shm) := by
  refine ⟨?_, True.intro⟩
  by_cases hpending : shm.traj.state = .pending
  · rcases Option.isSome_iff_exists.mp (h hpending) with ⟨tr, hload⟩
    refine ⟨tr.qLast, ⟨fun _ => ⟨tr, hload, rfl⟩, ?_⟩, nofun⟩
    intro hidle
    exact absurd hpending hidle
  · refine ⟨shm.msgs.armJTar, ⟨?_, fun _ => rfl⟩, nofun⟩
    intro hwaiting
    exact absurd hwaiting hpending

theorem latestWins_of_run {cfg : FrankaRightArmConfig} {shm : Shm}
    {history : List AtomicEvent} {s : Commanded} (hshm : ValidAtStart shm)
    (h : Machine.RunWhere (commandedStep cfg) LatestKept (Commanded.start shm)
      history s) : LatestWins s := by
  apply latestWins_of_latestInv
  apply Machine.invariant_of_step _ _ h
  · intro s e s' hs hcond hstep
    exact latestInv_of_step hs hcond hstep
  · exact latestInv_start hshm

/-!
## Two targets

A target that comes during a PtoP motion is served after it; one that comes
while a trajectory is executed is overwritten at the end of it.
-/

def targetMessage (x : ℚ) : ArmMessage :=
  .target [.finite x, .finite (-7 / 10), .finite 0, .finite (-23 / 10),
    .finite 0, .finite (3 / 2), .finite (7 / 10)]

/-- Load `Arm_j_tar` and the speed, and start the motion. -/
def startMotion : List AtomicEvent := List.replicate 10 (.control .tick)

def endMotion : List AtomicEvent :=
  [ .control .controlReturns, .control (.robotState .atRest), .control .tick,
    .control (.robotState .atRest) ]

def targetDuringMotion : List AtomicEvent :=
  List.flatten
    [ connectAndPoll, [.message (targetMessage (1 / 10))], startMotion,
      [.message (targetMessage (2 / 10))], endMotion, startMotion, endMotion ]

def targetDuringExecution : List AtomicEvent :=
  List.flatten
    [ connectAndPoll, [.message singlePoint],
      List.replicate 11 (.control .tick), [.message (targetMessage (1 / 10))],
      [.control (.callback .atRest 1050), .control .controlReturns],
      List.replicate 9 (.control .tick), [.control (.robotState .atRest)] ]

instance (c : Ctl) : Decidable c.Quiet :=
  decidable_of_iff
    ((c.loc.polling?.any fun last =>
      decide (c.shm.traj.state ≠ .pending) &&
        !isTargetChanged c.shm.msgs.armJTar last) = true) (by
      unfold Ctl.Quiet
      cases c.loc.polling? <;> simp)

theorem validAtStart_zero :
    ValidAtStart ⟨SHMmsgs.zero, ArmTrajBuf.zero⟩ := by
  intro hpending
  cases hpending

theorem latestWins_targetDuringMotion :
    exists s, LatestWins s ∧ s.ctl.Quiet ∧
      s.goal = (targetMessage (2 / 10)).goal? := by
  have hrun : (((commandedStep defaultConfig).guarded LatestKept).runFrom
      (Commanded.start ⟨SHMmsgs.zero, ArmTrajBuf.zero⟩)
      targetDuringMotion).any
      (fun s => decide s.ctl.Quiet &&
        decide (s.goal = (targetMessage (2 / 10)).goal?)) = true := by
    decide +kernel
  rcases Machine.exists_runWhere_of_any hrun with ⟨s, hs, htest⟩
  rw [Bool.and_eq_true, decide_eq_true_eq, decide_eq_true_eq] at htest
  exact ⟨s, latestWins_of_run validAtStart_zero hs, htest⟩

theorem not_all_latestWins :
    ¬ forall cfg shm history s, ValidAtStart shm ->
        Machine.RunWhere (commandedStep cfg) WellPosted (Commanded.start shm)
          history s -> LatestWins s := by
  intro hclaim
  have hrun : (((commandedStep defaultConfig).guarded WellPosted).runFrom
      (Commanded.start ⟨SHMmsgs.zero, ArmTrajBuf.zero⟩)
      targetDuringExecution).any
      (fun s => decide s.ctl.Quiet &&
        s.goal.any fun goal => isTargetChanged goal s.endPose) = true := by
    decide +kernel
  rcases Machine.exists_runWhere_of_any hrun with ⟨s, hs, htest⟩
  rw [Bool.and_eq_true, decide_eq_true_eq] at htest
  rcases Option.any_eq_true _ _ |>.mp htest.right with ⟨goal, hgoal, hfar⟩
  have hnear := hclaim _ _ _ s validAtStart_zero hs htest.left goal hgoal
  rw [hfar] at hnear
  cases hnear

end Arm
end FrankaKistar
