import FrankaKistar.Arm.Interleaving

/-!
# The executing state across process lifetimes

The control process may be killed at any step and started again while the
segments persist.  `ARM_TRAJ_EXECUTING` is then left over when the kill strikes
inside `executeTrajFromShm`, and the reconnect block of the next process keeps
it.  Apart from that block the state is never `ARM_TRAJ_EXECUTING` while the
thread polls.
-/

namespace FrankaKistar
namespace Arm

open Foundation
open Bridge

/-!
## Lifetimes
-/

inductive LifetimeEvent where
  | step (e : SplitEvent)
  | kill

/-- A killed control process is started again and connects; it attaches to the
segments as they are. -/
def lifetimeStep (cfg : FrankaRightArmConfig) : Machine Split LifetimeEvent
  | s, .step e => splitStep cfg s e
  | s, .kill => some ⟨⟨s.ctl.shm, .connecting⟩, s.outgoing⟩

def Split.fresh (shm : Shm) : Split := ⟨⟨shm, .connecting⟩, []⟩

/-- The polling loop, outside of `executeTrajFromShm`. -/
def Loc.polls : Loc -> Bool
  | .poll _ | .readTrajState _ | .storeExecuting _ | .afterTrajectory _
  | .loadTarget _ _ _ | .loadSpeed _ | .ptpMotion _ _ | .afterPtp _
  | .sleeping _ => true
  | _ => false

/-- `ARM_TRAJ_EXECUTING` is not reported while no trajectory is followed. -/
def NotReported (s : Split) : Prop :=
  s.ctl.loc.polls = true -> s.ctl.shm.traj.state ≠ .executing

def Loc.reconnects : Loc -> Bool
  | .checkTrajState _ => true
  | _ => false

/-- The reconnect block does not find `ARM_TRAJ_EXECUTING`. -/
def NoLeftover (s : Split) : LifetimeEvent -> Prop
  | .step (.control .tick) =>
      s.ctl.loc.reconnects = true -> s.ctl.shm.traj.state ≠ .executing
  | _ => True

instance (s : Split) (e : LifetimeEvent) : Decidable (NoLeftover s e) := by
  unfold NoLeftover
  split <;> infer_instance

/-!
## The bridge
-/

/-- The bridge never stores `ARM_TRAJ_EXECUTING`. -/
def KeepsState (store : Store) : Prop := store ≠ .trajState .executing

theorem keepsState_rowsStores (names : List String) (i : Nat)
    (points : List JointTrajectoryPoint) :
    forall store, store ∈ rowsStores names i points -> KeepsState store := by
  induction points generalizing i with
  | nil => exact fun store hstore => absurd hstore List.not_mem_nil
  | cons pt rest ih =>
      intro store hstore
      rw [rowsStores, rowStores, List.mem_append, List.mem_append] at hstore
      rcases hstore with (hjoint | htime) | hrest
      · rcases List.mem_map.mp hjoint with ⟨j, _, rfl⟩
        intro heq
        cases heq
      · rw [List.mem_singleton.mp htime]
        intro heq
        cases heq
      · exact ih (i + 1) store hrest

theorem keepsState_of_not_writesTraj {stores : List Store}
    (h : stores.any Store.writesTraj = false) :
    forall store, store ∈ stores -> KeepsState store := by
  intro store hstore heq
  have hwrites := List.any_eq_false.mp h store hstore
  rw [heq] at hwrites
  exact hwrites rfl

theorem keepsState_stores (msg : ArmMessage) :
    forall store, store ∈ msg.stores -> KeepsState store := by
  cases msg with
  | target data =>
      exact keepsState_of_not_writesTraj (targetStores_not_writesTraj data)
  | speed factor =>
      exact keepsState_of_not_writesTraj (speedStores_not_writesTraj factor)
  | trajectory traj =>
      simp only [ArmMessage.stores, trajectoryStores]
      split
      · exact fun store hstore => absurd hstore List.not_mem_nil
      · intro store hstore
        rw [Option.getD_some, List.mem_cons, List.mem_append] at hstore
        rcases hstore with rfl | hrows | hstate
        · intro heq
          cases heq
        · exact keepsState_rowsStores _ _ _ store hrows
        · rw [List.mem_singleton.mp hstate]
          intro heq
          cases heq

theorem executing_apply {store : Store} {shm : Shm} (hstore : KeepsState store)
    (h : (store.apply shm).traj.state = .executing) :
    shm.traj.state = .executing := by
  cases store with
  | trajState state =>
      have hstate : state = .executing := h
      rw [hstate] at hstore
      exact absurd rfl hstore
  | _ => exact h

/-!
## The control thread
-/

/-- Inside `executeTrajFromShm`, between the store of `ARM_TRAJ_EXECUTING` and
the stores of `ARM_TRAJ_DONE`. -/
def Loc.follows : Loc -> Bool
  | .loadLen | .copying _ _ _ _ | .rejected | .executing _ _ | .finishing _
  | .storeDone _ | .trajCatch | .undefinedBehaviour => true
  | _ => false

/-- The thread has left the reconnect block, and it does not follow a
trajectory. -/
def Loc.settled : Loc -> Bool
  | .storeIdle _ | .storeZeroLen _ | .syncTarget _ _ => true
  | loc => loc.polls

theorem Loc.settled_of_polls {loc : Loc} (h : loc.polls = true) :
    loc.settled = true := by
  cases loc <;> first | rfl | cases h

theorem Loc.not_follows_of_settled {loc : Loc} (h : loc.settled = true) :
    loc.follows = false := by
  cases loc <;> first | rfl | cases h

theorem Loc.not_follows_of_reconnects {loc : Loc}
    (h : loc.reconnects = true) : loc.follows = false := by
  cases loc <;> first | rfl | cases h

theorem follows_finishRow (len : TrajLen) (c : CheckedRows)
    (q : Joints ExactDouble) (t : ExactDouble) :
    (finishRow len c q t).follows = true := by
  unfold finishRow
  split
  · rfl
  · split <;> rfl

theorem executing_tickStep {cfg : FrankaRightArmConfig} {shm : Shm} {loc : Loc}
    {s' : Ctl} (h : tickStep cfg shm loc = some s')
    (hstate : s'.shm.traj.state = .executing)
    (hloc : s'.loc.follows = false) :
    shm.traj.state = .executing ∧ loc.follows = false := by
  cases loc with
  | syncPose | checkTrajState | syncTarget =>
      simp only [tickStep] at h
      split at h <;> cases h <;> exact ⟨hstate, rfl⟩
  | readTrajState last =>
      simp only [tickStep] at h
      split at h <;> cases h <;> exact ⟨hstate, rfl⟩
  | loadTarget last target j =>
      simp only [tickStep] at h
      split at h
      · cases h
        exact ⟨hstate, rfl⟩
      · split at h <;> cases h <;> exact ⟨hstate, rfl⟩
  | storeExecuting last =>
      cases h
      cases hloc
  | loadLen =>
      simp only [tickStep] at h
      split at h <;> cases h <;> cases hloc
  | copying len c q j =>
      simp only [tickStep] at h
      split at h
      · cases h
        cases hloc
      · cases h
        rw [follows_finishRow] at hloc
        cases hloc
  | connecting | poll | executing | finishing | afterTrajectory | ptpMotion
  | afterPtp | undefinedBehaviour => cases h
  | storeIdle | rejected | storeDone | trajCatch | handler =>
      cases h
      cases hstate
  | storeZeroLen | loadSpeed | sleeping | retrying =>
      cases h
      exact ⟨hstate, rfl⟩

theorem settled_tickStep {cfg : FrankaRightArmConfig} {shm : Shm} {loc : Loc}
    {s' : Ctl} (h : tickStep cfg shm loc = some s')
    (hsettled : s'.loc.settled = true) (hloc : loc.follows = false) :
    loc.settled = true ∨ loc.reconnects = true := by
  cases loc with
  | syncPose last j =>
      simp only [tickStep] at h
      split at h <;> cases h <;> cases hsettled
  | checkTrajState last => exact Or.inr rfl
  | handler | retrying =>
      cases h
      cases hsettled
  | connecting | undefinedBehaviour => cases h
  | loadLen | copying | rejected | executing | finishing | storeDone
  | trajCatch => cases hloc
  | _ => exact Or.inl rfl

theorem executing_controlStep {cfg : FrankaRightArmConfig} {s s' : Ctl}
    {e : ControlEvent} (h : controlStep cfg s e = some s')
    (hstate : s'.shm.traj.state = .executing)
    (hloc : s'.loc.follows = false) :
    s.shm.traj.state = .executing ∧ s.loc.follows = false := by
  rcases s with ⟨shm, loc⟩
  cases e with
  | tick => exact executing_tickStep h hstate hloc
  | robotState state =>
      rw [traj_robotStateStep h] at hstate
      cases loc with
      | connecting | poll | afterTrajectory | afterPtp => exact ⟨hstate, rfl⟩
      | _ => cases h
  | callback state period =>
      cases loc with
      | executing tr elapsed =>
          simp only [controlStep, callbackStep] at h
          split at h
          · cases h
            cases hloc
          · cases h
            split at hloc <;> cases hloc
      | _ => cases h
  | controlReturns =>
      rcases Option.map_eq_some_iff.mp h with ⟨next, hnext, rfl⟩
      cases loc with
      | ptpMotion => exact ⟨hstate, rfl⟩
      | finishing =>
          cases hnext
          cases hloc
      | _ => cases hnext
  | throws =>
      rcases Option.map_eq_some_iff.mp h with ⟨next, hnext, rfl⟩
      cases loc <;> cases hnext <;> first | exact ⟨hstate, rfl⟩ | cases hloc

/-- Only a tick of the reconnect block settles a thread that does not follow a
trajectory. -/
theorem settled_controlStep {cfg : FrankaRightArmConfig} {s s' : Ctl}
    {e : ControlEvent} (h : controlStep cfg s e = some s')
    (hsettled : s'.loc.settled = true) (hloc : s.loc.follows = false) :
    s.loc.settled = true ∨ (e = .tick ∧ s.loc.reconnects = true) := by
  rcases s with ⟨shm, loc⟩
  cases e with
  | tick =>
      exact (settled_tickStep h hsettled hloc).imp_right fun hreconnects =>
        ⟨rfl, hreconnects⟩
  | robotState state =>
      cases loc with
      | poll | afterTrajectory | afterPtp => exact Or.inl rfl
      | connecting =>
          cases h
          cases hsettled
      | _ => cases h
  | callback state period =>
      cases loc with
      | executing => cases hloc
      | _ => cases h
  | controlReturns =>
      rcases Option.map_eq_some_iff.mp h with ⟨next, hnext, rfl⟩
      cases loc with
      | ptpMotion => exact Or.inl rfl
      | finishing => cases hloc
      | _ => cases hnext
  | throws =>
      rcases Option.map_eq_some_iff.mp h with ⟨next, hnext, rfl⟩
      cases loc <;> cases hnext <;> cases hsettled

theorem executing_splitStep {cfg : FrankaRightArmConfig} {s s' : Split}
    {e : SplitEvent}
    (hs : forall store, store ∈ s.outgoing -> KeepsState store)
    (h : splitStep cfg s e = some s')
    (hstate : s'.ctl.shm.traj.state = .executing)
    (hloc : s'.ctl.loc.follows = false) :
    s.ctl.shm.traj.state = .executing ∧ s.ctl.loc.follows = false := by
  cases e with
  | control e =>
      rcases Option.map_eq_some_iff.mp h with ⟨ctl, hctl, rfl⟩
      exact executing_controlStep hctl hstate hloc
  | receive msg =>
      simp only [splitStep] at h
      split at h <;> cases h
      exact ⟨hstate, hloc⟩
  | store =>
      simp only [splitStep] at h
      split at h
      · cases h
      · rename_i first rest houtgoing
        cases h
        have hfirst := hs first (houtgoing ▸ List.mem_cons_self)
        exact ⟨executing_apply hfirst hstate, hloc⟩

theorem outgoing_splitStep {cfg : FrankaRightArmConfig} {s s' : Split}
    {e : SplitEvent}
    (hs : forall store, store ∈ s.outgoing -> KeepsState store)
    (h : splitStep cfg s e = some s') :
    forall store, store ∈ s'.outgoing -> KeepsState store := by
  cases e with
  | control e =>
      rcases Option.map_eq_some_iff.mp h with ⟨ctl, _, rfl⟩
      exact hs
  | receive msg =>
      simp only [splitStep] at h
      split at h <;> cases h
      exact keepsState_stores msg
  | store =>
      simp only [splitStep] at h
      split at h
      · cases h
      · rename_i first rest houtgoing
        cases h
        intro store hstore
        exact hs store (houtgoing ▸ List.mem_cons_of_mem first hstore)

theorem settled_splitStep {cfg : FrankaRightArmConfig} {s s' : Split}
    {e : SplitEvent} (h : splitStep cfg s e = some s')
    (hsettled : s'.ctl.loc.settled = true)
    (hloc : s.ctl.loc.follows = false) :
    s.ctl.loc.settled = true ∨
      (e = .control .tick ∧ s.ctl.loc.reconnects = true) := by
  cases e with
  | control e =>
      rcases Option.map_eq_some_iff.mp h with ⟨ctl, hctl, rfl⟩
      exact (settled_controlStep hctl hsettled hloc).imp_right fun htick =>
        ⟨congrArg SplitEvent.control htick.left, htick.right⟩
  | receive | store =>
      simp only [splitStep] at h
      split at h <;> cases h
      exact Or.inl hsettled

/-!
## Runs
-/

/-- A settled thread does not see `ARM_TRAJ_EXECUTING`, and the running bridge
callback is not going to store it. -/
structure LifetimeInv (s : Split) : Prop where
  settled : s.ctl.loc.settled = true -> s.ctl.shm.traj.state ≠ .executing
  outgoing : forall store, store ∈ s.outgoing -> KeepsState store

theorem lifetimeInv_of_step {cfg : FrankaRightArmConfig} {s s' : Split}
    {e : LifetimeEvent} (hs : LifetimeInv s) (hcond : NoLeftover s e)
    (h : lifetimeStep cfg s e = some s') : LifetimeInv s' := by
  cases e with
  | kill =>
      cases h
      exact ⟨nofun, hs.outgoing⟩
  | step e =>
      refine ⟨?_, outgoing_splitStep hs.outgoing h⟩
      intro hsettled hstate
      have hbefore := executing_splitStep hs.outgoing h hstate
        (Loc.not_follows_of_settled hsettled)
      rcases settled_splitStep h hsettled hbefore.right with hloc | ⟨rfl, hloc⟩
      · exact hs.settled hloc hbefore.left
      · exact hcond hloc hbefore.left

theorem lifetimeInv_fresh (shm : Shm) : LifetimeInv (Split.fresh shm) :=
  ⟨nofun, fun _ hstore => absurd hstore List.not_mem_nil⟩

theorem notReported_of_lifetimeInv {s : Split} (h : LifetimeInv s) :
    NotReported s :=
  fun hpolls => h.settled (Loc.settled_of_polls hpolls)

theorem reported_of_leftover {cfg : FrankaRightArmConfig} {s s' : Split}
    {e : LifetimeEvent} (h : lifetimeStep cfg s e = some s')
    (hleftover : ¬ NoLeftover s e) : ¬ NotReported s' := by
  unfold NoLeftover at hleftover
  split at hleftover
  · rcases Classical.not_imp.mp hleftover with ⟨hloc, hstate⟩
    have hexecuting := not_not.mp hstate
    rcases Option.map_eq_some_iff.mp h with ⟨ctl, hctl, rfl⟩
    rcases s with ⟨⟨shm, loc⟩, outgoing⟩
    cases loc with
    | checkTrajState last =>
        simp only [controlStep, tickStep] at hctl
        rw [if_neg fun hother => hother.right hexecuting] at hctl
        cases hctl
        exact fun hreported => hreported rfl hexecuting
    | _ => cases hloc
  · exact absurd True.intro hleftover

/-- In every run whose reconnects find no `ARM_TRAJ_EXECUTING`, the state is not
`ARM_TRAJ_EXECUTING` while the thread polls; the first reconnect that finds it
reports it. -/
theorem notReported_of_run {cfg : FrankaRightArmConfig} {shm : Shm}
    {history : List LifetimeEvent} {s : Split}
    (h : Machine.RunWhere (lifetimeStep cfg) NoLeftover (Split.fresh shm)
      history s) :
    NotReported s ∧ forall e s', lifetimeStep cfg s e = some s' ->
      (NotReported s' <-> NoLeftover s e) := by
  have hinv : LifetimeInv s := by
    apply Machine.invariant_of_step _ (lifetimeInv_fresh shm) h
    intro s e s' hs hcond hstep
    exact lifetimeInv_of_step hs hcond hstep
  refine ⟨notReported_of_lifetimeInv hinv, fun e s' hstep => ?_⟩
  constructor
  · intro hreported
    by_contra hleftover
    exact reported_of_leftover hstep hleftover hreported
  · intro hcond
    exact notReported_of_lifetimeInv (lifetimeInv_of_step hinv hcond hstep)

/-!
## Kills outside of a trajectory
-/

/-- A kill does not strike while the state is `ARM_TRAJ_EXECUTING`. -/
def KillSpared (s : Split) : LifetimeEvent -> Prop
  | .kill => s.ctl.shm.traj.state ≠ .executing
  | .step _ => True

theorem follows_of_spared {cfg : FrankaRightArmConfig} {shm : Shm}
    (hshm : shm.traj.state ≠ .executing) {history : List LifetimeEvent}
    {s : Split}
    (h : Machine.RunWhere (lifetimeStep cfg) KillSpared (Split.fresh shm)
      history s)
    (hstate : s.ctl.shm.traj.state = .executing) :
    s.ctl.loc.follows = true := by
  have hinv : (s.ctl.loc.follows = false -> s.ctl.shm.traj.state ≠ .executing) ∧
      forall store, store ∈ s.outgoing -> KeepsState store := by
    apply Machine.invariant_of_step _ _ h
    · intro s e s' hs hcond hstep
      cases e with
      | kill =>
          cases hstep
          exact ⟨fun _ => hcond, hs.right⟩
      | step e =>
          refine ⟨fun hloc hexecuting => ?_, outgoing_splitStep hs.right hstep⟩
          have hbefore := executing_splitStep hs.right hstep hexecuting hloc
          exact hs.left hbefore.right hbefore.left
    · exact ⟨fun _ => hshm, fun _ hstore => absurd hstore List.not_mem_nil⟩
  by_contra hloc
  exact hinv.left (Bool.eq_false_iff.mpr hloc) hstate

theorem noLeftover_of_spared {cfg : FrankaRightArmConfig} {shm : Shm}
    (hshm : shm.traj.state ≠ .executing) {history : List LifetimeEvent}
    {s : Split}
    (h : Machine.RunWhere (lifetimeStep cfg) KillSpared (Split.fresh shm)
      history s)
    (e : LifetimeEvent) : NoLeftover s e := by
  unfold NoLeftover
  split
  · intro hreconnects hstate
    have hfollows := follows_of_spared hshm h hstate
    rw [Loc.not_follows_of_reconnects hreconnects] at hfollows
    cases hfollows
  · exact True.intro

/-!
## Two kills
-/

/-- Connect and poll once; the thread makes two more stores when it resets the
trajectory. -/
def connectOnce (ticks : Nat) : List LifetimeEvent :=
  [.step (.control (.robotState .atRest))] ++
    List.replicate ticks (.step (.control .tick)) ++
    [.step (.control (.robotState .atRest))]

/-- Receive a trajectory and pick it up. -/
def pickUp : List LifetimeEvent :=
  [.step (.receive (.trajectory
      (.onePoint [0, -7 / 10, 0, -23 / 10, 0, 3 / 2, 7 / 10])))] ++
    List.replicate 10 (.step .store) ++
    List.replicate 11 (.step (.control .tick))

/-- The kill strikes after the trajectory was received, and the next process
picks it up. -/
def killWhilePending : List LifetimeEvent :=
  connectOnce 11 ++ pickUp.take 11 ++ [.kill] ++ connectOnce 9

/-- The kill strikes while the trajectory is executed, and the next process
polls. -/
def killWhileExecuting : List LifetimeEvent :=
  connectOnce 11 ++ pickUp ++ [.kill] ++ connectOnce 9

theorem notReported_killWhilePending :
    exists s, NotReported s ∧ s.ctl.shm.traj.state = .pending ∧
      s.ctl.loc.polls = true := by
  have hrun : (((lifetimeStep defaultConfig).guarded NoLeftover).runFrom
      (Split.fresh ⟨SHMmsgs.zero, ArmTrajBuf.zero⟩)
      killWhilePending).any (fun s =>
        decide (s.ctl.shm.traj.state = .pending) && s.ctl.loc.polls) =
        true := by
    decide +kernel
  rcases Machine.exists_runWhere_of_any hrun with ⟨s, hs, htest⟩
  rw [Bool.and_eq_true, decide_eq_true_eq] at htest
  exact ⟨s, (notReported_of_run hs).left, htest⟩

theorem not_all_notReported :
    ¬ forall cfg shm history s,
        Machine.Run (lifetimeStep cfg) (Split.fresh shm) history s ->
        NotReported s := by
  intro hclaim
  have hrun : ((lifetimeStep defaultConfig).runFrom
      (Split.fresh ⟨SHMmsgs.zero, ArmTrajBuf.zero⟩)
      killWhileExecuting).any (fun s =>
        decide (s.ctl.shm.traj.state = .executing) && s.ctl.loc.polls) =
        true := by
    decide +kernel
  rcases Machine.exists_run_of_any hrun with ⟨s, hs, htest⟩
  rw [Bool.and_eq_true, decide_eq_true_eq] at htest
  exact hclaim _ _ _ s hs htest.right htest.left

end Arm
end FrankaKistar
