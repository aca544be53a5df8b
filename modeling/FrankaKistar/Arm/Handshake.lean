import FrankaKistar.Arm.Interleaving

/-!
# The state word as a handshake

A message that sets `ARM_TRAJ_PENDING` waits for the controller.  Several places
of the control thread store `ARM_TRAJ_DONE` or `ARM_TRAJ_IDLE` without looking at
the state, so a message can be discarded while it waits.  It is not when no
message comes while such a store is ahead and no exception comes while a message
waits.
-/

namespace FrankaKistar
namespace Arm

open Foundation
open Bridge

/-- How far the last accepted trajectory has come. -/
inductive Handover where
  | copied
  | posted
  | pickedUp
deriving DecidableEq

/-- The control thread and the bridge, and the last accepted trajectory. -/
structure Posted where
  ctl : Ctl
  handover : Handover

/-- The copy has ended: with all rows that the buffer holds, or with a rejection
of a buffer that does not pass the checks. -/
def Loc.copied (buf : ArmTrajBuf) : Loc -> Bool
  | .executing tr _ => decide (loadedRows buf = some tr.rows)
  | .rejected => (loadedRows buf).isNone
  | _ => false

/-- A trajectory is picked up when its length is loaded, and it is copied when
the copy that begins there ends. -/
def handoverAfter (s : Posted) (loc : Loc) : AtomicEvent -> Handover
  | .control _ =>
      match s.handover, s.ctl.loc with
      | .posted, .loadLen | .pickedUp, .copying _ _ _ _ =>
          if loc.copied s.ctl.shm.traj then .copied else .pickedUp
      | handover, _ => handover
  | .message msg => if msg.accepted then .posted else s.handover

def postedStep (cfg : FrankaRightArmConfig) : Machine Posted AtomicEvent :=
  fun s e => (atomicStep cfg s.ctl e).map fun ctl =>
    ⟨ctl, handoverAfter s ctl.loc e⟩

def Posted.start (shm : Shm) : Posted := ⟨⟨shm, .connecting⟩, .copied⟩

/-- Until a trajectory is copied, the state is neither `ARM_TRAJ_DONE` nor
`ARM_TRAJ_IDLE`. -/
def NotDiscarded (s : Posted) : Prop :=
  s.handover ≠ .copied ->
    s.ctl.shm.traj.state ≠ .done ∧ s.ctl.shm.traj.state ≠ .idle

/-!
## The condition
-/

/-- The thread stores `ARM_TRAJ_DONE` or `ARM_TRAJ_IDLE`, or clears the length,
before it looks at the state again. -/
def Loc.clears : Loc -> Bool
  | .storeIdle _ => true
  | .storeZeroLen _ => true
  | .copying _ _ _ _ => true
  | .rejected => true
  | .executing _ _ => true
  | .finishing _ => true
  | .storeDone _ => true
  | .trajCatch => true
  | .handler => true
  | _ => false

def HandshakeKept (s : Posted) : AtomicEvent -> Prop
  | .message msg => msg.accepted = true -> s.ctl.loc.clears = false
  | .control .throws => s.ctl.shm.traj.state ≠ .pending
  | .control _ => True

instance (s : Posted) (e : AtomicEvent) : Decidable (HandshakeKept s e) := by
  cases e with
  | message msg =>
      unfold HandshakeKept
      infer_instance
  | control e => cases e <;> unfold HandshakeKept <;> infer_instance

/-!
## The invariant

A posted message is in the buffer under `ARM_TRAJ_PENDING`, or it has just been
seen and its length is loaded next.  While it is copied the buffer is left alone.
-/

def Waiting (shm : Shm) (loc : Loc) : Prop :=
  match loc with
  | .loadLen => shm.traj.state = .pending ∨ shm.traj.state = .executing
  | _ => shm.traj.state = .pending ∧ loc.clears = false

def Copying (shm : Shm) (loc : Loc) : Prop :=
  match loc with
  | .copying len c q j =>
      (shm.traj.state = .pending ∨ shm.traj.state = .executing) ∧
        CopyTo shm.traj (loadedRows shm.traj) len c q j
  | _ => False

def HandshakeInv (s : Posted) : Prop :=
  match s.handover with
  | .copied => True
  | .posted => Waiting s.ctl.shm s.ctl.loc
  | .pickedUp => Copying s.ctl.shm s.ctl.loc

theorem notDiscarded_of_open {state : TrajState}
    (h : state = .pending ∨ state = .executing) :
    state ≠ .done ∧ state ≠ .idle := by
  rcases h with hpending | hexecuting
  · rw [hpending]
    exact ⟨nofun, nofun⟩
  · rw [hexecuting]
    exact ⟨nofun, nofun⟩

theorem notDiscarded_of_handshakeInv {s : Posted} (h : HandshakeInv s) :
    NotDiscarded s := by
  intro hopen
  unfold HandshakeInv at h
  split at h
  · rename_i hcopied
    exact absurd hcopied hopen
  · unfold Waiting at h
    split at h
    · exact notDiscarded_of_open h
    · exact notDiscarded_of_open (Or.inl h.left)
  · unfold Copying at h
    split at h
    · exact notDiscarded_of_open h.left
    · cases h

theorem waiting_of_pending {shm : Shm} {loc : Loc}
    (hstate : shm.traj.state = .pending) (hloc : loc.clears = false) :
    Waiting shm loc := by
  cases loc <;> first | exact Or.inl hstate | exact ⟨hstate, hloc⟩

theorem pending_of_waiting {shm : Shm} {loc : Loc} (h : Waiting shm loc)
    (hload : loc ≠ .loadLen) :
    shm.traj.state = .pending ∧ loc.clears = false := by
  cases loc <;> first | exact absurd rfl hload | exact h

/-!
## Steps
-/

theorem tickStep_waiting {cfg : FrankaRightArmConfig} {shm : Shm} {loc : Loc}
    {s' : Ctl} (hstate : shm.traj.state = .pending) (hloc : loc.clears = false)
    (hload : loc ≠ .loadLen) (h : tickStep cfg shm loc = some s') :
    Waiting s'.shm s'.loc := by
  cases loc with
  | syncPose last j =>
      simp only [tickStep] at h
      split at h <;> cases h <;> exact ⟨hstate, rfl⟩
  | checkTrajState last =>
      simp only [tickStep] at h
      rw [if_neg (fun hclear => hclear.left hstate)] at h
      cases h
      exact ⟨hstate, rfl⟩
  | readTrajState last =>
      simp only [tickStep] at h
      split at h <;> cases h <;> exact ⟨hstate, rfl⟩
  | storeExecuting last =>
      cases h
      exact Or.inr rfl
  | loadLen => exact absurd rfl hload
  | syncTarget tr j =>
      simp only [tickStep] at h
      split at h <;> cases h <;> exact ⟨hstate, rfl⟩
  | loadTarget last target j =>
      simp only [tickStep] at h
      split at h
      · cases h
        exact ⟨hstate, rfl⟩
      · split at h <;> cases h <;> exact ⟨hstate, rfl⟩
  | loadSpeed | sleeping | retrying =>
      cases h
      exact ⟨hstate, rfl⟩
  | connecting | poll | afterTrajectory | ptpMotion | afterPtp
  | undefinedBehaviour => cases h
  | storeIdle | storeZeroLen | copying | rejected | executing | finishing
  | storeDone | trajCatch | handler => cases hloc

theorem controlStep_waiting {cfg : FrankaRightArmConfig} {s : Posted}
    {s' : Ctl} {e : ControlEvent} (hwaiting : Waiting s.ctl.shm s.ctl.loc)
    (hload : s.ctl.loc ≠ .loadLen) (hcond : HandshakeKept s (.control e))
    (h : controlStep cfg s.ctl e = some s') : Waiting s'.shm s'.loc := by
  rcases s with ⟨⟨shm, loc⟩, handover⟩
  rcases pending_of_waiting hwaiting hload with ⟨hstate, hloc⟩
  cases e with
  | tick => exact tickStep_waiting hstate hloc hload h
  | robotState state =>
      cases loc <;> cases h <;> exact ⟨hstate, rfl⟩
  | callback state period =>
      cases loc with
      | executing => cases hloc
      | _ => cases h
  | controlReturns =>
      cases loc with
      | finishing => cases hloc
      | ptpMotion target speed =>
          cases h
          exact ⟨hstate, rfl⟩
      | _ => cases h
  | throws => exact absurd hstate hcond

def Copies (shm : Shm) (loc : Loc) : Prop :=
  loc.copied shm.traj = true ∨ Copying shm loc

theorem controlStep_loadLen {cfg : FrankaRightArmConfig} {shm : Shm} {s' : Ctl}
    {e : ControlEvent}
    (hstate : shm.traj.state = .pending ∨ shm.traj.state = .executing)
    (h : controlStep cfg ⟨shm, .loadLen⟩ e = some s') :
    exists loc, s' = ⟨shm, loc⟩ ∧ Copies shm loc := by
  cases e with
  | tick =>
      simp only [controlStep, tickStep] at h
      split at h
      · rename_i hrefused
        cases h
        refine ⟨_, rfl, Or.inl ?_⟩
        rw [Loc.copied, loadedRows_of_refused hrefused]
        rfl
      · rename_i len hlen
        cases h
        exact ⟨_, rfl, Or.inr ⟨hstate, copyTo_loadedRows hlen⟩⟩
  | _ => cases h

theorem controlStep_copying {cfg : FrankaRightArmConfig} {shm : Shm} {loc : Loc}
    {s' : Ctl} {e : ControlEvent} (hs : Copying shm loc)
    (h : controlStep cfg ⟨shm, loc⟩ e = some s') :
    exists loc, s' = ⟨shm, loc⟩ ∧ Copies shm loc := by
  cases loc with
  | copying len c q j =>
      rcases hs with ⟨hstate, hcopy⟩
      cases e with
      | tick =>
          simp only [controlStep, tickStep] at h
          split at h
          · rename_i hj
            cases h
            refine ⟨_, rfl, Or.inr ⟨hstate, ?_⟩⟩
            exact { hcopy with joints := update_agrees hj hcopy.joints }
          · rename_i hj
            cases h
            refine ⟨_, rfl, ?_⟩
            rcases finishRow_of_copyTo hcopy hj with
              ⟨hrejected, hnone⟩ | ⟨tr, hexecute, hrows⟩ | ⟨c', hnext, hc'⟩
            · left
              rw [hrejected, Loc.copied, hnone]
              rfl
            · left
              rw [hexecute, Loc.copied, decide_eq_true_eq]
              exact hrows
            · right
              rw [hnext]
              exact ⟨hstate, hc'⟩
      | _ => cases h
  | _ => cases hs

theorem handshakeInv_of_copies {shm : Shm} {loc : Loc} (h : Copies shm loc) :
    HandshakeInv
      ⟨⟨shm, loc⟩, if loc.copied shm.traj then .copied else .pickedUp⟩ := by
  unfold HandshakeInv
  rcases h with hcopied | hcopying
  · rw [if_pos hcopied]
    exact True.intro
  · split
    · exact True.intro
    · rename_i hposted
      dsimp only at hposted
      split at hposted <;> cases hposted
    · exact hcopying

theorem postedStep_control {cfg : FrankaRightArmConfig} {s : Posted}
    {ctl : Ctl} {e : ControlEvent} (hs : HandshakeInv s)
    (hcond : HandshakeKept s (.control e))
    (h : controlStep cfg s.ctl e = some ctl) :
    HandshakeInv ⟨ctl, handoverAfter s ctl.loc (.control e)⟩ := by
  rcases s with ⟨⟨shm, loc⟩, handover⟩
  cases handover with
  | copied => exact True.intro
  | posted =>
      by_cases hload : loc = .loadLen
      · subst hload
        rcases controlStep_loadLen hs h with ⟨next, rfl, hcopies⟩
        exact handshakeInv_of_copies hcopies
      · have hsame : handoverAfter ⟨⟨shm, loc⟩, .posted⟩ ctl.loc (.control e) =
            .posted := by
          cases loc <;> first | exact absurd rfl hload | rfl
        rw [hsame]
        exact controlStep_waiting hs hload hcond h
  | pickedUp =>
      rcases controlStep_copying hs h with ⟨next, rfl, hcopies⟩
      cases loc with
      | copying len c q j => exact handshakeInv_of_copies hcopies
      | _ => cases hs

theorem postedStep_message {s : Posted} {msg : ArmMessage}
    (hs : HandshakeInv s) (hcond : HandshakeKept s (.message msg)) :
    HandshakeInv ⟨⟨applyStores msg.stores s.ctl.shm, s.ctl.loc⟩,
      handoverAfter s s.ctl.loc (.message msg)⟩ := by
  cases haccepted : msg.accepted with
  | true =>
      simp only [handoverAfter, haccepted, if_true]
      exact waiting_of_pending (ArmMessage.state_of_accepted haccepted s.ctl.shm)
        (hcond haccepted)
  | false =>
      simp only [handoverAfter, haccepted, Bool.false_eq_true, if_false]
      have htraj := ArmMessage.traj_of_not_accepted haccepted s.ctl.shm
      unfold HandshakeInv at hs ⊢
      unfold Waiting Copying at hs ⊢
      simp only [htraj]
      exact hs

theorem postedStep_handshakeInv {cfg : FrankaRightArmConfig} {s s' : Posted}
    {e : AtomicEvent} (hs : HandshakeInv s) (hcond : HandshakeKept s e)
    (h : postedStep cfg s e = some s') : HandshakeInv s' := by
  rcases Option.map_eq_some_iff.mp h with ⟨ctl, hctl, rfl⟩
  cases e with
  | control e => exact postedStep_control hs hcond hctl
  | message msg =>
      cases hctl
      exact postedStep_message hs hcond

theorem notDiscarded_of_run {cfg : FrankaRightArmConfig} {shm : Shm}
    {history : List AtomicEvent} {s : Posted}
    (h : Machine.RunWhere (postedStep cfg) HandshakeKept (Posted.start shm)
      history s) : NotDiscarded s := by
  apply notDiscarded_of_handshakeInv
  apply Machine.invariant_of_step _ _ h
  · intro s e s' hs hcond hstep
    exact postedStep_handshakeInv hs hcond hstep
  · exact True.intro

/-!
## Two messages

A second message that comes before the first one is picked up is served; one
that comes while the first one is executed is discarded at the end of the
motion.
-/

def singlePoint : ArmMessage :=
  .trajectory (.onePoint [0, -7 / 10, 0, -23 / 10, 0, 3 / 2, 7 / 10])

def connectAndPoll : List AtomicEvent :=
  [.control (.robotState .atRest)] ++
    List.replicate 11 (.control .tick) ++ [.control (.robotState .atRest)]

def messageBeforePickUp : List AtomicEvent :=
  connectAndPoll ++ [.message singlePoint, .message singlePoint] ++
    List.replicate 7 (.control .tick)

def messageDuringExecution : List AtomicEvent :=
  connectAndPoll ++ [.message singlePoint] ++
    List.replicate 11 (.control .tick) ++
    [.message singlePoint, .control (.callback .atRest 1050),
      .control .controlReturns, .control .tick]

theorem notDiscarded_messageBeforePickUp :
    exists s, NotDiscarded s ∧ s.handover = .pickedUp := by
  have hrun : (((postedStep defaultConfig).guarded HandshakeKept).runFrom
      (Posted.start ⟨SHMmsgs.zero, ArmTrajBuf.zero⟩)
      messageBeforePickUp).any (fun s => decide (s.handover = .pickedUp)) =
        true := by
    decide +kernel
  rcases Machine.exists_runWhere_of_any hrun with ⟨s, hs, hpicked⟩
  exact ⟨s, notDiscarded_of_run hs, of_decide_eq_true hpicked⟩

theorem not_all_notDiscarded :
    ¬ forall cfg shm history s,
        Machine.Run (postedStep cfg) (Posted.start shm) history s ->
        NotDiscarded s := by
  intro hclaim
  have hrun : ((postedStep defaultConfig).runFrom
      (Posted.start ⟨SHMmsgs.zero, ArmTrajBuf.zero⟩)
      messageDuringExecution).any
      (fun s => decide (s.handover = .posted) &&
        decide (s.ctl.shm.traj.state = .done)) = true := by
    decide +kernel
  rcases Machine.exists_run_of_any hrun with ⟨s, hs, htest⟩
  rw [Bool.and_eq_true, decide_eq_true_eq, decide_eq_true_eq] at htest
  have hopen : s.handover ≠ .copied := by
    rw [htest.left]
    nofun
  exact (hclaim _ _ _ s hs hopen).left htest.right

end Arm
end FrankaKistar
