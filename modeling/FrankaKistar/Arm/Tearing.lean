import FrankaKistar.Arm.Interleaving

/-!
# Copies of the trajectory buffer

The copy loop of `executeTrajFromShm` and the writing loop of
`on_franka_trajectory` are meant to exclude each other, but each process locks a
mutex of its own.  When the two loops do not overlap, a trajectory that is
executed is the content of one message; when they do overlap, rows of two
messages can be mixed.
-/

namespace FrankaKistar
namespace Arm

open Foundation
open Bridge

/-!
## Content of one message
-/

def FromMessage (history : List SplitEvent)
    (rows : List (Joints ExactDouble × ExactDouble)) : Prop :=
  exists msg, SplitEvent.receive (.trajectory msg) ∈ history ∧
    rows = messageRows msg

def HoldsRows (buf : ArmTrajBuf)
    (rows : List (Joints ExactDouble × ExactDouble)) : Prop :=
  buf.len = rows.length ∧
    forall k (hk : k < rows.length), buf.row k = rows[k]

theorem fromMessage_append {history : List SplitEvent}
    {rows : List (Joints ExactDouble × ExactDouble)}
    (h : FromMessage history rows) (e : SplitEvent) :
    FromMessage (history ++ [e]) rows := by
  rcases h with ⟨msg, hmem, hrows⟩
  exact ⟨msg, List.mem_append_left _ hmem, hrows⟩

theorem holdsRows_of_stores {msg : JointTrajectory} {stores : List Store}
    (h : trajectoryStores msg = some stores) (shm : Shm) :
    HoldsRows (applyStores stores shm).traj (messageRows msg) := by
  have hlength := length_of_trajectoryStores h
  have haccepted :=
    onFrankaTrajectory_accepted hlength.left hlength.right shm
  rw [onFrankaTrajectory_of_stores h] at haccepted
  constructor
  · rw [haccepted.right.left, messageRows, List.length_map]
  · intro k hk
    have hk' : k < msg.points.length := by
      simpa [messageRows] using hk
    rw [haccepted.right.right.right k hk']
    simp [messageRows]

theorem holdsRows_of_message {msg : ArmMessage} (h : msg.accepted = true)
    (shm : Shm) :
    exists traj, msg = .trajectory traj ∧
      HoldsRows (applyStores msg.stores shm).traj (messageRows traj) := by
  rcases ArmMessage.exists_of_accepted h with ⟨traj, stores, rfl, hstores⟩
  refine ⟨traj, rfl, ?_⟩
  rw [ArmMessage.stores, hstores]
  exact holdsRows_of_stores hstores shm

/-!
## The condition

The copy loop and the writing loop exclude each other: the length is loaded when
no row store is outstanding, and no row store is made until the copy ends.
-/

def Loc.isCopying : Loc -> Bool
  | .copying _ _ _ _ => true
  | _ => false

def Loc.isLoadLen : Loc -> Bool
  | .loadLen => true
  | _ => false

def CopyExcluded (s : Split) : SplitEvent -> Prop
  | .control _ =>
      s.ctl.loc.isLoadLen = true -> s.outgoing.any Store.writesRows = false
  | .store =>
      s.ctl.loc.isCopying = true ->
        (s.outgoing.take 1).any Store.writesRows = false
  | .receive _ => True

instance (s : Split) : forall e, Decidable (CopyExcluded s e)
  | .control _ => inferInstanceAs (Decidable (_ -> _))
  | .store => inferInstanceAs (Decidable (_ -> _))
  | .receive _ => inferInstanceAs (Decidable True)

/-!
## The invariant

Once the running callback has made its stores, the buffer is empty or holds a
message; a copy in progress has a prefix of the message that the buffer holds.
-/

def BufferFaithful (history : List SplitEvent) (buf : ArmTrajBuf) : Prop :=
  buf.len = 0 ∨
    exists rows, FromMessage history rows ∧ HoldsRows buf rows

/-- The state of a copy: whole rows, and the first `j` joints of the next. -/
structure CopyFaithful (history : List SplitEvent) (buf : ArmTrajBuf)
    (len : TrajLen) (c : CheckedRows) (q : Joints ExactDouble) (j : Nat)
    (rows : List (Joints ExactDouble × ExactDouble)) : Prop where
  source : FromMessage history rows
  holds : HoldsRows buf rows
  length : rows.length = len.val
  copied : c.rows.map Waypoint.row = rows.take c.rows.length
  next : c.rows.length < rows.length
  joints : forall i : Fin armDOF, i.val < j ->
    q i = (buf.row c.rows.length).1 i

def LocFaithful (history : List SplitEvent) (buf : ArmTrajBuf) : Loc -> Prop
  | .copying len c q j =>
      exists rows, CopyFaithful history buf len c q j rows
  | .executing tr _ => FromMessage history (tr.rows.map Waypoint.row)
  | _ => True

structure Faithful (history : List SplitEvent) (s : Split) : Prop where
  buffer : BufferFaithful history (applyStores s.outgoing s.ctl.shm).traj
  loc : LocFaithful history s.ctl.shm.traj s.ctl.loc

theorem holdsRows_congr {buf buf' : ArmTrajBuf}
    {rows : List (Joints ExactDouble × ExactDouble)}
    (hq : buf'.q = buf.q) (ht : buf'.t = buf.t) (hlen : buf'.len = buf.len)
    (h : HoldsRows buf rows) : HoldsRows buf' rows := by
  refine ⟨hlen.trans h.left, ?_⟩
  intro k hk
  rw [← h.right k hk, ArmTrajBuf.row, ArmTrajBuf.row, hq, ht]

theorem bufferFaithful_congr {history : List SplitEvent}
    {buf buf' : ArmTrajBuf}
    (hq : buf'.q = buf.q) (ht : buf'.t = buf.t)
    (hlen : buf'.len = buf.len ∨ buf'.len = 0)
    (h : BufferFaithful history buf) : BufferFaithful history buf' := by
  rcases hlen with hsame | hzero
  · rcases h with hempty | ⟨rows, hsource, hholds⟩
    · exact Or.inl (hsame.trans hempty)
    · exact Or.inr ⟨rows, hsource, holdsRows_congr hq ht hsame hholds⟩
  · exact Or.inl hzero

theorem bufferFaithful_append {history : List SplitEvent} {buf : ArmTrajBuf}
    (h : BufferFaithful history buf) (e : SplitEvent) :
    BufferFaithful (history ++ [e]) buf := by
  rcases h with hempty | ⟨rows, hsource, hholds⟩
  · exact Or.inl hempty
  · exact Or.inr ⟨rows, fromMessage_append hsource e, hholds⟩

theorem locFaithful_append {history : List SplitEvent} {buf : ArmTrajBuf}
    {loc : Loc} (h : LocFaithful history buf loc) (e : SplitEvent) :
    LocFaithful (history ++ [e]) buf loc := by
  cases loc with
  | copying len c q j =>
      rcases h with ⟨rows, hcopy⟩
      exact ⟨rows, { hcopy with source := fromMessage_append hcopy.source e }⟩
  | executing tr elapsed => exact fromMessage_append h e
  | _ => exact True.intro

/-!
## Steps of the control thread
-/

theorem finishRow_faithful {history : List SplitEvent} {buf : ArmTrajBuf}
    {len : TrajLen} {c : CheckedRows} {q : Joints ExactDouble} {j : Nat}
    {rows : List (Joints ExactDouble × ExactDouble)}
    (hcopy : CopyFaithful history buf len c q j rows) (hj : armDOF ≤ j) :
    LocFaithful history buf (finishRow len c q (buf.t c.rows.length)) := by
  unfold finishRow
  cases haccept : c.accept q (buf.t c.rows.length) with
  | none => exact True.intro
  | some c' =>
      rcases accept_rows haccept with ⟨r, hrows, hrow⟩
      have hq : q = buf.q c.rows.length := by
        funext i
        exact hcopy.joints i (Nat.lt_of_lt_of_le i.isLt hj)
      have hnext : r.row = getElem rows c.rows.length hcopy.next := by
        rw [hrow, ← hcopy.holds.right _ hcopy.next, hq]
        rfl
      have hlength : c'.rows.length = c.rows.length + 1 := by
        simp [hrows]
      have hcopied : c'.rows.map Waypoint.row = rows.take c'.rows.length := by
        rw [hlength, hrows, List.map_append, hcopy.copied,
          List.map_singleton, hnext]
        exact (List.take_succ_eq_append_getElem hcopy.next).symm
      simp only
      split
      · rename_i hfull
        show FromMessage history (c'.rows.map Waypoint.row)
        rw [hcopied, hfull, ← hcopy.length, List.take_length]
        exact hcopy.source
      · rename_i hpart
        have hlen := hcopy.length
        have hmore := hcopy.next
        refine ⟨rows, ?_⟩
        exact
          { source := hcopy.source
            holds := hcopy.holds
            length := hcopy.length
            copied := hcopied
            next := by omega
            joints := fun i hi => absurd hi (Nat.not_lt_zero _) }

theorem tickStep_faithful {cfg : FrankaRightArmConfig}
    {history : List SplitEvent} {shm : Shm} {loc : Loc} {s' : Ctl}
    (hbuffer : loc.isLoadLen = true -> BufferFaithful history shm.traj)
    (hloc : LocFaithful history shm.traj loc)
    (h : tickStep cfg shm loc = some s') :
    LocFaithful history s'.shm.traj s'.loc := by
  cases loc with
  | loadLen =>
      simp only [tickStep] at h
      cases hlen : TrajLen.ofInt? shm.traj.len with
      | none =>
          rw [hlen] at h
          cases h
          exact True.intro
      | some len =>
          rw [hlen] at h
          cases h
          have heq := TrajLen.ofInt?_eq_some hlen
          have hpos := len.pos
          rcases hbuffer rfl with hempty | ⟨rows, hsource, hholds⟩
          · omega
          · have hlength : rows.length = len.val := by
              have := hholds.left
              omega
            refine ⟨rows, ?_⟩
            exact
              { source := hsource
                holds := hholds
                length := hlength
                copied := rfl
                next := by
                  rw [hlength]
                  exact hpos
                joints := fun i hi => absurd hi (Nat.not_lt_zero _) }
  | copying len c q j =>
      rcases hloc with ⟨rows, hcopy⟩
      simp only [tickStep] at h
      split at h
      · rename_i hj
        cases h
        refine ⟨rows, { hcopy with joints := ?_ }⟩
        intro i hi
        by_cases hij : i = ⟨j, hj⟩
        · subst hij
          exact Function.update_self _ _ _
        · rw [Function.update_of_ne hij]
          apply hcopy.joints
          have : i.val ≠ j := fun hval => hij (Fin.ext hval)
          omega
      · rename_i hj
        cases h
        exact finishRow_faithful hcopy (Nat.le_of_not_lt hj)
  | syncPose | checkTrajState | readTrajState | syncTarget =>
      simp only [tickStep] at h
      split at h <;> cases h <;> exact True.intro
  | loadTarget =>
      simp only [tickStep] at h
      split at h
      · cases h
        exact True.intro
      · split at h <;> cases h <;> exact True.intro
  | connecting | poll | executing | finishing | afterTrajectory | ptpMotion
  | afterPtp | undefinedBehaviour => cases h
  | storeIdle | storeZeroLen | storeExecuting | rejected | storeDone | trajCatch
  | loadSpeed | sleeping | handler | retrying =>
      cases h
      exact True.intro

theorem controlStep_faithful {cfg : FrankaRightArmConfig}
    {history : List SplitEvent} {s s' : Ctl} {e : ControlEvent}
    (hbuffer : s.loc.isLoadLen = true -> BufferFaithful history s.shm.traj)
    (hloc : LocFaithful history s.shm.traj s.loc)
    (h : controlStep cfg s e = some s') :
    LocFaithful history s'.shm.traj s'.loc := by
  rcases s with ⟨shm, loc⟩
  cases e with
  | tick => exact tickStep_faithful hbuffer hloc h
  | robotState state => cases loc <;> cases h <;> exact True.intro
  | callback state period =>
      cases loc with
      | executing tr elapsed =>
          simp only [controlStep, callbackStep] at h
          split at h
          · cases h
            exact True.intro
          · cases h
            simp only
            split
            · exact True.intro
            · exact hloc
      | _ => cases h
  | controlReturns => cases loc <;> cases h <;> exact True.intro
  | throws => cases loc <;> cases h <;> exact True.intro

/-!
## Runs
-/

theorem splitStep_faithful {cfg : FrankaRightArmConfig}
    {history : List SplitEvent} {s s' : Split} {e : SplitEvent}
    (hs : Faithful history s) (hcond : CopyExcluded s e)
    (h : splitStep cfg s e = some s') : Faithful (history ++ [e]) s' := by
  cases e with
  | control e =>
      rcases Option.map_eq_some_iff.mp h with ⟨ctl, hctl, rfl⟩
      rcases trajectory_controlStep hctl with ⟨hq, ht, hlen⟩
      constructor
      · apply bufferFaithful_append
        have hrows := applyStores_rows_congr s.outgoing hq ht
        apply bufferFaithful_congr hrows.left hrows.right _ hs.buffer
        rcases applyStores_len_cases s.outgoing with hfixed | hkeep
        · exact Or.inl (hfixed ctl.shm s.ctl.shm)
        · simp only [hkeep]
          exact hlen
      · apply locFaithful_append
        apply controlStep_faithful _ hs.loc hctl
        intro hload
        have hkeep := applyStores_of_not_writesRows (hcond hload) s.ctl.shm
        exact bufferFaithful_congr hkeep.left.symm hkeep.right.left.symm
          (Or.inl hkeep.right.right.symm) hs.buffer
  | receive msg =>
      rcases s with ⟨ctl, outgoing⟩
      cases outgoing with
      | cons store rest => cases h
      | nil =>
          cases h
          constructor
          · cases haccepted : msg.accepted with
            | true =>
                rcases holdsRows_of_message haccepted ctl.shm with
                  ⟨traj, hmsg, hholds⟩
                apply Or.inr
                refine ⟨messageRows traj, ⟨traj, ?_, rfl⟩, hholds⟩
                rw [hmsg]
                exact List.mem_append_right _ (List.mem_singleton_self _)
            | false =>
                apply bufferFaithful_append
                show BufferFaithful history
                  (applyStores msg.stores ctl.shm).traj
                rw [ArmMessage.traj_of_not_accepted haccepted]
                exact hs.buffer
          · exact locFaithful_append hs.loc _
  | store =>
      rcases s with ⟨ctl, outgoing⟩
      cases outgoing with
      | nil => cases h
      | cons store rest =>
          cases h
          constructor
          · exact bufferFaithful_append hs.buffer _
          · apply locFaithful_append
            rcases ctl with ⟨shm, loc⟩
            have hloc := hs.loc
            cases loc with
            | copying len c q j =>
                rcases hloc with ⟨rows, hcopy⟩
                have hstore : store.writesRows = false := by
                  simpa using hcond rfl
                rcases apply_of_not_writesRows hstore shm with ⟨hq, ht, hlen⟩
                refine ⟨rows, { hcopy with holds := ?_, joints := ?_ }⟩
                · exact holdsRows_congr hq ht hlen hcopy.holds
                · intro i hi
                  rw [hcopy.joints i hi]
                  simp only [ArmTrajBuf.row]
                  rw [hq]
            | executing tr elapsed => exact hloc
            | _ => exact True.intro

def Split.start (msgs : SHMmsgs) : Split :=
  ⟨⟨⟨msgs, ArmTrajBuf.zero⟩, .connecting⟩, []⟩

theorem faithful_of_run {cfg : FrankaRightArmConfig} {msgs : SHMmsgs}
    {history : List SplitEvent} {s : Split}
    (h : Machine.RunWhere (splitStep cfg) CopyExcluded (Split.start msgs)
      history s) : Faithful history s := by
  apply Machine.history_invariant_of_step _ _ h
  · intro history s e s' hs hcond hstep
    exact splitStep_faithful hs hcond hstep
  · exact ⟨Or.inl rfl, True.intro⟩

/-- Without overlap of the two loops, a trajectory that is executed is the
content of one received message. -/
theorem executed_fromMessage {cfg : FrankaRightArmConfig} {msgs : SHMmsgs}
    {history : List SplitEvent} {s : Split} {tr : Trajectory} {elapsed : ℚ}
    (h : Machine.RunWhere (splitStep cfg) CopyExcluded (Split.start msgs)
      history s) (hloc : s.ctl.loc = .executing tr elapsed) :
    FromMessage history (tr.rows.map Waypoint.row) := by
  have hfaithful := (faithful_of_run h).loc
  rw [hloc] at hfaithful
  exact hfaithful

/-!
## One copy without and one with overlap

The controller connects, a first message is written and picked up.  In the
second run a second message is written after three joints have been copied.
-/

def firstMessage : JointTrajectory :=
  .onePoint [0, -7 / 10, 0, -23 / 10, 0, 3 / 2, 7 / 10]

def secondMessage : JointTrajectory :=
  .onePoint [3 / 10, -5 / 10, 1 / 10, -2, 1 / 10, 2, 1]

def ticks (n : Nat) : List SplitEvent := List.replicate n (.control .tick)

def connectAndPickUp : List SplitEvent :=
  [.control (.robotState .atRest)] ++ ticks 11 ++
    [.receive (.trajectory firstMessage)] ++ List.replicate 10 .store ++
    [.control (.robotState .atRest)] ++ ticks 3

def undisturbedCopy : List SplitEvent := connectAndPickUp ++ ticks 8

def disturbedCopy : List SplitEvent :=
  connectAndPickUp ++ ticks 3 ++ [.receive (.trajectory secondMessage)] ++
    List.replicate 9 .store ++ ticks 5

def Loc.executed? : Loc -> Option Trajectory
  | .executing tr _ => some tr
  | _ => none

def mixesMessages (history : List SplitEvent)
    (rows : List (Joints ExactDouble × ExactDouble)) : Bool :=
  history.all fun
    | .receive (.trajectory msg) => decide (rows ≠ messageRows msg)
    | _ => true

theorem not_fromMessage_of_mixes {history : List SplitEvent}
    {rows : List (Joints ExactDouble × ExactDouble)}
    (h : mixesMessages history rows = true) : ¬ FromMessage history rows := by
  intro hsource
  rcases hsource with ⟨msg, hmem, hrows⟩
  have hne := List.all_eq_true.mp h _ hmem
  exact of_decide_eq_true hne hrows

theorem exists_executing_of_executed {loc : Loc} {tr : Trajectory}
    (h : loc.executed? = some tr) : exists elapsed, loc = .executing tr elapsed := by
  cases loc with
  | executing tr' elapsed =>
      cases h
      exact ⟨elapsed, rfl⟩
  | _ => cases h

theorem executed_fromMessage_undisturbedCopy :
    exists (s : Split) (tr : Trajectory) (elapsed : ℚ),
      s.ctl.loc = .executing tr elapsed ∧
        FromMessage undisturbedCopy (tr.rows.map Waypoint.row) := by
  have hrun : (((splitStep defaultConfig).guarded CopyExcluded).runFrom
      (Split.start SHMmsgs.zero) undisturbedCopy).any
      (fun s => s.ctl.loc.executed?.isSome) = true := by
    decide +kernel
  rcases Machine.exists_runWhere_of_any hrun with ⟨s, hs, hloc⟩
  rcases Option.isSome_iff_exists.mp hloc with ⟨tr, htr⟩
  rcases exists_executing_of_executed htr with ⟨elapsed, helapsed⟩
  exact ⟨s, tr, elapsed, helapsed, executed_fromMessage hs helapsed⟩

theorem not_all_executed_fromMessage :
    ¬ forall cfg msgs history s tr elapsed,
        Machine.Run (splitStep cfg) (Split.start msgs) history s ->
        s.ctl.loc = .executing tr elapsed ->
        FromMessage history (tr.rows.map Waypoint.row) := by
  intro hclaim
  have hrun : ((splitStep defaultConfig).runFrom (Split.start SHMmsgs.zero)
      disturbedCopy).any
      (fun s => s.ctl.loc.executed?.any fun tr =>
        mixesMessages disturbedCopy (tr.rows.map Waypoint.row)) = true := by
    decide +kernel
  rcases Machine.exists_run_of_any hrun with ⟨s, hs, htest⟩
  cases htr : s.ctl.loc.executed? with
  | none =>
      rw [htr] at htest
      cases htest
  | some tr =>
      rw [htr, Option.any_some] at htest
      rcases exists_executing_of_executed htr with ⟨elapsed, helapsed⟩
      exact not_fromMessage_of_mixes htest
        (hclaim _ _ _ s tr elapsed hs helapsed)

end Arm
end FrankaKistar
