import FrankaKistar.Arm.Handshake
import FrankaKistar.Arm.Tearing

/-!
# A message is executed at most once

A reconnect keeps the state of a trajectory that is pending or executing, so
nothing may be left there that the controller has begun to execute.

Accepted trajectory messages are numbered in the order in which they come.  The
machine keeps which message wrote each row of the buffer, the messages that the
copy in progress has loaded from, and for every motion that was started the
messages that it was loaded from.
-/

namespace FrankaKistar
namespace Arm

open Foundation
open Bridge

/-- `writer i` is the message that wrote row `i` last; `0` stands for the
content of the buffer at the start. -/
structure Provenance where
  ctl : Ctl
  posted : Nat
  writer : Nat -> Nat
  loaded : List Nat
  starts : List (List Nat)

def ArmMessage.rowCount : ArmMessage -> Nat
  | .trajectory msg => msg.points.length
  | _ => 0

/-- The copy begins with the length, and every later load reads from the row
that is copied next. -/
def Provenance.loadedAfter (s : Provenance) : List Nat :=
  match s.ctl.loc with
  | .loadLen => [s.posted]
  | .copying _ c _ _ => s.writer c.rows.length :: s.loaded
  | _ => s.loaded

def Provenance.startsAfter (s : Provenance) (ctl : Ctl) : List (List Nat) :=
  if s.ctl.loc.isCopying && ctl.loc.executed?.isSome then
    s.loadedAfter :: s.starts
  else s.starts

def Provenance.after (s : Provenance) (ctl : Ctl) : AtomicEvent -> Provenance
  | .control _ =>
      { s with
        ctl := ctl
        loaded := s.loadedAfter
        starts := s.startsAfter ctl }
  | .message msg =>
      if msg.accepted then
        { s with
          ctl := ctl
          posted := s.posted + 1
          writer := fun i =>
            if i < msg.rowCount then s.posted + 1 else s.writer i }
      else { s with ctl := ctl }

def provenanceStep (cfg : FrankaRightArmConfig) :
    Machine Provenance AtomicEvent :=
  fun s e => (atomicStep cfg s.ctl e).map fun ctl => s.after ctl e

def Provenance.start (shm : Shm) : Provenance :=
  ⟨⟨shm, .connecting⟩, 0, fun _ => 0, [], []⟩

/-- No message was loaded for two motions. -/
def AtMostOnce (s : Provenance) : Prop :=
  forall k, s.starts.countP (fun loaded => decide (k ∈ loaded)) ≤ 1

/-!
## Rows and their writers

The number that is kept for a row is that of the message that the row holds.
-/

def ArmMessage.accepted? : ArmMessage -> Option JointTrajectory
  | .trajectory msg => (trajectoryStores msg).map fun _ => msg
  | _ => none

def acceptedMessages (history : List AtomicEvent) : List JointTrajectory :=
  history.filterMap fun
    | .message msg => msg.accepted?
    | .control _ => none

/-- Row `i` of the buffer is row `i` of message number `k`. -/
def RowOf (history : List AtomicEvent) (shm : Shm) (i : Nat) : Nat -> Prop
  | 0 => True
  | k + 1 => exists msg, (acceptedMessages history)[k]? = some msg ∧
      (messageRows msg)[i]? = some (shm.traj.row i)

structure WritersKnown (history : List AtomicEvent) (s : Provenance) :
    Prop where
  count : s.posted = (acceptedMessages history).length
  rows : forall i, RowOf history s.ctl.shm i (s.writer i)

theorem ArmMessage.accepted?_of_not_accepted {msg : ArmMessage}
    (h : msg.accepted = false) : msg.accepted? = none := by
  cases msg with
  | trajectory msg =>
      have hnone : trajectoryStores msg = none := by
        simpa [ArmMessage.accepted] using h
      rw [ArmMessage.accepted?, hnone]
      rfl
  | target | speed => rfl

theorem acceptedMessages_control (history : List AtomicEvent)
    (e : ControlEvent) :
    acceptedMessages (history ++ [.control e]) = acceptedMessages history := by
  rw [acceptedMessages, List.filterMap_append]
  exact List.append_nil _

theorem acceptedMessages_message (history : List AtomicEvent)
    (msg : ArmMessage) :
    acceptedMessages (history ++ [.message msg]) =
      acceptedMessages history ++ msg.accepted?.toList := by
  rw [acceptedMessages, List.filterMap_append]
  cases h : msg.accepted? <;> simp [acceptedMessages, h]

theorem rowOf_append {history : List AtomicEvent} {shm shm' : Shm} {i k : Nat}
    (h : RowOf history shm i k) (hrow : shm'.traj.row i = shm.traj.row i)
    (e : AtomicEvent) : RowOf (history ++ [e]) shm' i k := by
  cases k with
  | zero => exact True.intro
  | succ k =>
      rcases h with ⟨msg, hmsg, hcontent⟩
      rcases List.getElem?_eq_some_iff.mp hmsg with ⟨hk, _⟩
      refine ⟨msg, ?_, ?_⟩
      · rw [acceptedMessages, List.filterMap_append]
        exact (List.getElem?_append_left hk).trans hmsg
      · rw [hrow]
        exact hcontent

theorem rowOf_message {history : List AtomicEvent} {msg : JointTrajectory}
    {stores : List Store} (h : trajectoryStores msg = some stores) (shm : Shm)
    {i : Nat} (hi : i < msg.points.length) :
    RowOf (history ++ [.message (.trajectory msg)]) (applyStores stores shm) i
      ((acceptedMessages history).length + 1) := by
  have hlength := length_of_trajectoryStores h
  have haccepted :=
    onFrankaTrajectory_accepted hlength.left hlength.right shm
  rw [onFrankaTrajectory_of_stores h] at haccepted
  refine ⟨msg, ?_, ?_⟩
  · rw [acceptedMessages_message, ArmMessage.accepted?, h]
    simp
  · rw [haccepted.right.right.right i hi, messageRows, List.getElem?_map,
      List.getElem?_eq_getElem hi]
    rfl

theorem writersKnown_of_step {cfg : FrankaRightArmConfig}
    {history : List AtomicEvent} {s s' : Provenance} {e : AtomicEvent}
    (hs : WritersKnown history s) (h : provenanceStep cfg s e = some s') :
    WritersKnown (history ++ [e]) s' := by
  rcases Option.map_eq_some_iff.mp h with ⟨ctl, hctl, rfl⟩
  cases e with
  | control e =>
      rcases trajectory_controlStep hctl with ⟨hq, ht, _⟩
      constructor
      · rw [acceptedMessages_control]
        exact hs.count
      · intro i
        apply rowOf_append (hs.rows i)
        show ctl.shm.traj.row i = _
        rw [ArmTrajBuf.row, ArmTrajBuf.row, hq, ht]
  | message msg =>
      cases hctl
      cases haccepted : msg.accepted with
      | false =>
          simp only [Provenance.after, haccepted, Bool.false_eq_true, if_false]
          constructor
          · rw [acceptedMessages_message,
              ArmMessage.accepted?_of_not_accepted haccepted]
            exact hs.count.trans (by simp)
          · intro i
            apply rowOf_append (hs.rows i)
            rw [ArmMessage.traj_of_not_accepted haccepted]
      | true =>
          rcases ArmMessage.exists_of_accepted haccepted with
            ⟨traj, stores, rfl, hstores⟩
          simp only [Provenance.after, haccepted, if_true]
          constructor
          · rw [acceptedMessages_message, ArmMessage.accepted?, hstores]
            simp [hs.count]
          · intro i
            simp only [ArmMessage.stores, hstores, Option.getD_some]
            by_cases hi : i < (ArmMessage.trajectory traj).rowCount
            · rw [if_pos hi, hs.count]
              exact rowOf_message hstores s.ctl.shm hi
            · rw [if_neg hi]
              apply rowOf_append (hs.rows i)
              have hlength := length_of_trajectoryStores hstores
              rw [← onFrankaTrajectory_of_stores hstores]
              exact onFrankaTrajectory_row_past hlength.left hlength.right _
                (Nat.le_of_not_lt hi)

theorem writersKnown_of_run {cfg : FrankaRightArmConfig} {shm : Shm}
    {history : List AtomicEvent} {s : Provenance}
    (h : Machine.Run (provenanceStep cfg) (Provenance.start shm) history s) :
    WritersKnown history s := by
  apply Machine.history_invariant_of_step _ _ h
  · intro history s e s' hs _ hstep
    exact writersKnown_of_step hs hstep
  · exact ⟨rfl, fun _ => True.intro⟩

/-!
## What a start needs

A motion is started from a copy, a copy from the pick-up of a pending state, and
the thread itself never makes a state pending.
-/

/-- The motion has been started and its end is not yet stored. -/
def Loc.ran : Loc -> Bool
  | .executing _ _ => true
  | .finishing _ => true
  | .storeDone _ => true
  | .trajCatch => true
  | .undefinedBehaviour => true
  | _ => false

def Loc.picksUp : Loc -> Bool
  | .storeExecuting _ => true
  | .loadLen => true
  | _ => false

def Ctl.Startable (c : Ctl) : Prop :=
  c.loc.ran = false ∧
    (c.shm.traj.state = .pending ∨ c.loc.picksUp = true)

theorem startable_of_tickStep {cfg : FrankaRightArmConfig} {shm : Shm}
    {loc : Loc} {s' : Ctl} (h : tickStep cfg shm loc = some s')
    (hs : s'.Startable) : Ctl.Startable ⟨shm, loc⟩ := by
  rcases hs with ⟨hran, hstate⟩
  cases loc with
  | syncPose last j =>
      simp only [tickStep] at h
      split at h <;> cases h <;> exact ⟨rfl, hstate⟩
  | checkTrajState last =>
      simp only [tickStep] at h
      split at h <;> cases h <;> exact ⟨rfl, hstate⟩
  | readTrajState last =>
      simp only [tickStep] at h
      split at h
      · rename_i hpending
        exact ⟨rfl, Or.inl hpending⟩
      · cases h
        exact ⟨rfl, hstate⟩
  | storeExecuting | loadLen => exact ⟨rfl, Or.inr rfl⟩
  | copying len c q j =>
      simp only [tickStep] at h
      split at h
      · cases h
        exact ⟨rfl, hstate⟩
      · cases h
        rcases hstate with hpending | hpicks
        · exact ⟨rfl, Or.inl hpending⟩
        · apply absurd hpicks
          simp only [finishRow]
          split
          · exact Bool.false_ne_true
          · split <;> exact Bool.false_ne_true
  | syncTarget tr j =>
      simp only [tickStep] at h
      split at h <;> cases h <;> exact ⟨rfl, hstate⟩
  | loadTarget last target j =>
      simp only [tickStep] at h
      split at h
      · cases h
        exact ⟨rfl, hstate⟩
      · split at h <;> cases h <;> exact ⟨rfl, hstate⟩
  | storeIdle | rejected | storeDone | trajCatch | handler =>
      cases h
      rcases hstate with hpending | hpicks
      · cases hpending
      · cases hpicks
  | storeZeroLen | loadSpeed | sleeping | retrying =>
      cases h
      exact ⟨rfl, hstate⟩
  | connecting | poll | executing | finishing | afterTrajectory | ptpMotion
  | afterPtp | undefinedBehaviour => cases h

theorem startable_of_controlStep {cfg : FrankaRightArmConfig} {s s' : Ctl}
    {e : ControlEvent} (h : controlStep cfg s e = some s')
    (hs : s'.Startable) : s.Startable := by
  rcases s with ⟨shm, loc⟩
  cases e with
  | tick => exact startable_of_tickStep h hs
  | robotState state =>
      have hs := hs.right
      cases loc <;> cases h <;> exact ⟨rfl, hs⟩
  | callback state period =>
      cases loc with
      | executing tr elapsed =>
          simp only [controlStep, callbackStep] at h
          split at h
          · cases h
            cases hs.left
          · cases h
            have hran := hs.left
            simp only at hran
            split at hran <;> cases hran
      | _ => cases h
  | controlReturns =>
      cases loc with
      | finishing tr =>
          cases h
          cases hs.left
      | ptpMotion target speed =>
          cases h
          exact ⟨rfl, hs.right⟩
      | _ => cases h
  | throws =>
      have hran := hs.left
      have hstate := hs.right
      cases loc <;> cases h <;> first | exact ⟨rfl, hstate⟩ | cases hran

theorem finishRow_cases {len : TrajLen} {c : CheckedRows}
    (q : Joints ExactDouble) (t : ExactDouble) (hc : c.rows.length < len.val) :
    (exists c', finishRow len c q t = .copying len c' zeroJoints 0 ∧
        c'.rows.length < len.val) ∨
      finishRow len c q t = .rejected ∨
      exists tr, finishRow len c q t = .executing tr 0 := by
  unfold finishRow
  cases haccept : c.accept q t with
  | none => exact Or.inr (Or.inl rfl)
  | some c' =>
      rcases accept_rows haccept with ⟨r, hrows, _⟩
      have hlength : c'.rows.length = c.rows.length + 1 := by
        simp [hrows]
      simp only
      split
      · exact Or.inr (Or.inr ⟨_, rfl⟩)
      · exact Or.inl ⟨c', rfl, by omega⟩

theorem Loc.eq_loadLen {loc : Loc} (h : loc.isLoadLen = true) :
    loc = .loadLen := by
  cases loc <;> first | rfl | cases h

theorem Loc.exists_copying {loc : Loc} (h : loc.isCopying = true) :
    exists len c q j, loc = .copying len c q j := by
  cases loc with
  | copying len c q j => exact ⟨len, c, q, j, rfl⟩
  | _ => cases h

theorem isCopying_of_controlStep {cfg : FrankaRightArmConfig} {s s' : Ctl}
    {e : ControlEvent} (h : controlStep cfg s e = some s')
    (hcopy : s'.loc.isCopying = true) :
    s.loc.isLoadLen = true ∨ s.loc.isCopying = true := by
  rcases s with ⟨shm, loc⟩
  cases loc with
  | loadLen => exact Or.inl rfl
  | copying => exact Or.inr rfl
  | executing tr elapsed =>
      cases e with
      | callback state period =>
          simp only [controlStep, callbackStep] at h
          split at h
          · cases h
            cases hcopy
          · cases h
            simp only at hcopy
            split at hcopy <;> cases hcopy
      | tick | robotState | controlReturns => cases h
      | throws =>
          cases h
          cases hcopy
  | syncPose | checkTrajState | readTrajState | syncTarget =>
      cases e with
      | tick =>
          simp only [controlStep, tickStep] at h
          split at h <;> cases h <;> cases hcopy
      | _ => cases h
  | loadTarget =>
      cases e with
      | tick =>
          simp only [controlStep, tickStep] at h
          split at h
          · cases h
            cases hcopy
          · split at h <;> cases h <;> cases hcopy
      | _ => cases h
  | _ => cases e <;> cases h <;> cases hcopy

/-!
## The invariant

A motion that can be started comes from a message that is newer than all that
have been started; so does a copy in progress.
-/

def Below (n : Nat) (starts : List (List Nat)) : Prop :=
  forall loaded, loaded ∈ starts -> forall k, k ∈ loaded -> k < n

structure CopyFrom (s : Provenance) (len : TrajLen) (c : CheckedRows)
    (first : Nat) : Prop where
  next : c.rows.length < len.val
  rows : forall i, i < len.val -> first ≤ s.writer i
  loaded : forall k, k ∈ s.loaded -> first ≤ k ∧ k ≤ s.posted
  starts : Below first s.starts

structure OnceInv (s : Provenance) : Prop where
  ordered : s.starts.Pairwise fun later earlier =>
    forall k, k ∈ later -> forall m, m ∈ earlier -> m < k
  started : Below (s.posted + 1) s.starts
  writers : forall i, s.writer i ≤ s.posted
  current : forall i : Nat, (i : Int) < s.ctl.shm.traj.len ->
    s.writer i = s.posted
  fresh : s.ctl.Startable -> Below s.posted s.starts
  copy : forall len c q j, s.ctl.loc = .copying len c q j ->
    exists first, CopyFrom s len c first

theorem below_mono {n m : Nat} {starts : List (List Nat)} (h : Below n starts)
    (hle : n ≤ m) : Below m starts :=
  fun loaded hloaded k hk => Nat.lt_of_lt_of_le (h loaded hloaded k hk) hle

theorem countP_mem_le_one {starts : List (List Nat)}
    (h : starts.Pairwise fun later earlier =>
      forall k, k ∈ later -> forall m, m ∈ earlier -> m < k) (k : Nat) :
    starts.countP (fun loaded => decide (k ∈ loaded)) ≤ 1 := by
  induction starts with
  | nil => exact Nat.zero_le 1
  | cons later earlier ih =>
      rw [List.pairwise_cons] at h
      rw [List.countP_cons]
      by_cases hk : k ∈ later
      · have hnone : earlier.countP (fun loaded => decide (k ∈ loaded)) = 0 := by
          rw [List.countP_eq_zero]
          intro loaded hloaded hmem
          rw [decide_eq_true_eq] at hmem
          exact Nat.lt_irrefl k (h.left loaded hloaded k hk k hmem)
        rw [hnone]
        split <;> omega
      · have htail := ih h.right
        simpa [hk] using htail

theorem atMostOnce_of_onceInv {s : Provenance} (h : OnceInv s) :
    AtMostOnce s :=
  countP_mem_le_one h.ordered

theorem onceInv_start (shm : Shm) : OnceInv (Provenance.start shm) where
  ordered := List.Pairwise.nil
  started := by
    intro loaded hloaded
    cases hloaded
  writers := fun _ => Nat.le_refl 0
  current := fun _ _ => rfl
  fresh := by
    intro _ loaded hloaded
    cases hloaded
  copy := by
    intro len c q j hloc
    cases hloc

/-!
## Steps
-/

theorem onceInv_of_ignored {s : Provenance} {shm : Shm} (hs : OnceInv s)
    (htraj : shm.traj = s.ctl.shm.traj) :
    OnceInv { s with ctl := ⟨shm, s.ctl.loc⟩ } where
  ordered := hs.ordered
  started := hs.started
  writers := hs.writers
  current := by
    intro i hi
    rw [htraj] at hi
    exact hs.current i hi
  fresh := by
    intro hstart
    apply hs.fresh
    refine ⟨hstart.left, ?_⟩
    rw [← htraj]
    exact hstart.right
  copy := by
    intro len c q j hloc
    rcases hs.copy len c q j hloc with ⟨first, hcopy⟩
    exact ⟨first, hcopy.next, hcopy.rows, hcopy.loaded, hcopy.starts⟩

theorem onceInv_of_posted {s : Provenance} {shm : Shm} {n : Nat}
    (hs : OnceInv s) (hlen : shm.traj.len = n) :
    OnceInv
      { s with
        ctl := ⟨shm, s.ctl.loc⟩
        posted := s.posted + 1
        writer := fun i => if i < n then s.posted + 1 else s.writer i } where
  ordered := hs.ordered
  started := below_mono hs.started (Nat.le_succ _)
  writers := by
    intro i
    have hold := hs.writers i
    simp only
    split <;> omega
  current := by
    intro i hi
    rw [hlen] at hi
    exact if_pos (Int.ofNat_lt.mp hi)
  fresh := fun _ => hs.started
  copy := by
    intro len c q j hloc
    rcases hs.copy len c q j hloc with ⟨first, hcopy⟩
    refine ⟨first, hcopy.next, ?_, ?_, hcopy.starts⟩
    · intro i hi
      have hfirst := hcopy.rows i hi
      have hold := hs.writers i
      simp only
      split <;> omega
    · intro k hk
      have hbounds := hcopy.loaded k hk
      exact ⟨hbounds.left, Nat.le_succ_of_le hbounds.right⟩

theorem onceInv_of_message {s : Provenance} (hs : OnceInv s)
    (msg : ArmMessage) :
    OnceInv (s.after ⟨applyStores msg.stores s.ctl.shm, s.ctl.loc⟩
      (.message msg)) := by
  cases haccepted : msg.accepted with
  | false =>
      simp only [Provenance.after, haccepted, Bool.false_eq_true, if_false]
      exact onceInv_of_ignored hs
        (ArmMessage.traj_of_not_accepted haccepted s.ctl.shm)
  | true =>
      rcases holdsRows_of_message haccepted s.ctl.shm with
        ⟨traj, hmsg, hholds⟩
      have hlen : (applyStores msg.stores s.ctl.shm).traj.len =
          (msg.rowCount : Int) := by
        rw [hholds.left, hmsg]
        simp [messageRows, ArmMessage.rowCount]
      simp only [Provenance.after, haccepted, if_true]
      exact onceInv_of_posted hs hlen

theorem current_of_controlStep {cfg : FrankaRightArmConfig} {s : Provenance}
    {ctl : Ctl} {e : ControlEvent} (hs : OnceInv s)
    (h : controlStep cfg s.ctl e = some ctl) {i : Nat}
    (hi : (i : Int) < ctl.shm.traj.len) : s.writer i = s.posted := by
  rcases (trajectory_controlStep h).right.right with hsame | hzero
  · rw [hsame] at hi
    exact hs.current i hi
  · omega

theorem onceInv_of_notStarted {cfg : FrankaRightArmConfig} {s : Provenance}
    {ctl : Ctl} {e : ControlEvent} (hs : OnceInv s)
    (h : controlStep cfg s.ctl e = some ctl)
    (hstarts : s.startsAfter ctl = s.starts)
    (hfresh : ctl.Startable -> Below s.posted s.starts)
    (hcopy : forall len c q j, ctl.loc = .copying len c q j ->
      exists first, CopyFrom { s with loaded := s.loadedAfter } len c first) :
    OnceInv (s.after ctl (.control e)) := by
  simp only [Provenance.after, hstarts]
  exact
    { ordered := hs.ordered
      started := hs.started
      writers := hs.writers
      current := fun i hi => current_of_controlStep hs h hi
      fresh := hfresh
      copy := by
        intro len c q j hloc
        rcases hcopy len c q j hloc with ⟨first, hcopy⟩
        exact ⟨first, hcopy.next, hcopy.rows, hcopy.loaded, hcopy.starts⟩ }

theorem onceInv_of_other {cfg : FrankaRightArmConfig} {s : Provenance}
    {ctl : Ctl} {e : ControlEvent} (hs : OnceInv s)
    (h : controlStep cfg s.ctl e = some ctl)
    (hload : s.ctl.loc.isLoadLen = false)
    (hcopying : s.ctl.loc.isCopying = false) :
    OnceInv (s.after ctl (.control e)) := by
  apply onceInv_of_notStarted hs h
  · simp [Provenance.startsAfter, hcopying]
  · intro hstart
    exact hs.fresh (startable_of_controlStep h hstart)
  · intro len c q j hloc
    have hbefore := isCopying_of_controlStep h (by rw [hloc]; rfl)
    rw [hload, hcopying] at hbefore
    rcases hbefore with hno | hno <;> cases hno

theorem onceInv_of_loadLen {cfg : FrankaRightArmConfig} {s : Provenance}
    {ctl : Ctl} {e : ControlEvent} (hs : OnceInv s)
    (h : controlStep cfg s.ctl e = some ctl) (hloc : s.ctl.loc = .loadLen) :
    OnceInv (s.after ctl (.control e)) := by
  have hbelow : Below s.posted s.starts := by
    apply hs.fresh
    rw [Ctl.Startable, hloc]
    exact ⟨rfl, Or.inr rfl⟩
  apply onceInv_of_notStarted hs h
  · simp [Provenance.startsAfter, hloc, Loc.isCopying]
  · exact fun _ => hbelow
  · intro len c q j hcopying
    have hloaded : s.loadedAfter = [s.posted] := by
      simp [Provenance.loadedAfter, hloc]
    rw [hloaded]
    rcases s with ⟨⟨shm, loc⟩, posted, writer, loaded, starts⟩
    subst hloc
    cases e with
    | tick =>
        simp only [controlStep, tickStep] at h
        split at h
        · cases h
          cases hcopying
        · rename_i len' hlen
          cases h
          cases hcopying
          have heq : shm.traj.len = len.val := TrajLen.ofInt?_eq_some hlen
          refine ⟨posted, len.pos, ?_, ?_, hbelow⟩
          · intro i hi
            have hwithin : (i : Int) < shm.traj.len := by omega
            exact Nat.le_of_eq (hs.current i hwithin).symm
          · intro k hk
            rw [List.mem_singleton.mp hk]
            exact ⟨Nat.le_refl _, Nat.le_refl _⟩
    | robotState | callback | controlReturns | throws => cases h

theorem loadedAfter_bounds {s : Provenance} {len : TrajLen} {c : CheckedRows}
    {q : Joints ExactDouble} {j first : Nat} (hs : OnceInv s)
    (hloc : s.ctl.loc = .copying len c q j) (hcopy : CopyFrom s len c first)
    (k : Nat) (hk : k ∈ s.loadedAfter) : first ≤ k ∧ k ≤ s.posted := by
  have hloaded : s.loadedAfter = s.writer c.rows.length :: s.loaded := by
    simp [Provenance.loadedAfter, hloc]
  rw [hloaded] at hk
  rcases List.mem_cons.mp hk with hnew | hold
  · rw [hnew]
    exact ⟨hcopy.rows _ hcopy.next, hs.writers _⟩
  · exact hcopy.loaded k hold

theorem controlStep_of_copying {cfg : FrankaRightArmConfig} {s s' : Ctl}
    {e : ControlEvent} {len : TrajLen} {c : CheckedRows}
    {q : Joints ExactDouble} {j : Nat} (hloc : s.loc = .copying len c q j)
    (hc : c.rows.length < len.val) (h : controlStep cfg s e = some s') :
    (exists c' q' j', s'.loc = .copying len c' q' j' ∧
        c'.rows.length < len.val) ∨
      s'.loc = .rejected ∨ exists tr, s'.loc = .executing tr 0 := by
  rcases s with ⟨shm, loc⟩
  subst hloc
  cases e with
  | tick =>
      simp only [controlStep, tickStep] at h
      split at h
      · cases h
        exact Or.inl ⟨c, _, _, rfl, hc⟩
      · cases h
        rcases finishRow_cases q (shm.traj.t c.rows.length) hc with
          ⟨c', hc', hlt⟩ | hreject | hexecute
        · exact Or.inl ⟨c', _, _, hc', hlt⟩
        · exact Or.inr (Or.inl hreject)
        · exact Or.inr (Or.inr hexecute)
  | robotState | callback | controlReturns | throws => cases h

theorem onceInv_of_started {cfg : FrankaRightArmConfig} {s : Provenance}
    {ctl : Ctl} {e : ControlEvent} {len : TrajLen} {c : CheckedRows}
    {q : Joints ExactDouble} {j first : Nat} {tr : Trajectory} (hs : OnceInv s)
    (h : controlStep cfg s.ctl e = some ctl)
    (hloc : s.ctl.loc = .copying len c q j) (hcopy : CopyFrom s len c first)
    (hexecute : ctl.loc = .executing tr 0) :
    OnceInv (s.after ctl (.control e)) := by
  have hbounds := loadedAfter_bounds hs hloc hcopy
  have hstarts : s.startsAfter ctl = s.loadedAfter :: s.starts := by
    simp [Provenance.startsAfter, hloc, hexecute, Loc.isCopying,
      Loc.executed?]
  simp only [Provenance.after, hstarts]
  exact
    { ordered := by
        rw [List.pairwise_cons]
        refine ⟨?_, hs.ordered⟩
        intro earlier hearlier k hk m hm
        exact Nat.lt_of_lt_of_le (hcopy.starts earlier hearlier m hm)
          (hbounds k hk).left
      started := by
        intro loaded hmem k hk
        rcases List.mem_cons.mp hmem with hnew | hold
        · rw [hnew] at hk
          exact Nat.lt_succ_of_le (hbounds k hk).right
        · exact hs.started loaded hold k hk
      writers := hs.writers
      current := fun i hi => current_of_controlStep hs h hi
      fresh := by
        intro hstart
        have hran : ctl.loc.ran = false := hstart.left
        rw [hexecute] at hran
        cases hran
      copy := by
        intro len' c' q' j' hcopying
        have hcopying : ctl.loc = .copying len' c' q' j' := hcopying
        rw [hexecute] at hcopying
        cases hcopying }

theorem onceInv_of_copying {cfg : FrankaRightArmConfig} {s : Provenance}
    {ctl : Ctl} {e : ControlEvent} {len : TrajLen} {c : CheckedRows}
    {q : Joints ExactDouble} {j : Nat} (hs : OnceInv s)
    (h : controlStep cfg s.ctl e = some ctl)
    (hloc : s.ctl.loc = .copying len c q j) :
    OnceInv (s.after ctl (.control e)) := by
  rcases hs.copy len c q j hloc with ⟨first, hcopy⟩
  have hfirst : first ≤ s.posted :=
    Nat.le_trans (hcopy.rows _ hcopy.next) (hs.writers _)
  have hbelow : Below s.posted s.starts := below_mono hcopy.starts hfirst
  rcases controlStep_of_copying hloc hcopy.next h with
    ⟨c', q', j', hctl, hlt⟩ | hreject | ⟨tr, hexecute⟩
  · apply onceInv_of_notStarted hs h
    · simp [Provenance.startsAfter, hctl, Loc.executed?]
    · exact fun _ => hbelow
    · intro len' c'' q'' j'' hcopying
      rw [hctl] at hcopying
      cases hcopying
      exact ⟨first, hlt, hcopy.rows, loadedAfter_bounds hs hloc hcopy,
        hcopy.starts⟩
  · apply onceInv_of_notStarted hs h
    · simp [Provenance.startsAfter, hreject, Loc.executed?]
    · exact fun _ => hbelow
    · intro len' c'' q'' j'' hcopying
      rw [hreject] at hcopying
      cases hcopying
  · exact onceInv_of_started hs h hloc hcopy hexecute

theorem onceInv_of_step {cfg : FrankaRightArmConfig} {s s' : Provenance}
    {e : AtomicEvent} (hs : OnceInv s)
    (h : provenanceStep cfg s e = some s') : OnceInv s' := by
  rcases Option.map_eq_some_iff.mp h with ⟨ctl, hctl, rfl⟩
  cases e with
  | message msg =>
      cases hctl
      exact onceInv_of_message hs msg
  | control e =>
      cases hload : s.ctl.loc.isLoadLen with
      | true =>
          exact onceInv_of_loadLen hs hctl (Loc.eq_loadLen hload)
      | false =>
          cases hcopying : s.ctl.loc.isCopying with
          | false => exact onceInv_of_other hs hctl hload hcopying
          | true =>
              rcases Loc.exists_copying hcopying with ⟨len, c, q, j, hloc⟩
              exact onceInv_of_copying hs hctl hloc

/-!
## Runs
-/

theorem atMostOnce_of_run {cfg : FrankaRightArmConfig} {shm : Shm}
    {history : List AtomicEvent} {s : Provenance}
    (h : Machine.Run (provenanceStep cfg) (Provenance.start shm) history s) :
    AtMostOnce s := by
  apply atMostOnce_of_onceInv
  apply Machine.invariant_of_step _ _ h
  · intro s e s' hs _ hstep
    exact onceInv_of_step hs hstep
  · exact onceInv_start shm

/-!
## An interrupted motion

The motion of a message throws, and the controller connects again and polls.
-/

def interruptedMotion : List AtomicEvent :=
  List.flatten
    [ connectAndPoll, [.message singlePoint],
      List.replicate 11 (.control .tick), [.control .throws],
      List.replicate 3 (.control .tick), connectAndPoll ]

theorem atMostOnce_interruptedMotion :
    exists s, AtMostOnce s ∧ s.starts.length = 1 ∧
      s.ctl.shm.traj.state = .idle := by
  have hrun : ((provenanceStep defaultConfig).runFrom
      (Provenance.start ⟨SHMmsgs.zero, ArmTrajBuf.zero⟩)
      interruptedMotion).any
      (fun s => decide (s.starts.length = 1) &&
        decide (s.ctl.shm.traj.state = .idle)) = true := by
    decide +kernel
  rcases Machine.exists_run_of_any hrun with ⟨s, hs, htest⟩
  rw [Bool.and_eq_true, decide_eq_true_eq, decide_eq_true_eq] at htest
  exact ⟨s, atMostOnce_of_run hs, htest⟩

end Arm
end FrankaKistar
