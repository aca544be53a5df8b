import FrankaKistar.Arm.Execute
import FrankaKistar.Arm.IndexSafety
import FrankaKistar.Bridge.Carried
import Mathlib.Data.Rat.Lemmas

/-!
# From the message to the commands

A message that the bridge writes in one go and the controller accepts is executed
faithfully: between its points the commands interpolate the values that the
points carry for each joint, and from the last point on they stay there until
the motion finishes.  The only exception is a single point that lies in the
future of the first callback.
-/

namespace FrankaKistar
namespace Arm

open Foundation
open Bridge

/-!
## Points of a message
-/

/-- The time of point `i`. -/
def pointTime (msg : JointTrajectory) (i : Nat) : ℚ :=
  (msg.points[i]?.map timeFromStart).getD 0

/-- The value that point `i` carries for joint `j`. -/
def pointValue (msg : JointTrajectory) (i : Nat) (j : Fin armDOF) : ℚ :=
  ((msg.points[i]?.bind fun pt => carriedValue msg.jointNames pt j).map
    ExactDouble.toRat).getD 0

def lastPoint (msg : JointTrajectory) : Nat := msg.points.length - 1

/-- The messages that are in question: 1 to 1000 points, names that resolve, and
a value of every point for every joint. -/
structure Complete (msg : JointTrajectory) : Prop where
  nonempty : 0 < msg.points.length
  bounded : msg.points.length ≤ armTrajMaxPts
  names : NamesResolve msg.jointNames
  values : forall pt, pt ∈ msg.points -> forall j,
    (carriedValue msg.jointNames pt j).isSome = true

/-!
## What is promised

Callback `k` sees the elapsed time `elapsedAt 0 periods k`; it takes place as
long as no earlier callback finished the motion.
-/

def Reached (msg : JointTrajectory) (periods : List Nat) (k : Nat) : Prop :=
  k < periods.length ∧
    forall i, i < k ->
      elapsedAt 0 periods i < pointTime msg (lastPoint msg) + 1 / 20

/-- The linear interpolation at `elapsed` between points `i` and `i + 1`. -/
def interpolated (msg : JointTrajectory) (i : Nat) (elapsed : ℚ)
    (j : Fin armDOF) : ℚ :=
  pointValue msg i j +
    (elapsed - pointTime msg i) / (pointTime msg (i + 1) - pointTime msg i) *
      (pointValue msg (i + 1) j - pointValue msg i j)

/-- What callback `k` owes to the message; `result` is what it returned. -/
structure FollowsMessage (msg : JointTrajectory) (elapsed : ℚ)
    (result : Option (Except OutOfRange Command)) : Prop where
  inside : forall i, i + 1 < msg.points.length ->
    pointTime msg i ≤ elapsed -> elapsed < pointTime msg (i + 1) ->
      result = some (.ok (.jointPositions (interpolated msg i elapsed)))
  past : pointTime msg (lastPoint msg) ≤ elapsed ->
    exists c, result = some (.ok c) ∧ c.q = pointValue msg (lastPoint msg)
  finish : (exists q, result = some (.ok (.motionFinished q))) <->
    pointTime msg (lastPoint msg) + 1 / 20 ≤ elapsed

/-- Every callback that takes place follows the message, no other callback
returns anything, and a normal return leaves the last point as the result and
the target. -/
structure EndToEnd (msg : JointTrajectory) (shm : Shm) (tr : Trajectory)
    (calls : List ControlCall) : Prop where
  follows : forall k, Reached msg (calls.map ControlCall.period) k ->
    FollowsMessage msg (elapsedAt 0 (calls.map ControlCall.period) k)
      (runCallbacks tr.rows 0 (calls.map ControlCall.period))[k]?
  stops : forall k, ¬ Reached msg (calls.map ControlCall.period) k ->
    (runCallbacks tr.rows 0 (calls.map ControlCall.period))[k]? = none
  returned : forall result shm',
    executeTrajFromShm (onFrankaTrajectory msg shm) calls =
        .returned result shm' ->
      forall j, result j = .finite (pointValue msg (lastPoint msg) j) ∧
        shm'.msgs.armJTar j = .finite (pointValue msg (lastPoint msg) j)

/-!
## The rows that the controller loads
-/

section Loaded

variable {msg : JointTrajectory} {shm : Shm} {tr : Trajectory}

theorem loaded_rows (hmsg : Complete msg)
    (hload : loadTrajectory (onFrankaTrajectory msg shm).traj = some tr) :
    tr.rows.map Waypoint.row = messageRows msg := by
  have hholds := loadTrajectory_eq_some_iff.mp hload
  have hlen := (onFrankaTrajectory_accepted hmsg.nonempty hmsg.bounded
    shm).right.left
  have hlength : tr.rows.length = msg.points.length := by
    have := hholds.left
    omega
  rw [hholds.right, hlength]
  exact onFrankaTrajectory_rows hmsg.nonempty hmsg.bounded shm

theorem loaded_length (hmsg : Complete msg)
    (hload : loadTrajectory (onFrankaTrajectory msg shm).traj = some tr) :
    tr.rows.length = msg.points.length := by
  have hlength := congrArg List.length (loaded_rows hmsg hload)
  simpa [messageRows] using hlength

theorem loaded_row (hmsg : Complete msg)
    (hload : loadTrajectory (onFrankaTrajectory msg shm).traj = some tr)
    {i : Nat} (hi : i < tr.rows.length) :
    tr.rows[i].t = pointTime msg i ∧ tr.rows[i].q = pointValue msg i := by
  have hi' : i < msg.points.length := by
    rw [← loaded_length hmsg hload]
    exact hi
  have hrows := loaded_rows hmsg hload
  have hrow : tr.rows[i].row = messageRow msg.jointNames msg.points[i] := by
    have hget := congrArg (fun rows => rows[i]?) hrows
    simpa [messageRows, List.getElem?_eq_getElem hi,
      List.getElem?_eq_getElem hi'] using hget
  constructor
  · have htime := congrArg (fun row => row.2.toRat) hrow
    simpa [Waypoint.row, messageRow, pointTime, hi'] using htime
  · funext j
    have hsome := hmsg.values msg.points[i] (List.getElem_mem hi') j
    rcases Option.isSome_iff_exists.mp hsome with ⟨x, hx⟩
    have hvalue := congrArg (fun row => (row.1 j).toRat) hrow
    simp only [Waypoint.row, messageRow, ExactDouble.toRat_finite] at hvalue
    rw [hvalue, positionAt_of_carried hmsg.names hx]
    simp [pointValue, hi', hx]

theorem loaded_lastRow (hmsg : Complete msg)
    (hload : loadTrajectory (onFrankaTrajectory msg shm).traj = some tr) :
    tr.totalDur = pointTime msg (lastPoint msg) ∧
      tr.lastRow.q = pointValue msg (lastPoint msg) := by
  have hlast : lastPoint msg = tr.rows.length - 1 := by
    rw [lastPoint, loaded_length hmsg hload]
  rw [hlast]
  exact loaded_row hmsg hload (Nat.sub_lt tr.nonempty Nat.one_pos)

theorem loaded_firstRow (hmsg : Complete msg)
    (hload : loadTrajectory (onFrankaTrajectory msg shm).traj = some tr) :
    tr.firstRow.t = pointTime msg 0 :=
  (loaded_row hmsg hload tr.nonempty).left

end Loaded

/-!
## Whole nanoseconds

Elapsed times are whole milliseconds and message times whole nanoseconds, so a
segment of at most one nanosecond is met only at its start.
-/

def wholeNanoseconds : Set ℚ :=
  {x | exists n : Int, x = n / 1000000000}

theorem foldl_advance_mem (taken : List Nat) {start : ℚ}
    (h : start ∈ wholeNanoseconds) :
    taken.foldl advance start ∈ wholeNanoseconds := by
  induction taken generalizing start with
  | nil => exact h
  | cons period rest ih =>
      apply ih
      rcases h with ⟨n, rfl⟩
      refine ⟨n + period * 1000000, ?_⟩
      rw [advance]
      push_cast
      ring

theorem elapsedAt_mem (periods : List Nat) (k : Nat) :
    elapsedAt 0 periods k ∈ wholeNanoseconds :=
  foldl_advance_mem _ ⟨0, by norm_num⟩

theorem pointTime_mem (msg : JointTrajectory) (i : Nat) :
    pointTime msg i ∈ wholeNanoseconds := by
  unfold pointTime
  cases msg.points[i]? with
  | none => exact ⟨0, by simp⟩
  | some pt =>
      refine ⟨pt.sec.toInt * 1000000000 + pt.nanosec.toNat, ?_⟩
      simp only [Option.map_some, Option.getD_some, timeFromStart]
      push_cast
      ring

/-- Less than a nanosecond apart is the same time. -/
theorem eq_of_mem_wholeNanoseconds {x y : ℚ} (hx : x ∈ wholeNanoseconds)
    (hy : y ∈ wholeNanoseconds) (hle : x ≤ y) (hlt : y - x < minSegment) :
    y = x := by
  rcases hx with ⟨n, rfl⟩
  rcases hy with ⟨m, rfl⟩
  have hnm : n ≤ m := by
    have : (n : ℚ) ≤ m := by linarith
    exact_mod_cast this
  have hmn : m < n + 1 := by
    have : (m : ℚ) < n + 1 := by
      rw [minSegment] at hlt
      linarith
    exact_mod_cast this
  have heq : m = n := by omega
  rw [heq]

theorem eq_start_of_short_segment {msg : JointTrajectory} {periods : List Nat}
    {k i : Nat} (hlow : pointTime msg i ≤ elapsedAt 0 periods k)
    (hhigh : elapsedAt 0 periods k < pointTime msg (i + 1))
    (hshort : pointTime msg (i + 1) - pointTime msg i ≤ minSegment) :
    elapsedAt 0 periods k = pointTime msg i :=
  eq_of_mem_wholeNanoseconds (pointTime_mem msg i) (elapsedAt_mem periods k)
    hlow (lt_of_lt_of_le (sub_lt_sub_right hhigh _) hshort)

/-!
## Which callbacks take place
-/

theorem finished_command_iff (tr : Trajectory) {elapsed : ℚ} {c : Command}
    (h : command tr.rows elapsed = .ok c) :
    c.finished = true <-> tr.totalDur + 1 / 20 ≤ elapsed := by
  rcases lt_or_ge elapsed tr.totalDur with hend | hpast
  · rw [command_of_interpolate tr hend] at h
    have hno : ¬ tr.totalDur + 1 / 20 ≤ elapsed := by linarith
    cases hq : interpolate tr.rows elapsed with
    | error fault =>
        rw [hq] at h
        cases h
    | ok q =>
        rw [hq] at h
        cases h
        simpa [Command.finished] using hno
  · rw [command_past_end tr hpast] at h
    cases h
    split
    · rename_i hfinish
      simpa [Command.finished] using hfinish
    · rename_i hfinish
      simpa [Command.finished] using hfinish

/-- A callback has a result exactly when every earlier one returned a joint
position. -/
theorem runCallbacks_getElem? {rows : List Waypoint} {elapsed : ℚ}
    {periods : List Nat} {k : Nat} {result : Except OutOfRange Command} :
    (runCallbacks rows elapsed periods)[k]? = some result <->
      k < periods.length ∧
        (forall i, i < k -> exists c,
          command rows (elapsedAt elapsed periods i) = .ok c ∧
            c.finished = false) ∧
        result = command rows (elapsedAt elapsed periods k) := by
  induction periods generalizing elapsed k with
  | nil => simp [runCallbacks]
  | cons period rest ih =>
      cases k with
      | zero =>
          have hnone : forall i, i < 0 -> exists c,
              command rows (elapsedAt elapsed (period :: rest) i) = .ok c ∧
                c.finished = false :=
            fun i hi => absurd hi (Nat.not_lt_zero i)
          have hhead : (runCallbacks rows elapsed (period :: rest))[0]? =
              some (command rows (advance elapsed period)) := by
            rw [runCallbacks]
            cases command rows (advance elapsed period) <;> rfl
          rw [hhead, elapsedAt_zero, Option.some.injEq]
          constructor
          · intro h
            exact ⟨Nat.succ_pos _, hnone, h.symm⟩
          · intro h
            exact h.right.right.symm
      | succ k =>
          have hshift : (forall i, i < k + 1 -> exists c,
                command rows (elapsedAt elapsed (period :: rest) i) = .ok c ∧
                  c.finished = false) <->
              (exists c, command rows (advance elapsed period) = .ok c ∧
                  c.finished = false) ∧
                forall i, i < k -> exists c,
                  command rows (elapsedAt (advance elapsed period) rest i) =
                      .ok c ∧ c.finished = false := by
            constructor
            · intro h
              constructor
              · have h0 := h 0 (Nat.succ_pos k)
                rwa [elapsedAt_zero] at h0
              · intro i hi
                have hi' := h (i + 1) (Nat.succ_lt_succ hi)
                rwa [elapsedAt_succ] at hi'
            · intro h i hi
              cases i with
              | zero =>
                  rw [elapsedAt_zero]
                  exact h.left
              | succ i =>
                  rw [elapsedAt_succ]
                  exact h.right i (Nat.lt_of_succ_lt_succ hi)
          rw [hshift, elapsedAt_succ, runCallbacks]
          cases hcmd : command rows (advance elapsed period) with
          | error fault => simp
          | ok c =>
              cases hc : c.finished with
              | true => simp [hc]
              | false =>
                  rw [List.getElem?_cons_succ, hc, if_neg Bool.false_ne_true,
                    ih]
                  simp [hc]

/-!
## The callbacks of a loaded message
-/

section Callbacks

variable {msg : JointTrajectory} {shm : Shm} {tr : Trajectory}

/-- No callback reads out of range: two points, or a first callback that is not
before the only one. -/
def NoLateSingle (msg : JointTrajectory) (periods : List Nat) : Prop :=
  1 < msg.points.length ∨
    forall k, k < periods.length -> pointTime msg 0 ≤ elapsedAt 0 periods k

theorem command_ok_of_noLateSingle (hmsg : Complete msg)
    (hload : loadTrajectory (onFrankaTrajectory msg shm).traj = some tr)
    {periods : List Nat} (hcond : NoLateSingle msg periods) {k : Nat}
    (hk : k < periods.length) :
    exists c, command tr.rows (elapsedAt 0 periods k) = .ok c := by
  rcases hcond with htwo | hstart
  · rw [← loaded_length hmsg hload] at htwo
    exact command_ok_of_two tr htwo _
  · have hfirst := hstart k hk
    rw [← loaded_firstRow hmsg hload] at hfirst
    exact command_ok_of_start tr hfirst

theorem result_of_reached (hmsg : Complete msg)
    (hload : loadTrajectory (onFrankaTrajectory msg shm).traj = some tr)
    {periods : List Nat} (hcond : NoLateSingle msg periods) {k : Nat}
    (hk : Reached msg periods k) :
    (runCallbacks tr.rows 0 periods)[k]? =
      some (command tr.rows (elapsedAt 0 periods k)) := by
  rw [runCallbacks_getElem?]
  refine ⟨hk.left, ?_, rfl⟩
  intro i hi
  rcases command_ok_of_noLateSingle hmsg hload hcond
    (Nat.lt_trans hi hk.left) with ⟨c, hc⟩
  refine ⟨c, hc, ?_⟩
  have hbefore := hk.right i hi
  rw [← (loaded_lastRow hmsg hload).left] at hbefore
  rw [← Bool.not_eq_true, finished_command_iff tr hc]
  exact not_le.mpr hbefore

theorem no_result_of_not_reached (hmsg : Complete msg)
    (hload : loadTrajectory (onFrankaTrajectory msg shm).traj = some tr)
    {periods : List Nat} {k : Nat} (hk : ¬ Reached msg periods k) :
    (runCallbacks tr.rows 0 periods)[k]? = none := by
  cases hresult : (runCallbacks tr.rows 0 periods)[k]? with
  | none => rfl
  | some result =>
      rcases runCallbacks_getElem?.mp hresult with ⟨hlen, hearlier, _⟩
      apply absurd _ hk
      refine ⟨hlen, ?_⟩
      intro i hi
      rcases hearlier i hi with ⟨c, hc, hfinished⟩
      rw [← (loaded_lastRow hmsg hload).left]
      apply lt_of_not_ge
      intro hpast
      rw [(finished_command_iff tr hc).mpr hpast] at hfinished
      cases hfinished

theorem command_interpolated (hmsg : Complete msg)
    (hload : loadTrajectory (onFrankaTrajectory msg shm).traj = some tr)
    {periods : List Nat} {k i : Nat} (hi : i + 1 < msg.points.length)
    (hlow : pointTime msg i ≤ elapsedAt 0 periods k)
    (hhigh : elapsedAt 0 periods k < pointTime msg (i + 1)) :
    command tr.rows (elapsedAt 0 periods k) =
      .ok (.jointPositions (interpolated msg i (elapsedAt 0 periods k))) := by
  have hi1 : i + 1 < tr.rows.length := by
    rw [loaded_length hmsg hload]
    exact hi
  have hi0 : i < tr.rows.length := Nat.lt_of_succ_lt hi1
  have hrow0 := loaded_row hmsg hload hi0
  have hrow1 := loaded_row hmsg hload hi1
  have hshort := eq_start_of_short_segment hlow hhigh
  generalize elapsedAt 0 periods k = e at hlow hhigh hshort ⊢
  rw [← hrow0.left] at hlow
  rw [← hrow1.left] at hhigh
  have hstart : tr.firstRow.t ≤ e :=
    le_trans (tr.time_le (Nat.zero_le i) hi0) hlow
  have hend : e < tr.totalDur :=
    lt_of_lt_of_le hhigh (tr.time_le (by omega)
      (Nat.sub_lt tr.nonempty Nat.one_pos))
  rcases command_in_segment tr hstart hend with ⟨m, hm, hmlow, hmhigh, hcmd⟩
  have hsame : m = i := by
    rcases Nat.lt_trichotomy m i with hlt | heq | hgt
    · have := tr.time_le (Nat.succ_le_of_lt hlt) hi0
      linarith
    · exact heq
    · have := tr.time_le (Nat.succ_le_of_lt hgt) (Nat.lt_of_succ_lt hm)
      linarith
  subst hsame
  have hvalues : lerp7 tr.rows[m].q tr.rows[m + 1].q
      (segmentAlpha tr.rows[m] tr.rows[m + 1] e) = interpolated msg m e := by
    funext j
    rw [lerp7, segmentAlpha, interpolated, ← hrow0.left, ← hrow1.left,
      ← hrow0.right, ← hrow1.right]
    split
    · rfl
    · rename_i hdt
      rw [not_lt, hrow0.left, hrow1.left] at hdt
      rw [hshort hdt, hrow0.left]
      simp
  rw [hcmd, hvalues]

theorem followsMessage_of_reached (hmsg : Complete msg)
    (hload : loadTrajectory (onFrankaTrajectory msg shm).traj = some tr)
    {periods : List Nat} (hcond : NoLateSingle msg periods) {k : Nat}
    (hk : Reached msg periods k) :
    FollowsMessage msg (elapsedAt 0 periods k)
      (runCallbacks tr.rows 0 periods)[k]? := by
  rcases loaded_lastRow hmsg hload with ⟨htotal, hlast⟩
  rw [result_of_reached hmsg hload hcond hk]
  constructor
  · intro i hi hlow hhigh
    rw [command_interpolated hmsg hload hi hlow hhigh]
  · intro hpast
    rw [← htotal] at hpast
    refine ⟨_, congrArg some (command_past_end tr hpast), ?_⟩
    rw [← hlast]
    split <;> rfl
  · rcases command_ok_of_noLateSingle hmsg hload hcond hk.left with ⟨c, hc⟩
    rw [hc, ← htotal, ← finished_command_iff tr hc]
    cases c <;> simp [Command.finished]

end Callbacks

/-!
## The exact condition
-/

/-- There are two points, or all callbacks are on the same side of the time of
the only point. -/
def OneSided (msg : JointTrajectory) (periods : List Nat) : Prop :=
  1 < msg.points.length ∨
    (forall k, k < periods.length -> pointTime msg 0 ≤ elapsedAt 0 periods k) ∨
    (forall k, k < periods.length -> elapsedAt 0 periods k < pointTime msg 0)

section Condition

variable {msg : JointTrajectory} {shm : Shm} {tr : Trajectory}

theorem endToEnd_of_follows (hmsg : Complete msg)
    (hload : loadTrajectory (onFrankaTrajectory msg shm).traj = some tr)
    {calls : List ControlCall}
    (hfollows : forall k, Reached msg (calls.map ControlCall.period) k ->
      FollowsMessage msg (elapsedAt 0 (calls.map ControlCall.period) k)
        (runCallbacks tr.rows 0 (calls.map ControlCall.period))[k]?) :
    EndToEnd msg shm tr calls := by
  refine ⟨hfollows, ?_, ?_⟩
  · intro k hk
    exact no_result_of_not_reached hmsg hload hk
  · intro result shm' hreturn j
    rcases executeTrajFromShm_returned hload hreturn with ⟨hresult, htar, _⟩
    rw [hresult, htar, Trajectory.qLast, (loaded_lastRow hmsg hload).right]
    exact ⟨rfl, rfl⟩

theorem followsMessage_before_single (hmsg : Complete msg)
    (hload : loadTrajectory (onFrankaTrajectory msg shm).traj = some tr)
    (hone : msg.points.length = 1) {periods : List Nat} {k : Nat}
    (hbefore : elapsedAt 0 periods k < pointTime msg 0) :
    FollowsMessage msg (elapsedAt 0 periods k)
      (runCallbacks tr.rows 0 periods)[k]? := by
  have hlast : lastPoint msg = 0 := by
    rw [lastPoint, hone]
  have hlength : tr.rows.length = 1 := by
    rw [loaded_length hmsg hload, hone]
  constructor
  · intro i hi
    omega
  · intro hpast
    rw [hlast] at hpast
    exact absurd hpast (not_le.mpr hbefore)
  · rw [hlast]
    constructor
    · intro hfinished
      rcases hfinished with ⟨q, hq⟩
      have hcmd := (runCallbacks_getElem?.mp hq).right.right
      rw [← loaded_firstRow hmsg hload] at hbefore
      rw [command_single_before_start tr hlength hbefore] at hcmd
      cases hcmd
    · intro hpast
      linarith

/-- One early callback on a single point is read out of range, and no later
callback takes place. -/
theorem not_endToEnd_of_late_single (hmsg : Complete msg)
    (hload : loadTrajectory (onFrankaTrajectory msg shm).traj = some tr)
    (hone : msg.points.length = 1) {calls : List ControlCall}
    {early late : Nat}
    (hearly : early < calls.length)
    (hbefore : elapsedAt 0 (calls.map ControlCall.period) early <
      pointTime msg 0)
    (hlate : late < calls.length)
    (hafter : pointTime msg 0 ≤
      elapsedAt 0 (calls.map ControlCall.period) late) :
    ¬ EndToEnd msg shm tr calls := by
  intro h
  have hlast : lastPoint msg = 0 := by
    rw [lastPoint, hone]
  have hlength : tr.rows.length = 1 := by
    rw [loaded_length hmsg hload, hone]
  have hfirst : elapsedAt 0 (calls.map ControlCall.period) 0 <
      pointTime msg 0 := by
    cases calls with
    | nil => cases hearly
    | cons call rest =>
        rw [List.map_cons, elapsedAt_zero]
        exact lt_of_le_of_lt (advance_le_elapsedAt 0 _ _ early) hbefore
  -- the earliest callback that is not before the point
  have hexists : exists k, pointTime msg 0 ≤
      elapsedAt 0 (calls.map ControlCall.period) k := ⟨late, hafter⟩
  let k := Nat.find hexists
  have hk : pointTime msg 0 ≤ elapsedAt 0 (calls.map ControlCall.period) k :=
    Nat.find_spec hexists
  have hkle : k ≤ late := Nat.find_min' hexists hafter
  have hreached : Reached msg (calls.map ControlCall.period) k := by
    constructor
    · rw [List.length_map]
      exact Nat.lt_of_le_of_lt hkle hlate
    · intro i hi
      have hi' := Nat.find_min hexists hi
      rw [hlast]
      linarith
  have hkpos : 0 < k := by
    apply Nat.pos_of_ne_zero
    intro hzero
    rw [hzero] at hk
    exact absurd hk (not_le.mpr hfirst)
  have hpast := (h.follows k hreached).past
  rw [hlast] at hpast
  rcases hpast hk with ⟨c, hresult, _⟩
  rcases (runCallbacks_getElem?.mp hresult).right.left 0 hkpos with
    ⟨c', hc', _⟩
  rw [← loaded_firstRow hmsg hload] at hfirst
  rw [command_single_before_start tr hlength hfirst] at hc'
  cases hc'

theorem endToEnd_iff (hmsg : Complete msg)
    (hload : loadTrajectory (onFrankaTrajectory msg shm).traj = some tr)
    (calls : List ControlCall) :
    EndToEnd msg shm tr calls <->
      OneSided msg (calls.map ControlCall.period) := by
  constructor
  · intro h
    by_contra hcond
    unfold OneSided at hcond
    push Not at hcond
    rcases hcond with ⟨hone, ⟨early, hearly, hbefore⟩, ⟨late, hlate, hafter⟩⟩
    rw [List.length_map] at hearly hlate
    have hlength : msg.points.length = 1 :=
      Nat.le_antisymm hone hmsg.nonempty
    exact not_endToEnd_of_late_single hmsg hload hlength hearly hbefore hlate
      hafter h
  · intro hcond
    apply endToEnd_of_follows hmsg hload
    intro k hk
    rcases hcond with htwo | hafter | hbefore
    · exact followsMessage_of_reached hmsg hload (Or.inl htwo) hk
    · exact followsMessage_of_reached hmsg hload (Or.inr hafter) hk
    · rcases Nat.lt_or_ge 1 msg.points.length with htwo | hone
      · exact followsMessage_of_reached hmsg hload (Or.inl htwo) hk
      · exact followsMessage_before_single hmsg hload
          (Nat.le_antisymm hone hmsg.nonempty) (hbefore k hk.left)

end Condition

/-!
## Two messages

Two points under shuffled names with an extra one are executed faithfully.  A
single point at 2 s is not, when the first callback sees 0 s and a later one
2 s.
-/

def shuffledMessage : JointTrajectory where
  jointNames :=
    [ "fr3_joint7", "fr3_finger", "fr3_joint1", "fr3_joint2", "fr3_joint3",
      "fr3_joint4", "fr3_joint5", "fr3_joint6" ]
  points :=
    [ .atSecond [7 / 10, 0, 0, -7 / 10, 0, -23 / 10, 0, 3 / 2] 2,
      .atSecond [7 / 10, 0, 3 / 10, -5 / 10, 0, -2, 0, 3 / 2] 4 ]

def singleMessage : JointTrajectory where
  jointNames := []
  points := [.atSecond [0, -7 / 10, 0, -23 / 10, 0, 3 / 2, 7 / 10] 2]

def zeroShm : Shm := ⟨SHMmsgs.zero, ArmTrajBuf.zero⟩

def callAfter (period : Nat) : ControlCall := ⟨.atRest, period⟩

theorem complete_shuffledMessage : Complete shuffledMessage where
  nonempty := by decide
  bounded := by decide
  names := Or.inr (by decide +kernel)
  values := by decide +kernel

theorem complete_singleMessage : Complete singleMessage where
  nonempty := by decide
  bounded := by decide
  names := Or.inl rfl
  values := by decide +kernel

theorem endToEnd_shuffledMessage :
    exists tr,
      loadTrajectory (onFrankaTrajectory shuffledMessage zeroShm).traj =
          some tr ∧
        EndToEnd shuffledMessage zeroShm tr
          ([0, 1000, 1500, 1500, 50].map callAfter) := by
  have hsome : (loadTrajectory
      (onFrankaTrajectory shuffledMessage zeroShm).traj).isSome = true := by
    decide +kernel
  rcases Option.isSome_iff_exists.mp hsome with ⟨tr, htr⟩
  refine ⟨tr, htr, ?_⟩
  exact (endToEnd_iff complete_shuffledMessage htr _).mpr
    (Or.inl (by decide))

theorem not_all_endToEnd :
    ¬ forall msg shm tr calls, Complete msg ->
        loadTrajectory (onFrankaTrajectory msg shm).traj = some tr ->
        EndToEnd msg shm tr calls := by
  intro hclaim
  have hsome : (loadTrajectory
      (onFrankaTrajectory singleMessage zeroShm).traj).isSome = true := by
    decide +kernel
  rcases Option.isSome_iff_exists.mp hsome with ⟨tr, htr⟩
  have hbefore : elapsedAt 0 [0, 2000] 0 < pointTime singleMessage 0 := by
    decide +kernel
  have hafter : pointTime singleMessage 0 ≤ elapsedAt 0 [0, 2000] 1 := by
    decide +kernel
  apply not_endToEnd_of_late_single complete_singleMessage htr rfl
    (show 0 < ([0, 2000].map callAfter).length by decide) hbefore
    (show 1 < ([0, 2000].map callAfter).length by decide) hafter
  exact hclaim singleMessage zeroShm tr _ complete_singleMessage htr

end Arm
end FrankaKistar
