import FrankaKistar.Orchestrator.Hold
import FrankaKistar.Orchestrator.Resolvers
import Mathlib.Tactic.FieldSimp
import Mathlib.Tactic.Positivity

/-!
# The end pose of a trajectory

`_run_trajectory` does not publish the last waypoint, it interpolates at the
time of the last waypoint.  The search takes the first point that reaches this
time, which need not be the last one: the acceptance of a goal does not look at
its times.  The end pose is commanded exactly when the last waypoint lies where
the segment in front of that point is at the end time.
-/

namespace FrankaKistar
namespace Orchestrator

open Foundation
open Bridge

/-!
## Runs without an abort
-/

/-- The next statement of `_run_trajectory`, and its calls, newest first. -/
structure Sampling where
  loc : SeqLoc
  calls : List IoCall

def Sampling.start : Sampling := ⟨.trajStart, []⟩

def SeqLoc.isTrajDone : SeqLoc -> Bool
  | .trajDone => true
  | _ => false

def samplingStep (p : SequenceParams) (traj : JointTrajectory) :
    Machine Sampling View :=
  fun s view =>
    if s.loc.isTrajDone then none
    else
      (seqStep p traj false view false s.loc).map fun next =>
        ⟨next.1, record next.2 s.calls⟩

def IoCall.target : IoCall -> Option (Joints ExactDouble)
  | .publishFranka q _ => some q
  | .holdFranka q => some q
  | _ => none

def lastTarget (calls : List IoCall) : Option (Joints ExactDouble) :=
  calls.findSome? IoCall.target

def waypoint (pt : JointTrajectoryPoint) : Joints ExactDouble :=
  fun j => positionAt pt j.val

structure CommandsEndPose (p : SequenceParams) (traj : JointTrajectory) :
    Prop where
  returns : forall history s,
    Machine.Run (samplingStep p traj) .start history s ->
      exists s', (samplingStep p traj).Reaches s s' ∧ s'.loc = .trajDone
  ends : forall history s,
    Machine.Run (samplingStep p traj) .start history s -> s.loc = .trajDone ->
      lastTarget s.calls = traj.points.getLast?.map waypoint

/-!
## The condition
-/

/-- The first point whose time is not before `t`, with the point in front of
it. -/
def firstReaching (t : ℚ) :
    Option JointTrajectoryPoint -> List JointTrajectoryPoint ->
      Option (Option JointTrajectoryPoint × JointTrajectoryPoint)
  | _, [] => none
  | previous, pt :: rest =>
      if t ≤ pointTime pt then some (previous, pt)
      else firstReaching t (some pt) rest

/-- `z` divides the segment from `x` to `y` like `part` divides `whole`.  From a
special value there is no segment. -/
def OnSegment (part whole : ℚ) : ExactDouble -> ExactDouble -> ExactDouble ->
    Prop
  | .finite x, .finite y, .finite z => (z - x) * whole = (y - x) * part
  | .finite _, .finite _, _ => False
  | .finite _, y, z => z = y
  | _, _, z => z = .nan

/-- The last waypoint lies where the first point that reaches the end time, and
the point in front of it, are at that time. -/
def EndReached (traj : JointTrajectory) : Prop :=
  let t := trajDuration traj
  match firstReaching t none traj.points, traj.points.getLast? with
  | some (none, b), some last => waypoint b = waypoint last
  | some (some a, b), some last =>
      forall j, OnSegment (t - pointTime a) (pointTime b - pointTime a)
        (waypoint a j) (waypoint b j) (waypoint last j)
  | _, _ => False

structure FullPoints (traj : JointTrajectory) : Prop where
  nonempty : traj.points ≠ []
  length : forall pt, pt ∈ traj.points -> armDOF ≤ pt.positions.length

/-!
## Interpolation at the end time
-/

theorem add_scale_eq_iff {part whole : ℚ} (hpart : 0 < part)
    (hwhole : 0 < whole) (x y z : ExactDouble) :
    x.add ((y.sub x).scale (part / whole)) = z ↔
      OnSegment part whole x y z := by
  have hdiv : 0 < part / whole := div_pos hpart hwhole
  cases x with
  | finite x =>
      cases y with
      | finite y =>
          rw [ExactDouble.sub_finite]
          cases z with
          | finite z =>
              simp only [ExactDouble.scale, ExactDouble.add, OnSegment,
                ExactDouble.finite.injEq]
              constructor
              · intro h
                rw [← h]
                field_simp
                ring
              · intro h
                field_simp
                linarith
          | _ => simp [ExactDouble.scale, ExactDouble.add, OnSegment]
      | _ =>
          simp [ExactDouble.sub, ExactDouble.neg, ExactDouble.scale,
            ExactDouble.add, OnSegment, hdiv, eq_comm]
  | posInf =>
      cases y <;>
        simp [ExactDouble.sub, ExactDouble.neg, ExactDouble.scale,
          ExactDouble.add, OnSegment, hdiv, eq_comm]
  | negInf =>
      cases y <;>
        simp [ExactDouble.sub, ExactDouble.neg, ExactDouble.scale,
          ExactDouble.add, OnSegment, hdiv, eq_comm]
  | nan =>
      cases y <;> simp [ExactDouble.add, OnSegment, eq_comm]

theorem armPositions_eq_ok {pt : JointTrajectoryPoint}
    (h : armDOF ≤ pt.positions.length) :
    armPositions pt.positions = .ok (waypoint pt) := by
  rw [armPositions, if_neg (Nat.not_lt.mpr h)]
  rfl

theorem interpBetween_eq_ok {a b : JointTrajectoryPoint} {t : ℚ}
    (ha : armDOF ≤ a.positions.length) (hb : armDOF ≤ b.positions.length)
    (htime : pointTime a < pointTime b) :
    interpBetween a b t = .ok fun j =>
      (waypoint a j).add (((waypoint b j).sub (waypoint a j)).scale
        ((t - pointTime a) / (pointTime b - pointTime a))) := by
  unfold interpBetween
  simp only
  rw [if_neg (by rw [not_or]; exact ⟨Nat.not_lt.mpr ha, Nat.not_lt.mpr hb⟩),
    if_neg (not_le.mpr htime)]
  rfl

theorem exists_interpBetween {a b : JointTrajectoryPoint} (t : ℚ)
    (ha : armDOF ≤ a.positions.length) (hb : armDOF ≤ b.positions.length) :
    exists q, interpBetween a b t = .ok q := by
  unfold interpBetween
  simp only
  rw [if_neg (by rw [not_or]; exact ⟨Nat.not_lt.mpr ha, Nat.not_lt.mpr hb⟩)]
  exact ⟨_, rfl⟩

theorem exists_interpFrom (t : ℚ) {a : JointTrajectoryPoint}
    {rest : List JointTrajectoryPoint}
    (h : forall pt, pt ∈ a :: rest -> armDOF ≤ pt.positions.length) :
    exists q, interpFrom t (a :: rest) = .ok q := by
  induction rest generalizing a with
  | nil => exact ⟨_, armPositions_eq_ok (h a List.mem_cons_self)⟩
  | cons b rest ih =>
      rw [interpFrom]
      split
      · exact exists_interpBetween t (h a List.mem_cons_self)
          (h b (List.mem_cons_of_mem _ List.mem_cons_self))
      · exact ih fun pt hpt => h pt (List.mem_cons_of_mem _ hpt)

theorem exists_interpTraj {traj : JointTrajectory} (h : FullPoints traj)
    (t : ℚ) : exists q, interpTraj traj t = .ok q := by
  unfold interpTraj
  split
  · rename_i hnil
    exact absurd hnil h.nonempty
  · rename_i pt rest hpoints
    have hlong := h.length
    rw [hpoints] at hlong
    split
    · exact ⟨_, armPositions_eq_ok (hlong pt List.mem_cons_self)⟩
    · exact exists_interpFrom t hlong

theorem interpFrom_firstReaching {t : ℚ} {a : JointTrajectoryPoint}
    {rest : List JointTrajectoryPoint} (ha : pointTime a < t)
    (hreach : exists pt, pt ∈ rest ∧ t ≤ pointTime pt) :
    exists x y, firstReaching t (some a) rest = some (some x, y) ∧
      x ∈ a :: rest ∧ y ∈ a :: rest ∧ pointTime x < t ∧ t ≤ pointTime y ∧
        interpFrom t (a :: rest) = interpBetween x y t := by
  induction rest generalizing a with
  | nil =>
      rcases hreach with ⟨_, hmem, _⟩
      cases hmem
  | cons b rest ih =>
      by_cases hb : t ≤ pointTime b
      · refine ⟨a, b, ?_, List.mem_cons_self,
          List.mem_cons_of_mem _ List.mem_cons_self, ha, hb, ?_⟩
        · rw [firstReaching, if_pos hb]
        · rw [interpFrom, if_pos ⟨le_of_lt ha, hb⟩]
      · have hlater : exists pt, pt ∈ rest ∧ t ≤ pointTime pt := by
          rcases hreach with ⟨pt, hmem, hpt⟩
          rcases List.mem_cons.mp hmem with heq | hrest
          · rw [heq] at hpt
            exact absurd hpt hb
          · exact ⟨pt, hrest, hpt⟩
        rcases ih (not_le.mp hb) hlater with
          ⟨x, y, hfirst, hx, hy, hxt, hyt, hinterp⟩
        refine ⟨x, y, ?_, List.mem_cons_of_mem _ hx,
          List.mem_cons_of_mem _ hy, hxt, hyt, ?_⟩
        · rw [firstReaching, if_neg hb]
          exact hfirst
        · rw [interpFrom, if_neg fun hand => hb hand.2]
          exact hinterp

theorem interpTraj_duration_iff {traj : JointTrajectory}
    (h : FullPoints traj) {q : Joints ExactDouble}
    (hq : interpTraj traj (trajDuration traj) = .ok q) :
    some q = traj.points.getLast?.map waypoint ↔ EndReached traj := by
  unfold EndReached
  have hlong := h.length
  cases hpoints : traj.points with
  | nil => exact absurd hpoints h.nonempty
  | cons a rest =>
      rw [hpoints] at hlong
      unfold interpTraj at hq
      rw [hpoints] at hq
      have hlast : exists last, (a :: rest).getLast? = some last ∧
          trajDuration traj = pointTime last := by
        refine ⟨(a :: rest).getLast (List.cons_ne_nil a rest),
          List.getLast?_eq_some_getLast _, ?_⟩
        rw [trajDuration, hpoints, List.getLast?_eq_some_getLast]
      rcases hlast with ⟨last, hlast, htime⟩
      rw [hlast]
      simp only [Option.map_some, Option.some.injEq]
      by_cases hfirst : trajDuration traj ≤ pointTime a
      · simp only [firstReaching, if_pos hfirst] at hq ⊢
        rw [armPositions_eq_ok (hlong a List.mem_cons_self)] at hq
        cases hq
        exact Iff.rfl
      · simp only [if_neg hfirst] at hq
        have hreach : exists pt, pt ∈ rest ∧
            trajDuration traj ≤ pointTime pt := by
          rcases List.mem_cons.mp (List.mem_of_getLast? hlast) with
            heq | hrest
          · rw [htime, heq] at hfirst
            exact absurd (le_refl _) hfirst
          · exact ⟨last, hrest, le_of_eq htime⟩
        rcases interpFrom_firstReaching (not_le.mp hfirst) hreach with
          ⟨x, y, hfound, hx, hy, hxt, hyt, hinterp⟩
        rw [hinterp, interpBetween_eq_ok (hlong x hx) (hlong y hy)
          (lt_of_lt_of_le hxt hyt)] at hq
        cases hq
        rw [firstReaching, if_neg hfirst, hfound]
        simp only
        rw [funext_iff]
        refine forall_congr' fun j => ?_
        exact add_scale_eq_iff (sub_pos.mpr hxt)
          (sub_pos.mpr (lt_of_lt_of_le hxt hyt)) _ _ _

/-!
## What a run publishes
-/

/-- The statements of `_run_trajectory` while the event is clear. -/
def SeqLoc.isSampling : SeqLoc -> Bool
  | .trajStart => true
  | .trajCheck _ _ => true
  | .trajPublish _ _ => true
  | .trajSleep _ _ => true
  | .trajLast => true
  | .trajDone => true
  | .raised => true
  | _ => false

def SeqLoc.afterLoop : SeqLoc -> Bool
  | .trajLast => true
  | .trajDone => true
  | _ => false

structure SamplingInv (p : SequenceParams) (traj : JointTrajectory)
    (s : Sampling) : Prop where
  inside : s.loc.isSampling = true
  slept : s.loc.afterLoop = true -> canSleep (period p.trajHz) = true
  unraised : FullPoints traj -> canSleep (period p.trajHz) = true ->
    s.loc ≠ .raised
  ended : s.loc = .trajDone -> exists q,
    interpTraj traj (trajDuration traj) = .ok q ∧ lastTarget s.calls = some q

theorem exists_trajSteps {hz : ExactDouble} (duration : ℚ)
    (h : canSleep (period hz) = true) :
    exists n, trajSteps duration hz = some n := by
  cases hz with
  | finite hz => exact ⟨_, rfl⟩
  | _ => cases h

theorem not_fullPoints_of_error {traj : JointTrajectory} {t : ℚ}
    {e : InterpError} (h : interpTraj traj t = .error e) :
    ¬ FullPoints traj := by
  intro hfull
  rcases exists_interpTraj hfull t with ⟨q, hq⟩
  rw [h] at hq
  cases hq

theorem samplingInv_start (p : SequenceParams) (traj : JointTrajectory) :
    SamplingInv p traj .start :=
  ⟨rfl, nofun, nofun, nofun⟩

theorem samplingInv_step {p : SequenceParams} {traj : JointTrajectory}
    {s s' : Sampling} {view : View} (hs : SamplingInv p traj s)
    (hstep : samplingStep p traj s view = some s') :
    SamplingInv p traj s' := by
  unfold samplingStep at hstep
  split at hstep
  · cases hstep
  · rename_i hdone
    rcases Option.map_eq_some_iff.mp hstep with ⟨next, hseq, heq⟩
    rw [← heq]
    have hinside := hs.inside
    cases hloc : s.loc with
    | trajStart =>
        rw [hloc] at hseq
        cases hseq
        cases hsteps : trajSteps (trajDuration traj) p.trajHz with
        | none =>
            refine ⟨rfl, nofun, ?_, nofun⟩
            intro _ hsleep
            rcases exists_trajSteps (trajDuration traj) hsleep with ⟨n, hn⟩
            rw [hsteps] at hn
            cases hn
        | some n => exact ⟨rfl, nofun, nofun, nofun⟩
    | trajCheck n i =>
        rw [hloc] at hseq
        cases hseq
        exact ⟨rfl, nofun, nofun, nofun⟩
    | trajPublish n i =>
        rw [hloc] at hseq
        have hsample := Option.some.inj hseq
        unfold publishSample at hsample
        split at hsample
        · rename_i e herror
          cases hsample
          refine ⟨rfl, nofun, ?_, nofun⟩
          intro hfull
          exact absurd hfull (not_fullPoints_of_error herror)
        · cases hsample
          exact ⟨rfl, nofun, nofun, nofun⟩
    | trajSleep n i =>
        rw [hloc] at hseq
        cases hseq
        cases hsleep : canSleep (period p.trajHz) with
        | false =>
            refine ⟨rfl, nofun, ?_, nofun⟩
            intro _ hcan
            rw [hsleep] at hcan
            cases hcan
        | true =>
            by_cases hi : i < n
            · simp only [Bool.true_eq_false, if_false, if_pos hi]
              exact ⟨rfl, nofun, nofun, nofun⟩
            · simp only [Bool.true_eq_false, if_false, if_neg hi]
              exact ⟨rfl, fun _ => hsleep, nofun, nofun⟩
    | trajLast =>
        rw [hloc] at hseq
        have hsample := Option.some.inj hseq
        unfold publishSample at hsample
        split at hsample
        · rename_i e herror
          cases hsample
          refine ⟨rfl, nofun, ?_, nofun⟩
          intro hfull
          exact absurd hfull (not_fullPoints_of_error herror)
        · rename_i q hq
          cases hsample
          refine ⟨rfl, ?_, nofun, fun _ => ⟨q, hq, rfl⟩⟩
          intro _
          apply hs.slept
          rw [hloc]
          rfl
    | trajDone =>
        rw [hloc] at hdone
        exact absurd rfl hdone
    | raised =>
        rw [hloc] at hseq
        cases hseq
    | _ =>
        rw [hloc] at hinside
        cases hinside

theorem samplingInv_of_run {p : SequenceParams} {traj : JointTrajectory}
    {history : List View} {s : Sampling}
    (hrun : Machine.Run (samplingStep p traj) .start history s) :
    SamplingInv p traj s :=
  Machine.invariant_of_step (fun _ _ _ hs _ => samplingInv_step hs)
    (samplingInv_start p traj) hrun

/-!
## Runs return
-/

def CanReturn (p : SequenceParams) (traj : JointTrajectory) (s : Sampling) :
    Prop :=
  exists s', (samplingStep p traj).Reaches s s' ∧ s'.loc = .trajDone

theorem canReturn_of_step {p : SequenceParams} {traj : JointTrajectory}
    {s s' : Sampling} (hstep : samplingStep p traj s .start = some s')
    (h : CanReturn p traj s') : CanReturn p traj s := by
  rcases h with ⟨final, hreach, hdone⟩
  exact ⟨final, Machine.reaches_step hstep hreach, hdone⟩

section Returns

variable {p : SequenceParams} {traj : JointTrajectory}

theorem publishSample_of_full (hfull : FullPoints traj) (t : ℚ)
    (loc : SeqLoc) :
    exists q, publishSample p traj t loc =
      (loc, some (.publishFranka q p.maxVel)) := by
  rcases exists_interpTraj hfull t with ⟨q, hq⟩
  refine ⟨q, ?_⟩
  unfold publishSample
  rw [hq]

theorem canReturn_last (hfull : FullPoints traj) (calls : List IoCall) :
    CanReturn p traj ⟨.trajLast, calls⟩ := by
  rcases publishSample_of_full (p := p) hfull (trajDuration traj) .trajDone
    with ⟨q, hq⟩
  have hstep : samplingStep p traj ⟨.trajLast, calls⟩ .start =
      some ⟨.trajDone, .publishFranka q p.maxVel :: calls⟩ := by
    simp [samplingStep, SeqLoc.isTrajDone, seqStep, hq, record]
  exact canReturn_of_step hstep ⟨_, Machine.reaches_refl _ _, rfl⟩

theorem canReturn_lastSleep (hfull : FullPoints traj)
    (hsleep : canSleep (period p.trajHz) = true) {n i : Nat} (hi : ¬ i < n)
    (calls : List IoCall) : CanReturn p traj ⟨.trajSleep n i, calls⟩ := by
  have hstep : samplingStep p traj ⟨.trajSleep n i, calls⟩ .start =
      some ⟨.trajLast, calls⟩ := by
    simp [samplingStep, SeqLoc.isTrajDone, seqStep, hsleep, hi, record]
  exact canReturn_of_step hstep (canReturn_last hfull calls)

theorem canReturn_publish (hfull : FullPoints traj) {n i : Nat}
    (hnext : forall calls, CanReturn p traj ⟨.trajSleep n i, calls⟩)
    (calls : List IoCall) : CanReturn p traj ⟨.trajPublish n i, calls⟩ := by
  rcases publishSample_of_full (p := p) hfull (trajDuration traj * (i / n))
    (.trajSleep n i) with ⟨q, hq⟩
  have hstep : samplingStep p traj ⟨.trajPublish n i, calls⟩ .start =
      some ⟨.trajSleep n i, .publishFranka q p.maxVel :: calls⟩ := by
    simp [samplingStep, SeqLoc.isTrajDone, seqStep, hq, record]
  exact canReturn_of_step hstep (hnext _)

theorem canReturn_check {n i : Nat} {calls : List IoCall}
    (hnext : CanReturn p traj ⟨.trajPublish n i, calls⟩) :
    CanReturn p traj ⟨.trajCheck n i, calls⟩ := by
  have hstep : samplingStep p traj ⟨.trajCheck n i, calls⟩ .start =
      some ⟨.trajPublish n i, calls⟩ := by
    simp [samplingStep, SeqLoc.isTrajDone, seqStep, record]
  exact canReturn_of_step hstep hnext

/-- The loop makes its remaining samples, by induction on their number. -/
theorem canReturn_sleep (hfull : FullPoints traj)
    (hsleep : canSleep (period p.trajHz) = true) {k n i : Nat}
    (hk : n ≤ i + k) (calls : List IoCall) :
    CanReturn p traj ⟨.trajSleep n i, calls⟩ := by
  induction k generalizing i calls with
  | zero => exact canReturn_lastSleep hfull hsleep (Nat.not_lt.mpr hk) calls
  | succ k ih =>
      by_cases hi : i < n
      · have hrest : n ≤ i + 1 + k := by omega
        have hstep : samplingStep p traj ⟨.trajSleep n i, calls⟩ .start =
            some ⟨.trajCheck n (i + 1), calls⟩ := by
          simp [samplingStep, SeqLoc.isTrajDone, seqStep, hsleep, hi, record]
        exact canReturn_of_step hstep
          (canReturn_check (canReturn_publish hfull (ih hrest) calls))
      · exact canReturn_lastSleep hfull hsleep hi calls

/-- A run that can sleep between its samples returns, wherever it stands. -/
theorem canReturn_of_inv (hfull : FullPoints traj)
    (hsleep : canSleep (period p.trajHz) = true) {s : Sampling}
    (hs : SamplingInv p traj s) : CanReturn p traj s := by
  have hslept : forall (n i : Nat) (calls : List IoCall),
      CanReturn p traj ⟨.trajSleep n i, calls⟩ := by
    intro n i calls
    exact canReturn_sleep hfull hsleep (Nat.le_add_left n i) calls
  have hchecked : forall (n i : Nat) (calls : List IoCall),
      CanReturn p traj ⟨.trajCheck n i, calls⟩ := by
    intro n i calls
    exact canReturn_check (canReturn_publish hfull (hslept n i) calls)
  have hinside := hs.inside
  have hraised := hs.unraised hfull hsleep
  rcases s with ⟨loc, calls⟩
  cases loc with
  | trajStart =>
      rcases exists_trajSteps (trajDuration traj) hsleep with ⟨n, hn⟩
      have hstep : samplingStep p traj ⟨.trajStart, calls⟩ .start =
          some ⟨.trajCheck n 0, calls⟩ := by
        simp [samplingStep, SeqLoc.isTrajDone, seqStep, hn, record]
      exact canReturn_of_step hstep (hchecked n 0 calls)
  | trajCheck n i => exact hchecked n i calls
  | trajPublish n i => exact canReturn_publish hfull (hslept n i) calls
  | trajSleep n i => exact hslept n i calls
  | trajLast => exact canReturn_last hfull calls
  | trajDone => exact ⟨_, Machine.reaches_refl _ _, rfl⟩
  | raised => exact absurd rfl hraised
  | _ => cases hinside

end Returns

/-!
## Accepted goals
-/

theorem length_normalizePoint {idxMap : List Nat} (pt : JointTrajectoryPoint) :
    (normalizePoint idxMap pt).positions.length = idxMap.length := by
  simp [normalizePoint, pick]

theorem points_of_validate {msg : JointTrajectory} {expected : List String}
    (h : validateFollowJointGoal msg expected = .ok ()) :
    msg.points ≠ [] := by
  intro hnil
  rw [validateFollowJointGoal, if_pos hnil] at h
  cases h

theorem fullPoints_of_normalize {msg norm : JointTrajectory}
    {expected : List String}
    (hexpected : expected = [] ∨ expected.length = armDOF)
    (hpoints : msg.points ≠ [])
    (h : normalizeTrajectoryForArm msg expected = .ok norm) :
    FullPoints norm := by
  have hcases := normalize_eq_ok h hpoints
  rcases hcases.right with ⟨_, hkept⟩ | ⟨hnamed, _, _, _, hrows⟩
  · rw [hkept]
    exact ⟨hpoints, hcases.left⟩
  · have hseven := hexpected.resolve_left hnamed
    constructor
    · rw [hrows]
      intro hnil
      exact hpoints (List.map_eq_nil_iff.mp hnil)
    · intro pt hpt
      rw [hrows] at hpt
      rcases List.mem_map.mp hpt with ⟨old, _, heq⟩
      rw [← heq, length_normalizePoint, List.length_map, hseven]

theorem commandsEndPose_iff_of_full {p : SequenceParams}
    {traj : JointTrajectory} (hfull : FullPoints traj) :
    CommandsEndPose p traj ↔
      canSleep (period p.trajHz) = true ∧ EndReached traj := by
  constructor
  · intro h
    rcases h.returns [] .start Machine.RunWhere.nil with
      ⟨s, ⟨history, hrun⟩, hdone⟩
    have hinv := samplingInv_of_run hrun
    rcases hinv.ended hdone with ⟨q, hq, hlast⟩
    refine ⟨hinv.slept (by rw [hdone]; rfl), ?_⟩
    rw [← interpTraj_duration_iff hfull hq, ← hlast]
    exact h.ends history s hrun hdone
  · intro h
    constructor
    · intro history s hrun
      exact canReturn_of_inv hfull h.1 (samplingInv_of_run hrun)
    · intro history s hrun hdone
      rcases (samplingInv_of_run hrun).ended hdone with ⟨q, hq, hlast⟩
      rw [hlast]
      exact (interpTraj_duration_iff hfull hq).mpr h.2

/-- For every accepted goal: the run returns with the last waypoint as its last
target exactly when the time between two samples can be slept and the last
waypoint is where the search looks it up. -/
theorem commandsEndPose_iff {p : SequenceParams} {msg norm : JointTrajectory}
    {expected : List String}
    (hexpected : expected = [] ∨ expected.length = armDOF)
    (hvalid : validateFollowJointGoal msg expected = .ok ())
    (hnorm : normalizeTrajectoryForArm msg expected = .ok norm) :
    CommandsEndPose p norm ↔
      canSleep (period p.trajHz) = true ∧ EndReached norm :=
  commandsEndPose_iff_of_full
    (fullPoints_of_normalize hexpected (points_of_validate hvalid) hnorm)

/-!
## Goals whose times increase

A goal whose last point is the latest meets the condition.
-/

theorem firstReaching_concat {t : ℚ} {last : JointTrajectoryPoint}
    {front : List JointTrajectoryPoint}
    (hfront : forall pt, pt ∈ front -> pointTime pt < t)
    (hlast : t ≤ pointTime last) (previous : Option JointTrajectoryPoint) :
    exists x, firstReaching t previous (front ++ [last]) = some (x, last) ∧
      (x = previous ∨ exists pt, pt ∈ front ∧ x = some pt) := by
  induction front generalizing previous with
  | nil =>
      refine ⟨previous, ?_, Or.inl rfl⟩
      rw [List.nil_append, firstReaching, if_pos hlast]
  | cons a rest ih =>
      rw [List.cons_append, firstReaching,
        if_neg (not_le.mpr (hfront a List.mem_cons_self))]
      rcases ih (fun pt hpt => hfront pt (List.mem_cons_of_mem _ hpt))
        (some a) with ⟨x, hfound, hx⟩
      refine ⟨x, hfound, Or.inr ?_⟩
      rcases hx with heq | ⟨pt, hmem, heq⟩
      · exact ⟨a, List.mem_cons_self, heq⟩
      · exact ⟨pt, List.mem_cons_of_mem _ hmem, heq⟩

theorem endReached_of_latest {traj : JointTrajectory}
    {front : List JointTrajectoryPoint} {last : JointTrajectoryPoint}
    (hpoints : traj.points = front ++ [last])
    (hfront : forall pt, pt ∈ front -> pointTime pt < pointTime last)
    (hfinite : forall pt, pt ∈ traj.points -> forall j,
      (waypoint pt j).isFinite = true) : EndReached traj := by
  have htime : trajDuration traj = pointTime last := by
    rw [trajDuration, hpoints, List.getLast?_concat]
  have hvalue : forall pt, pt ∈ traj.points -> forall j,
      exists x, waypoint pt j = .finite x := by
    intro pt hpt j
    have hj := hfinite pt hpt j
    cases hx : waypoint pt j with
    | finite x => exact ⟨x, rfl⟩
    | _ =>
        rw [hx] at hj
        cases hj
  rcases firstReaching_concat hfront (le_refl _) none with ⟨x, hfound, hx⟩
  unfold EndReached
  simp only
  rw [htime, hpoints, hfound, List.getLast?_concat]
  rcases hx with heq | ⟨pt, hmem, heq⟩
  · rw [heq]
  · rw [heq]
    intro j
    have hpt : pt ∈ traj.points := by
      rw [hpoints]
      exact List.mem_append_left _ hmem
    have hlast : last ∈ traj.points := by
      rw [hpoints]
      exact List.mem_append_right _ List.mem_cons_self
    rcases hvalue pt hpt j with ⟨a, ha⟩
    rcases hvalue last hlast j with ⟨b, hb⟩
    rw [ha, hb]
    rfl

def readyPoint (sec : Int32) : JointTrajectoryPoint :=
  .atSecond [0, -7 / 10, 0, -23 / 10, 0, 3 / 2, 7 / 10] sec

def turnedPoint (sec : Int32) : JointTrajectoryPoint :=
  .atSecond [1 / 10, -7 / 10, 0, -23 / 10, 0, 3 / 2, 7 / 10] sec

def movingGoal : JointTrajectory where
  jointNames := []
  points := [readyPoint 1, turnedPoint 2]

def untimedGoal : JointTrajectory where
  jointNames := []
  points := [readyPoint 0, turnedPoint 0]

theorem endReached_movingGoal : EndReached movingGoal := by
  have hpoints : movingGoal.points = [readyPoint 1] ++ [turnedPoint 2] := rfl
  refine endReached_of_latest hpoints ?_ ?_
  · decide +kernel
  · decide +kernel

theorem not_endReached_untimedGoal : ¬ EndReached untimedGoal := by
  have hfound : firstReaching (trajDuration untimedGoal) none
      untimedGoal.points = some (none, readyPoint 0) := by
    rw [show untimedGoal.points = [readyPoint 0, turnedPoint 0] from rfl,
      firstReaching, if_pos (by decide +kernel)]
  have hlast : untimedGoal.points.getLast? = some (turnedPoint 0) := rfl
  unfold EndReached
  simp only [hfound, hlast]
  intro hpose
  have hjoint := congrFun hpose 0
  revert hjoint
  decide +kernel

theorem commandsEndPose_movingGoal :
    CommandsEndPose .default movingGoal := by
  have hvalid : validateFollowJointGoal movingGoal defaultJointNamesFr3 =
      .ok () := rfl
  have hnorm : normalizeTrajectoryForArm movingGoal defaultJointNamesFr3 =
      .ok movingGoal := rfl
  exact (commandsEndPose_iff (Or.inr rfl) hvalid hnorm).mpr
    ⟨by decide +kernel, endReached_movingGoal⟩

theorem not_all_commandsEndPose :
    ¬ forall (p : SequenceParams) (expected : List String)
        (msg norm : JointTrajectory),
        (expected = [] ∨ expected.length = armDOF) ->
        (ExactDouble.finite 0).lt p.trajHz = true ->
        validateFollowJointGoal msg expected = .ok () ->
        normalizeTrajectoryForArm msg expected = .ok norm ->
        CommandsEndPose p norm := by
  intro hclaim
  have hends := hclaim .default defaultJointNamesFr3 untimedGoal untimedGoal
    (Or.inr rfl) (by decide +kernel) rfl rfl
  have hfull : FullPoints untimedGoal := ⟨by decide, by decide⟩
  exact not_endReached_untimedGoal
    ((commandsEndPose_iff_of_full hfull).mp hends).2

end Orchestrator
end FrankaKistar
