import FrankaKistar.Arm.Callback
import Mathlib.Tactic.NormNum

/-!
# What one callback commands

The segment search and the command are evaluated on an accepted trajectory.  The
elapsed time falls into one of four cases: past the end, inside a segment,
before the first waypoint with at least two waypoints, and before the only
waypoint.
-/

namespace FrankaKistar
namespace Arm

open Foundation

namespace Trajectory

def firstRow (tr : Trajectory) : Waypoint := getElem tr.rows 0 tr.nonempty

def lastRow (tr : Trajectory) : Waypoint :=
  getElem tr.rows (tr.rows.length - 1) (Nat.sub_lt tr.nonempty Nat.one_pos)

/-- `total_dur` -/
def totalDur (tr : Trajectory) : ℚ := tr.lastRow.t

theorem time_lt (tr : Trajectory) {i k : Nat} (hik : i < k)
    (hk : k < tr.rows.length) :
    tr.rows[i].t < tr.rows[k].t :=
  List.pairwise_iff_getElem.mp tr.valid.right i k (Nat.lt_trans hik hk) hk hik

theorem time_le (tr : Trajectory) {i k : Nat} (hik : i ≤ k)
    (hk : k < tr.rows.length) :
    (getElem tr.rows i (Nat.lt_of_le_of_lt hik hk)).t ≤ tr.rows[k].t := by
  rcases Nat.lt_or_eq_of_le hik with hlt | heq
  · exact le_of_lt (tr.time_lt hlt hk)
  · subst heq
    exact le_refl _

theorem first_le_totalDur (tr : Trajectory) :
    tr.firstRow.t ≤ tr.totalDur :=
  tr.time_le (Nat.zero_le _) (Nat.sub_lt tr.nonempty Nat.one_pos)

theorem lastRow_mem (tr : Trajectory) : tr.lastRow ∈ tr.rows :=
  List.getElem_mem _

end Trajectory

/-!
## The segment search
-/

theorem findSegment_found (tr : Trajectory) {elapsed : ℚ}
    (hend : elapsed < tr.totalDur) {remaining i : Nat}
    (hlen : i + remaining + 1 = tr.rows.length)
    (hi : (getElem tr.rows i (by omega)).t ≤ elapsed) :
    exists m, exists hm : m + 1 < tr.rows.length,
      findSegment tr.rows elapsed remaining i = .ok m ∧
        tr.rows[m].t ≤ elapsed ∧ elapsed < tr.rows[m + 1].t := by
  induction remaining generalizing i with
  | zero =>
      have hlast : tr.lastRow = tr.rows[i] := by
        simp only [Trajectory.lastRow]
        congr 1
        omega
      rw [Trajectory.totalDur, hlast] at hend
      exact absurd hi (not_le.mpr hend)
  | succ remaining ih =>
      have hi0 : i < tr.rows.length := by omega
      have hi1 : i + 1 < tr.rows.length := by omega
      by_cases hnext : elapsed < tr.rows[i + 1].t
      · refine ⟨i, hi1, ?_, hi, hnext⟩
        simp [findSegment, timeAt_ok hi0, timeAt_ok hi1, bind, Except.bind,
          pure, Except.pure, hi, hnext]
      · rcases ih (by omega) (not_lt.mp hnext) with ⟨m, hm, hfind, hbounds⟩
        refine ⟨m, hm, ?_, hbounds⟩
        simpa [findSegment, timeAt_ok hi0, timeAt_ok hi1, bind, Except.bind,
          pure, Except.pure, hi, hnext] using hfind

theorem findSegment_before (tr : Trajectory) {elapsed : ℚ}
    {remaining i : Nat} (hlen : i + remaining + 1 = tr.rows.length)
    (hi : elapsed < (getElem tr.rows i (by omega)).t) :
    findSegment tr.rows elapsed remaining i = .ok 0 := by
  induction remaining generalizing i with
  | zero => rfl
  | succ remaining ih =>
      have hi0 : i < tr.rows.length := by omega
      have hi1 : i + 1 < tr.rows.length := by omega
      have hstep : elapsed < tr.rows[i + 1].t :=
        lt_trans hi (tr.time_lt (Nat.lt_succ_self i) hi1)
      have hrest := ih (by omega) hstep
      simpa [findSegment, timeAt_ok hi0, bind, Except.bind, pure, Except.pure,
        not_le.mpr hi] using hrest

/-!
## The command
-/

theorem minSegment_pos : 0 < minSegment := by
  norm_num [minSegment]

/-- `alpha` of the source on the segment from `a` to `b`. -/
def segmentAlpha (a b : Waypoint) (elapsed : ℚ) : ℚ :=
  if minSegment < b.t - a.t then (elapsed - a.t) / (b.t - a.t) else 0

theorem interpolate_of_findSegment {rows : List Waypoint} {elapsed : ℚ}
    {m : Nat} (hm : m + 1 < rows.length)
    (hfind : findSegment rows elapsed (rows.length - 1) 0 = .ok m) :
    interpolate rows elapsed =
      .ok (lerp7 rows[m].q rows[m + 1].q
        (segmentAlpha rows[m] rows[m + 1] elapsed)) := by
  have hm0 : m < rows.length := by omega
  simp [interpolate, hfind, timeAt_ok hm, timeAt_ok hm0, waypointAt_ok hm,
    waypointAt_ok hm0, bind, Except.bind, pure, Except.pure, segmentAlpha]

theorem command_of_interpolate (tr : Trajectory) {elapsed : ℚ}
    (hend : elapsed < tr.totalDur) :
    command tr.rows elapsed =
      (interpolate tr.rows elapsed).map Command.jointPositions := by
  have hlast : timeAt tr.rows (tr.rows.length - 1) = .ok tr.totalDur :=
    timeAt_ok (Nat.sub_lt tr.nonempty Nat.one_pos)
  have hfinish : ¬ tr.totalDur + 1 / 20 ≤ elapsed := by linarith
  simp only [command, hlast, bind, Except.bind, pure, Except.pure,
    if_neg (not_le.mpr hend), if_neg hfinish]
  cases interpolate tr.rows elapsed <;> rfl

theorem command_past_end (tr : Trajectory) {elapsed : ℚ}
    (hend : tr.totalDur ≤ elapsed) :
    command tr.rows elapsed =
      .ok (if tr.totalDur + 1 / 20 ≤ elapsed then
        .motionFinished tr.lastRow.q
      else .jointPositions tr.lastRow.q) := by
  have hlt : tr.rows.length - 1 < tr.rows.length :=
    Nat.sub_lt tr.nonempty Nat.one_pos
  have hlast : timeAt tr.rows (tr.rows.length - 1) = .ok tr.totalDur :=
    timeAt_ok hlt
  have hpoint : waypointAt tr.rows (tr.rows.length - 1) = .ok tr.lastRow.q :=
    waypointAt_ok hlt
  simp only [command, hlast, hpoint, bind, Except.bind, pure, Except.pure, hend,
    if_true]
  split <;> rfl

theorem command_in_segment (tr : Trajectory) {elapsed : ℚ}
    (hstart : tr.firstRow.t ≤ elapsed) (hend : elapsed < tr.totalDur) :
    exists m, exists hm : m + 1 < tr.rows.length,
      tr.rows[m].t ≤ elapsed ∧ elapsed < tr.rows[m + 1].t ∧
        command tr.rows elapsed =
          .ok (.jointPositions (lerp7 tr.rows[m].q tr.rows[m + 1].q
            (segmentAlpha tr.rows[m] tr.rows[m + 1] elapsed))) := by
  have hlen : 0 + (tr.rows.length - 1) + 1 = tr.rows.length := by
    have := tr.nonempty
    omega
  rcases findSegment_found tr hend hlen hstart with
    ⟨m, hm, hfind, hlow, hhigh⟩
  refine ⟨m, hm, hlow, hhigh, ?_⟩
  rw [command_of_interpolate tr hend, interpolate_of_findSegment hm hfind]
  rfl

/-- Before the first waypoint the default segment 0 is used, so the command
extends the first segment backwards. -/
theorem command_before_start (tr : Trajectory) {elapsed : ℚ}
    (htwo : 1 < tr.rows.length) (hstart : elapsed < tr.firstRow.t) :
    command tr.rows elapsed =
      .ok (.jointPositions (lerp7 tr.firstRow.q tr.rows[1].q
        (segmentAlpha tr.firstRow tr.rows[1] elapsed))) := by
  have hend : elapsed < tr.totalDur :=
    lt_of_lt_of_le hstart tr.first_le_totalDur
  have hfind : findSegment tr.rows elapsed (tr.rows.length - 1) 0 = .ok 0 :=
    findSegment_before tr (by omega) hstart
  rw [command_of_interpolate tr hend, interpolate_of_findSegment htwo hfind]
  rfl

/-- Before the only waypoint the callback reads index 1 of one element. -/
theorem command_single_before_start (tr : Trajectory) {elapsed : ℚ}
    (hone : tr.rows.length = 1) (hstart : elapsed < tr.firstRow.t) :
    command tr.rows elapsed = .error ⟨1, 1⟩ := by
  have hend : elapsed < tr.totalDur :=
    lt_of_lt_of_le hstart tr.first_le_totalDur
  have hread : timeAt tr.rows 1 = .error ⟨1, 1⟩ := by
    rw [timeAt_error (by omega), hone]
  rw [command_of_interpolate tr hend]
  simp [interpolate, hone, findSegment, hread, bind, Except.bind, Except.map]

/-!
## Elapsed times along a sequence of callbacks
-/

theorem elapsedAt_zero (elapsed : ℚ) (period : Nat) (rest : List Nat) :
    elapsedAt elapsed (period :: rest) 0 = advance elapsed period := by
  simp [elapsedAt]

theorem elapsedAt_succ (elapsed : ℚ) (period : Nat) (rest : List Nat)
    (k : Nat) :
    elapsedAt elapsed (period :: rest) (k + 1) =
      elapsedAt (advance elapsed period) rest k := by
  simp [elapsedAt]

theorem le_advance (elapsed : ℚ) (period : Nat) :
    elapsed ≤ advance elapsed period := by
  have hperiod : (0 : ℚ) ≤ period / 1000 :=
    div_nonneg (Nat.cast_nonneg period) (by norm_num)
  unfold advance
  linarith

theorem foldl_advance_le (elapsed : ℚ) (periods : List Nat) :
    elapsed ≤ periods.foldl advance elapsed := by
  induction periods generalizing elapsed with
  | nil => exact le_refl elapsed
  | cons period rest ih =>
      exact le_trans (le_advance elapsed period) (ih (advance elapsed period))

theorem advance_le_elapsedAt (elapsed : ℚ) (period : Nat) (rest : List Nat)
    (k : Nat) :
    advance elapsed period ≤ elapsedAt elapsed (period :: rest) k := by
  cases k with
  | zero => rw [elapsedAt_zero]
  | succ k =>
      rw [elapsedAt_succ]
      exact foldl_advance_le _ _

theorem runCallbacks_mem {rows : List Waypoint} {elapsed : ℚ}
    {periods : List Nat} {result : Except OutOfRange Command}
    (h : result ∈ runCallbacks rows elapsed periods) :
    exists k, k < periods.length ∧
      result = command rows (elapsedAt elapsed periods k) := by
  induction periods generalizing elapsed with
  | nil => cases h
  | cons period rest ih =>
      unfold runCallbacks at h
      cases hcmd : command rows (advance elapsed period) with
      | error fault =>
          simp [hcmd] at h
          refine ⟨0, by simp, ?_⟩
          rw [elapsedAt_zero, hcmd, h]
      | ok c =>
          simp only [hcmd, List.mem_cons] at h
          rcases h with hhead | htail
          · refine ⟨0, by simp, ?_⟩
            rw [elapsedAt_zero, hcmd, hhead]
          · split at htail
            · cases htail
            · rcases ih htail with ⟨k, hk, hresult⟩
              refine ⟨k + 1, by simp; omega, ?_⟩
              rw [elapsedAt_succ, hresult]

theorem runCallbacks_head (rows : List Waypoint) (elapsed : ℚ) (period : Nat)
    (rest : List Nat) :
    command rows (advance elapsed period) ∈
      runCallbacks rows elapsed (period :: rest) := by
  cases hcmd : command rows (advance elapsed period) <;>
    simp [runCallbacks, hcmd]

end Arm
end FrankaKistar
