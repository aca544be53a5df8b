import FrankaKistar.Arm.EndToEnd
import FrankaKistar.Arm.Bounds
import FrankaKistar.Foundation.Slopes

/-!
# No jumps between commands

As a function of the elapsed time, the command of one joint is made of straight
pieces: the first segment extended backwards, the segments, and the end.  On
whole nanoseconds the pieces meet at the waypoints, also where the callback does
not interpolate, so no command is further from the one before than the steepest
segment would go.
-/

namespace FrankaKistar
namespace Arm

open Foundation

/-!
## The steepest segment
-/

/-- The speed of joint `j` from one waypoint to the next. -/
def segmentSlope (a b : Waypoint) (j : Fin armDOF) : ℚ :=
  |b.q j - a.q j| / (b.t - a.t)

def maxSlope : List Waypoint -> Fin armDOF -> ℚ
  | a :: b :: rest, j => max (segmentSlope a b j) (maxSlope (b :: rest) j)
  | _, _ => 0

theorem maxSlope_nonneg (rows : List Waypoint) (j : Fin armDOF) :
    0 ≤ maxSlope rows j := by
  induction rows with
  | nil => exact le_refl 0
  | cons a rest ih =>
      cases rest with
      | nil => exact le_refl 0
      | cons b rest => exact le_trans ih (le_max_right _ _)

theorem segmentSlope_le_maxSlope {rows : List Waypoint} {m : Nat}
    (hm : m < rows.length) (hnext : m + 1 < rows.length) (j : Fin armDOF) :
    segmentSlope rows[m] rows[m + 1] j ≤ maxSlope rows j := by
  induction rows generalizing m with
  | nil => cases hm
  | cons a rest ih =>
      cases rest with
      | nil =>
          rw [List.length_singleton] at hnext
          exact absurd hnext (by omega)
      | cons b rest =>
          cases m with
          | zero => exact le_max_left _ _
          | succ m =>
              have hrest := ih (m := m) (Nat.lt_of_succ_lt_succ hm)
                (Nat.lt_of_succ_lt_succ hnext)
              exact le_trans hrest (le_max_right _ _)

/-!
## The command as a function of the elapsed time
-/

/-- What the callback commands for joint `j`; a read out of range never happens
with two waypoints. -/
def commandedValue (tr : Trajectory) (j : Fin armDOF) (elapsed : ℚ) : ℚ :=
  ((command tr.rows elapsed).toOption.map fun c => c.q j).getD 0

theorem commandedValue_of_ok {tr : Trajectory} {elapsed : ℚ} {c : Command}
    (h : command tr.rows elapsed = .ok c) (j : Fin armDOF) :
    commandedValue tr j elapsed = c.q j := by
  rw [commandedValue, h]
  rfl

def lineThrough (a b : Waypoint) (j : Fin armDOF) (x : ℚ) : ℚ :=
  a.q j + (x - a.t) / (b.t - a.t) * (b.q j - a.q j)

theorem lineThrough_start (a b : Waypoint) (j : Fin armDOF) :
    lineThrough a b j a.t = a.q j := by
  rw [lineThrough, sub_self, zero_div, zero_mul, add_zero]

theorem lineThrough_end {a b : Waypoint} (h : a.t < b.t) (j : Fin armDOF) :
    lineThrough a b j b.t = b.q j := by
  rw [lineThrough, div_self (ne_of_gt (sub_pos.mpr h)), one_mul]
  ring

theorem lerp7_eq_lineThrough {a b : Waypoint} {elapsed : ℚ}
    (h : minSegment < b.t - a.t) (j : Fin armDOF) :
    lerp7 a.q b.q (segmentAlpha a b elapsed) j = lineThrough a b j elapsed := by
  rw [lerp7, segmentAlpha, if_pos h, lineThrough]

theorem lerp7_short {a b : Waypoint} {elapsed : ℚ}
    (h : ¬minSegment < b.t - a.t) (j : Fin armDOF) :
    lerp7 a.q b.q (segmentAlpha a b elapsed) j = a.q j := by
  rw [lerp7, segmentAlpha, if_neg h, zero_mul, add_zero]

/-- The time of row `i`. -/
def rowTime (tr : Trajectory) (i : Nat) : ℚ :=
  (tr.rows[i]?.map Waypoint.t).getD 0

theorem rowTime_of_lt {tr : Trajectory} {i : Nat} (h : i < tr.rows.length) :
    rowTime tr i = tr.rows[i].t := by
  simp [rowTime, List.getElem?_eq_getElem h]

def WholeTimes (tr : Trajectory) : Prop :=
  forall r, r ∈ tr.rows -> r.t ∈ wholeNanoseconds

section Pieces

variable {tr : Trajectory}

theorem segment_unique {x : ℚ} {i m : Nat} (hi : i + 1 < tr.rows.length)
    (hm : m + 1 < tr.rows.length) (hlow : tr.rows[i].t ≤ x)
    (hhigh : x < tr.rows[i + 1].t) (hlow' : tr.rows[m].t ≤ x)
    (hhigh' : x < tr.rows[m + 1].t) : m = i := by
  rcases Nat.lt_trichotomy m i with hlt | heq | hgt
  · have hle := tr.time_le (show m + 1 ≤ i from hlt) (by omega)
    linarith
  · exact heq
  · have hle := tr.time_le (show i + 1 ≤ m from hgt) (by omega)
    linarith

theorem commandedValue_in_segment (htimes : WholeTimes tr) {x : ℚ}
    (hx : x ∈ wholeNanoseconds) {i : Nat} (hi : i < tr.rows.length)
    (hnext : i + 1 < tr.rows.length)
    (hlow : tr.rows[i].t ≤ x) (hhigh : x < tr.rows[i + 1].t)
    (j : Fin armDOF) :
    commandedValue tr j x = lineThrough tr.rows[i] tr.rows[i + 1] j x := by
  have hstart : tr.firstRow.t ≤ x :=
    le_trans (tr.time_le (Nat.zero_le i) hi) hlow
  have hend : x < tr.totalDur :=
    lt_of_lt_of_le hhigh (tr.time_le (show i + 1 ≤ tr.rows.length - 1 by omega)
      (Nat.sub_lt tr.nonempty Nat.one_pos))
  rcases command_in_segment tr hstart hend with ⟨m, hm, hlow', hhigh', hcmd⟩
  have hmi := segment_unique hnext hm hlow hhigh hlow' hhigh'
  subst hmi
  rw [commandedValue_of_ok hcmd]
  by_cases hdt : minSegment < tr.rows[m + 1].t - tr.rows[m].t
  · exact lerp7_eq_lineThrough hdt j
  · have hsame : x = tr.rows[m].t :=
      eq_of_mem_wholeNanoseconds (htimes _ (List.getElem_mem _)) hx hlow
        (by linarith)
    rw [hsame, lineThrough_start]
    exact lerp7_short hdt j

theorem commandedValue_past_end {x : ℚ} (hend : tr.totalDur ≤ x)
    (j : Fin armDOF) : commandedValue tr j x = tr.lastRow.q j := by
  rw [commandedValue_of_ok (command_past_end tr hend)]
  split <;> rfl

theorem commandedValue_at_row (htimes : WholeTimes tr) {i : Nat}
    (hi : i < tr.rows.length) (j : Fin armDOF) :
    commandedValue tr j tr.rows[i].t = tr.rows[i].q j := by
  rcases Nat.lt_or_ge (i + 1) tr.rows.length with hnext | hlast
  · rw [commandedValue_in_segment htimes (htimes _ (List.getElem_mem _)) hi hnext
      (le_refl _) (tr.time_lt (Nat.lt_succ_self i) hnext), lineThrough_start]
  · have hsame : tr.rows[i] = tr.lastRow := by
      simp only [Trajectory.lastRow]
      congr 1
      omega
    rw [hsame]
    exact commandedValue_past_end (le_refl _) j

theorem slopeLe_segment (htimes : WholeTimes tr) (j : Fin armDOF) {i : Nat}
    (hi : i < tr.rows.length) (hnext : i + 1 < tr.rows.length) :
    SlopeLe (maxSlope tr.rows j) (commandedValue tr j)
      (wholeNanoseconds ∩ Set.Icc tr.rows[i].t tr.rows[i + 1].t) := by
  have hlt := tr.time_lt (Nat.lt_succ_self i) hnext
  apply slopeLe_of_line hlt (segmentSlope_le_maxSlope hi hnext j)
  intro x hx
  rcases lt_or_eq_of_le hx.right.right with hhigh | hsame
  · exact commandedValue_in_segment htimes hx.left hi hnext hx.right.left hhigh j
  · rw [hsame, commandedValue_at_row htimes hnext]
    exact (lineThrough_end hlt j).symm

theorem slopeLe_before (htimes : WholeTimes tr) (htwo : 1 < tr.rows.length)
    (j : Fin armDOF) :
    SlopeLe (maxSlope tr.rows j) (commandedValue tr j)
      (wholeNanoseconds ∩ Set.Iic tr.firstRow.t) := by
  have hlt : tr.firstRow.t < tr.rows[1].t := tr.time_lt Nat.one_pos htwo
  have hstart := commandedValue_at_row htimes tr.nonempty j
  by_cases hdt : minSegment < tr.rows[1].t - tr.firstRow.t
  · apply slopeLe_of_line hlt (segmentSlope_le_maxSlope tr.nonempty htwo j)
    intro x hx
    rcases lt_or_eq_of_le (Set.mem_Iic.mp hx.right) with hbefore | hsame
    · rw [commandedValue_of_ok (command_before_start tr htwo hbefore)]
      exact lerp7_eq_lineThrough hdt j
    · rw [hsame]
      exact hstart.trans (lineThrough_start tr.firstRow tr.rows[1] j).symm
  · apply slopeLe_of_const (maxSlope_nonneg tr.rows j)
    intro x hx
    rcases lt_or_eq_of_le (Set.mem_Iic.mp hx.right) with hbefore | hsame
    · rw [commandedValue_of_ok (command_before_start tr htwo hbefore)]
      exact lerp7_short hdt j
    · rw [hsame]
      exact hstart

theorem slopeLe_commandedValue (htimes : WholeTimes tr)
    (htwo : 1 < tr.rows.length) (j : Fin armDOF) :
    SlopeLe (maxSlope tr.rows j) (commandedValue tr j) wholeNanoseconds := by
  have hlast : tr.rows.length - 1 < tr.rows.length := by omega
  have hdur : rowTime tr (tr.rows.length - 1) = tr.totalDur :=
    rowTime_of_lt hlast
  apply slopeLe_of_pieces (rowTime tr) (tr.rows.length - 1)
  · intro i hi
    rw [rowTime_of_lt (show i < tr.rows.length by omega)]
    exact htimes _ (List.getElem_mem _)
  · intro i hi
    have hi' : i + 1 < tr.rows.length := by omega
    rw [rowTime_of_lt (Nat.lt_of_succ_lt hi'), rowTime_of_lt hi']
    exact le_of_lt (tr.time_lt (Nat.lt_succ_self i) hi')
  · rw [rowTime_of_lt tr.nonempty]
    exact slopeLe_before htimes htwo j
  · intro i hi
    have hi' : i + 1 < tr.rows.length := by omega
    have hi0 := Nat.lt_of_succ_lt hi'
    rw [rowTime_of_lt hi0, rowTime_of_lt hi']
    exact slopeLe_segment htimes j hi0 hi'
  · rw [hdur]
    apply slopeLe_of_const (maxSlope_nonneg tr.rows j)
    intro x hx
    exact commandedValue_past_end hx.right j

end Pieces

/-!
## Consecutive callbacks
-/

theorem elapsedAt_next (elapsed : ℚ) {periods : List Nat} {k period : Nat}
    (h : periods[k + 1]? = some period) :
    elapsedAt elapsed periods (k + 1) =
      elapsedAt elapsed periods k + period / 1000 := by
  have hlt := (List.getElem?_eq_some_iff.mp h).choose
  have hget := (List.getElem?_eq_some_iff.mp h).choose_spec
  rw [elapsedAt, List.take_succ_eq_append_getElem hlt, hget, List.foldl_append]
  rfl

/-- Two consecutive results are commands, and joint by joint the second is no
further from the first than the steepest segment goes in its period. -/
def NoJumps (tr : Trajectory) (periods : List Nat) : Prop :=
  forall k, k + 1 < (runCallbacks tr.rows 0 periods).length ->
    exists c c' period,
      (runCallbacks tr.rows 0 periods)[k]? = some (.ok c) ∧
        (runCallbacks tr.rows 0 periods)[k + 1]? = some (.ok c') ∧
        periods[k + 1]? = some period ∧
        forall j, |c'.q j - c.q j| ≤
          maxSlope tr.rows j * ((period : ℚ) / 1000)

theorem noJumps (tr : Trajectory) (htwo : 2 ≤ tr.rows.length)
    (htimes : WholeTimes tr) (periods : List Nat) : NoJumps tr periods := by
  intro k hk
  have hfirst := List.getElem?_eq_getElem (Nat.lt_of_succ_lt hk)
  have hsecond := List.getElem?_eq_getElem hk
  have hresult := (runCallbacks_getElem?.mp hfirst).right.right
  have hresult' := runCallbacks_getElem?.mp hsecond
  rcases command_ok_of_two tr htwo (elapsedAt 0 periods k) with ⟨c, hc⟩
  rcases command_ok_of_two tr htwo (elapsedAt 0 periods (k + 1)) with
    ⟨c', hc'⟩
  have hperiod := List.getElem?_eq_getElem hresult'.left
  rw [hresult, hc] at hfirst
  rw [hresult'.right.right, hc'] at hsecond
  refine ⟨c, c', _, hfirst, hsecond, hperiod, ?_⟩
  intro j
  have hnext := elapsedAt_next 0 hperiod
  have hnonneg : (0 : ℚ) ≤ (getElem periods (k + 1) hresult'.left : ℚ) / 1000 :=
    div_nonneg (Nat.cast_nonneg _) (by norm_num)
  have hslope := slopeLe_commandedValue htimes htwo j _ (elapsedAt_mem periods k)
    _ (elapsedAt_mem periods (k + 1)) (by linarith)
  rw [commandedValue_of_ok hc, commandedValue_of_ok hc', hnext,
    add_sub_cancel_left] at hslope
  exact hslope

/-- The documented example, from before its first waypoint to its end. -/
theorem noJumps_usageTrajectory :
    NoJumps usageTrajectory [1000, 1500, 1, 1700, 10] := by
  refine noJumps usageTrajectory (by decide) ?_ _
  intro r hr
  rcases List.mem_cons.mp hr with rfl | hr
  · exact ⟨2000000000, by norm_num⟩
  · rw [List.mem_singleton.mp hr]
    exact ⟨4000000000, by norm_num⟩

end Arm
end FrankaKistar
