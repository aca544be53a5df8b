import FrankaKistar.Arm.IndexSafety
import FrankaKistar.Foundation.Interpolation

/-!
# Bounds of the commanded joint values

Inside a segment and past the end the command stays between neighbouring
waypoints.  Before the first waypoint the default segment is extended backwards,
so the bound needs room behind the first waypoint.
-/

namespace FrankaKistar
namespace Arm

open Foundation

/-!
## Values between waypoints
-/

/-- A joint value between that joint's values at two adjacent waypoints, or
equal to an end waypoint. -/
def BetweenWaypoints (tr : Trajectory) (j : Fin armDOF) (v : ℚ) : Prop :=
  (exists m, exists (_ : m < tr.rows.length) (_ : m + 1 < tr.rows.length),
      v ∈ Set.uIcc (tr.rows[m].q j) (tr.rows[m + 1].q j)) ∨
    v = tr.firstRow.q j ∨ v = tr.lastRow.q j

/-- Joint `j` along the rows; the value past the end is never used. -/
def jointValue (rows : List Waypoint) (j : Fin armDOF) (i : Nat) : ℚ :=
  (rows[i]?.map (fun r => r.q j)).getD 0

theorem jointValue_of_lt {rows : List Waypoint} {i : Nat}
    (h : i < rows.length) (j : Fin armDOF) :
    jointValue rows j i = rows[i].q j := by
  simp [jointValue, List.getElem?_eq_getElem h]

theorem betweenWaypoints_of_mem_uIcc {tr : Trajectory} {j : Fin armDOF}
    {i k : Nat} {v : ℚ} (hik : i < k) (hi : i < tr.rows.length)
    (hk : k < tr.rows.length)
    (hv : v ∈ Set.uIcc (tr.rows[i].q j) (tr.rows[k].q j)) :
    BetweenWaypoints tr j v := by
  rw [← jointValue_of_lt hi, ← jointValue_of_lt hk] at hv
  rcases exists_adjacent_mem_uIcc (jointValue tr.rows j) hik hv with
    ⟨m, _, hmk, hm⟩
  have hm1 : m + 1 < tr.rows.length := by omega
  have hm0 := Nat.lt_of_succ_lt hm1
  rw [jointValue_of_lt hm0, jointValue_of_lt hm1] at hm
  exact Or.inl ⟨m, hm0, hm1, hm⟩

theorem betweenWaypoints_of_row {tr : Trajectory} (htwo : 1 < tr.rows.length)
    (j : Fin armDOF) {i : Nat} (hi : i < tr.rows.length) :
    BetweenWaypoints tr j (tr.rows[i].q j) := by
  rcases Nat.lt_or_ge (i + 1) tr.rows.length with hnext | hlast
  · exact Or.inl ⟨i, hi, hnext, Set.left_mem_uIcc⟩
  · have hprev : i - 1 < i := by omega
    exact betweenWaypoints_of_mem_uIcc hprev (Nat.lt_trans hprev hi) hi
      Set.right_mem_uIcc

theorem betweenWaypoints_iff {tr : Trajectory} (htwo : 1 < tr.rows.length)
    (j : Fin armDOF) (v : ℚ) :
    BetweenWaypoints tr j v <->
      (exists r, r ∈ tr.rows ∧ r.q j ≤ v) ∧
        (exists r, r ∈ tr.rows ∧ v ≤ r.q j) := by
  constructor
  · intro h
    rcases h with ⟨m, _, _, hv⟩ | hfirst | hlast
    · have hm0 : tr.rows[m] ∈ tr.rows := List.getElem_mem _
      have hm1 : tr.rows[m + 1] ∈ tr.rows := List.getElem_mem _
      rcases Set.mem_uIcc.mp hv with ⟨hlow, hhigh⟩ | ⟨hlow, hhigh⟩
      · exact ⟨⟨_, hm0, hlow⟩, ⟨_, hm1, hhigh⟩⟩
      · exact ⟨⟨_, hm1, hlow⟩, ⟨_, hm0, hhigh⟩⟩
    · have hmem : tr.firstRow ∈ tr.rows := List.getElem_mem _
      exact ⟨⟨_, hmem, hfirst.ge⟩, ⟨_, hmem, hfirst.le⟩⟩
    · exact ⟨⟨_, tr.lastRow_mem, hlast.ge⟩, ⟨_, tr.lastRow_mem, hlast.le⟩⟩
  · intro h
    rcases h with ⟨⟨a, ha, hlow⟩, ⟨b, hb, hhigh⟩⟩
    rcases List.getElem_of_mem ha with ⟨i, hi, hai⟩
    rcases List.getElem_of_mem hb with ⟨k, hk, hbk⟩
    rw [← hai] at hlow
    rw [← hbk] at hhigh
    rcases Nat.lt_trichotomy i k with hik | hik | hki
    · exact betweenWaypoints_of_mem_uIcc hik hi hk
        (Set.mem_uIcc.mpr (Or.inl ⟨hlow, hhigh⟩))
    · subst hik
      rw [le_antisymm hhigh hlow]
      exact betweenWaypoints_of_row htwo j hi
    · exact betweenWaypoints_of_mem_uIcc hki hk hi
        (Set.mem_uIcc.mpr (Or.inr ⟨hlow, hhigh⟩))

theorem limits_of_betweenWaypoints {tr : Trajectory}
    (htwo : 1 < tr.rows.length) {j : Fin armDOF} {v : ℚ}
    (h : BetweenWaypoints tr j v) :
    kFr3LowerJointLimits j ≤ v ∧ v ≤ kFr3UpperJointLimits j := by
  rcases (betweenWaypoints_iff htwo j v).mp h with
    ⟨⟨a, ha, hlow⟩, ⟨b, hb, hhigh⟩⟩
  constructor
  · exact le_trans ((tr.valid.left a ha).left j).left hlow
  · exact le_trans hhigh ((tr.valid.left b hb).left j).right

/-!
## The bound over a sequence of callbacks
-/

/-- Every joint value commanded along the callbacks is between waypoints, and
hence inside the joint limits. -/
def CommandsBounded (tr : Trajectory) (periods : List Nat) : Prop :=
  forall c, Except.ok c ∈ runCallbacks tr.rows 0 periods ->
    forall j, BetweenWaypoints tr j (c.q j) ∧
      kFr3LowerJointLimits j ≤ c.q j ∧ c.q j ≤ kFr3UpperJointLimits j

/-- On joint `j` some waypoint lies at least as far behind the first one as the
joint moves, at the speed of the first segment, in a time of `lead`. -/
def RoomBehindFirst (tr : Trajectory) (htwo : 1 < tr.rows.length) (lead : ℚ)
    (j : Fin armDOF) : Prop :=
  let dq := tr.rows[1].q j - tr.firstRow.q j
  let dt := tr.rows[1].t - tr.firstRow.t
  (0 < dq -> exists r, r ∈ tr.rows ∧
      lead * dq ≤ (tr.firstRow.q j - r.q j) * dt) ∧
    (dq < 0 -> exists r, r ∈ tr.rows ∧
      (tr.firstRow.q j - r.q j) * dt ≤ lead * dq)

/-- The first callback is not before the first waypoint, or the first segment
is at most 1 ns long, or there is room behind the first waypoint for the time
from the first callback to the first waypoint. -/
def StartCovered (tr : Trajectory) (htwo : 1 < tr.rows.length) :
    List Nat -> Prop
  | [] => True
  | period :: _ =>
      tr.firstRow.t ≤ advance 0 period ∨
        tr.rows[1].t - tr.firstRow.t ≤ minSegment ∨
        forall j,
          RoomBehindFirst tr htwo (tr.firstRow.t - advance 0 period) j

theorem lerp7_segment_mem {tr : Trajectory} {m : Nat} {elapsed : ℚ}
    (hm : m < tr.rows.length) (hnext : m + 1 < tr.rows.length)
    (hlow : tr.rows[m].t ≤ elapsed)
    (hhigh : elapsed < tr.rows[m + 1].t) (j : Fin armDOF) :
    lerp7 tr.rows[m].q tr.rows[m + 1].q
        (segmentAlpha tr.rows[m] tr.rows[m + 1] elapsed) j ∈
      Set.uIcc (tr.rows[m].q j) (tr.rows[m + 1].q j) := by
  unfold lerp7 segmentAlpha
  split
  · exact lerp_mem_uIcc (parameter_nonneg hlow hhigh)
      (parameter_le_one hlow hhigh) _ _
  · simp

theorem lerp7_before_start (a b : Waypoint) (elapsed : ℚ) (j : Fin armDOF)
    (hdt : minSegment < b.t - a.t) :
    (a.q j - lerp7 a.q b.q (segmentAlpha a b elapsed) j) * (b.t - a.t) =
      (a.t - elapsed) * (b.q j - a.q j) := by
  have hne : b.t - a.t ≠ 0 := ne_of_gt (lt_trans minSegment_pos hdt)
  rw [lerp7, segmentAlpha, if_pos hdt]
  field_simp
  ring

/-- With room for the lead of the first callback, the command of every callback
before the first waypoint is between waypoints: later callbacks lead less. -/
theorem before_start_between (tr : Trajectory) (htwo : 1 < tr.rows.length)
    {lead elapsed : ℚ} {j : Fin armDOF}
    (hroom : RoomBehindFirst tr htwo lead j)
    (hlead : tr.firstRow.t - elapsed ≤ lead)
    (hbefore : elapsed < tr.firstRow.t) :
    BetweenWaypoints tr j
      (lerp7 tr.firstRow.q tr.rows[1].q
        (segmentAlpha tr.firstRow tr.rows[1] elapsed) j) := by
  by_cases hdt : minSegment < tr.rows[1].t - tr.firstRow.t
  · have hback := lerp7_before_start tr.firstRow tr.rows[1] elapsed j hdt
    have hpos := lt_trans minSegment_pos hdt
    have hmem : tr.firstRow ∈ tr.rows := List.getElem_mem _
    generalize lerp7 tr.firstRow.q tr.rows[1].q
      (segmentAlpha tr.firstRow tr.rows[1] elapsed) j = v at hback ⊢
    rw [betweenWaypoints_iff htwo]
    rcases lt_trichotomy (0 : ℚ) (tr.rows[1].q j - tr.firstRow.q j) with
      hup | hflat | hdown
    · rcases hroom.left hup with ⟨r, hr, hfar⟩
      have hbehind : 0 ≤ tr.firstRow.q j - v := by
        apply nonneg_of_mul_nonneg_left _ hpos
        rw [hback]
        exact mul_nonneg (by linarith) (le_of_lt hup)
      have hreach : tr.firstRow.q j - v ≤ tr.firstRow.q j - r.q j := by
        apply le_of_mul_le_mul_right _ hpos
        rw [hback]
        exact le_trans (mul_le_mul_of_nonneg_right hlead (le_of_lt hup)) hfar
      exact ⟨⟨r, hr, by linarith⟩, ⟨tr.firstRow, hmem, by linarith⟩⟩
    · have hv : v = tr.firstRow.q j := by
        rw [← hflat, mul_zero, mul_eq_zero] at hback
        rcases hback with heq | hzero
        · linarith
        · exact absurd hzero (ne_of_gt hpos)
      exact ⟨⟨tr.firstRow, hmem, hv.ge⟩, ⟨tr.firstRow, hmem, hv.le⟩⟩
    · rcases hroom.right hdown with ⟨r, hr, hfar⟩
      have hahead : tr.firstRow.q j - v ≤ 0 := by
        apply nonpos_of_mul_nonpos_left _ hpos
        rw [hback]
        exact mul_nonpos_of_nonneg_of_nonpos (by linarith) (le_of_lt hdown)
      have hreach : tr.firstRow.q j - r.q j ≤ tr.firstRow.q j - v := by
        apply le_of_mul_le_mul_right _ hpos
        rw [hback]
        exact le_trans hfar (mul_le_mul_of_nonpos_right hlead (le_of_lt hdown))
      exact ⟨⟨tr.firstRow, hmem, by linarith⟩, ⟨r, hr, by linarith⟩⟩
  · apply Or.inr
    apply Or.inl
    simp [lerp7, segmentAlpha, hdt]

theorem command_between (tr : Trajectory) (htwo : 1 < tr.rows.length)
    {elapsed : ℚ} {c : Command} (hcmd : command tr.rows elapsed = .ok c)
    (j : Fin armDOF)
    (hstart : elapsed < tr.firstRow.t ->
      BetweenWaypoints tr j
        (lerp7 tr.firstRow.q tr.rows[1].q
          (segmentAlpha tr.firstRow tr.rows[1] elapsed) j)) :
    BetweenWaypoints tr j (c.q j) := by
  rcases lt_or_ge elapsed tr.firstRow.t with hbefore | hafter
  · rw [command_before_start tr htwo hbefore] at hcmd
    cases hcmd
    exact hstart hbefore
  · rcases lt_or_ge elapsed tr.totalDur with hend | hpast
    · rcases command_in_segment tr hafter hend with
        ⟨m, hm, hlow, hhigh, hsegment⟩
      rw [hsegment] at hcmd
      cases hcmd
      have hm0 := Nat.lt_of_succ_lt hm
      exact Or.inl ⟨m, hm0, hm, lerp7_segment_mem hm0 hm hlow hhigh j⟩
    · rw [command_past_end tr hpast] at hcmd
      cases hcmd
      apply Or.inr
      apply Or.inr
      split <;> rfl

theorem roomBehindFirst_of_between (tr : Trajectory)
    (htwo : 1 < tr.rows.length) {elapsed : ℚ} {j : Fin armDOF}
    (hdt : minSegment < tr.rows[1].t - tr.firstRow.t)
    (h : BetweenWaypoints tr j
      (lerp7 tr.firstRow.q tr.rows[1].q
        (segmentAlpha tr.firstRow tr.rows[1] elapsed) j)) :
    RoomBehindFirst tr htwo (tr.firstRow.t - elapsed) j := by
  have hback := lerp7_before_start tr.firstRow tr.rows[1] elapsed j hdt
  have hpos := lt_trans minSegment_pos hdt
  rcases (betweenWaypoints_iff htwo j _).mp h with
    ⟨⟨a, ha, hlow⟩, ⟨b, hb, hhigh⟩⟩
  constructor
  · intro _
    refine ⟨a, ha, ?_⟩
    rw [← hback]
    exact mul_le_mul_of_nonneg_right (by linarith) (le_of_lt hpos)
  · intro _
    refine ⟨b, hb, ?_⟩
    rw [← hback]
    exact mul_le_mul_of_nonneg_right (by linarith) (le_of_lt hpos)

theorem commandsBounded_iff (tr : Trajectory) (htwo : 1 < tr.rows.length)
    (periods : List Nat) :
    CommandsBounded tr periods <-> StartCovered tr htwo periods := by
  cases periods with
  | nil =>
      constructor
      · intro _
        exact True.intro
      · intro _ c hc
        cases hc
  | cons period rest =>
      constructor
      · intro hbounded
        rcases le_or_gt tr.firstRow.t (advance 0 period) with hstart | hbefore
        · exact Or.inl hstart
        · apply Or.inr
          rcases le_or_gt (tr.rows[1].t - tr.firstRow.t) minSegment with
            hshort | hdt
          · exact Or.inl hshort
          · apply Or.inr
            intro j
            have hhead := runCallbacks_head tr.rows 0 period rest
            rw [command_before_start tr htwo hbefore] at hhead
            exact roomBehindFirst_of_between tr htwo hdt
              (hbounded _ hhead j).left
      · intro hcovered c hc j
        rcases runCallbacks_mem hc with ⟨k, _, hresult⟩
        have hfirst := advance_le_elapsedAt 0 period rest k
        have hbetween : BetweenWaypoints tr j (c.q j) := by
          apply command_between tr htwo hresult.symm j
          intro hbefore
          rcases hcovered with hstart | hshort | hroom
          · exact absurd (le_trans hstart hfirst) (not_le.mpr hbefore)
          · apply Or.inr
            apply Or.inl
            simp [lerp7, segmentAlpha, not_lt.mpr hshort]
          · exact before_start_between tr htwo (hroom j) (by linarith) hbefore
        exact ⟨hbetween, limits_of_betweenWaypoints htwo hbetween⟩

/-!
## The documented example

The waypoints of the usage guide, at 2 s and 4 s.  The first callback, at
elapsed time 0, extends the first segment backwards by its whole length.
-/

def usageExampleRows : List Waypoint :=
  [ ⟨![0, -7 / 10, 0, -23 / 10, 0, 3 / 2, 7 / 10], 2⟩,
    ⟨![3 / 10, -5 / 10, 0, -2, 0, 3 / 2, 7 / 10], 4⟩ ]

def usageTrajectory : Trajectory where
  rows := usageExampleRows
  valid := by decide +kernel
  nonempty := by decide
  bounded := by decide

/-- When the first callback already sees 2 s, the example stays between its
waypoints. -/
theorem commandsBounded_usageTrajectory :
    CommandsBounded usageTrajectory [2000, 1] := by
  have hstart : usageTrajectory.firstRow.t ≤ advance 0 2000 := by
    decide +kernel
  exact (commandsBounded_iff usageTrajectory (by decide) [2000, 1]).mpr
    (Or.inl hstart)

def usageExample : ArmTrajBuf where
  q := fun i j => .finite (((usageExampleRows[i]?.map Waypoint.q).getD 0) j)
  t := fun i => .finite ((usageExampleRows[i]?.map Waypoint.t).getD 0)
  len := 2
  state := .pending

theorem loadTrajectory_usageExample :
    (loadTrajectory usageExample).map (fun tr => tr.rows) =
      some usageExampleRows := by
  decide +kernel

theorem usageExample_first_command :
    (command usageExampleRows (advance 0 0)).toOption.map (fun c => c.q 0) =
      some (-3 / 10) := by
  decide +kernel

theorem not_all_commandsBounded :
    ¬ forall buf tr, loadTrajectory buf = some tr -> 1 < tr.rows.length ->
        forall periods, CommandsBounded tr periods := by
  intro hclaim
  have hrows := loadTrajectory_usageExample
  have hfirst := usageExample_first_command
  cases hload : loadTrajectory usageExample with
  | none =>
      rw [hload] at hrows
      cases hrows
  | some tr =>
      rw [hload, Option.map_some, Option.some.injEq] at hrows
      have htwo : 1 < tr.rows.length := by
        rw [hrows]
        decide
      have hhead := runCallbacks_head tr.rows 0 0 []
      cases hcmd : command tr.rows (advance 0 0) with
      | error fault =>
          rw [← hrows, hcmd] at hfirst
          cases hfirst
      | ok c =>
          rw [hcmd] at hhead
          rw [← hrows, hcmd] at hfirst
          have hvalue : c.q 0 = -3 / 10 := Option.some.inj hfirst
          have hbetween := (hclaim usageExample tr hload htwo [0] c hhead 0).left
          rcases (betweenWaypoints_iff htwo 0 _).mp hbetween with
            ⟨⟨r, hr, hlow⟩, _⟩
          rw [hvalue] at hlow
          rw [hrows] at hr
          have hnone : forall r, r ∈ usageExampleRows -> ¬ r.q 0 ≤ -3 / 10 := by
            decide +kernel
          exact hnone r hr hlow

end Arm
end FrankaKistar
