import FrankaKistar.Arm.Segments

/-!
# Index safety of trajectory execution

The validation accepts a single waypoint, but the callback reads `seg + 1`
whenever the elapsed time is before the end.  With one waypoint that happens
exactly when a callback comes before its time, and the first callback is the
earliest one.
-/

namespace FrankaKistar
namespace Arm

open Foundation

/-- Every index that the callbacks use into `waypoints` and `times` is in
range. -/
def IndexSafe (tr : Trajectory) (periods : List Nat) : Prop :=
  forall fault, Except.error fault ∉ runCallbacks tr.rows 0 periods

def FirstCallbackInTime (tr : Trajectory) : List Nat -> Prop
  | [] => True
  | period :: _ => tr.firstRow.t ≤ advance 0 period

theorem command_ok_of_two (tr : Trajectory) (htwo : 1 < tr.rows.length)
    (elapsed : ℚ) : exists c, command tr.rows elapsed = .ok c := by
  rcases lt_or_ge elapsed tr.firstRow.t with hbefore | hstart
  · exact ⟨_, command_before_start tr htwo hbefore⟩
  · rcases lt_or_ge elapsed tr.totalDur with hend | hpast
    · rcases command_in_segment tr hstart hend with ⟨m, hm, _, _, hcmd⟩
      exact ⟨_, hcmd⟩
    · exact ⟨_, command_past_end tr hpast⟩

theorem command_ok_of_start (tr : Trajectory) {elapsed : ℚ}
    (hstart : tr.firstRow.t ≤ elapsed) :
    exists c, command tr.rows elapsed = .ok c := by
  rcases lt_or_ge elapsed tr.totalDur with hend | hpast
  · rcases command_in_segment tr hstart hend with ⟨m, hm, _, _, hcmd⟩
    exact ⟨_, hcmd⟩
  · exact ⟨_, command_past_end tr hpast⟩

theorem firstCallbackInTime_elapsedAt {tr : Trajectory} {periods : List Nat}
    (h : FirstCallbackInTime tr periods) {k : Nat} (hk : k < periods.length) :
    tr.firstRow.t ≤ elapsedAt 0 periods k := by
  cases periods with
  | nil => cases hk
  | cons period rest => exact le_trans h (advance_le_elapsedAt 0 period rest k)

theorem indexSafe_iff (tr : Trajectory) (periods : List Nat) :
    IndexSafe tr periods <->
      2 ≤ tr.rows.length ∨ FirstCallbackInTime tr periods := by
  constructor
  · intro hsafe
    by_cases htwo : 2 ≤ tr.rows.length
    · exact Or.inl htwo
    · apply Or.inr
      cases periods with
      | nil => exact True.intro
      | cons period rest =>
          have hone : tr.rows.length = 1 := by
            have := tr.nonempty
            omega
          apply le_of_not_gt
          intro hbefore
          have hhead := runCallbacks_head tr.rows 0 period rest
          rw [command_single_before_start tr hone hbefore] at hhead
          exact hsafe _ hhead
  · intro hcond fault hmem
    rcases runCallbacks_mem hmem with ⟨k, hk, hresult⟩
    have hok : exists c, command tr.rows (elapsedAt 0 periods k) = .ok c := by
      rcases hcond with htwo | hfirst
      · exact command_ok_of_two tr htwo _
      · exact command_ok_of_start tr (firstCallbackInTime_elapsedAt hfirst hk)
    rcases hok with ⟨c, hc⟩
    rw [hc] at hresult
    cases hresult

/-!
## A single late waypoint

One waypoint with `time_from_start` 2 s passes the validation; the first
callback reads `times[1]`.
-/

def singleLatePoint : ArmTrajBuf where
  q := fun _ j =>
    .finite ((![0, -7 / 10, 0, -23 / 10, 0, 3 / 2, 7 / 10] : Joints ℚ) j)
  t := fun _ => .finite 2
  len := 1
  state := .pending

theorem singleLatePoint_reads_out_of_range :
    (loadTrajectory singleLatePoint).map
        (fun tr => runCallbacks tr.rows 0 [0]) =
      some [.error ⟨1, 1⟩] := by
  decide +kernel

theorem not_all_indexSafe :
    ¬ forall buf tr, loadTrajectory buf = some tr ->
        forall periods, IndexSafe tr periods := by
  intro hclaim
  have hrun := singleLatePoint_reads_out_of_range
  cases hload : loadTrajectory singleLatePoint with
  | none =>
      rw [hload] at hrun
      cases hrun
  | some tr =>
      rw [hload, Option.map_some, Option.some.injEq] at hrun
      apply hclaim singleLatePoint tr hload [0] ⟨1, 1⟩
      rw [hrun]
      exact List.mem_singleton_self _

end Arm
end FrankaKistar
