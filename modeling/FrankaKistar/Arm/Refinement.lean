import FrankaKistar.Arm.ControlThread

/-!
# The function and the thread

Executing a trajectory in one go is what the control thread does when nobody
else takes a step in between: from the pick-up it reaches the location after the
function with the same result and the same shared memory.
-/

namespace FrankaKistar
namespace Arm

open Foundation

variable (cfg : FrankaRightArmConfig)

/-!
## Copying
-/

theorem reaches_copiedRow (shm : Shm) (len : TrajLen) (c : CheckedRows)
    (q : Joints ExactDouble) {remaining j : Nat} (hj : j + remaining = armDOF)
    (hagree : forall i : Fin armDOF, i.val < j ->
      q i = shm.traj.q c.rows.length i) :
    (controlStep cfg).Reaches ⟨shm, .copying len c q j⟩
      ⟨shm, .copying len c (shm.traj.q c.rows.length) armDOF⟩ := by
  induction remaining generalizing j q with
  | zero =>
      have hfull : j = armDOF := hj
      subst hfull
      rw [eq_of_agrees (Nat.lt_irrefl _) hagree]
      exact Machine.reaches_refl _ _
  | succ remaining ih =>
      have hlt : j < armDOF := by omega
      have hstep : controlStep cfg ⟨shm, .copying len c q j⟩ .tick =
          some ⟨shm, .copying len c (Function.update q ⟨j, hlt⟩
            (shm.traj.q c.rows.length ⟨j, hlt⟩)) (j + 1)⟩ := by
        simp only [controlStep, tickStep]
        rw [dif_pos hlt]
      exact Machine.reaches_step hstep
        (ih _ (by omega) (update_agrees hlt hagree))

theorem reaches_finishRow (shm : Shm) (len : TrajLen) (c : CheckedRows) :
    (controlStep cfg).Reaches ⟨shm, .copying len c zeroJoints 0⟩
      ⟨shm, finishRow len c (shm.traj.q c.rows.length)
        (shm.traj.t c.rows.length)⟩ := by
  have hrow := reaches_copiedRow cfg shm len c zeroJoints
    (Nat.zero_add armDOF) (fun i hi => absurd hi (Nat.not_lt_zero _))
  have hstep : controlStep cfg
      ⟨shm, .copying len c (shm.traj.q c.rows.length) armDOF⟩ .tick =
        some ⟨shm, finishRow len c (shm.traj.q c.rows.length)
          (shm.traj.t c.rows.length)⟩ := by
    simp only [controlStep, tickStep]
    rw [dif_neg (Nat.lt_irrefl _)]
  exact Machine.reaches_trans hrow (Machine.reaches_of_step hstep)

theorem reaches_copyRows (shm : Shm) (len : TrajLen) (c : CheckedRows)
    {remaining : Nat} (hlen : c.rows.length + (remaining + 1) = len.val) :
    match copyRows shm.traj (remaining + 1) c with
    | none =>
        (controlStep cfg).Reaches ⟨shm, .copying len c zeroJoints 0⟩
          ⟨shm, .rejected⟩
    | some c' => exists tr : Trajectory, tr.rows = c'.rows ∧
        (controlStep cfg).Reaches ⟨shm, .copying len c zeroJoints 0⟩
          ⟨shm, .executing tr 0⟩ := by
  induction remaining generalizing c with
  | zero =>
      have hfinish := reaches_finishRow cfg shm len c
      unfold copyRows
      cases haccept : c.accept (shm.traj.q c.rows.length)
          (shm.traj.t c.rows.length) with
      | none =>
          simpa [finishRow, haccept] using hfinish
      | some c' =>
          rcases accept_rows haccept with ⟨r, hrows, _⟩
          have hfull : c'.rows.length = len.val := by
            rw [hrows, List.length_append, List.length_singleton]
            omega
          simp only [finishRow, haccept, hfull, dite_true] at hfinish
          exact ⟨_, rfl, hfinish⟩
  | succ remaining ih =>
      have hfinish := reaches_finishRow cfg shm len c
      unfold copyRows
      cases haccept : c.accept (shm.traj.q c.rows.length)
          (shm.traj.t c.rows.length) with
      | none =>
          simpa [finishRow, haccept] using hfinish
      | some c' =>
          rcases accept_rows haccept with ⟨r, hrows, _⟩
          have hlength : c'.rows.length = c.rows.length + 1 := by
            rw [hrows, List.length_append, List.length_singleton]
          have hpart : c'.rows.length ≠ len.val := by omega
          simp only [finishRow, haccept, hpart, dite_false] at hfinish
          have hrest := ih c' (by omega)
          simp only
          cases hcopy : copyRows shm.traj (remaining + 1) c' with
          | none =>
              rw [hcopy] at hrest
              exact Machine.reaches_trans hfinish hrest
          | some c'' =>
              rw [hcopy] at hrest
              rcases hrest with ⟨tr, htr, hreach⟩
              exact ⟨tr, htr, Machine.reaches_trans hfinish hreach⟩

theorem reaches_loadTrajectory (shm : Shm) :
    match loadTrajectory shm.traj with
    | none => (controlStep cfg).Reaches ⟨shm, .loadLen⟩ ⟨shm, .rejected⟩
    | some tr =>
        (controlStep cfg).Reaches ⟨shm, .loadLen⟩ ⟨shm, .executing tr 0⟩ := by
  cases hlen : TrajLen.ofInt? shm.traj.len with
  | none =>
      have hstep : controlStep cfg ⟨shm, .loadLen⟩ .tick =
          some ⟨shm, .rejected⟩ := by
        simp only [controlStep, tickStep, hlen]
      have hnone : loadTrajectory shm.traj = none := by
        unfold TrajLen.ofInt? at hlen
        unfold loadTrajectory
        split at hlen
        · cases hlen
        · rename_i hrange
          rw [dif_neg hrange]
      rw [hnone]
      exact Machine.reaches_of_step hstep
  | some len =>
      have hstep : controlStep cfg ⟨shm, .loadLen⟩ .tick =
          some ⟨shm, .copying len CheckedRows.empty zeroJoints 0⟩ := by
        simp only [controlStep, tickStep, hlen]
      have hval := TrajLen.ofInt?_eq_some hlen
      have hpos := len.pos
      have hle := len.le
      rcases Nat.exists_eq_succ_of_ne_zero (Nat.ne_of_gt hpos) with
        ⟨remaining, hremaining⟩
      have hnat : shm.traj.len.toNat = remaining + 1 := by omega
      have hrange : 0 < shm.traj.len ∧
          shm.traj.len ≤ (armTrajMaxPts : Int) := by omega
      have hlength : CheckedRows.empty.rows.length + (remaining + 1) =
          len.val := by
        rw [hremaining]
        exact Nat.zero_add _
      have hcopy := reaches_copyRows cfg shm len CheckedRows.empty hlength
      cases hload : loadTrajectory shm.traj with
      | none =>
          have hnone : copyRows shm.traj (remaining + 1) CheckedRows.empty =
              none := by
            unfold loadTrajectory at hload
            rw [dif_pos hrange] at hload
            split at hload
            · rename_i hnone
              rw [← hnat]
              exact hnone
            · cases hload
          rw [hnone] at hcopy
          exact Machine.reaches_step hstep hcopy
      | some tr =>
          unfold loadTrajectory at hload
          rw [dif_pos hrange] at hload
          split at hload
          · cases hload
          · rename_i c hc
            have hrows : c.rows = tr.rows := by
              rw [← Option.some.inj hload]
            rw [hnat] at hc
            rw [hc] at hcopy
            rcases hcopy with ⟨tr', htr, hreach⟩
            rw [Trajectory.eq_of_rows (htr.trans hrows)] at hreach
            exact Machine.reaches_step hstep hreach

/-!
## The motion
-/

theorem reaches_runControl (tr : Trajectory) (elapsed : ℚ) (shm : Shm)
    (calls : List ControlCall) :
    match runControl tr.rows elapsed shm calls with
    | .finished shm' =>
        (controlStep cfg).Reaches ⟨shm, .executing tr elapsed⟩
          ⟨shm', .finishing tr⟩
    | .threw shm' =>
        (controlStep cfg).Reaches ⟨shm, .executing tr elapsed⟩
          ⟨shm', .trajCatch⟩
    | .outOfRange _ =>
        exists shm', (controlStep cfg).Reaches ⟨shm, .executing tr elapsed⟩
          ⟨shm', .undefinedBehaviour⟩ := by
  induction calls generalizing elapsed shm with
  | nil =>
      have hstep : controlStep cfg ⟨shm, .executing tr elapsed⟩ .throws =
          some ⟨shm, .trajCatch⟩ := rfl
      exact Machine.reaches_of_step hstep
  | cons call rest ih =>
      have hstep : controlStep cfg ⟨shm, .executing tr elapsed⟩
          (.callback call.state call.period) =
            callbackStep call.state call.period shm (.executing tr elapsed) :=
        rfl
      unfold runControl
      simp only [callbackStep] at hstep
      cases hcmd : command tr.rows (advance elapsed call.period) with
      | error fault =>
          rw [hcmd] at hstep
          exact ⟨_, Machine.reaches_of_step hstep⟩
      | ok c =>
          rw [hcmd] at hstep
          cases hc : c.finished with
          | true =>
              simp only [hc, if_true] at hstep ⊢
              exact Machine.reaches_of_step hstep
          | false =>
              simp only [hc, Bool.false_eq_true, if_false] at hstep ⊢
              have hrest := ih (advance elapsed call.period)
                (publishCallbackState call.state shm)
              cases hrun : runControl tr.rows (advance elapsed call.period)
                  (publishCallbackState call.state shm) rest with
              | finished shm' =>
                  rw [hrun] at hrest
                  exact Machine.reaches_step hstep hrest
              | threw shm' =>
                  rw [hrun] at hrest
                  exact Machine.reaches_step hstep hrest
              | outOfRange fault =>
                  rw [hrun] at hrest
                  rcases hrest with ⟨shm', hreach⟩
                  exact ⟨shm', Machine.reaches_step hstep hreach⟩

/-!
## The end
-/

theorem reaches_syncTarget (tr : Trajectory) (shm : Shm) {remaining j : Nat}
    (hj : j + remaining = armDOF)
    (hagree : forall i : Fin armDOF, i.val < j ->
      shm.msgs.armJTar i = tr.qLast i) :
    (controlStep cfg).Reaches ⟨shm, .syncTarget tr j⟩
      ⟨applyStores (armTargetStores tr.qLast) shm, .afterTrajectory tr.qLast⟩ :=
    by
  induction remaining generalizing j shm with
  | zero =>
      have hfull : j = armDOF := hj
      subst hfull
      have hstep : controlStep cfg ⟨shm, .syncTarget tr armDOF⟩ .tick =
          some ⟨shm, .afterTrajectory tr.qLast⟩ := by
        simp only [controlStep, tickStep]
        rw [dif_neg (Nat.lt_irrefl _)]
      have htar : shm.msgs.armJTar = tr.qLast :=
        eq_of_agrees (Nat.lt_irrefl _) hagree
      rw [applyStores_armTargetStores, ← htar]
      rw [← htar] at hstep
      exact Machine.reaches_of_step hstep
  | succ remaining ih =>
      have hlt : j < armDOF := by omega
      let shm' := (Store.armJTar ⟨j, hlt⟩ (tr.qLast ⟨j, hlt⟩)).apply shm
      have hstep : controlStep cfg ⟨shm, .syncTarget tr j⟩ .tick =
          some ⟨shm', .syncTarget tr (j + 1)⟩ := by
        simp only [controlStep, tickStep]
        rw [dif_pos hlt]
      have hsame : applyStores (armTargetStores tr.qLast) shm' =
          applyStores (armTargetStores tr.qLast) shm := by
        rw [applyStores_armTargetStores, applyStores_armTargetStores]
        rfl
      rw [← hsame]
      exact Machine.reaches_step hstep
        (ih shm' (by omega) (update_agrees hlt hagree))

theorem reaches_executeTrajFromShm (shm : Shm) (last : Joints ExactDouble)
    (calls : List ControlCall) :
    match executeTrajFromShm shm calls with
    | .returned result shm' =>
        (controlStep cfg).Reaches ⟨shm, .storeExecuting last⟩
          ⟨shm', .afterTrajectory result⟩
    | .threw shm' =>
        (controlStep cfg).Reaches ⟨shm, .storeExecuting last⟩
          ⟨shm', .handler⟩
    | .outOfRange _ =>
        exists shm', (controlStep cfg).Reaches ⟨shm, .storeExecuting last⟩
          ⟨shm', .undefinedBehaviour⟩ := by
  let shmPicked := (Store.trajState .executing).apply shm
  have hpick : controlStep cfg ⟨shm, .storeExecuting last⟩ .tick =
      some ⟨shmPicked, .loadLen⟩ := rfl
  have hload := reaches_loadTrajectory cfg shmPicked
  cases htraj : loadTrajectory shmPicked.traj with
  | none =>
      rw [htraj] at hload
      have hreject : controlStep cfg ⟨shmPicked, .rejected⟩ .tick =
          some ⟨(Store.trajState .done).apply shmPicked,
            .afterTrajectory zeroJoints⟩ := rfl
      rw [executeTrajFromShm_of_none htraj]
      exact Machine.reaches_step hpick
        (Machine.reaches_trans hload (Machine.reaches_of_step hreject))
  | some tr =>
      rw [htraj] at hload
      have hstart : (controlStep cfg).Reaches ⟨shm, .storeExecuting last⟩
          ⟨shmPicked, .executing tr 0⟩ :=
        Machine.reaches_step hpick hload
      have hmotion := reaches_runControl cfg tr 0 shmPicked calls
      cases hrun : runControl tr.rows 0 shmPicked calls with
      | finished shmEnd =>
          rw [hrun] at hmotion
          let shmDone := (Store.trajState .done).apply shmEnd
          have hreturn : controlStep cfg ⟨shmEnd, .finishing tr⟩
              .controlReturns = some ⟨shmEnd, .storeDone tr⟩ := rfl
          have hdone : controlStep cfg ⟨shmEnd, .storeDone tr⟩ .tick =
              some ⟨shmDone, .syncTarget tr 0⟩ := rfl
          have hsync := reaches_syncTarget cfg tr shmDone
            (Nat.zero_add armDOF) (fun i hi => absurd hi (Nat.not_lt_zero _))
          rw [executeTrajFromShm_of_finished htraj hrun]
          apply Machine.reaches_trans hstart
          apply Machine.reaches_trans hmotion
          apply Machine.reaches_step hreturn
          exact Machine.reaches_step hdone hsync
      | threw shmEnd =>
          rw [hrun] at hmotion
          have hcatch : controlStep cfg ⟨shmEnd, .trajCatch⟩ .tick =
              some ⟨(Store.trajState .done).apply shmEnd, .handler⟩ := rfl
          rw [executeTrajFromShm_of_threw htraj hrun]
          apply Machine.reaches_trans hstart
          exact Machine.reaches_trans hmotion
            (Machine.reaches_of_step hcatch)
      | outOfRange fault =>
          rw [hrun] at hmotion
          rcases hmotion with ⟨shmEnd, hreach⟩
          rw [executeTrajFromShm_of_outOfRange htraj hrun]
          exact ⟨shmEnd, Machine.reaches_trans hstart hreach⟩

end Arm
end FrankaKistar
