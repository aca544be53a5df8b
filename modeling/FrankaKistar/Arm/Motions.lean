import FrankaKistar.Arm.Leftover
import FrankaKistar.Arm.WholeTargets

/-!
# What the arm may be sent to

A target of a PtoP motion is put together from joint values that came into the
shared memory one by one: from target messages, from the states read at a
connect, and from the ends of executed trajectories.  So a set of values for
each joint that holds all of these holds every target, however the stores of the
bridge and the loads of the controller interleave and wherever the control
process is killed.  The zero vector that a rejected trajectory leaves in
`last_target`, and the zeros of a fresh segment, are never sent.
-/

namespace FrankaKistar
namespace Arm

open Foundation
open Bridge

/-!
## Allowed values
-/

abbrev Targets := Fin armDOF -> ExactDouble -> Prop

namespace Targets

def Pose (allowed : Targets) (q : Joints ExactDouble) : Prop :=
  forall j, allowed j (q j)

/-- The joints before `n` are allowed. -/
def Before (allowed : Targets) (n : Nat) (q : Joints ExactDouble) : Prop :=
  forall i : Fin armDOF, i.val < n -> allowed i (q i)

def Checked (allowed : Targets) (j : Fin armDOF) (x : ExactDouble) : Prop :=
  jointInRange (fun _ => x) j = true -> allowed j x

def Rows (allowed : Targets) (rows : List Waypoint) : Prop :=
  forall r, r ∈ rows -> forall j, allowed j (.finite (r.q j))

def Stored (allowed : Targets) : Store -> Prop
  | .armJTar j x => allowed j x
  | .trajQ _ j x => allowed.Checked j x
  | _ => True

/-- The states that are read and the messages that arrive bring allowed values
only. -/
def Feeds (allowed : Targets) (_ : Split) : LifetimeEvent -> Prop
  | .step (.control (.robotState state)) => allowed.Pose state.q
  | .step (.receive msg) =>
      forall store, store ∈ msg.stores -> allowed.Stored store
  | _ => True

instance (allowed : Targets) [forall j x, Decidable (allowed j x)]
    (store : Store) : Decidable (allowed.Stored store) :=
  match store with
  | .armJTar j x => inferInstanceAs (Decidable (allowed j x))
  | .trajQ _ j x =>
      inferInstanceAs
        (Decidable (jointInRange (fun _ => x) j = true -> allowed j x))
  | .armSpeedFactor _ | .trajLen _ | .trajT _ _ | .trajState _ =>
      isTrue True.intro

instance (allowed : Targets) [forall j x, Decidable (allowed j x)]
    (s : Split) (e : LifetimeEvent) : Decidable (allowed.Feeds s e) :=
  match e with
  | .step (.control (.robotState state)) =>
      inferInstanceAs (Decidable (forall j, allowed j (state.q j)))
  | .step (.receive msg) =>
      inferInstanceAs
        (Decidable (forall store, store ∈ msg.stores -> allowed.Stored store))
  | .step (.control .tick) | .step (.control (.callback _ _))
  | .step (.control .controlReturns) | .step (.control .throws)
  | .step .store | .kill => isTrue True.intro

variable {allowed : Targets} {q : Joints ExactDouble} {n : Nat}

theorem before_zero : allowed.Before 0 q := by
  intro i hi
  cases hi

theorem before_succ {x : ExactDouble} (hn : n < armDOF)
    (hbefore : allowed.Before n q) (hx : allowed ⟨n, hn⟩ x) :
    allowed.Before (n + 1) (Function.update q ⟨n, hn⟩ x) := by
  intro i hi
  by_cases heq : i = ⟨n, hn⟩
  · subst heq
    rw [Function.update_self]
    exact hx
  · rw [Function.update_of_ne heq]
    apply hbefore
    have hne : i.val ≠ n := fun hval => heq (Fin.ext hval)
    omega

theorem before_update {j : Fin armDOF} {x : ExactDouble}
    (hbefore : allowed.Before n q) (hx : allowed j x) :
    allowed.Before n (Function.update q j x) := by
  intro i hi
  by_cases heq : i = j
  · subst heq
    rw [Function.update_self]
    exact hx
  · rw [Function.update_of_ne heq]
    exact hbefore i hi

theorem pose_of_before (hn : ¬ n < armDOF) (h : allowed.Before n q) :
    allowed.Pose q :=
  fun j => h j (Nat.lt_of_lt_of_le j.isLt (Nat.le_of_not_lt hn))

theorem before_of_pose (h : allowed.Pose q) : allowed.Before n q :=
  fun j _ => h j

end Targets

/-- What `sanitizeSpeedFactor` lets through. -/
def SpeedFactorInRange (speed : ExactDouble) : Prop :=
  exists x, speed = .finite x ∧ kMinSpeedFactor ≤ x ∧ x ≤ kMaxSpeedFactor

theorem defaultConfig_inRange : SpeedFactorInRange defaultConfig.speedFactor := by
  refine ⟨kDefaultSpeedFactor, rfl, ?_, ?_⟩
  · norm_num [kMinSpeedFactor, kDefaultSpeedFactor]
  · norm_num [kMaxSpeedFactor, kDefaultSpeedFactor]

theorem sanitizeSpeedFactor_inRange (speed : ExactDouble)
    {fallback : ExactDouble} (h : SpeedFactorInRange fallback) :
    SpeedFactorInRange (sanitizeSpeedFactor speed fallback) := by
  cases speed with
  | finite x =>
      simp only [sanitizeSpeedFactor, ExactDouble.isFinite, if_true,
        ExactDouble.lt_finite, decide_eq_true_eq]
      split_ifs with hlow hhigh
      · exact ⟨_, rfl, le_refl _, by norm_num [kMinSpeedFactor, kMaxSpeedFactor]⟩
      · exact ⟨_, rfl, by norm_num [kMinSpeedFactor, kMaxSpeedFactor], le_refl _⟩
      · exact ⟨x, rfl, not_lt.mp hlow, not_lt.mp hhigh⟩
  | posInf | negInf | nan => exact h

/-!
## What holds at a location
-/

/-- The joints of `Arm_j_tar` that the process has written since it started to
connect. -/
def Loc.synced : Loc -> Nat
  | .connecting | .handler | .retrying => 0
  | .syncPose _ j => j
  | _ => armDOF

def Loc.Allowed (allowed : Targets) : Loc -> Prop
  | .syncPose last _ => allowed.Pose last
  | .copying _ c q j =>
      allowed.Rows c.rows ∧ Targets.Before allowed.Checked j q
  | .executing tr _ | .finishing tr | .storeDone tr | .syncTarget tr _ =>
      allowed.Rows tr.rows
  | .loadTarget _ target j => allowed.Before j target
  | .loadSpeed target => allowed.Pose target
  | .ptpMotion target speed => allowed.Pose target ∧ SpeedFactorInRange speed
  | _ => True

structure ShmAllowed (allowed : Targets) (n : Nat) (shm : Shm) : Prop where
  target : allowed.Before n shm.msgs.armJTar
  rows : forall i j, allowed.Checked j (shm.traj.q i j)

structure CtlAllowed (allowed : Targets) (s : Ctl) : Prop where
  loc : s.loc.Allowed allowed
  shm : ShmAllowed allowed s.loc.synced s.shm

variable {allowed : Targets}

theorem shmAllowed_apply {n : Nat} {store : Store} {shm : Shm}
    (h : ShmAllowed allowed n shm) (hstore : allowed.Stored store) :
    ShmAllowed allowed n (store.apply shm) := by
  cases store with
  | armJTar j x => exact ⟨Targets.before_update h.target hstore, h.rows⟩
  | trajQ i j x =>
      refine ⟨h.target, ?_⟩
      intro i' j'
      show allowed.Checked j'
        (Function.update shm.traj.q i (Function.update (shm.traj.q i) j x) i' j')
      by_cases hi : i' = i
      · subst hi
        rw [Function.update_self]
        by_cases hj : j' = j
        · subst hj
          rw [Function.update_self]
          exact hstore
        · rw [Function.update_of_ne hj]
          exact h.rows i' j'
      · rw [Function.update_of_ne hi]
        exact h.rows i' j'
  | armSpeedFactor | trajLen | trajT | trajState => exact ⟨h.target, h.rows⟩

theorem shmAllowed_zero {n : Nat} {shm : Shm} (h : ShmAllowed allowed n shm) :
    ShmAllowed allowed 0 shm := ⟨Targets.before_zero, h.rows⟩

theorem qLast_allowed {tr : Trajectory} (h : allowed.Rows tr.rows) :
    allowed.Pose tr.qLast := h _ tr.lastRow_mem

theorem rows_accept {c c' : CheckedRows} {q : Joints ExactDouble}
    {t : ExactDouble} (hrows : allowed.Rows c.rows)
    (hq : forall j, allowed.Checked j (q j)) (h : c.accept q t = some c') :
    allowed.Rows c'.rows := by
  rcases accept_rows h with ⟨r, hsnoc, hrow⟩
  have hvalid : validateWaypoint q = true := by
    unfold CheckedRows.accept at h
    split at h
    · rename_i hvalid
      exact hvalid
    · cases h
  rw [hsnoc]
  intro r' hr' j
  rcases List.mem_append.mp hr' with hold | hnew
  · exact hrows r' hold j
  · rw [List.mem_singleton.mp hnew]
    have hvalue : q j = .finite (r.q j) :=
      congrFun (Prod.ext_iff.mp hrow).1.symm j
    rw [← hvalue]
    exact hq j (List.all_eq_true.mp hvalid j (List.mem_finRange j))

theorem finishRow_allowed (len : TrajLen) {c : CheckedRows}
    {q : Joints ExactDouble} (t : ExactDouble) (hrows : allowed.Rows c.rows)
    (hq : forall j, allowed.Checked j (q j)) :
    (finishRow len c q t).Allowed allowed ∧
      (finishRow len c q t).synced = armDOF := by
  unfold finishRow
  split
  · exact ⟨True.intro, rfl⟩
  · rename_i c' haccept
    have hnext := rows_accept hrows hq haccept
    split
    · exact ⟨hnext, rfl⟩
    · exact ⟨⟨hnext, Targets.before_zero⟩, rfl⟩

/-!
## Steps of the controller
-/

theorem allowed_tickStep {cfg : FrankaRightArmConfig} {shm : Shm} {loc : Loc}
    {s' : Ctl} (hcfg : SpeedFactorInRange cfg.speedFactor)
    (hs : CtlAllowed allowed ⟨shm, loc⟩)
    (h : tickStep cfg shm loc = some s') : CtlAllowed allowed s' := by
  have hloc := hs.loc
  have hshm := hs.shm
  cases loc with
  | syncPose last j =>
      simp only [tickStep] at h
      split at h
      · rename_i hj
        cases h
        exact ⟨hloc, Targets.before_succ hj hshm.target (hloc ⟨j, hj⟩),
          hshm.rows⟩
      · rename_i hj
        cases h
        exact ⟨True.intro,
          Targets.before_of_pose (Targets.pose_of_before hj hshm.target),
          hshm.rows⟩
  | checkTrajState last =>
      simp only [tickStep] at h
      split at h <;> cases h <;> exact ⟨True.intro, hshm⟩
  | storeExecuting last =>
      cases h
      exact ⟨True.intro, hshm.target, hshm.rows⟩
  | readTrajState last =>
      simp only [tickStep] at h
      split at h
      · cases h
        exact ⟨True.intro, hshm⟩
      · cases h
        exact ⟨Targets.before_zero, hshm⟩
  | loadLen =>
      simp only [tickStep] at h
      split at h
      · cases h
        exact ⟨True.intro, hshm⟩
      · cases h
        refine ⟨⟨?_, Targets.before_zero⟩, hshm⟩
        intro r hr
        cases hr
  | copying len c q j =>
      simp only [tickStep] at h
      split at h
      · rename_i hj
        cases h
        exact ⟨⟨hloc.1, Targets.before_succ hj hloc.2 (hshm.rows _ _)⟩, hshm⟩
      · rename_i hj
        cases h
        have hfinish := finishRow_allowed len (shm.traj.t c.rows.length)
          hloc.1 (Targets.pose_of_before hj hloc.2)
        refine ⟨hfinish.1, ?_⟩
        show ShmAllowed allowed (finishRow _ _ _ _).synced shm
        rw [hfinish.2]
        exact hshm
  | storeDone tr =>
      cases h
      exact ⟨hloc, hshm.target, hshm.rows⟩
  | syncTarget tr j =>
      simp only [tickStep] at h
      split at h
      · rename_i hj
        cases h
        exact ⟨hloc,
          Targets.before_update hshm.target (qLast_allowed hloc ⟨j, hj⟩),
          hshm.rows⟩
      · cases h
        exact ⟨True.intro, hshm⟩
  | trajCatch =>
      cases h
      exact ⟨True.intro, shmAllowed_zero ⟨hshm.target, hshm.rows⟩⟩
  | loadTarget last target j =>
      simp only [tickStep] at h
      split at h
      · rename_i hj
        cases h
        exact ⟨Targets.before_succ hj hloc (hshm.target ⟨j, hj⟩ hj), hshm⟩
      · rename_i hj
        split at h
        · cases h
          exact ⟨Targets.pose_of_before hj hloc, hshm⟩
        · cases h
          exact ⟨True.intro, hshm⟩
  | loadSpeed target =>
      cases h
      exact ⟨⟨hloc, sanitizeSpeedFactor_inRange _ hcfg⟩, hshm⟩
  | connecting | poll | executing | finishing | afterTrajectory | ptpMotion
  | afterPtp | undefinedBehaviour => cases h
  | storeIdle | storeZeroLen | rejected | sleeping | handler | retrying =>
      cases h
      exact ⟨True.intro, hshm.target, hshm.rows⟩

theorem allowed_controlStep {cfg : FrankaRightArmConfig} {s s' : Ctl}
    {e : ControlEvent} (hcfg : SpeedFactorInRange cfg.speedFactor)
    (hs : CtlAllowed allowed s)
    (hcond : forall state, e = .robotState state -> allowed.Pose state.q)
    (h : controlStep cfg s e = some s') : CtlAllowed allowed s' := by
  rcases s with ⟨shm, loc⟩
  cases e with
  | tick => exact allowed_tickStep hcfg hs h
  | robotState state =>
      have hstate := hcond state rfl
      cases loc with
      | connecting =>
          cases h
          exact ⟨hstate, Targets.before_zero, hs.shm.rows⟩
      | poll | afterTrajectory | afterPtp =>
          cases h
          exact ⟨True.intro, hs.shm.target, hs.shm.rows⟩
      | _ => cases h
  | callback state period =>
      cases loc with
      | executing tr elapsed =>
          simp only [controlStep, callbackStep] at h
          split at h
          · cases h
            exact ⟨True.intro, hs.shm.target, hs.shm.rows⟩
          · cases h
            split_ifs
            · exact ⟨hs.loc, hs.shm.target, hs.shm.rows⟩
            · exact ⟨hs.loc, hs.shm.target, hs.shm.rows⟩
      | _ => cases h
  | controlReturns =>
      rcases Option.map_eq_some_iff.mp h with ⟨next, hnext, rfl⟩
      cases loc with
      | finishing tr =>
          cases hnext
          exact ⟨hs.loc, hs.shm⟩
      | ptpMotion target speed =>
          cases hnext
          exact ⟨True.intro, hs.shm⟩
      | _ => cases hnext
  | throws =>
      rcases Option.map_eq_some_iff.mp h with ⟨next, hnext, rfl⟩
      cases loc with
      | executing | finishing =>
          cases hnext
          exact ⟨True.intro, hs.shm⟩
      | connecting | poll | afterTrajectory | ptpMotion | afterPtp =>
          cases hnext
          exact ⟨True.intro, shmAllowed_zero hs.shm⟩
      | _ => cases hnext

/-!
## Runs
-/

/-- The values in the shared memory, in the controller and in the stores of the
running callback are allowed. -/
structure TargetsInv (allowed : Targets) (s : Split) : Prop where
  ctl : CtlAllowed allowed s.ctl
  outgoing : forall store, store ∈ s.outgoing -> allowed.Stored store

theorem targetsInv_lifetimeStep {cfg : FrankaRightArmConfig} {s s' : Split}
    {e : LifetimeEvent} (hcfg : SpeedFactorInRange cfg.speedFactor)
    (hs : TargetsInv allowed s) (hcond : allowed.Feeds s e)
    (h : lifetimeStep cfg s e = some s') : TargetsInv allowed s' := by
  cases e with
  | kill =>
      cases h
      exact ⟨⟨True.intro, shmAllowed_zero hs.ctl.shm⟩, hs.outgoing⟩
  | step e =>
      cases e with
      | control e =>
          rcases Option.map_eq_some_iff.mp h with ⟨ctl, hctl, rfl⟩
          refine ⟨allowed_controlStep hcfg hs.ctl ?_ hctl, hs.outgoing⟩
          intro state he
          rw [he] at hcond
          exact hcond
      | receive msg =>
          simp only [lifetimeStep, splitStep] at h
          split at h <;> cases h
          exact ⟨hs.ctl, hcond⟩
      | store =>
          simp only [lifetimeStep, splitStep] at h
          split at h
          · cases h
          · rename_i store rest houtgoing
            cases h
            have hin : forall x, x ∈ store :: rest -> allowed.Stored x := by
              rw [← houtgoing]
              exact hs.outgoing
            exact ⟨⟨hs.ctl.loc,
              shmAllowed_apply hs.ctl.shm (hin store List.mem_cons_self)⟩,
              fun x hx => hin x (List.mem_cons_of_mem store hx)⟩

structure MotionAllowed (allowed : Targets) (loc : Loc) : Prop where
  ptp : forall target speed, loc = .ptpMotion target speed ->
    allowed.Pose target ∧ SpeedFactorInRange speed
  trajectory : forall tr elapsed, loc = .executing tr elapsed ->
    allowed.Rows tr.rows

theorem targetsInv_of_run {cfg : FrankaRightArmConfig} {shm : Shm}
    {history : List LifetimeEvent} {s : Split}
    (hcfg : SpeedFactorInRange cfg.speedFactor)
    (hrows : forall i j, allowed.Checked j (shm.traj.q i j))
    (hrun : Machine.RunWhere (lifetimeStep cfg) allowed.Feeds
      (Split.fresh shm) history s) : TargetsInv allowed s := by
  refine Machine.invariant_of_step ?_ ?_ hrun
  · intro t e t' ht hcond hstep
    exact targetsInv_lifetimeStep hcfg ht hcond hstep
  · refine ⟨⟨True.intro, Targets.before_zero, hrows⟩, ?_⟩
    intro store hstore
    cases hstore

theorem motionAllowed_of_ctlAllowed {s : Ctl} (h : CtlAllowed allowed s) :
    MotionAllowed allowed s.loc := by
  have hloc := h.loc
  constructor
  · intro target speed heq
    rw [heq] at hloc
    exact hloc
  · intro tr elapsed heq
    rw [heq] at hloc
    exact hloc

/-- In every run that is fed allowed values, every motion is started with
allowed values and with a speed in the range of the controller. -/
theorem motions_of_run {cfg : FrankaRightArmConfig} {shm : Shm}
    {history : List LifetimeEvent} {s : Split}
    (hcfg : SpeedFactorInRange cfg.speedFactor)
    (hrows : forall i j, allowed.Checked j (shm.traj.q i j))
    (hrun : Machine.RunWhere (lifetimeStep cfg) allowed.Feeds
      (Split.fresh shm) history s) : MotionAllowed allowed s.ctl.loc :=
  motionAllowed_of_ctlAllowed (targetsInv_of_run hcfg hrows hrun).ctl

/-!
The torn motion of two targets, within 1 rad of zero.
-/

def withinOne : Targets := fun _ x =>
  x.isFinite = true ∧ -1 ≤ x.toRat ∧ x.toRat ≤ 1

instance (j : Fin armDOF) (x : ExactDouble) : Decidable (withinOne j x) :=
  inferInstanceAs
    (Decidable (x.isFinite = true ∧ -1 ≤ x.toRat ∧ x.toRat ≤ 1))

theorem motions_tornMotion :
    exists s : Split, s.ctl.loc.ptpTarget?.isSome = true ∧
      MotionAllowed withinOne s.ctl.loc := by
  have hrun : (((lifetimeStep defaultConfig).guarded withinOne.Feeds).runFrom
      (Split.fresh ⟨SHMmsgs.zero, ArmTrajBuf.zero⟩)
      (tornMotion.map LifetimeEvent.step)).any
        (fun s => s.ctl.loc.ptpTarget?.isSome) = true := by
    decide +kernel
  have hrows : forall (i : Nat) (j : Fin armDOF),
      withinOne.Checked j (ArmTrajBuf.zero.q i j) := by
    intro i j _
    refine ⟨rfl, ?_, ?_⟩
    · show (-1 : ℚ) ≤ 0
      norm_num
    · show (0 : ℚ) ≤ 1
      norm_num
  rcases Machine.exists_runWhere_of_any hrun with ⟨s, hs, hptp⟩
  exact ⟨s, hptp, motions_of_run defaultConfig_inRange hrows hs⟩

/-!
## Runs without trajectories

A thread that never finds `ARM_TRAJ_PENDING` moves the arm by PtoP motions only.
-/

/-- The thread neither follows a trajectory nor is about to. -/
def Loc.quiet : Loc -> Bool
  | .storeExecuting _ => false
  | loc => !loc.follows

structure Quiet (s : Split) : Prop where
  loc : s.ctl.loc.quiet = true
  state : s.ctl.shm.traj.state ≠ .pending
  outgoing : s.outgoing.any Store.writesTraj = false

theorem quiet_fresh {shm : Shm} (h : shm.traj.state ≠ .pending) :
    Quiet (Split.fresh shm) := ⟨rfl, h, rfl⟩

theorem Loc.not_follows_of_quiet {loc : Loc} (h : loc.quiet = true) :
    loc.follows = false := by
  cases loc <;> first | rfl | cases h

theorem quiet_tickStep {cfg : FrankaRightArmConfig} {shm : Shm} {loc : Loc}
    {s' : Ctl} (hquiet : loc.quiet = true) (hstate : shm.traj.state ≠ .pending)
    (h : tickStep cfg shm loc = some s') :
    s'.loc.quiet = true ∧ s'.shm.traj.state ≠ .pending := by
  cases loc with
  | syncPose | checkTrajState | syncTarget =>
      simp only [tickStep] at h
      split at h <;> cases h <;> exact ⟨rfl, hstate⟩
  | readTrajState last =>
      simp only [tickStep, if_neg hstate] at h
      cases h
      exact ⟨rfl, hstate⟩
  | loadTarget last target j =>
      simp only [tickStep] at h
      split at h
      · cases h
        exact ⟨rfl, hstate⟩
      · split at h <;> cases h <;> exact ⟨rfl, hstate⟩
  | storeIdle | handler =>
      cases h
      refine ⟨rfl, ?_⟩
      intro hpending
      cases hpending
  | storeZeroLen | loadSpeed | sleeping | retrying =>
      cases h
      exact ⟨rfl, hstate⟩
  | connecting | poll | afterTrajectory | ptpMotion | afterPtp => cases h
  | storeExecuting | loadLen | copying | rejected | executing | finishing
  | storeDone | trajCatch | undefinedBehaviour => cases hquiet

theorem quiet_controlStep {cfg : FrankaRightArmConfig} {s s' : Ctl}
    {e : ControlEvent} (hquiet : s.loc.quiet = true)
    (hstate : s.shm.traj.state ≠ .pending)
    (h : controlStep cfg s e = some s') :
    s'.loc.quiet = true ∧ s'.shm.traj.state ≠ .pending := by
  rcases s with ⟨shm, loc⟩
  cases e with
  | tick => exact quiet_tickStep hquiet hstate h
  | robotState state =>
      cases loc with
      | connecting | poll | afterTrajectory | afterPtp =>
          cases h
          exact ⟨rfl, hstate⟩
      | _ => cases h
  | callback state period =>
      cases loc with
      | executing => cases hquiet
      | _ => cases h
  | controlReturns =>
      rcases Option.map_eq_some_iff.mp h with ⟨next, hnext, rfl⟩
      cases loc with
      | finishing => cases hquiet
      | ptpMotion =>
          cases hnext
          exact ⟨rfl, hstate⟩
      | _ => cases hnext
  | throws =>
      rcases Option.map_eq_some_iff.mp h with ⟨next, hnext, rfl⟩
      cases loc with
      | executing | finishing => cases hquiet
      | connecting | poll | afterTrajectory | ptpMotion | afterPtp =>
          cases hnext
          exact ⟨rfl, hstate⟩
      | _ => cases hnext

theorem quiet_lifetimeStep {cfg : FrankaRightArmConfig} {s s' : Split}
    {e : LifetimeEvent} (hs : Quiet s)
    (hmsg : forall msg, e = .step (.receive msg) ->
      msg.stores.any Store.writesTraj = false)
    (h : lifetimeStep cfg s e = some s') : Quiet s' := by
  cases e with
  | kill =>
      cases h
      exact ⟨rfl, hs.state, hs.outgoing⟩
  | step e =>
      cases e with
      | control e =>
          rcases Option.map_eq_some_iff.mp h with ⟨ctl, hctl, rfl⟩
          have hnext := quiet_controlStep hs.loc hs.state hctl
          exact ⟨hnext.1, hnext.2, hs.outgoing⟩
      | receive msg =>
          simp only [lifetimeStep, splitStep] at h
          split at h <;> cases h
          exact ⟨hs.loc, hs.state, hmsg msg rfl⟩
      | store =>
          simp only [lifetimeStep, splitStep] at h
          split at h
          · cases h
          · rename_i store rest houtgoing
            cases h
            have hwrites := hs.outgoing
            rw [houtgoing, List.any_cons, Bool.or_eq_false_iff] at hwrites
            refine ⟨hs.loc, ?_, hwrites.2⟩
            have hkeep : [store].any Store.writesTraj = false := by
              rw [List.any_cons, hwrites.1]
              rfl
            show (applyStores [store] s.ctl.shm).traj.state ≠ .pending
            rw [applyStores_of_not_writesTraj hkeep]
            exact hs.state

/-!
## The pose that is reported
-/

def LifetimeEvent.state? : LifetimeEvent -> Option RobotState
  | .step (.control (.robotState state)) => some state
  | .step (.control (.callback state _)) => some state
  | _ => none

theorem armJPos_tickStep {cfg : FrankaRightArmConfig} {shm : Shm} {loc : Loc}
    {s' : Ctl} (h : tickStep cfg shm loc = some s') :
    s'.shm.msgs.armJPos = shm.msgs.armJPos := by
  cases loc with
  | syncPose | checkTrajState | readTrajState | loadLen | copying
  | syncTarget =>
      simp only [tickStep] at h
      split at h <;> cases h <;> rfl
  | loadTarget last target j =>
      simp only [tickStep] at h
      split at h
      · cases h
        rfl
      · split at h <;> cases h <;> rfl
  | connecting | poll | executing | finishing | afterTrajectory | ptpMotion
  | afterPtp | undefinedBehaviour => cases h
  | storeIdle | storeZeroLen | storeExecuting | rejected | storeDone | trajCatch
  | loadSpeed | sleeping | handler | retrying =>
      cases h
      rfl

theorem armJPos_lifetimeStep {cfg : FrankaRightArmConfig} {s s' : Split}
    {e : LifetimeEvent} (h : lifetimeStep cfg s e = some s') :
    s'.ctl.shm.msgs.armJPos = s.ctl.shm.msgs.armJPos ∨
      exists state, e.state? = some state ∧
        s'.ctl.shm.msgs.armJPos = state.q := by
  cases e with
  | kill =>
      cases h
      exact Or.inl rfl
  | step e =>
      cases e with
      | control e =>
          rcases Option.map_eq_some_iff.mp h with ⟨ctl, hctl, rfl⟩
          rcases s with ⟨⟨shm, loc⟩, outgoing⟩
          cases e with
          | tick => exact Or.inl (armJPos_tickStep hctl)
          | robotState state =>
              refine Or.inr ⟨state, rfl, ?_⟩
              cases loc <;> cases hctl <;> rfl
          | callback state period =>
              refine Or.inr ⟨state, rfl, ?_⟩
              cases loc with
              | executing tr elapsed =>
                  simp only [controlStep, callbackStep] at hctl
                  split at hctl <;> cases hctl <;> rfl
              | _ => cases hctl
          | controlReturns | throws =>
              rcases Option.map_eq_some_iff.mp hctl with ⟨loc', _, rfl⟩
              exact Or.inl rfl
      | receive msg =>
          simp only [lifetimeStep, splitStep] at h
          split at h <;> cases h
          exact Or.inl rfl
      | store =>
          simp only [lifetimeStep, splitStep] at h
          split at h
          · cases h
          · rename_i store rest houtgoing
            cases h
            cases store <;> exact Or.inl rfl

end Arm
end FrankaKistar
