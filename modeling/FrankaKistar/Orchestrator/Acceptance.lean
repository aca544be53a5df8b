import FrankaKistar.Orchestrator.Checked
import FrankaKistar.Orchestrator.EndPose

/-!
# Accepted goals are executed without an exception

`_goal_callback` looks at a goal with `_validate_follow_joint_goal`, and
`_execute_follow_joint` normalises it with the same expected names and runs it.
What the check lets through is normalised, timed and interpolated without an
exception at any rate, and the normalised trajectory is its own normal form.
-/

namespace FrankaKistar
namespace Orchestrator

open Foundation

/-!
## `_run_trajectory`
-/

/-- What leaves `_run_trajectory` with an exception: one of the calls, `int` of
a number of samples that is not a number, or a sleep that is refused. -/
inductive RunError where
  | duration (e : PyError Empty)
  | sampleCount
  | interp (e : PyError InterpError)
  | sleep

structure TrajRun where
  targets : List (List ExactDouble)
  error : Option RunError

def TrajRun.after (q : List ExactDouble) (run : TrajRun) : TrajRun :=
  { run with targets := q :: run.targets }

namespace Checked

/-- `_interp_traj(traj, T * (i / n))` -/
def sample (traj : JointTrajectory) (duration : ℚ) (n i : Nat) :
    Except (PyError InterpError) (List ExactDouble) := do
  let part <- divide (i : ℚ) (n : ℚ)
  interpTraj traj (duration * part)

/-- The loop over the samples that are left, and the closing publish.  `abort`
tells what `hold_franka` publishes when the event is seen at a sample. -/
def runSamples (traj : JointTrajectory) (duration : ℚ) (hz : ExactDouble)
    (n : Nat) (abort : Nat -> Option (Joints ExactDouble)) :
    List Nat -> TrajRun
  | [] =>
      match interpTraj traj duration with
      | .error e => ⟨[], some (.interp e)⟩
      | .ok q => ⟨[q], none⟩
  | i :: rest =>
      match abort i with
      | some held => ⟨[List.ofFn held], none⟩
      | none =>
          match sample traj duration n i with
          | .error e => ⟨[], some (.interp e)⟩
          | .ok q =>
              if canSleep (period hz) then
                (runSamples traj duration hz n abort rest).after q
              else ⟨[q], some .sleep⟩

def runTrajectory (traj : JointTrajectory) (hz : ExactDouble)
    (abort : Nat -> Option (Joints ExactDouble)) : TrajRun :=
  match trajDuration traj with
  | .error e => ⟨[], some (.duration e)⟩
  | .ok duration =>
      match trajSteps duration hz with
      | none => ⟨[], some .sampleCount⟩
      | some n =>
          runSamples traj duration hz n abort (List.range (n + 1))

end Checked

/-!
## What acceptance promises
-/

/-- No exception comes from the duration or from the interpolation, and every
target has seven values. -/
structure TrajRun.Sound (run : TrajRun) : Prop where
  duration : forall e, run.error ≠ some (.duration e)
  interp : forall e, run.error ≠ some (.interp e)
  targets : forall q, q ∈ run.targets -> q.length = armDOF

/-- Normalised, the trajectory runs at every rate and under every abort, and
normalising it once more changes nothing. -/
def Executes (traj : JointTrajectory) (expected : List String) : Prop :=
  exists norm, Checked.normalizeTrajectoryForArm traj expected = .ok norm ∧
    (forall hz abort, (Checked.runTrajectory norm hz abort).Sound) ∧
    Checked.normalizeTrajectoryForArm norm expected = .ok norm

/-!
## Runs
-/

theorem exists_checked_sample {traj : JointTrajectory} (h : FullPoints traj)
    (t : ℚ) :
    exists q, Checked.interpTraj traj t = .ok q ∧ q.length = armDOF := by
  rcases exists_interpTraj h t with ⟨q, hq⟩
  refine ⟨List.ofFn q, ?_, List.length_ofFn⟩
  rw [Checked.interpTraj_eq, hq]
  rfl

theorem exists_sample {traj : JointTrajectory} (h : FullPoints traj)
    (duration : ℚ) {n : Nat} (hn : n ≠ 0) (i : Nat) :
    exists q, Checked.sample traj duration n i = .ok q ∧
      q.length = armDOF := by
  unfold Checked.sample
  rw [divide_of_ne (Nat.cast_ne_zero.mpr hn)]
  exact exists_checked_sample h _

theorem TrajRun.Sound.after {run : TrajRun} (h : run.Sound)
    {q : List ExactDouble} (hq : q.length = armDOF) :
    (run.after q).Sound where
  duration := h.duration
  interp := h.interp
  targets p hp := by
    rcases List.mem_cons.mp hp with heq | hrest
    · rw [heq, hq]
    · exact h.targets p hrest

/-- One target, and no exception but that of a sleep. -/
theorem sound_single {q : List ExactDouble} (hq : q.length = armDOF)
    {error : Option RunError} (herror : error = none ∨ error = some .sleep) :
    (TrajRun.mk [q] error).Sound := by
  constructor
  · intro e
    rcases herror with rfl | rfl <;> nofun
  · intro e
    rcases herror with rfl | rfl <;> nofun
  · intro p hp
    rw [List.mem_singleton.mp hp, hq]

theorem runSamples_sound {traj : JointTrajectory} (h : FullPoints traj)
    (duration : ℚ) (hz : ExactDouble) {n : Nat} (hn : n ≠ 0)
    (abort : Nat -> Option (Joints ExactDouble)) (indices : List Nat) :
    (Checked.runSamples traj duration hz n abort indices).Sound := by
  induction indices with
  | nil =>
      rcases exists_checked_sample h duration with ⟨q, hq, hlength⟩
      rw [Checked.runSamples, hq]
      exact sound_single hlength (Or.inl rfl)
  | cons i rest ih =>
      rw [Checked.runSamples]
      cases abort i with
      | some held => exact sound_single List.length_ofFn (Or.inl rfl)
      | none =>
          rcases exists_sample h duration hn i with ⟨q, hq, hlength⟩
          rw [hq]
          simp only
          split
          · exact ih.after hlength
          · exact sound_single hlength (Or.inr rfl)

/-- At least two samples are taken. -/
theorem trajSteps_ne_zero {duration : ℚ} {hz : ExactDouble} {n : Nat}
    (h : trajSteps duration hz = some n) : n ≠ 0 := by
  rcases Option.map_eq_some_iff.mp h with ⟨count, _, rfl⟩
  omega

theorem runTrajectory_sound {traj : JointTrajectory} (h : FullPoints traj)
    (hz : ExactDouble) (abort : Nat -> Option (Joints ExactDouble)) :
    (Checked.runTrajectory traj hz abort).Sound := by
  unfold Checked.runTrajectory
  rw [Checked.trajDuration_eq]
  simp only
  split
  · exact ⟨nofun, nofun, nofun⟩
  · rename_i n hsteps
    exact runSamples_sound h _ hz (trajSteps_ne_zero hsteps) abort _

/-!
## The sampling loop of the sequence

Taken step by step while the event is clear, the locations of the sequence in
`_run_trajectory` publish what `Checked.runTrajectory` publishes.
-/

def published (calls : List IoCall) : List (List ExactDouble) :=
  (calls.filterMap IoCall.target).reverse.map List.ofFn

theorem published_record_franka (q : Joints ExactDouble) (speed : ExactDouble)
    (calls : List IoCall) :
    published (record (some (.publishFranka q speed)) calls) =
      published calls ++ [List.ofFn q] := by
  simp [published, record, IoCall.target]

def SeqLoc.sampleCount : SeqLoc -> Option Nat
  | .trajCheck n _ => some n
  | .trajPublish n _ => some n
  | .trajSleep n _ => some n
  | _ => none

section Sampled

variable (p : SequenceParams) (traj : JointTrajectory)

def runTargets : List (List ExactDouble) :=
  (Checked.runTrajectory traj p.trajHz fun _ => none).targets

def sampleTargets (n : Nat) (indices : List Nat) : List (List ExactDouble) :=
  (Checked.runSamples traj (trajDuration traj) p.trajHz n (fun _ => none)
    indices).targets

def targetsFrom : SeqLoc -> List (List ExactDouble)
  | .trajStart => runTargets p traj
  | .trajCheck n i => sampleTargets p traj n (i :: List.range' (i + 1) (n - i))
  | .trajPublish n i =>
      sampleTargets p traj n (i :: List.range' (i + 1) (n - i))
  | .trajSleep n i =>
      if canSleep (period p.trajHz) then
        sampleTargets p traj n (List.range' (i + 1) (n - i))
      else []
  | .trajLast => sampleTargets p traj 0 []
  | _ => []

/-- What was published and what is left make up the whole run. -/
structure SamplesLeft (s : Sampling) : Prop where
  inside : s.loc.isSampling = true
  count : forall n, s.loc.sampleCount = some n -> n ≠ 0
  targets : published s.calls ++ targetsFrom p traj s.loc = runTargets p traj

variable {p traj}

theorem runTargets_eq :
    runTargets p traj =
      match trajSteps (trajDuration traj) p.trajHz with
      | none => []
      | some n => targetsFrom p traj (.trajCheck n 0) := by
  unfold runTargets Checked.runTrajectory
  rw [Checked.trajDuration_eq]
  cases hsteps : trajSteps (trajDuration traj) p.trajHz with
  | none => simp only [hsteps]
  | some n =>
      simp only [hsteps]
      rw [List.range_eq_range', List.range'_succ]
      rfl

theorem sample_eq (traj : JointTrajectory) (duration : ℚ) {n : Nat}
    (hn : n ≠ 0) (i : Nat) :
    Checked.sample traj duration n i =
      raising ((interpTraj traj (duration * (i / n))).map List.ofFn) := by
  unfold Checked.sample
  rw [divide_of_ne (Nat.cast_ne_zero.mpr hn)]
  exact Checked.interpTraj_eq traj _

theorem sampleTargets_last (n : Nat) :
    sampleTargets p traj n [] =
      match interpTraj traj (trajDuration traj) with
      | .error _ => []
      | .ok q => [List.ofFn q] := by
  unfold sampleTargets
  rw [Checked.runSamples, Checked.interpTraj_eq]
  cases interpTraj traj (trajDuration traj) <;> rfl

theorem sampleTargets_cons {n : Nat} (hn : n ≠ 0) (i : Nat)
    (rest : List Nat) :
    sampleTargets p traj n (i :: rest) =
      match interpTraj traj (trajDuration traj * (i / n)) with
      | .error _ => []
      | .ok q =>
          List.ofFn q ::
            if canSleep (period p.trajHz) then sampleTargets p traj n rest
            else [] := by
  unfold sampleTargets
  rw [Checked.runSamples, sample_eq traj _ hn]
  cases interpTraj traj (trajDuration traj * (i / n)) with
  | error e => rfl
  | ok q =>
      cases canSleep (period p.trajHz) <;> rfl

theorem samplesLeft_start : SamplesLeft p traj .start :=
  ⟨rfl, nofun, rfl⟩

theorem samplesLeft_step {s s' : Sampling} {view : View}
    (hs : SamplesLeft p traj s)
    (hstep : samplingStep p traj s view = some s') :
    SamplesLeft p traj s' := by
  unfold samplingStep at hstep
  split at hstep
  · cases hstep
  · rename_i hdone
    rcases Option.map_eq_some_iff.mp hstep with ⟨next, hseq, heq⟩
    rw [<- heq]
    have hinside := hs.inside
    have hcount := hs.count
    have htargets := hs.targets
    cases hloc : s.loc with
    | trajStart =>
        rw [hloc] at hseq htargets
        cases hseq
        rw [targetsFrom] at htargets
        nth_rewrite 1 [runTargets_eq] at htargets
        cases hsteps : trajSteps (trajDuration traj) p.trajHz with
        | none =>
            rw [hsteps] at htargets
            exact ⟨rfl, nofun, htargets⟩
        | some n =>
            rw [hsteps] at htargets
            refine ⟨rfl, ?_, htargets⟩
            intro m hm
            cases hm
            exact trajSteps_ne_zero hsteps
    | trajCheck n i =>
        rw [hloc] at hseq hcount htargets
        cases hseq
        exact ⟨rfl, hcount, htargets⟩
    | trajPublish n i =>
        rw [hloc] at hseq hcount htargets
        have hn := hcount n rfl
        have hsample := Option.some.inj hseq
        rw [targetsFrom, sampleTargets_cons hn] at htargets
        unfold publishSample at hsample
        cases hq : interpTraj traj (trajDuration traj * (i / n)) with
        | error e =>
            rw [hq] at hsample htargets
            cases hsample
            exact ⟨rfl, nofun, htargets⟩
        | ok q =>
            rw [hq] at hsample htargets
            cases hsample
            refine ⟨rfl, hcount, ?_⟩
            rw [published_record_franka, List.append_assoc]
            exact htargets
    | trajSleep n i =>
        rw [hloc] at hseq hcount htargets
        cases hseq
        rw [targetsFrom] at htargets
        cases hsleep : canSleep (period p.trajHz) with
        | false =>
            rw [hsleep] at htargets
            exact ⟨rfl, nofun, htargets⟩
        | true =>
            rw [hsleep, if_pos rfl] at htargets
            by_cases hi : i < n
            · simp only [Bool.true_eq_false, if_false, if_pos hi]
              refine ⟨rfl, hcount, ?_⟩
              rw [show n - i = n - (i + 1) + 1 by omega, List.range'_succ]
                at htargets
              exact htargets
            · simp only [Bool.true_eq_false, if_false, if_neg hi]
              refine ⟨rfl, nofun, ?_⟩
              rw [Nat.sub_eq_zero_of_le (Nat.not_lt.mp hi), List.range'_zero,
                sampleTargets_last] at htargets
              rw [targetsFrom, sampleTargets_last]
              exact htargets
    | trajLast =>
        rw [hloc] at hseq htargets
        have hsample := Option.some.inj hseq
        rw [targetsFrom, sampleTargets_last] at htargets
        unfold publishSample at hsample
        cases hq : interpTraj traj (trajDuration traj) with
        | error e =>
            rw [hq] at hsample htargets
            cases hsample
            exact ⟨rfl, nofun, htargets⟩
        | ok q =>
            rw [hq] at hsample htargets
            cases hsample
            refine ⟨rfl, nofun, ?_⟩
            rw [published_record_franka, List.append_assoc]
            exact htargets
    | trajDone =>
        rw [hloc] at hdone
        exact absurd rfl hdone
    | raised =>
        rw [hloc] at hseq
        cases hseq
    | _ =>
        rw [hloc] at hinside
        cases hinside

theorem samplesLeft_of_run {history : List View} {s : Sampling}
    (hrun : Machine.Run (samplingStep p traj) .start history s) :
    SamplesLeft p traj s :=
  Machine.invariant_of_step (fun _ _ _ hs _ => samplesLeft_step hs)
    samplesLeft_start hrun

theorem published_prefix_of_run {history : List View} {s : Sampling}
    (hrun : Machine.Run (samplingStep p traj) .start history s) :
    published s.calls <+: runTargets p traj :=
  ⟨_, (samplesLeft_of_run hrun).targets⟩

theorem published_of_run {history : List View} {s : Sampling}
    (hrun : Machine.Run (samplingStep p traj) .start history s)
    (hdone : s.loc = .trajDone) : published s.calls = runTargets p traj := by
  have htargets := (samplesLeft_of_run hrun).targets
  rw [hdone] at htargets
  exact (List.append_nil _).symm.trans htargets

end Sampled

/-!
## The normal form
-/

/-- Looking every name up in the list of the names gives the list back, also
when names are repeated. -/
theorem map_getD_idxOf (names : List String) (f : String -> ExactDouble)
    (default : ExactDouble) :
    (names.map fun name => (names.map f).getD (names.idxOf name) default) =
      names.map f := by
  apply List.map_congr_left
  intro name hname
  have hlt : names.idxOf name < names.length :=
    List.idxOf_lt_length_of_mem hname
  have hlt' : names.idxOf name < (names.map f).length := by
    rw [List.length_map]
    exact hlt
  rw [List.getD_eq_getElem _ _ hlt', List.getElem_map, List.getElem_idxOf hlt]

def indicesIn (expected names : List String) : List Nat :=
  expected.map fun exp => names.idxOf exp

theorem pick_again (expected names : List String) (values : List ExactDouble) :
    pick (indicesIn expected expected) (pick (indicesIn expected names) values) =
      pick (indicesIn expected names) values := by
  simp only [pick, indicesIn, List.map_map]
  exact map_getD_idxOf expected _ _

theorem pickIfFull_again {expected : List String}
    (hlength : expected.length = armDOF) (names : List String)
    (values : List ExactDouble) :
    pickIfFull (indicesIn expected expected)
        (pickIfFull (indicesIn expected names) values) =
      pickIfFull (indicesIn expected names) values := by
  have hpicked : (pick (indicesIn expected names) values).length = armDOF := by
    rw [pick, indicesIn, List.length_map, List.length_map, hlength]
  by_cases hfull : armDOF ≤ values.length
  · unfold pickIfFull
    rw [if_pos hfull, if_pos (le_of_eq hpicked.symm)]
    exact pick_again expected names values
  · unfold pickIfFull
    rw [if_neg hfull]
    rfl

theorem normalizePoint_again {expected : List String}
    (hlength : expected.length = armDOF) (names : List String)
    (pt : JointTrajectoryPoint) :
    normalizePoint (indicesIn expected expected)
        (normalizePoint (indicesIn expected names) pt) =
      normalizePoint (indicesIn expected names) pt := by
  unfold normalizePoint
  simp only [pick_again, pickIfFull_again hlength]

theorem indexMap_of_mem {names : List String} {expected : List String}
    (h : forall exp, exp ∈ expected -> exp ∈ names) :
    indexMap names expected = .ok (indicesIn expected names) := by
  induction expected with
  | nil => rfl
  | cons exp rest ih =>
      rw [indexMap, if_pos (h exp List.mem_cons_self),
        ih fun name hname => h name (List.mem_cons_of_mem exp hname)]
      rfl

theorem firstShort_of_long {pts : List JointTrajectoryPoint}
    (h : forall pt, pt ∈ pts -> armDOF ≤ pt.positions.length) :
    firstShort 0 pts = none := by
  cases hshort : firstShort 0 pts with
  | none => rfl
  | some short =>
      rcases exists_short_of_firstShort (Option.isSome_of_eq_some hshort) with
        ⟨pt, hpt, hlt⟩
      exact absurd (h pt hpt) (Nat.not_le.mpr hlt)

theorem normalize_of_normal {norm : JointTrajectory} {expected : List String}
    (hfull : FullPoints norm) (hlength : expected.length = armDOF)
    (hnames : norm.jointNames = expected)
    (hpoints : forall pt, pt ∈ norm.points ->
      normalizePoint (indicesIn expected expected) pt = pt) :
    normalizeTrajectoryForArm norm expected = .ok norm := by
  have hne : expected ≠ [] := by
    intro hnil
    rw [hnil] at hlength
    cases hlength
  unfold normalizeTrajectoryForArm
  rw [if_neg hfull.nonempty, if_neg hne, if_neg (by rw [hnames]; exact hne),
    if_neg (by rw [hnames, hlength]; exact not_not.mpr rfl), hnames,
    indexMap_of_mem fun _ hexp => hexp]
  show reorder norm expected _ = _
  unfold reorder
  rw [if_neg (by rw [firstShort_of_long hfull.length]; exact nofun)]
  have hmap : norm.points.map (normalizePoint (indicesIn expected expected)) =
      norm.points :=
    (List.map_congr_left hpoints).trans (List.map_id norm.points)
  cases norm with
  | mk names points size =>
      simp only at hmap hnames
      simp only [hmap, hnames]

theorem normalize_again {msg norm : JointTrajectory} {expected : List String}
    (hexpected : expected = [] ∨ expected.length = armDOF)
    (hpoints : msg.points ≠ [])
    (h : normalizeTrajectoryForArm msg expected = .ok norm) :
    normalizeTrajectoryForArm norm expected = .ok norm := by
  have hfull := fullPoints_of_normalize hexpected hpoints h
  rcases (normalize_eq_ok h hpoints).right with
    ⟨_, hkept⟩ | ⟨hnamed, _, _, hnames, hrows⟩
  · rw [hkept] at h ⊢
    exact h
  · have hlength := hexpected.resolve_left hnamed
    refine normalize_of_normal hfull hlength hnames ?_
    intro pt hpt
    rw [hrows] at hpt
    rcases List.mem_map.mp hpt with ⟨old, _, rfl⟩
    exact normalizePoint_again hlength msg.jointNames old

/-!
## Acceptance
-/

theorem exists_normalize_of_validate {msg : JointTrajectory}
    {expected : List String} (h : validateFollowJointGoal msg expected = .ok ()) :
    exists norm, normalizeTrajectoryForArm msg expected = .ok norm := by
  rw [validateFollowJointGoal, if_neg (points_of_validate h)] at h
  split at h
  · cases h
  · split at h
    · cases h
    · exact ⟨_, by assumption⟩

theorem executes_of_accepted {msg : JointTrajectory} {expected : List String}
    (hexpected : expected = [] ∨ expected.length = armDOF)
    (h : Checked.validateFollowJointGoal msg expected = .ok (.ok ())) :
    Executes msg expected := by
  rw [Checked.validateFollowJointGoal_eq] at h
  have hvalid := Except.ok.inj h
  have hpoints := points_of_validate hvalid
  rcases exists_normalize_of_validate hvalid with ⟨norm, hnorm⟩
  have hagain := normalize_again hexpected hpoints hnorm
  refine ⟨norm, ?_, ?_, ?_⟩
  · rw [Checked.normalizeTrajectoryForArm_eq, hnorm]
    rfl
  · exact runTrajectory_sound (fullPoints_of_normalize hexpected hpoints hnorm)
  · rw [Checked.normalizeTrajectoryForArm_eq, hagain]
    rfl

/-- The same motion with the joints named from the last to the first. -/
def namedGoal : JointTrajectory where
  jointNames := defaultJointNamesFr3.reverse
  points := movingGoal.points.map fun point =>
    { point with positions := point.positions.reverse }

theorem executes_namedGoal : Executes namedGoal defaultJointNamesFr3 :=
  executes_of_accepted (Or.inr rfl) rfl

end Orchestrator
end FrankaKistar
