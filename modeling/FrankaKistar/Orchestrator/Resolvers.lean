import FrankaKistar.Bridge.Carried
import FrankaKistar.Orchestrator.Trajectory

/-!
# The two joint-name resolvers

`_normalize_trajectory_for_arm` looks up each expected name in the names of the
message; `on_franka_trajectory` searches the names for each joint and falls back
to positions.  On a message that the first accepts with the `fr3` names, the
second stores the same rows before and after the normalisation.
-/

namespace FrankaKistar
namespace Orchestrator

open Foundation
open Bridge

/-- `DEFAULT_JOINT_NAMES_FR3` -/
def defaultJointNamesFr3 : List String :=
  [ "fr3_joint1", "fr3_joint2", "fr3_joint3", "fr3_joint4", "fr3_joint5",
    "fr3_joint6", "fr3_joint7" ]

theorem defaultJointNamesFr3_eq :
    defaultJointNamesFr3 = (List.finRange armDOF).map kJointOrder := rfl

theorem sourceIndex_fr3 (j : Fin armDOF) :
    sourceIndex defaultJointNamesFr3 j = j.val := by
  revert j
  decide

/-- `idx_map` when all the `fr3` names are found. -/
def fr3Indices (names : List String) : List Nat :=
  defaultJointNamesFr3.map fun exp => names.idxOf exp

/-- What `on_franka_trajectory` leaves is the same for both messages, and the
second holds the stored values in joint order. -/
structure ResolversAgree (msg norm : JointTrajectory) (shm : Shm) : Prop where
  buffer : (onFrankaTrajectory msg shm).traj = (onFrankaTrajectory norm shm).traj
  length : norm.points.length = msg.points.length
  stored : forall (i : Nat) (pt : JointTrajectoryPoint),
    norm.points[i]? = some pt -> forall j : Fin armDOF,
      pt.positions[j.val]? = some ((onFrankaTrajectory msg shm).traj.q i j)

/-!
## Messages with the same rows
-/

theorem rowsStores_congr {names names' : List String} (i : Nat)
    {pts pts' : List JointTrajectoryPoint}
    (h : pts.map (messageRow names) = pts'.map (messageRow names')) :
    rowsStores names i pts = rowsStores names' i pts' := by
  induction pts generalizing i pts' with
  | nil =>
      cases pts' with
      | nil => rfl
      | cons pt' rest' => cases h
  | cons pt rest ih =>
      cases pts' with
      | nil => cases h
      | cons pt' rest' =>
          rw [List.map_cons, List.map_cons, List.cons.injEq] at h
          have hq := congrArg Prod.fst h.left
          have ht := congrArg Prod.snd h.left
          simp only [messageRow] at hq ht
          rw [rowsStores, rowsStores, rowStores, rowStores, ih (i + 1) h.right,
            ht]
          simp only [congrFun hq]

theorem trajectoryStores_congr {msg msg' : JointTrajectory}
    (h : messageRows msg = messageRows msg') :
    trajectoryStores msg = trajectoryStores msg' := by
  have hlength : msg.points.length = msg'.points.length := by
    have hrows := congrArg List.length h
    simpa [messageRows] using hrows
  by_cases haccept :
      0 < msg.points.length ∧ msg.points.length ≤ armTrajMaxPts
  · have haccept' := haccept
    rw [hlength] at haccept'
    rw [trajectoryStores_of_length haccept.left haccept.right,
      trajectoryStores_of_length haccept'.left haccept'.right, hlength,
      rowsStores_congr 0 h]
  · have hrefuse := haccept
    rw [hlength] at hrefuse
    rw [trajectoryStores_eq_none haccept, trajectoryStores_eq_none hrefuse]

/-!
## The normalisation
-/

theorem length_of_firstShort {i : Nat} {pts : List JointTrajectoryPoint}
    (h : firstShort i pts = none) :
    forall pt, pt ∈ pts -> armDOF ≤ pt.positions.length := by
  induction pts generalizing i with
  | nil => nofun
  | cons head rest ih =>
      rw [firstShort] at h
      split at h
      · cases h
      · rename_i hlong
        intro pt hpt
        rcases List.mem_cons.mp hpt with heq | hrest
        · rw [heq]
          exact Nat.le_of_not_lt hlong
        · exact ih h pt hrest

theorem exists_short_of_firstShort {i : Nat} {pts : List JointTrajectoryPoint}
    (h : (firstShort i pts).isSome = true) :
    exists pt, pt ∈ pts ∧ pt.positions.length < armDOF := by
  induction pts generalizing i with
  | nil => cases h
  | cons pt rest ih =>
      rw [firstShort] at h
      split at h
      · rename_i hshort
        exact ⟨pt, List.mem_cons_self, hshort⟩
      · rcases ih h with ⟨x, hx, hshort⟩
        exact ⟨x, List.mem_cons_of_mem pt hx, hshort⟩

theorem keepPoints_eq_ok {traj norm : JointTrajectory}
    {error : Nat -> NormalizeError} (h : keepPoints traj error = .ok norm) :
    norm = traj ∧
      forall pt, pt ∈ traj.points -> armDOF ≤ pt.positions.length := by
  unfold keepPoints at h
  split at h
  · cases h
  · rename_i hnone
    cases h
    exact ⟨rfl, length_of_firstShort hnone⟩

/-- All expected names are there, and each is mapped to its first place. -/
theorem indexMap_eq_ok {names expected : List String} {idxMap : List Nat}
    (h : indexMap names expected = .ok idxMap) :
    (forall exp, exp ∈ expected -> exp ∈ names) ∧
      idxMap = expected.map fun exp => names.idxOf exp := by
  induction expected generalizing idxMap with
  | nil =>
      cases h
      exact ⟨nofun, rfl⟩
  | cons exp rest ih =>
      rw [indexMap] at h
      split at h
      · rename_i hmem
        cases hrest : indexMap names rest with
        | error e =>
            rw [hrest] at h
            cases h
        | ok indices =>
            rw [hrest] at h
            cases h
            have htail := ih hrest
            constructor
            · intro name hname
              rcases List.mem_cons.mp hname with heq | hlater
              · rw [heq]
                exact hmem
              · exact htail.left name hlater
            · rw [htail.right, List.map_cons]
      · cases h

theorem reorder_eq_ok {traj norm : JointTrajectory} {expected : List String}
    {idxMap : List Nat} (h : reorder traj expected idxMap = .ok norm) :
    norm.jointNames = expected ∧
      norm.points = traj.points.map (normalizePoint idxMap) ∧
      forall pt, pt ∈ traj.points -> armDOF ≤ pt.positions.length := by
  unfold reorder at h
  split at h
  · cases h
  · rename_i hnone
    have hshort : firstShort 0 traj.points = none := by simpa using hnone
    cases h
    exact ⟨rfl, rfl, length_of_firstShort hshort⟩

theorem normalize_eq_ok {traj norm : JointTrajectory} {expected : List String}
    (h : normalizeTrajectoryForArm traj expected = .ok norm)
    (hpoints : traj.points ≠ []) :
    (forall pt, pt ∈ traj.points -> armDOF ≤ pt.positions.length) ∧
      ((expected = [] ∨ traj.jointNames = []) ∧ norm = traj ∨
        (expected ≠ [] ∧ traj.jointNames.length = armDOF ∧
          (forall exp, exp ∈ expected -> exp ∈ traj.jointNames) ∧
          norm.jointNames = expected ∧
          norm.points = traj.points.map
            (normalizePoint
              (expected.map fun exp => traj.jointNames.idxOf exp)))) := by
  unfold normalizeTrajectoryForArm at h
  rw [if_neg hpoints] at h
  split at h
  · rename_i hunnamed
    unfold normalizeUnchecked at h
    split at h
    · cases h
    · have hkeep := keepPoints_eq_ok h
      exact ⟨hkeep.right, Or.inl ⟨Or.inl hunnamed, hkeep.left⟩⟩
  · rename_i hnamed
    split at h
    · rename_i hnil
      have hkeep := keepPoints_eq_ok h
      exact ⟨hkeep.right, Or.inl ⟨Or.inr hnil, hkeep.left⟩⟩
    · split at h
      · cases h
      · rename_i hlength
        cases hindex : indexMap traj.jointNames expected with
        | error e =>
            rw [hindex] at h
            cases h
        | ok idxMap =>
            rw [hindex] at h
            have hnorm := reorder_eq_ok h
            have hmap := indexMap_eq_ok hindex
            rw [hmap.right] at hnorm
            exact ⟨hnorm.right.right, Or.inr ⟨hnamed, not_not.mp hlength,
              hmap.left, hnorm.left, hnorm.right.left⟩⟩

theorem normalize_cases {traj norm : JointTrajectory}
    (h : normalizeTrajectoryForArm traj defaultJointNamesFr3 = .ok norm)
    (hpoints : traj.points ≠ []) :
    (forall pt, pt ∈ traj.points -> armDOF ≤ pt.positions.length) ∧
      ((traj.jointNames = [] ∧ norm = traj) ∨
        (traj.jointNames.length = armDOF ∧
          (forall j, kJointOrder j ∈ traj.jointNames) ∧
          norm.jointNames = defaultJointNamesFr3 ∧
          norm.points = traj.points.map
            (normalizePoint (fr3Indices traj.jointNames)))) := by
  have hcases := normalize_eq_ok h hpoints
  refine ⟨hcases.left, ?_⟩
  rcases hcases.right with
    ⟨hunnamed, hkept⟩ | ⟨_, hlength, hnames, hnorm, hrows⟩
  · exact Or.inl ⟨hunnamed.resolve_left (by decide), hkept⟩
  · refine Or.inr ⟨hlength, ?_, hnorm, hrows⟩
    intro j
    apply hnames
    rw [defaultJointNamesFr3_eq]
    exact List.mem_map_of_mem (List.mem_finRange j)

/-!
## Agreement
-/

theorem sourceIndex_of_named {names : List String}
    (h : forall j, kJointOrder j ∈ names) (j : Fin armDOF) :
    sourceIndex names j = names.idxOf (kJointOrder j) := by
  rcases nameIndex_isSome (h j) with ⟨k, hk⟩
  unfold sourceIndex
  rw [usePositional_of_named h, if_neg Bool.false_ne_true, hk]
  exact (List.findIdx?_eq_some_iff_findIdx_eq.mp hk).right.symm

theorem getElem?_pick (names : List String) (values : List ExactDouble)
    (j : Fin armDOF) :
    (pick (fr3Indices names) values)[j.val]? =
      some (values.getD (names.idxOf (kJointOrder j)) (.finite 0)) := by
  simp [pick, fr3Indices, defaultJointNamesFr3_eq]

theorem messageRow_fst (names : List String) (pt : JointTrajectoryPoint)
    (j : Fin armDOF) :
    (messageRow names pt).1 j =
      pt.positions.getD (sourceIndex names j) (.finite 0) := rfl

theorem messageRow_normalizePoint {names : List String}
    (h : forall j, kJointOrder j ∈ names) (pt : JointTrajectoryPoint) :
    messageRow defaultJointNamesFr3 (normalizePoint (fr3Indices names) pt) =
      messageRow names pt := by
  refine Prod.ext ?_ rfl
  funext j
  rw [messageRow_fst, messageRow_fst, sourceIndex_fr3, sourceIndex_of_named h,
    normalizePoint, List.getD_eq_getElem?_getD, getElem?_pick]
  rfl

theorem messageRows_normalize {msg norm : JointTrajectory}
    (h : normalizeTrajectoryForArm msg defaultJointNamesFr3 = .ok norm)
    (hpoints : msg.points ≠ []) : messageRows norm = messageRows msg := by
  rcases (normalize_cases h hpoints).right with
    ⟨_, heq⟩ | ⟨_, hnamed, hnames, hpts⟩
  · rw [heq]
  · unfold messageRows
    rw [hnames, hpts, List.map_map]
    apply List.map_congr_left
    intro pt _
    exact messageRow_normalizePoint hnamed pt

theorem getElem?_normalize {msg norm : JointTrajectory}
    (h : normalizeTrajectoryForArm msg defaultJointNamesFr3 = .ok norm)
    (hpoints : msg.points ≠ []) {pt : JointTrajectoryPoint}
    (hpt : pt ∈ norm.points) (j : Fin armDOF) :
    pt.positions[j.val]? = some ((messageRow norm.jointNames pt).1 j) := by
  have hcases := normalize_cases h hpoints
  rcases hcases.right with ⟨hnil, heq⟩ | ⟨_, _, hnames, hpts⟩
  · rw [heq] at hpt
    have hlt : j.val < pt.positions.length :=
      Nat.lt_of_lt_of_le j.isLt (hcases.left pt hpt)
    have hsource : sourceIndex [] j = j.val := by
      rw [sourceIndex, usePositional_nil, if_pos rfl]
    rw [heq, hnil, messageRow_fst, hsource, List.getD_eq_getElem?_getD,
      List.getElem?_eq_getElem hlt]
    rfl
  · rw [hpts] at hpt
    rcases List.mem_map.mp hpt with ⟨old, _, heq⟩
    rw [hnames, messageRow_fst, sourceIndex_fr3, ← heq, normalizePoint,
      List.getD_eq_getElem?_getD, getElem?_pick]
    rfl

/-- For every accepted message of 1 to `ARM_TRAJ_MAX_PTS` points, the bridge
leaves the same buffer for it and for its normalisation. -/
theorem resolversAgree_of_normalize {msg norm : JointTrajectory}
    (h : normalizeTrajectoryForArm msg defaultJointNamesFr3 = .ok norm)
    (hpos : 0 < msg.points.length) (hmax : msg.points.length ≤ armTrajMaxPts)
    (shm : Shm) : ResolversAgree msg norm shm := by
  have hpoints : msg.points ≠ [] := List.ne_nil_of_length_pos hpos
  have hrows := messageRows_normalize h hpoints
  have hstores := trajectoryStores_congr hrows
  have hlength : norm.points.length = msg.points.length := by
    simpa [messageRows] using congrArg List.length hrows
  have hbuffer : onFrankaTrajectory msg shm = onFrankaTrajectory norm shm := by
    unfold onFrankaTrajectory
    rw [hstores]
  refine ⟨congrArg Shm.traj hbuffer, hlength, ?_⟩
  intro i pt hi j
  rcases List.getElem?_eq_some_iff.mp hi with ⟨hlt, heq⟩
  have hrow := (onFrankaTrajectory_accepted (hlength ▸ hpos)
    (hlength ▸ hmax) shm).right.right.right i hlt
  rw [hbuffer, q_of_row hrow, heq]
  exact getElem?_normalize h hpoints (heq ▸ List.getElem_mem hlt) j

theorem carriesAll_of_normalize {msg norm : JointTrajectory}
    (h : normalizeTrajectoryForArm msg defaultJointNamesFr3 = .ok norm) :
    CarriesAll msg := by
  intro pt hpt j
  have hcases := normalize_cases h (List.ne_nil_of_mem hpt)
  have hlong := hcases.left pt hpt
  rw [valueFor_eq_getElem?]
  rw [isSome_getElem?]
  rcases hcases.right with ⟨hnil, _⟩ | ⟨hlength, hnamed, _⟩
  · rw [hnil, sourceIndex, usePositional_nil, if_pos rfl]
    exact Nat.lt_of_lt_of_le j.isLt hlong
  · rw [sourceIndex_of_named hnamed]
    have hindex := List.idxOf_lt_length_of_mem (hnamed j)
    rw [hlength] at hindex
    exact Nat.lt_of_lt_of_le hindex hlong

theorem neverInvents_of_normalize {msg norm : JointTrajectory}
    (h : normalizeTrajectoryForArm msg defaultJointNamesFr3 = .ok norm)
    (shm : Shm) : NeverInvents msg shm :=
  neverInvents_of_carriesAll (carriesAll_of_normalize h) shm

def reversedGoal : JointTrajectory where
  jointNames := defaultJointNamesFr3.reverse
  points :=
    [.atSecond [7 / 10, 3 / 2, 0, -23 / 10, 0, -7 / 10, 0] 1,
     .atSecond [7 / 10, 3 / 2, 0, -23 / 10, 0, -7 / 10, 1 / 10] 2]

theorem resolversAgree_reversedGoal :
    exists norm,
      normalizeTrajectoryForArm reversedGoal defaultJointNamesFr3 = .ok norm ∧
        ResolversAgree reversedGoal norm ⟨SHMmsgs.zero, ArmTrajBuf.zero⟩ := by
  have haccept : (normalizeTrajectoryForArm reversedGoal
      defaultJointNamesFr3).toBool = true := by decide +kernel
  cases hnorm : normalizeTrajectoryForArm reversedGoal defaultJointNamesFr3 with
  | error e =>
      rw [hnorm] at haccept
      cases haccept
  | ok norm =>
      exact ⟨norm, rfl,
        resolversAgree_of_normalize hnorm (by decide) (by decide) _⟩

end Orchestrator
end FrankaKistar
