import FrankaKistar.Bridge.Writes

/-!
# Values that a message does not carry

`on_franka_trajectory` stores zero where the position list of a point is too
short for a joint, and marks the buffer `ARM_TRAJ_PENDING` all the same.  The
callback is faithful to its message exactly when the message is refused for its
length, or when every point has a value for every joint.
-/

namespace FrankaKistar
namespace Bridge

open Foundation

/-!
## The value of a joint
-/

/-- What a point carries for a joint: by name when all seven names are present,
by position otherwise. -/
def valueFor (names : List String) (pt : JointTrajectoryPoint)
    (j : Fin armDOF) : Option ExactDouble :=
  if forall k, kJointOrder k ∈ names then
    (names.zip pt.positions).lookup (kJointOrder j)
  else pt.positions[j.val]?

def CarriesAll (msg : JointTrajectory) : Prop :=
  forall pt, pt ∈ msg.points -> forall j,
    (valueFor msg.jointNames pt j).isSome = true

instance (msg : JointTrajectory) : Decidable (CarriesAll msg) := by
  unfold CarriesAll
  infer_instance

def MarksPending (msg : JointTrajectory) : Prop :=
  exists stores, trajectoryStores msg = some stores ∧
    Store.trajState .pending ∈ stores

/-- No stored value is made up, and a message that lacks a value is rejected. -/
structure NeverInvents (msg : JointTrajectory) (shm : Shm) : Prop where
  carried : MarksPending msg ->
    forall (i : Nat) (j : Fin armDOF),
      (i : Int) < (onFrankaTrajectory msg shm).traj.len ->
        (msg.points[i]?).bind (fun pt => valueFor msg.jointNames pt j) =
          some ((onFrankaTrajectory msg shm).traj.q i j)
  rejected : ¬ CarriesAll msg ->
    trajectoryStores msg = none ∧
      (onFrankaTrajectory msg shm).traj = shm.traj

/-!
## The source index points at the value
-/

theorem usePositional_of_not_named {names : List String}
    (h : ¬ forall j, kJointOrder j ∈ names) : usePositional names = true := by
  rcases not_forall.mp h with ⟨j, hj⟩
  rw [usePositional, List.any_eq_true]
  refine ⟨j, List.mem_finRange j, ?_⟩
  rw [Option.isNone_iff_eq_none, nameIndex, List.findIdx?_eq_none_iff]
  intro name hname
  rw [beq_eq_false_iff_ne]
  intro heq
  rw [heq] at hname
  exact hj hname

theorem nameIndex_isSome {names : List String} {j : Fin armDOF}
    (h : kJointOrder j ∈ names) :
    exists k, nameIndex names j = some k := by
  cases hindex : nameIndex names j with
  | some k => exact ⟨k, rfl⟩
  | none =>
      have hnone := List.findIdx?_eq_none_iff.mp hindex (kJointOrder j) h
      simp at hnone

theorem valueFor_eq_getElem? (names : List String) (pt : JointTrajectoryPoint)
    (j : Fin armDOF) :
    valueFor names pt j = pt.positions[sourceIndex names j]? := by
  unfold valueFor sourceIndex
  by_cases hnamed : forall k, kJointOrder k ∈ names
  · rcases nameIndex_isSome (hnamed j) with ⟨k, hk⟩
    have hfind : names.findIdx? (fun name => name == kJointOrder j) = some k :=
      hk
    rw [if_pos hnamed, lookup_zip, hfind, usePositional_of_named hnamed,
      if_neg Bool.false_ne_true, hk]
    rfl
  · rw [if_neg hnamed, usePositional_of_not_named hnamed, if_pos rfl]

theorem positionAt_sourceIndex (names : List String)
    (pt : JointTrajectoryPoint) (j : Fin armDOF) :
    positionAt pt (sourceIndex names j) =
      (valueFor names pt j).getD (.finite 0) := by
  rw [valueFor_eq_getElem?, positionAt, List.getD_eq_getElem?_getD]

theorem valueFor_of_carried {names : List String} {pt : JointTrajectoryPoint}
    {j : Fin armDOF} {x : ExactDouble} (hnames : NamesResolve names)
    (hx : carriedValue names pt j = some x) : valueFor names pt j = some x := by
  unfold carriedValue at hx
  unfold valueFor
  rcases hnames with hnil | hnamed
  · have hunnamed : ¬ forall k, kJointOrder k ∈ names := by
      intro hnamed
      have hfirst := hnamed 0
      rw [hnil] at hfirst
      cases hfirst
    rw [if_pos hnil] at hx
    rw [if_neg hunnamed, hx]
  · have hne : names ≠ [] := List.ne_nil_of_mem (hnamed 0)
    rw [if_neg hne] at hx
    rw [if_pos hnamed, hx]

/-- The stored value is the carried one. -/
theorem positionAt_of_carried {names : List String}
    {pt : JointTrajectoryPoint} {j : Fin armDOF} {x : ExactDouble}
    (hnames : NamesResolve names) (hx : carriedValue names pt j = some x) :
    positionAt pt (sourceIndex names j) = x := by
  rw [positionAt_sourceIndex, valueFor_of_carried hnames hx]
  rfl

/-!
## The whole message
-/

theorem marksPending_of_length {msg : JointTrajectory}
    (hpos : 0 < msg.points.length)
    (hmax : msg.points.length ≤ armTrajMaxPts) : MarksPending msg := by
  refine ⟨_, trajectoryStores_of_length hpos hmax, ?_⟩
  rw [← List.cons_append]
  exact List.mem_append_right _ List.mem_cons_self

theorem q_of_row {buf : ArmTrajBuf} {i : Nat}
    {row : Joints ExactDouble × ExactDouble} (h : buf.row i = row) :
    buf.q i = row.1 := by
  rw [← h]
  rfl

theorem stored_value {msg : JointTrajectory} (hpos : 0 < msg.points.length)
    (hmax : msg.points.length ≤ armTrajMaxPts) (shm : Shm) {i : Nat}
    (hi : i < msg.points.length) (j : Fin armDOF) :
    (onFrankaTrajectory msg shm).traj.q i j =
      (valueFor msg.jointNames msg.points[i] j).getD (.finite 0) := by
  have hrow :=
    (onFrankaTrajectory_accepted hpos hmax shm).right.right.right i hi
  rw [q_of_row hrow, ← positionAt_sourceIndex]
  rfl

theorem neverInvents_of_carriesAll {msg : JointTrajectory}
    (h : CarriesAll msg) (shm : Shm) : NeverInvents msg shm where
  carried := by
    intro hpending i j hi
    rcases hpending with ⟨stores, hstores, _⟩
    have hlength := length_of_trajectoryStores hstores
    rw [(onFrankaTrajectory_accepted hlength.left hlength.right
      shm).right.left] at hi
    have hlt : i < msg.points.length := Int.ofNat_lt.mp hi
    rcases Option.isSome_iff_exists.mp
      (h msg.points[i] (List.getElem_mem hlt) j) with ⟨x, hx⟩
    rw [List.getElem?_eq_getElem hlt, Option.bind_some,
      stored_value hlength.left hlength.right shm hlt, hx]
    rfl
  rejected := fun hlacks => absurd h hlacks

theorem neverInvents_of_refused {msg : JointTrajectory}
    (h : ¬ (0 < msg.points.length ∧ msg.points.length ≤ armTrajMaxPts))
    (shm : Shm) : NeverInvents msg shm where
  carried := by
    intro hpending
    rcases hpending with ⟨stores, hstores, _⟩
    exact absurd (length_of_trajectoryStores hstores) h
  rejected := by
    intro _
    have hnone := trajectoryStores_eq_none h
    refine ⟨hnone, ?_⟩
    unfold onFrankaTrajectory
    rw [hnone]
    rfl

/-- The callback never invents a value exactly when it refuses the message for
its length, or when the message has every value. -/
theorem neverInvents_iff (msg : JointTrajectory) (shm : Shm) :
    NeverInvents msg shm ↔
      ¬ (0 < msg.points.length ∧ msg.points.length ≤ armTrajMaxPts) ∨
        CarriesAll msg := by
  constructor
  · intro h
    by_cases hall : CarriesAll msg
    · exact Or.inr hall
    · apply Or.inl
      intro hlength
      have hnone := (h.rejected hall).left
      rw [trajectoryStores_of_length hlength.left hlength.right] at hnone
      cases hnone
  · intro h
    rcases h with hrefused | hall
    · exact neverInvents_of_refused hrefused shm
    · exact neverInvents_of_carriesAll hall shm

/-- A point with six positions is accepted, with zero for the seventh joint. -/
theorem not_all_neverInvents :
    ¬ forall (msg : JointTrajectory) (shm : Shm), NeverInvents msg shm := by
  intro hclaim
  have hcarried :=
    (hclaim (.onePoint [0, -7 / 10, 0, -23 / 10, 0, 3 / 2])
      ⟨SHMmsgs.zero, ArmTrajBuf.zero⟩).carried
      (marksPending_of_length (by decide) (by decide)) 0 6
  rw [(onFrankaTrajectory_accepted (by decide) (by decide) _).right.left]
    at hcarried
  cases hcarried (by decide)

end Bridge
end FrankaKistar
