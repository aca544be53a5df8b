import FrankaKistar.Bridge.Messages

/-!
# What the bridge callbacks write

The stores of one callback are independent of what the shared memory held
before.  Run in one go, `on_franka_trajectory` leaves exactly the rows of its
message, its length and the state `ARM_TRAJ_PENDING`.
-/

namespace FrankaKistar
namespace Bridge

open Foundation

/-- The row that a point stands for under the resolved joint order. -/
def messageRow (names : List String) (pt : JointTrajectoryPoint) :
    Joints ExactDouble × ExactDouble :=
  (fun j => positionAt pt (sourceIndex names j), .finite (timeFromStart pt))

def messageRows (msg : JointTrajectory) :
    List (Joints ExactDouble × ExactDouble) :=
  msg.points.map (messageRow msg.jointNames)

/-!
## Independence of the old content
-/

theorem apply_rows_congr (store : Store) {shm shm' : Shm}
    (hq : shm.traj.q = shm'.traj.q) (ht : shm.traj.t = shm'.traj.t) :
    (store.apply shm).traj.q = (store.apply shm').traj.q ∧
      (store.apply shm).traj.t = (store.apply shm').traj.t := by
  cases store <;> simp [Store.apply, hq, ht]

theorem applyStores_rows_congr (stores : List Store) {shm shm' : Shm}
    (hq : shm.traj.q = shm'.traj.q) (ht : shm.traj.t = shm'.traj.t) :
    (applyStores stores shm).traj.q = (applyStores stores shm').traj.q ∧
      (applyStores stores shm).traj.t = (applyStores stores shm').traj.t := by
  induction stores generalizing shm shm' with
  | nil => exact ⟨hq, ht⟩
  | cons store rest ih =>
      have hstep := apply_rows_congr store hq ht
      exact ih hstep.left hstep.right

theorem applyStores_len_cases (stores : List Store) :
    (forall shm shm' : Shm,
        (applyStores stores shm).traj.len =
          (applyStores stores shm').traj.len) ∨
      forall shm : Shm, (applyStores stores shm).traj.len = shm.traj.len := by
  induction stores with
  | nil => exact Or.inr fun _ => rfl
  | cons store rest ih =>
      rcases ih with hfixed | hkeep
      · exact Or.inl fun shm shm' => hfixed (store.apply shm) (store.apply shm')
      · cases store with
        | trajLen n =>
            apply Or.inl
            intro shm shm'
            rw [applyStores_cons, applyStores_cons, hkeep, hkeep]
            rfl
        | armJTar | armSpeedFactor | trajQ | trajT | trajState =>
            apply Or.inr
            intro shm
            rw [applyStores_cons, hkeep]
            rfl

/-!
## One row
-/

theorem applyStores_joints (i : Nat) (x : Joints ExactDouble)
    (joints : List (Fin armDOF)) (shm : Shm) :
    applyStores (joints.map fun j => Store.trajQ i j (x j)) shm =
      { shm with traj :=
        { shm.traj with
          q := Function.update shm.traj.q i fun j =>
            if j ∈ joints then x j else shm.traj.q i j } } := by
  induction joints generalizing shm with
  | nil => simp
  | cons head rest ih =>
      rw [List.map_cons, applyStores_cons, ih]
      simp only [Store.apply, Function.update_self, Function.update_idem]
      congr 3
      funext j
      by_cases hhead : j = head
      · subst hhead
        simp
      · simp [hhead]

theorem applyStores_rowStores (names : List String) (i : Nat)
    (pt : JointTrajectoryPoint) (shm : Shm) :
    applyStores (rowStores names i pt) shm =
      shm.setRow i (messageRow names pt) := by
  rw [rowStores, applyStores_append, applyStores_joints]
  simp [Store.apply, messageRow, Shm.setRow]

/-!
## All rows
-/

theorem applyStores_rowsStores_frame (names : List String) (i : Nat)
    (pts : List JointTrajectoryPoint) (shm : Shm) :
    (applyStores (rowsStores names i pts) shm).msgs = shm.msgs ∧
      (applyStores (rowsStores names i pts) shm).traj.len = shm.traj.len ∧
      forall k, k < i ∨ i + pts.length ≤ k ->
        (applyStores (rowsStores names i pts) shm).traj.row k =
          shm.traj.row k := by
  induction pts generalizing i shm with
  | nil => exact ⟨rfl, rfl, fun _ _ => rfl⟩
  | cons pt rest ih =>
      rw [rowsStores, applyStores_append, applyStores_rowStores]
      rcases ih (i + 1) (shm.setRow i (messageRow names pt)) with
        ⟨hmsgs, hlen, hrows⟩
      refine ⟨hmsgs, hlen, ?_⟩
      intro k hk
      rw [List.length_cons] at hk
      rw [hrows k (by omega)]
      exact row_setRow_of_ne shm _ (by omega)

theorem applyStores_rowsStores_row (names : List String) (i : Nat)
    (pts : List JointTrajectoryPoint) (shm : Shm) {k : Nat}
    (hk : k < pts.length) :
    (applyStores (rowsStores names i pts) shm).traj.row (i + k) =
      messageRow names pts[k] := by
  induction pts generalizing i shm k with
  | nil => cases hk
  | cons pt rest ih =>
      rw [rowsStores, applyStores_append, applyStores_rowStores]
      cases k with
      | zero =>
          have hframe := applyStores_rowsStores_frame names (i + 1) rest
            (shm.setRow i (messageRow names pt))
          have hkept := hframe.right.right i (Or.inl (Nat.lt_succ_self i))
          rw [row_setRow_self] at hkept
          exact hkept
      | succ k =>
          rw [show i + (k + 1) = i + 1 + k by omega]
          exact ih (i + 1) _ (Nat.lt_of_succ_lt_succ hk)

/-!
## The whole callback
-/

theorem onFrankaTrajectory_of_stores {msg : JointTrajectory}
    {stores : List Store} (h : trajectoryStores msg = some stores)
    (shm : Shm) :
    onFrankaTrajectory msg shm = applyStores stores shm := by
  unfold onFrankaTrajectory
  rw [h]
  rfl

theorem trajectoryStores_of_length {msg : JointTrajectory}
    (hpos : 0 < msg.points.length) (hmax : msg.points.length ≤ armTrajMaxPts) :
    trajectoryStores msg =
      some (Store.trajLen msg.points.length ::
        (rowsStores msg.jointNames 0 msg.points ++
          [Store.trajState .pending])) := by
  have hlimit : armTrajMaxPts = 1000 := rfl
  have hcast : castInt msg.points.length = msg.points.length := by
    rcases castInt_cases msg.size with hkeep | hlarge
    · exact hkeep
    · omega
  unfold trajectoryStores
  rw [hcast]
  rw [if_neg (by omega)]
  simp

theorem trajectoryStores_eq_none {msg : JointTrajectory}
    (h : ¬ (0 < msg.points.length ∧ msg.points.length ≤ armTrajMaxPts)) :
    trajectoryStores msg = none := by
  have hlimit : armTrajMaxPts = 1000 := rfl
  have hcast := castInt_cases msg.size
  unfold trajectoryStores
  rw [if_pos (by omega)]

theorem length_of_trajectoryStores {msg : JointTrajectory}
    {stores : List Store} (h : trajectoryStores msg = some stores) :
    0 < msg.points.length ∧ msg.points.length ≤ armTrajMaxPts := by
  by_contra hlength
  rw [trajectoryStores_eq_none hlength] at h
  cases h

theorem onFrankaTrajectory_accepted {msg : JointTrajectory}
    (hpos : 0 < msg.points.length) (hmax : msg.points.length ≤ armTrajMaxPts)
    (shm : Shm) :
    (onFrankaTrajectory msg shm).msgs = shm.msgs ∧
      (onFrankaTrajectory msg shm).traj.len = msg.points.length ∧
      (onFrankaTrajectory msg shm).traj.state = .pending ∧
      forall k (hk : k < msg.points.length),
        (onFrankaTrajectory msg shm).traj.row k =
          messageRow msg.jointNames msg.points[k] := by
  rw [onFrankaTrajectory_of_stores (trajectoryStores_of_length hpos hmax)]
  have hframe := applyStores_rowsStores_frame msg.jointNames 0 msg.points
    ((Store.trajLen msg.points.length).apply shm)
  simp only [applyStores_cons, applyStores_append, applyStores_nil,
    msgs_trajState, len_trajState, state_trajState, row_trajState]
  refine ⟨hframe.left, hframe.right.left, True.intro, ?_⟩
  intro k hk
  have hrow := applyStores_rowsStores_row msg.jointNames 0 msg.points
    ((Store.trajLen msg.points.length).apply shm) hk
  rw [Nat.zero_add] at hrow
  exact hrow

theorem onFrankaTrajectory_row_past {msg : JointTrajectory}
    (hpos : 0 < msg.points.length) (hmax : msg.points.length ≤ armTrajMaxPts)
    (shm : Shm) {k : Nat} (hk : msg.points.length ≤ k) :
    (onFrankaTrajectory msg shm).traj.row k = shm.traj.row k := by
  rw [onFrankaTrajectory_of_stores (trajectoryStores_of_length hpos hmax)]
  have hframe := applyStores_rowsStores_frame msg.jointNames 0 msg.points
    ((Store.trajLen msg.points.length).apply shm)
  simp only [applyStores_cons, applyStores_append, applyStores_nil,
    row_trajState]
  rw [hframe.right.right k (Or.inr (by omega))]
  rfl

theorem onFrankaTrajectory_rows {msg : JointTrajectory}
    (hpos : 0 < msg.points.length) (hmax : msg.points.length ≤ armTrajMaxPts)
    (shm : Shm) :
    (List.range msg.points.length).map (onFrankaTrajectory msg shm).traj.row =
      messageRows msg := by
  have hrows := (onFrankaTrajectory_accepted hpos hmax shm).right.right.right
  apply List.ext_getElem
  · simp [messageRows]
  · intro k hleft hright
    have hk : k < msg.points.length := by simpa [messageRows] using hright
    simpa [messageRows] using hrows k hk

/-!
## Values by name

What a point carries for a joint, said without indices: the value next to the
joint's name, or the value at the joint's position when there are no names.
-/

def carriedValue (names : List String) (pt : JointTrajectoryPoint)
    (j : Fin armDOF) : Option ExactDouble :=
  if names = [] then pt.positions[j.val]?
  else (names.zip pt.positions).lookup (kJointOrder j)

theorem lookup_zip (key : String) (names : List String)
    (values : List ExactDouble) :
    (names.zip values).lookup key =
      (names.findIdx? (fun name => name == key)).bind
        (fun i => values[i]?) := by
  induction names generalizing values with
  | nil => rfl
  | cons name rest ih =>
      cases values with
      | nil =>
          rw [List.zip_nil_right, List.lookup_nil]
          cases (name :: rest).findIdx? (fun name => name == key) <;> rfl
      | cons value values =>
          rw [List.zip_cons_cons, List.lookup_cons, List.findIdx?_cons]
          by_cases hname : name = key
          · subst hname
            simp
          · have hkey : (key == name) = false := by
              simpa using fun h => hname h.symm
            rw [hkey, ih]
            cases rest.findIdx? (fun name => name == key) <;>
              simp [hname]

def NamesResolve (names : List String) : Prop :=
  names = [] ∨ forall j, kJointOrder j ∈ names

theorem usePositional_nil : usePositional [] = true := rfl

theorem usePositional_of_named {names : List String}
    (h : forall j, kJointOrder j ∈ names) : usePositional names = false := by
  rw [usePositional, List.any_eq_false]
  intro j _ hnone
  rw [Option.isNone_iff_eq_none, nameIndex, List.findIdx?_eq_none_iff] at hnone
  have := hnone (kJointOrder j) (h j)
  simp at this

/-!
## Targets and speeds

Their callbacks do not write the trajectory buffer at all.
-/

theorem targetStores_not_writesTraj (data : List ExactDouble) :
    ((targetStores data).getD []).any Store.writesTraj = false := by
  unfold targetStores
  split
  · rfl
  · rw [Option.getD_some, List.any_eq_false]
    intro store hstore
    rcases List.mem_map.mp hstore with ⟨j, _, rfl⟩
    exact Bool.false_ne_true

theorem speedStores_not_writesTraj (factor : ExactDouble) :
    (speedStores factor).any Store.writesTraj = false := by
  unfold speedStores
  split
  · rfl
  · split <;> rfl

end Bridge
end FrankaKistar
