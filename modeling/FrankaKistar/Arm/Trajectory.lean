import FrankaKistar.SharedMemory.Layout
import Mathlib.Data.Fin.VecNotation
import Mathlib.Data.List.FinRange

/-!
# Trajectories that the controller accepts

`executeTrajFromShm` copies the trajectory buffer row by row and validates each
row as it is copied.  The rows accepted so far carry their validity, so that a
trajectory that was copied to the end is well formed by construction.
-/

namespace FrankaKistar
namespace Arm

open Foundation

/-- `kTargetEps` -/
def targetEps : ℚ := 1 / 10000

def kFr3LowerJointLimits : Joints ℚ :=
  ![-27437 / 10000, -17837 / 10000, -29007 / 10000, -30421 / 10000,
    -28065 / 10000, 5445 / 10000, -30159 / 10000]

def kFr3UpperJointLimits : Joints ℚ :=
  ![27437 / 10000, 17837 / 10000, 29007 / 10000, -1518 / 10000,
    28065 / 10000, 45169 / 10000, 30159 / 10000]

/-!
## Validation of one waypoint
-/

def jointInRange (q : Joints ExactDouble) (j : Fin armDOF) : Bool :=
  (q j).isFinite &&
    !((q j).lt (.finite (kFr3LowerJointLimits j)) ||
      (ExactDouble.finite (kFr3UpperJointLimits j)).lt (q j))

def validateWaypoint (q : Joints ExactDouble) : Bool :=
  (List.finRange armDOF).all (jointInRange q)

def WithinLimits (q : Joints ℚ) : Prop :=
  forall j, kFr3LowerJointLimits j ≤ q j ∧ q j ≤ kFr3UpperJointLimits j

instance (q : Joints ℚ) : Decidable (WithinLimits q) :=
  inferInstanceAs (Decidable (forall j,
    kFr3LowerJointLimits j ≤ q j ∧ q j ≤ kFr3UpperJointLimits j))

theorem jointInRange_iff (q : Joints ExactDouble) (j : Fin armDOF) :
    jointInRange q j = true <->
      q j = .finite (q j).toRat ∧
        kFr3LowerJointLimits j ≤ (q j).toRat ∧
        (q j).toRat ≤ kFr3UpperJointLimits j := by
  unfold jointInRange
  cases q j <;> simp [ExactDouble.isFinite]

theorem validateWaypoint_iff (q : Joints ExactDouble) :
    validateWaypoint q = true <->
      (forall j, q j = .finite (q j).toRat) ∧
        WithinLimits (fun j => (q j).toRat) := by
  simp only [validateWaypoint, List.all_eq_true, List.mem_finRange,
    forall_const, jointInRange_iff, WithinLimits, forall_and]

/-!
## Rows accepted so far
-/

structure Waypoint where
  q : Joints ℚ
  t : ℚ
deriving DecidableEq

def Waypoint.row (r : Waypoint) : Joints ExactDouble × ExactDouble :=
  (fun j => .finite (r.q j), .finite r.t)

def ValidRows (rows : List Waypoint) : Prop :=
  (forall r, r ∈ rows -> WithinLimits r.q ∧ 0 ≤ r.t) ∧
    rows.Pairwise (fun a b => a.t < b.t)

instance (rows : List Waypoint) : Decidable (ValidRows rows) :=
  inferInstanceAs (Decidable (_ ∧ _))

/-- The prefix of `waypoints` and `times` that has been copied and validated. -/
structure CheckedRows where
  rows : List Waypoint
  valid : ValidRows rows

def CheckedRows.empty : CheckedRows where
  rows := []
  valid := ⟨by simp, List.Pairwise.nil⟩

/-- The time check of the validation loop; the last accepted time is that of
row `i - 1`. -/
def timeAccepted (rows : List Waypoint) (t : ExactDouble) : Bool :=
  t.isFinite && !(t.lt (.finite 0)) &&
    match rows.getLast? with
    | none => true
    | some last => !(t.le (.finite last.t))

theorem timeAccepted_iff (rows : List Waypoint) (t : ExactDouble) :
    timeAccepted rows t = true <->
      t = .finite t.toRat ∧ 0 ≤ t.toRat ∧
        forall last, rows.getLast? = some last -> last.t < t.toRat := by
  unfold timeAccepted
  cases t <;> cases rows.getLast? <;>
    simp [ExactDouble.isFinite]

theorem validRows_snoc {rows : List Waypoint} {r : Waypoint}
    (hrows : ValidRows rows) (hlimits : WithinLimits r.q) (hnonneg : 0 ≤ r.t)
    (hlast : forall last, rows.getLast? = some last -> last.t < r.t) :
    ValidRows (rows ++ [r]) := by
  constructor
  · intro a ha
    rcases List.mem_append.mp ha with hold | hnew
    · exact hrows.left a hold
    · rw [List.mem_singleton.mp hnew]
      exact ⟨hlimits, hnonneg⟩
  · rw [List.pairwise_append]
    refine ⟨hrows.right, List.pairwise_singleton _ _, ?_⟩
    intro a ha b hb
    rw [List.mem_singleton.mp hb]
    rcases List.eq_nil_or_concat rows with hnil | ⟨front, last, hsnoc⟩
    · rw [hnil] at ha
      cases ha
    · rw [List.concat_eq_append] at hsnoc
      have hbound : last.t < r.t := hlast last (by simp [hsnoc])
      have hsorted := hrows.right
      rw [hsnoc, List.pairwise_append] at hsorted
      rw [hsnoc] at ha
      rcases List.mem_append.mp ha with hfront | hend
      · have := hsorted.right.right a hfront last (by simp)
        exact lt_trans this hbound
      · rw [List.mem_singleton.mp hend]
        exact hbound

/-- Validate one copied row; `none` is the rejection. -/
def CheckedRows.accept (c : CheckedRows) (q : Joints ExactDouble)
    (t : ExactDouble) : Option CheckedRows :=
  if hq : validateWaypoint q = true then
    if ht : timeAccepted c.rows t = true then
      some
        { rows := c.rows ++ [⟨fun j => (q j).toRat, t.toRat⟩]
          valid :=
            have ht' := (timeAccepted_iff c.rows t).mp ht
            validRows_snoc c.valid ((validateWaypoint_iff q).mp hq).right
              ht'.right.left ht'.right.right }
    else none
  else none

theorem accept_rows {c c' : CheckedRows} {q : Joints ExactDouble}
    {t : ExactDouble} (h : c.accept q t = some c') :
    exists r : Waypoint, c'.rows = c.rows ++ [r] ∧ r.row = (q, t) := by
  unfold CheckedRows.accept at h
  split at h
  · rename_i hq
    split at h
    · rename_i ht
      cases h
      refine ⟨_, rfl, ?_⟩
      have hjoints := ((validateWaypoint_iff q).mp hq).left
      have htime := ((timeAccepted_iff c.rows t).mp ht).left
      exact Prod.ext (funext fun j => (hjoints j).symm) htime.symm
    · cases h
  · cases h

theorem accept_of_valid {c : CheckedRows} {r : Waypoint}
    (h : ValidRows (c.rows ++ [r])) :
    exists c', c.accept (fun j => .finite (r.q j)) (.finite r.t) = some c' ∧
      c'.rows = c.rows ++ [r] := by
  have hr := h.left r (by simp)
  have hq : validateWaypoint (fun j => .finite (r.q j)) = true := by
    rw [validateWaypoint_iff]
    exact ⟨fun _ => rfl, hr.left⟩
  have ht : timeAccepted c.rows (.finite r.t) = true := by
    rw [timeAccepted_iff]
    refine ⟨rfl, hr.right, ?_⟩
    intro last hlast
    exact (List.pairwise_append.mp h.right).right.right last
      (List.mem_of_getLast? hlast) r (by simp)
  refine ⟨⟨c.rows ++ [r], h⟩, ?_, rfl⟩
  simp [CheckedRows.accept, hq, ht]

/-!
## Accepted trajectories
-/

/-- What `executeTrajFromShm` executes: `len` rows that passed validation. -/
structure Trajectory extends CheckedRows where
  nonempty : 0 < rows.length
  bounded : rows.length ≤ armTrajMaxPts

/-- The validation loop: `remaining` rows are still to be copied. -/
def copyRows (buf : ArmTrajBuf) : Nat -> CheckedRows -> Option CheckedRows
  | 0, c => some c
  | remaining + 1, c =>
      match c.accept (buf.q c.rows.length) (buf.t c.rows.length) with
      | none => none
      | some c' => copyRows buf remaining c'

theorem copyRows_length {buf : ArmTrajBuf} {remaining : Nat}
    {c c' : CheckedRows} (h : copyRows buf remaining c = some c') :
    c'.rows.length = c.rows.length + remaining := by
  induction remaining generalizing c with
  | zero =>
      cases h
      rfl
  | succ remaining ih =>
      unfold copyRows at h
      split at h
      · cases h
      · rename_i next hnext
        rcases accept_rows hnext with ⟨r, hrows, _⟩
        rw [ih h, hrows]
        simp
        omega

/-- Length check, copy and validation of `executeTrajFromShm`. -/
def loadTrajectory (buf : ArmTrajBuf) : Option Trajectory :=
  if hlen : 0 < buf.len ∧ buf.len ≤ (armTrajMaxPts : Int) then
    match hcopy : copyRows buf buf.len.toNat CheckedRows.empty with
    | none => none
    | some c =>
        have hlength : c.rows.length = buf.len.toNat := by
          simpa [CheckedRows.empty] using copyRows_length hcopy
        some
          { c with
            nonempty := by omega
            bounded := by omega }
  else none

/-!
## The buffer that an accepted trajectory came from

A trajectory is loaded exactly when the buffer holds its rows.
-/

def Holds (buf : ArmTrajBuf) (rows : List Waypoint) : Prop :=
  buf.len = rows.length ∧
    rows.map Waypoint.row = (List.range rows.length).map buf.row

theorem copyRows_rows {buf : ArmTrajBuf} {remaining : Nat}
    {c c' : CheckedRows} (h : copyRows buf remaining c = some c') :
    c'.rows.map Waypoint.row =
      c.rows.map Waypoint.row ++
        (List.range' c.rows.length remaining).map buf.row := by
  induction remaining generalizing c with
  | zero =>
      cases h
      simp
  | succ remaining ih =>
      unfold copyRows at h
      split at h
      · cases h
      · rename_i next hnext
        rcases accept_rows hnext with ⟨r, hrows, hrow⟩
        have hlength : next.rows.length = c.rows.length + 1 := by
          simp [hrows]
        rw [ih h, hlength, hrows, List.range'_succ]
        simp [hrow, ArmTrajBuf.row]

theorem copyRows_of_valid {buf : ArmTrajBuf} {c : CheckedRows}
    {rest : List Waypoint} (hvalid : ValidRows (c.rows ++ rest))
    (hbuf : rest.map Waypoint.row =
      (List.range' c.rows.length rest.length).map buf.row) :
    exists c', copyRows buf rest.length c = some c' ∧
      c'.rows = c.rows ++ rest := by
  induction rest generalizing c with
  | nil => exact ⟨c, rfl, by simp⟩
  | cons r rest ih =>
      have hsplit : c.rows ++ r :: rest = (c.rows ++ [r]) ++ rest := by simp
      rw [hsplit] at hvalid
      have hprefix : ValidRows (c.rows ++ [r]) :=
        ⟨fun a ha => hvalid.left a (List.mem_append_left _ ha),
          (List.pairwise_append.mp hvalid.right).left⟩
      rw [List.length_cons, List.range'_succ, List.map_cons, List.map_cons,
        List.cons.injEq] at hbuf
      rcases accept_of_valid hprefix with ⟨next, hnext, hrows⟩
      have hlength : next.rows.length = c.rows.length + 1 := by
        simp [hrows]
      rw [← hrows] at hvalid
      rw [← hlength] at hbuf
      rcases ih hvalid hbuf.right with ⟨c', hcopy, hc'⟩
      refine ⟨c', ?_, by rw [hc', hrows, hsplit]⟩
      have hq : buf.q c.rows.length = fun j => .finite (r.q j) :=
        (congrArg Prod.fst hbuf.left).symm
      have ht : buf.t c.rows.length = .finite r.t :=
        (congrArg Prod.snd hbuf.left).symm
      rw [List.length_cons, copyRows, hq, ht, hnext]
      exact hcopy

theorem Trajectory.eq_of_rows {tr tr' : Trajectory}
    (h : tr.rows = tr'.rows) : tr = tr' := by
  cases tr with
  | mk c nonempty bounded =>
      cases tr' with
      | mk c' nonempty' bounded' =>
          cases c
          cases c'
          cases h
          rfl

theorem loadTrajectory_eq_some_iff {buf : ArmTrajBuf} {tr : Trajectory} :
    loadTrajectory buf = some tr <-> Holds buf tr.rows := by
  constructor
  · intro h
    unfold loadTrajectory at h
    split at h
    · rename_i hlen
      split at h
      · cases h
      · rename_i c hcopy
        cases h
        have hlength : c.rows.length = buf.len.toNat := by
          simpa [CheckedRows.empty] using copyRows_length hcopy
        constructor
        · show buf.len = (c.rows.length : Int)
          omega
        · show c.rows.map Waypoint.row =
            (List.range c.rows.length).map buf.row
          rw [copyRows_rows hcopy, hlength, List.range_eq_range']
          rfl
    · cases h
  · intro h
    have hnonempty := tr.nonempty
    have hbounded := tr.bounded
    have hlen := h.left
    have hcopy : exists c',
        copyRows buf tr.rows.length CheckedRows.empty = some c' ∧
          c'.rows = CheckedRows.empty.rows ++ tr.rows := by
      apply copyRows_of_valid
      · exact tr.valid
      · rw [h.right, List.range_eq_range']
        rfl
    rcases hcopy with ⟨c', hcopy, hrows⟩
    have hnat : buf.len.toNat = tr.rows.length := by omega
    unfold loadTrajectory
    rw [dif_pos (by omega)]
    split
    · rename_i hnone
      rw [hnat, hcopy] at hnone
      cases hnone
    · rename_i c hsome
      rw [hnat, hcopy] at hsome
      cases hsome
      exact congrArg some (Trajectory.eq_of_rows hrows)

end Arm
end FrankaKistar
