import FrankaKistar.Foundation.Interpolation
import FrankaKistar.Orchestrator.Checked
import FrankaKistar.Orchestrator.EndPose

/-!
# The interpolant of a trajectory

For times in any order the search of `_interp_traj` ends at two neighbouring
points, or at the first or the last point, and the guard keeps the fraction in
the unit interval; so every joint stays between its values at two neighbouring
points.  For increasing times the interpolant goes through the points, and it
is constant before the first and after the last one.
-/

namespace FrankaKistar
namespace Orchestrator

open Foundation

/-!
## What a sample has to be
-/

def Neighbours (pts : List JointTrajectoryPoint)
    (a b : JointTrajectoryPoint) : Prop :=
  (a ∈ pts ∧ b = a) ∨ exists k, pts[k]? = some a ∧ pts[k + 1]? = some b

def Between (a b : JointTrajectoryPoint) (q : Joints ExactDouble) : Prop :=
  forall j x y, waypoint a j = .finite x -> waypoint b j = .finite y ->
    exists z, q j = .finite z ∧ z ∈ Set.uIcc x y

def Increasing (traj : JointTrajectory) : Prop :=
  traj.points.Pairwise fun a b => pointTime a < pointTime b

def NumericJoint (traj : JointTrajectory) (j : Fin armDOF) : Prop :=
  forall pt, pt ∈ traj.points -> (waypoint pt j).isFinite = true

/-- The seven values that `_interp_traj` returns at a time. -/
def Samples (traj : JointTrajectory) (t : ℚ) (q : Joints ExactDouble) : Prop :=
  Checked.interpTraj traj t = .ok (List.ofFn q)

structure Interpolates (traj : JointTrajectory) : Prop where
  between : forall t, exists q, Samples traj t q ∧
    exists a b, Neighbours traj.points a b ∧ Between a b q
  atPoint : Increasing traj -> forall pt, pt ∈ traj.points ->
    exists q, Samples traj (pointTime pt) q ∧
      forall j, NumericJoint traj j -> q j = waypoint pt j
  before : Increasing traj -> forall first, traj.points.head? = some first ->
    forall t, t < pointTime first -> Samples traj t (waypoint first)
  after : Increasing traj -> forall last, traj.points.getLast? = some last ->
    forall t, pointTime last < t -> Samples traj t (waypoint last)

/-!
## Times in any order
-/

theorem Neighbours.cons {pts : List JointTrajectoryPoint}
    {a b : JointTrajectoryPoint} (h : Neighbours pts a b)
    (pt : JointTrajectoryPoint) : Neighbours (pt :: pts) a b := by
  rcases h with ⟨hmem, heq⟩ | ⟨k, ha, hb⟩
  · exact Or.inl ⟨List.mem_cons_of_mem pt hmem, heq⟩
  · exact Or.inr ⟨k + 1, ha, hb⟩

theorem between_self (pt : JointTrajectoryPoint) :
    Between pt pt (waypoint pt) := by
  intro j x y hx hy
  exact ⟨x, hx, Set.left_mem_uIcc⟩

theorem alpha_mem {t t0 t1 : ℚ} (h0 : t0 ≤ t) (h1 : t ≤ t1) :
    0 ≤ (if t1 ≤ t0 then 0 else (t - t0) / (t1 - t0)) ∧
      (if t1 ≤ t0 then 0 else (t - t0) / (t1 - t0)) ≤ 1 := by
  split
  · exact ⟨le_refl 0, zero_le_one⟩
  · rename_i hlt
    have hpos : 0 < t1 - t0 := sub_pos.mpr (not_le.mp hlt)
    exact ⟨div_nonneg (sub_nonneg.mpr h0) (le_of_lt hpos),
      (div_le_one hpos).mpr (sub_le_sub_right h1 t0)⟩

theorem exists_between {a b : JointTrajectoryPoint} {t : ℚ}
    (ha : armDOF ≤ a.positions.length) (hb : armDOF ≤ b.positions.length)
    (h0 : pointTime a ≤ t) (h1 : t ≤ pointTime b) :
    exists q, interpBetween a b t = .ok q ∧ Between a b q := by
  rcases exists_interpBetween t ha hb with ⟨q, hq⟩
  refine ⟨q, hq, ?_⟩
  unfold interpBetween at hq
  simp only at hq
  rw [if_neg (by rw [not_or]; exact ⟨Nat.not_lt.mpr ha, Nat.not_lt.mpr hb⟩)]
    at hq
  cases hq
  intro j x y hx hy
  have halpha := alpha_mem h0 h1
  have hx' : a.positions.getD j.val (.finite 0) = .finite x := hx
  have hy' : b.positions.getD j.val (.finite 0) = .finite y := hy
  refine ⟨_, ?_, lerp_mem_uIcc halpha.left halpha.right x y⟩
  simp only [hx', hy', ExactDouble.sub_finite]
  rfl

theorem exists_between_from (t : ℚ) {a : JointTrajectoryPoint}
    {rest : List JointTrajectoryPoint}
    (h : forall pt, pt ∈ a :: rest -> armDOF ≤ pt.positions.length) :
    exists q, interpFrom t (a :: rest) = .ok q ∧
      exists x y, Neighbours (a :: rest) x y ∧ Between x y q := by
  induction rest generalizing a with
  | nil =>
      exact ⟨waypoint a, armPositions_eq_ok (h a List.mem_cons_self), a, a,
        Or.inl ⟨List.mem_cons_self, rfl⟩, between_self a⟩
  | cons b rest ih =>
      rw [interpFrom]
      split
      · rename_i hinside
        rcases exists_between (h a List.mem_cons_self)
          (h b (List.mem_cons_of_mem _ List.mem_cons_self)) hinside.left
          hinside.right with ⟨q, hq, hbetween⟩
        exact ⟨q, hq, a, b, Or.inr ⟨0, rfl, rfl⟩, hbetween⟩
      · rcases ih (fun pt hpt => h pt (List.mem_cons_of_mem _ hpt)) with
          ⟨q, hq, x, y, hnext, hbetween⟩
        exact ⟨q, hq, x, y, hnext.cons a, hbetween⟩

theorem exists_between_traj {traj : JointTrajectory} (h : FullPoints traj)
    (t : ℚ) :
    exists q, interpTraj traj t = .ok q ∧
      exists a b, Neighbours traj.points a b ∧ Between a b q := by
  have hlong := h.length
  unfold interpTraj
  cases hpoints : traj.points with
  | nil => exact absurd hpoints h.nonempty
  | cons pt rest =>
      rw [hpoints] at hlong
      simp only
      split
      · exact ⟨waypoint pt, armPositions_eq_ok (hlong pt List.mem_cons_self),
          pt, pt, Or.inl ⟨List.mem_cons_self, rfl⟩, between_self pt⟩
      · exact exists_between_from t hlong

/-!
## Increasing times
-/

theorem interpFrom_of_segment {t : ℚ} {a b : JointTrajectoryPoint} {k : Nat}
    {pts : List JointTrajectoryPoint}
    (hsorted : pts.Pairwise fun a b => pointTime a < pointTime b)
    (ha : pts[k]? = some a) (hb : pts[k + 1]? = some b)
    (hlow : pointTime a < t) (hhigh : t ≤ pointTime b) :
    interpFrom t pts = interpBetween a b t := by
  induction pts generalizing k with
  | nil => cases ha
  | cons x rest ih =>
      cases rest with
      | nil => cases hb
      | cons y rest =>
          rw [interpFrom]
          cases k with
          | zero =>
              cases ha
              cases hb
              rw [if_pos ⟨le_of_lt hlow, hhigh⟩]
          | succ k =>
              have htail := List.Pairwise.of_cons hsorted
              have hya : pointTime y ≤ pointTime a := by
                have hmem : a ∈ y :: rest := List.mem_of_getElem? ha
                rcases List.mem_cons.mp hmem with heq | hrest
                · rw [heq]
                · exact le_of_lt (List.rel_of_pairwise_cons htail hrest)
              rw [if_neg fun hinside =>
                absurd (lt_of_le_of_lt hya hlow) (not_lt.mpr hinside.right)]
              exact ih htail ha hb

theorem interpFrom_after {t : ℚ} {last : JointTrajectoryPoint}
    {pts : List JointTrajectoryPoint} (hlast : pts.getLast? = some last)
    (h : forall pt, pt ∈ pts -> pointTime pt < t) :
    interpFrom t pts = armPositions last.positions := by
  induction pts with
  | nil => cases hlast
  | cons x rest ih =>
      cases rest with
      | nil =>
          cases hlast
          rfl
      | cons y rest =>
          have hy := h y (List.mem_cons_of_mem x List.mem_cons_self)
          rw [interpFrom, if_neg fun hinside =>
            absurd hy (not_lt.mpr hinside.right)]
          apply ih
          · rw [<- hlast, List.getLast?_cons_cons]
          · intro pt hpt
            exact h pt (List.mem_cons_of_mem x hpt)

theorem interpBetween_right {a b : JointTrajectoryPoint}
    (ha : armDOF ≤ a.positions.length) (hb : armDOF ≤ b.positions.length)
    (htime : pointTime a < pointTime b) :
    exists q, interpBetween a b (pointTime b) = .ok q ∧
      forall j x y, waypoint a j = .finite x -> waypoint b j = .finite y ->
        q j = .finite y := by
  refine ⟨_, interpBetween_eq_ok ha hb htime, ?_⟩
  intro j x y hx hy
  rw [hx, hy, ExactDouble.sub_finite,
    div_self (ne_of_gt (sub_pos.mpr htime))]
  show ExactDouble.finite (x + 1 * (y - x)) = .finite y
  rw [one_mul, add_sub_cancel]

theorem exists_finite_of_isFinite {x : ExactDouble} (h : x.isFinite = true) :
    exists v, x = .finite v := by
  cases x with
  | finite v => exact ⟨v, rfl⟩
  | _ => cases h

theorem exists_sample_atPoint {traj : JointTrajectory} (h : FullPoints traj)
    (hsorted : Increasing traj) {pt : JointTrajectoryPoint}
    (hpt : pt ∈ traj.points) :
    exists q, interpTraj traj (pointTime pt) = .ok q ∧
      forall j, NumericJoint traj j -> q j = waypoint pt j := by
  rcases List.mem_iff_getElem?.mp hpt with ⟨k, hk⟩
  have hlong := h.length
  unfold Increasing at hsorted
  unfold NumericJoint interpTraj
  cases hpoints : traj.points with
  | nil => exact absurd hpoints h.nonempty
  | cons first rest =>
      rw [hpoints] at hlong hsorted hk hpt
      simp only
      cases k with
      | zero =>
          cases hk
          rw [if_pos (le_refl _)]
          exact ⟨_, armPositions_eq_ok (hlong pt hpt), fun _ _ => rfl⟩
      | succ k =>
          have hlt : k + 1 < (first :: rest).length :=
            (List.getElem?_eq_some_iff.mp hk).choose
          have ha := List.getElem?_eq_getElem (Nat.lt_of_succ_lt hlt)
          have hmem := List.mem_of_getElem? ha
          have htime : pointTime (first :: rest)[k] < pointTime pt := by
            rw [(List.getElem?_eq_some_iff.mp hk).choose_spec.symm]
            exact List.pairwise_iff_getElem.mp hsorted k (k + 1) _ hlt
              (Nat.lt_succ_self k)
          have hfirst : pointTime first < pointTime pt :=
            List.rel_of_pairwise_cons hsorted (List.mem_of_getElem? hk)
          rw [if_neg (not_le.mpr hfirst),
            interpFrom_of_segment hsorted ha hk htime (le_refl _)]
          rcases interpBetween_right (hlong _ hmem) (hlong pt hpt) htime with
            ⟨q, hq, hvalue⟩
          refine ⟨q, hq, ?_⟩
          intro j hnumeric
          rcases exists_finite_of_isFinite (hnumeric _ hmem) with ⟨x, hx⟩
          rcases exists_finite_of_isFinite (hnumeric pt hpt) with ⟨y, hy⟩
          rw [hvalue j x y hx hy, hy]

theorem interpTraj_before {traj : JointTrajectory} (h : FullPoints traj)
    {first : JointTrajectoryPoint} (hfirst : traj.points.head? = some first)
    {t : ℚ} (ht : t < pointTime first) :
    interpTraj traj t = .ok (waypoint first) := by
  have hlong := h.length first (List.mem_of_mem_head? hfirst)
  unfold interpTraj
  cases hpoints : traj.points with
  | nil => exact absurd hpoints h.nonempty
  | cons pt rest =>
      rw [hpoints] at hfirst
      cases hfirst
      simp only
      rw [if_pos (le_of_lt ht), armPositions_eq_ok hlong]

theorem interpTraj_after {traj : JointTrajectory} (h : FullPoints traj)
    (hsorted : Increasing traj) {last : JointTrajectoryPoint}
    (hlast : traj.points.getLast? = some last) {t : ℚ}
    (ht : pointTime last < t) :
    interpTraj traj t = .ok (waypoint last) := by
  have hlong := h.length last (List.mem_of_getLast? hlast)
  have hbefore : forall pt, pt ∈ traj.points -> pointTime pt < t := by
    intro pt hpt
    rw [List.getLast?_eq_some_iff] at hlast
    rcases hlast with ⟨front, hfront⟩
    unfold Increasing at hsorted
    rw [hfront] at hsorted hpt
    rcases List.mem_append.mp hpt with hin | hin
    · exact lt_trans ((List.pairwise_append.mp hsorted).right.right pt hin last
        List.mem_cons_self) ht
    · rw [List.mem_singleton.mp hin]
      exact ht
  unfold interpTraj
  cases hpoints : traj.points with
  | nil => exact absurd hpoints h.nonempty
  | cons pt rest =>
      rw [hpoints] at hlast hbefore
      simp only
      rw [if_neg (not_le.mpr (hbefore pt List.mem_cons_self)),
        interpFrom_after hlast hbefore, armPositions_eq_ok hlong]

/-!
## The interpolant
-/

theorem samples_of_eq_ok {traj : JointTrajectory} {t : ℚ}
    {q : Joints ExactDouble} (h : interpTraj traj t = .ok q) :
    Samples traj t q := by
  unfold Samples
  rw [Checked.interpTraj_eq, h]
  rfl

theorem interpolates {traj : JointTrajectory} (h : FullPoints traj) :
    Interpolates traj where
  between t := by
    rcases exists_between_traj h t with ⟨q, hq, hbetween⟩
    exact ⟨q, samples_of_eq_ok hq, hbetween⟩
  atPoint hsorted pt hpt := by
    rcases exists_sample_atPoint h hsorted hpt with ⟨q, hq, hvalue⟩
    exact ⟨q, samples_of_eq_ok hq, hvalue⟩
  before _ _ hfirst _ ht := samples_of_eq_ok (interpTraj_before h hfirst ht)
  after hsorted _ hlast _ ht :=
    samples_of_eq_ok (interpTraj_after h hsorted hlast ht)

/-- Two points at the same time. -/
theorem interpolates_untimedGoal : Interpolates untimedGoal :=
  interpolates ⟨by decide, by decide⟩

end Orchestrator
end FrankaKistar
