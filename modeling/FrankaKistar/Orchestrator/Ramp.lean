import FrankaKistar.Foundation.RoundedRamp
import FrankaKistar.Orchestrator.HandTargets

/-!
# The hand ramp

`_ramp_hand` of `planning_orchestrator.py` on its own, for any duration and any
rate, in exact arithmetic.  The sequence of the seven stages runs it at 40 Hz.
Both backends clamp the joint targets to 16 bits, which changes nothing on a
ramp between two 16-bit vectors.
-/

namespace FrankaKistar
namespace Orchestrator

open Foundation

/-!
## Rounding half to even
-/

theorem roundHalfEven_floor (x : ℚ) :
    (roundHalfEven x = ⌊x⌋ ∧ x - ⌊x⌋ ≤ 1 / 2) ∨
      (roundHalfEven x = ⌊x⌋ + 1 ∧ 1 / 2 ≤ x - ⌊x⌋) := by
  have hfloor : x.floor = ⌊x⌋ := rfl
  simp only [roundHalfEven, hfloor]
  split
  · rename_i hlow
    exact Or.inl ⟨rfl, le_of_lt hlow⟩
  · rename_i hhalf
    split
    · rename_i hhigh
      exact Or.inr ⟨rfl, le_of_lt hhigh⟩
    · rename_i hhigh
      split
      · exact Or.inl ⟨rfl, not_lt.mp hhigh⟩
      · exact Or.inr ⟨rfl, not_lt.mp hhalf⟩

theorem roundHalfEven_intCast (n : Int) : roundHalfEven n = n := by
  rcases roundHalfEven_floor n with ⟨heq, _⟩ | ⟨_, hhalf⟩
  · rw [heq, Int.floor_intCast]
  · rw [Int.floor_intCast, sub_self] at hhalf
    exact absurd hhalf (by norm_num)

theorem roundHalfEven_error (x : ℚ) : |(roundHalfEven x : ℚ) - x| ≤ 1 / 2 := by
  have hlow := Int.floor_le x
  have hhigh := Int.lt_floor_add_one x
  rw [abs_le]
  rcases roundHalfEven_floor x with ⟨heq, hhalf⟩ | ⟨heq, hhalf⟩
  · rw [heq]
    constructor <;> linarith
  · rw [heq]
    push_cast
    constructor <;> linarith

/-- Two numbers with the same floor are rounded by their distance to it, and
otherwise an integer is between the two results. -/
theorem roundHalfEven_mono : Monotone roundHalfEven := by
  intro x y hxy
  rcases lt_or_eq_of_le (Int.floor_mono hxy) with hlt | hsame
  · have hx : roundHalfEven x ≤ ⌊x⌋ + 1 := by
      rcases roundHalfEven_floor x with ⟨heq, _⟩ | ⟨heq, _⟩ <;> omega
    have hy : ⌊y⌋ ≤ roundHalfEven y := by
      rcases roundHalfEven_floor y with ⟨heq, _⟩ | ⟨heq, _⟩ <;> omega
    omega
  · have hfloorx : x.floor = ⌊y⌋ := hsame
    have hfloory : y.floor = ⌊y⌋ := rfl
    have hdistance : x - ⌊y⌋ ≤ y - ⌊y⌋ := sub_le_sub_right hxy _
    simp only [roundHalfEven, hfloorx, hfloory]
    split_ifs <;> first | omega | linarith

theorem isRounding_roundHalfEven : IsRounding roundHalfEven where
  mono := roundHalfEven_mono
  intCast := roundHalfEven_intCast
  error := roundHalfEven_error

/-!
## The loop
-/

/-- `publish_hand`: the backend afterwards and the joint vectors it sends. -/
def Backend.publishHand (fields : WhitePcFields) (b : WhitePc) (h : Hand) :
    Backend -> WhitePc × List Hand
  | .shmBridge =>
      (b, (shmBridgeCall (.publishHand h)).filterMap BridgeMessage.handJoints)
  | .whitePc =>
      let (b', messages) := b.call fields (.publishHand h)
      (b', messages.filterMap WhitePcMessage.handJoints)

inductive RampEnd where
  | returned
  | raised
deriving DecidableEq

/-- The body of the loop for the values of `k` that are left: the joint vectors
that are sent.  `abort k` is the event at the check of round `k`, and a time
that `time.sleep` refuses raises. -/
def rampLoop (backend : Backend) (fields : WhitePcFields) (pose : Nat -> Hand)
    (dt : ℚ) (abort : Nat -> Bool) : WhitePc -> List Nat -> List Hand × RampEnd
  | _, [] => ([], .returned)
  | b, k :: rest =>
      if abort k then
        ([], .returned)
      else
        let (b', sent) := backend.publishHand fields b (pose k)
        if canSleep (.finite dt) then
          let (later, ended) := rampLoop backend fields pose dt abort b' rest
          (sent ++ later, ended)
        else
          (sent, .raised)

/-- `max(1, int(duration_s * hz))` -/
def rampStepCount (duration hz : ℚ) : Nat :=
  (max 1 ((duration * hz).num.tdiv (duration * hz).den)).toNat

def rampHand (backend : Backend) (fields : WhitePcFields) (b : WhitePc)
    (h0 h1 : Hand) (duration hz : ℚ) (abort : Nat -> Bool) :
    List Hand × RampEnd :=
  let steps := rampStepCount duration hz
  rampLoop backend fields (rampPose h0 h1 steps) (duration / steps) abort b
    (List.range (steps + 1))

theorem rampSteps_finite (duration : ℚ) :
    rampSteps (.finite duration) = some (rampStepCount duration 40) := by
  rw [rampStepCount, mul_comm]
  rfl

theorem rampStepCount_pos (duration hz : ℚ) : 0 < rampStepCount duration hz := by
  have hmax := Int.le_max_left 1 ((duration * hz).num.tdiv (duration * hz).den)
  unfold rampStepCount
  omega

/-!
## Without abort
-/

/-- Values of `int16_t`. -/
def IsInt16 (h : Hand) : Prop := forall i, -32768 ≤ h i ∧ h i ≤ 32767

instance (h : Hand) : Decidable (IsInt16 h) :=
  inferInstanceAs (Decidable (forall i, -32768 ≤ h i ∧ h i ≤ 32767))

theorem clampHand_of_isInt16 {h : Hand} (hrange : IsInt16 h) :
    clampHand h = h := by
  funext i
  rw [clampHand, min_eq_right (hrange i).right, max_eq_right (hrange i).left]

theorem publishHand_sends (backend : Backend) (fields : WhitePcFields)
    (b : WhitePc) (h : Hand) :
    (backend.publishHand fields b h).2 = [clampHand h] := by
  cases backend with
  | shmBridge => rfl
  | whitePc => rfl

theorem rampLoop_sends (backend : Backend) (fields : WhitePcFields)
    (pose : Nat -> Hand) {dt : ℚ} (hdt : canSleep (.finite dt) = true)
    (b : WhitePc) (ks : List Nat) :
    rampLoop backend fields pose dt (fun _ => false) b ks =
      (ks.map fun k => clampHand (pose k), .returned) := by
  induction ks generalizing b with
  | nil => rfl
  | cons k rest ih =>
      have hsent := publishHand_sends backend fields b (pose k)
      rw [rampLoop, if_neg Bool.false_ne_true]
      simp only [if_pos hdt, ih, hsent]
      rfl

theorem rampLoop_raises (backend : Backend) (fields : WhitePcFields)
    (pose : Nat -> Hand) {dt : ℚ} (hdt : canSleep (.finite dt) = false)
    (b : WhitePc) (k : Nat) (rest : List Nat) :
    rampLoop backend fields pose dt (fun _ => false) b (k :: rest) =
      ([clampHand (pose k)], .raised) := by
  rw [rampLoop, if_neg Bool.false_ne_true]
  simp only [hdt, publishHand_sends]
  rfl

theorem rampPose_rampOf (h0 h1 : Hand) {steps : Nat} (hsteps : 0 < steps)
    (i : Fin 16) :
    RampOf (fun k => rampPose h0 h1 steps k i) (h0 i) (h1 i) steps :=
  isRounding_roundHalfEven.rampOf (h0 i) (h1 i) hsteps

theorem rampPose_isInt16 {h0 h1 : Hand} (hstart : IsInt16 h0)
    (hend : IsInt16 h1) {steps k : Nat} (hsteps : 0 < steps) (hk : k ≤ steps) :
    IsInt16 (rampPose h0 h1 steps k) := by
  intro i
  have hstarti := hstart i
  have hendi := hend i
  have hinside := (rampPose_rampOf h0 h1 hsteps i).inside k hk
  rw [Set.mem_uIcc] at hinside
  omega

/-- For all joint vectors, durations and rates whose period `time.sleep`
accepts. -/
theorem rampHand_ramps (backend : Backend) (fields : WhitePcFields)
    (b : WhitePc) (h0 h1 : Hand) (hstart : IsInt16 h0) (hend : IsInt16 h1)
    (duration hz : ℚ) (hduration : 0 ≤ duration)
    (hsleep : duration / rampStepCount duration hz * 1000000000 <
      9223372036854775808) :
    exists pose : Nat -> Hand,
      1 ≤ rampStepCount duration hz ∧
      rampHand backend fields b h0 h1 duration hz (fun _ => false) =
        ((List.range (rampStepCount duration hz + 1)).map pose, .returned) ∧
      forall i, RampOf (fun k => pose k i) (h0 i) (h1 i)
        (rampStepCount duration hz) := by
  have hsteps := rampStepCount_pos duration hz
  refine ⟨rampPose h0 h1 (rampStepCount duration hz), hsteps, ?_,
    rampPose_rampOf h0 h1 hsteps⟩
  have hperiod : 0 ≤ duration / rampStepCount duration hz :=
    div_nonneg hduration (Nat.cast_nonneg _)
  have hdt : canSleep
      (.finite (duration / rampStepCount duration hz)) = true := by
    simp [canSleep, hperiod, hsleep]
  simp only [rampHand, rampLoop_sends backend fields _ hdt]
  congr 1
  apply List.map_congr_left
  intro k hk
  exact clampHand_of_isInt16 (rampPose_isInt16 hstart hend hsteps
    (Nat.le_of_lt_succ (List.mem_range.mp hk)))

/-- Two seconds at 40 Hz, to the default save point. -/
theorem rampHand_ramps_default :
    exists pose : Nat -> Hand,
      1 ≤ rampStepCount 2 40 ∧
      rampHand .whitePc ⟨true, true, true⟩ .start handSafePosition
          handSavePoint 2 40 (fun _ => false) =
        ((List.range (rampStepCount 2 40 + 1)).map pose, .returned) ∧
      forall i, RampOf (fun k => pose k i) (handSafePosition i)
        (handSavePoint i) (rampStepCount 2 40) :=
  rampHand_ramps .whitePc ⟨true, true, true⟩ .start handSafePosition
    handSavePoint (by decide) (by decide) 2 40 (by norm_num) (by decide +kernel)

/-- A period of more than 292 years is refused: the first pose is sent, and the
ramp ends with the error. -/
theorem rampHand_refused :
    ¬ forall (backend : Backend) (fields : WhitePcFields) (b : WhitePc)
        (h0 h1 : Hand), IsInt16 h0 -> IsInt16 h1 ->
      forall duration hz : ℚ, 0 ≤ duration -> 0 < hz ->
        (rampHand backend fields b h0 h1 duration hz
            (fun _ => false)).1.length = rampStepCount duration hz + 1 ∧
          (rampHand backend fields b h0 h1 duration hz
            (fun _ => false)).2 = .returned := by
  intro h
  have hlong := (h .shmBridge ⟨true, true, true⟩ .start handSafePosition
    handSavePoint (by decide) (by decide) 10000000000 (1 / 100000000000)
    (by norm_num) (by norm_num)).right
  have hsteps : rampStepCount 10000000000 (1 / 100000000000) = 1 := by
    decide +kernel
  have hdt : canSleep (.finite (10000000000 / ((1 : Nat) : ℚ))) = false := by
    decide +kernel
  simp only [rampHand, hsteps] at hlong
  rw [List.range_succ_eq_map, rampLoop_raises _ _ _ hdt] at hlong
  cases hlong

end Orchestrator
end FrankaKistar
