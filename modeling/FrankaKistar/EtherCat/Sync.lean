import FrankaKistar.EtherCat.RunFlag

/-!
# Clock correction over a run

`ec_sync` corrects the cycle time by a proportional part, which is bounded, and
by an integral that moves by one a call in the direction of the phase error.
The integral is never limited: it is the surplus of the calls with a positive
phase over those with a negative one, and a reference time that stays ahead
winds it up until a cycle has no length left.
-/

namespace FrankaKistar
namespace EtherCat

variable {n : Nat}

def phase (cycletime reftime : Int) : Int :=
  let delta := (reftime - 50000).tmod cycletime
  if cycletime.tdiv 2 < delta then delta - cycletime else delta

theorem ecSync_eq (reftime cycletime integral : Int) :
    ecSync reftime cycletime integral =
      (integral + (phase cycletime reftime).sign,
        -(phase cycletime reftime).tdiv 100 -
          (integral + (phase cycletime reftime).sign).tdiv 20) := by
  have hsync : ecSync reftime cycletime integral =
      let delta := phase cycletime reftime
      let integral := if 0 < delta then integral + 1 else integral
      let integral := if delta < 0 then integral - 1 else integral
      (integral, -delta.tdiv 100 - integral.tdiv 20) := rfl
  rw [hsync]
  generalize phase cycletime reftime = delta
  rcases Int.lt_trichotomy delta 0 with hneg | hzero | hpos
  · simp [hneg, Int.not_lt.mpr (Int.le_of_lt hneg), Int.sign_eq_neg_one_of_neg,
      Int.sub_eq_add_neg]
  · subst hzero
    simp
  · simp [hpos, Int.not_lt.mpr (Int.le_of_lt hpos), Int.sign_eq_one_of_pos]

theorem phase_le {reftime : Int} (h : 0 ≤ reftime) :
    -500000 ≤ phase 1000000 reftime ∧ phase 1000000 reftime ≤ 500000 := by
  have hmod : (reftime - 50000).tmod 1000000 < 1000000 :=
    Int.tmod_lt_of_pos _ (by decide)
  have hlow : -50000 ≤ (reftime - 50000).tmod 1000000 := by
    rcases Int.lt_or_le (reftime - 50000) 0 with hneg | hpos
    · have hquot := Int.mul_tdiv_add_tmod (reftime - 50000) 1000000
      have hzero : (reftime - 50000).tdiv 1000000 = 0 := by
        rw [<- Int.neg_neg (reftime - 50000), Int.neg_tdiv,
          Int.tdiv_eq_zero_of_lt (by omega) (by omega)]
        rfl
      omega
    · exact Int.le_trans (by decide) (Int.tmod_nonneg _ hpos)
  have hhalf : (1000000 : Int).tdiv 2 = 500000 := by decide
  simp only [phase, hhalf]
  split
  · omega
  · omega

/-!
## One iteration
-/

theorem ecatIteration_sync (cfg : EcatConfig n) (input : CycleInput)
    (s : EcatState n) :
    ((ecatIteration cfg input s).integral, (ecatIteration cfg input s).toff) =
      if 0 < s.dorun ∧ input.hasdc = true then
        ecSync input.dcTime cfg.cycletime s.integral
      else
        (s.integral, s.toff) := by
  by_cases hdorun : 0 < s.dorun
  · by_cases hhasdc : input.hasdc = true
    · simp [ecatIteration, exchange, EcatState.Exchanges, hdorun, hhasdc]
    · simp [ecatIteration, exchange, EcatState.Exchanges, hdorun, hhasdc]
  · simp [ecatIteration, EcatState.Exchanges, hdorun]

theorem ecatIteration_integral (cfg : EcatConfig n) (input : CycleInput)
    (s : EcatState n) :
    (ecatIteration cfg input s).integral =
      if 0 < s.dorun ∧ input.hasdc = true then
        (ecSync input.dcTime cfg.cycletime s.integral).1
      else
        s.integral :=
  (congrArg Prod.fst (ecatIteration_sync cfg input s)).trans
    (apply_ite Prod.fst _ _ _)

theorem ecatIteration_toff (cfg : EcatConfig n) (input : CycleInput)
    (s : EcatState n) :
    (ecatIteration cfg input s).toff =
      if 0 < s.dorun ∧ input.hasdc = true then
        (ecSync input.dcTime cfg.cycletime s.integral).2
      else
        s.toff :=
  (congrArg Prod.snd (ecatIteration_sync cfg input s)).trans
    (apply_ite Prod.snd _ _ _)

/-!
## A run
-/

/-- Iteration `k` calls `ec_sync`: it exchanges, and there is a clock. -/
def Delivers (env : Nat -> Between n) (k : Nat) : Prop :=
  k < 2147483647 ∧ (env k).input.hasdc = true

instance (env : Nat -> Between n) (k : Nat) : Decidable (Delivers env k) :=
  inferInstanceAs (Decidable (_ ∧ _))

/-- Calls with a positive phase minus calls with a negative one, before
iteration `k`. -/
def surplus (cycletime : Int) (env : Nat -> Between n) : Nat -> Int
  | 0 => 0
  | k + 1 =>
      if Delivers env k then
        surplus cycletime env k +
          (phase cycletime (env k).input.dcTime).sign
      else
        surplus cycletime env k

/-- The correction that the call of iteration `k` asks for. -/
def correction (cycletime : Int) (env : Nat -> Between n) (k : Nat) : Int :=
  (phase cycletime (env k).input.dcTime).tdiv 100 +
    (surplus cycletime env (k + 1)).tdiv 20

/-- The operation starts from `ecatthread`'s own start, at any time of its
schedule. -/
def operating (now : ClockReading) (outputs : Nat -> UInt8) (shm : HandShm n)
    (ts : Timespec) : EcatState n :=
  { EcatState.start now outputs shm with ts := ts }

/-- The next sleep is longer than nothing, and the next wake-up is later. -/
def Advances (cfg : EcatConfig n) (s : EcatState n)
    (env : Nat -> Between n) (k : Nat) : Prop :=
  0 < cfg.cycletime + (stateBefore cfg s.operate env k).toff ∧
    (stateBefore cfg s.operate env k).ts.total <
      (stateBefore cfg s.operate env (k + 1)).ts.total

section Run

variable (cfg : EcatConfig n) (s : EcatState n) (env : Nat -> Between n)

theorem delivers_iff (k : Nat) :
    (0 < (stateBefore cfg s.operate env k).dorun ∧
      (env k).input.hasdc = true) <-> Delivers env k := by
  rw [stateBefore_dorun]
  refine and_congr_left' ?_
  split
  · omega
  · omega

theorem advances_iff (k : Nat) :
    Advances cfg s env k <->
      0 < cfg.cycletime + (stateBefore cfg s.operate env k).toff := by
  have hstep : (stateBefore cfg s.operate env (k + 1)).ts =
      (ecatIteration cfg (env k).input
        (stateBefore cfg s.operate env k)).ts := rfl
  unfold Advances
  rw [hstep, ecatIteration_ts, total_addTimespec]
  omega

theorem stateBefore_integral (hstart : s.integral = 0) (k : Nat) :
    (stateBefore cfg s.operate env k).integral =
      surplus cfg.cycletime env k := by
  induction k with
  | zero => exact hstart
  | succ k ih =>
      have hstep : (stateBefore cfg s.operate env (k + 1)).integral =
          (ecatIteration cfg (env k).input
            (stateBefore cfg s.operate env k)).integral := rfl
      rw [hstep, ecatIteration_integral, ecSync_eq, ih, surplus]
      simp only [delivers_iff cfg s env k]

theorem stateBefore_toff_succ (hstart : s.integral = 0) (k : Nat) :
    (stateBefore cfg s.operate env (k + 1)).toff =
      if Delivers env k then
        -correction cfg.cycletime env k
      else
        (stateBefore cfg s.operate env k).toff := by
  have hstep : (stateBefore cfg s.operate env (k + 1)).toff =
      (ecatIteration cfg (env k).input
        (stateBefore cfg s.operate env k)).toff := rfl
  rw [hstep, ecatIteration_toff, ecSync_eq,
    stateBefore_integral cfg s env hstart]
  simp only [delivers_iff cfg s env k]
  by_cases hdelivers : Delivers env k
  · rw [if_pos hdelivers, if_pos hdelivers, correction, surplus,
      if_pos hdelivers]
    omega
  · rw [if_neg hdelivers, if_neg hdelivers]

end Run

/-- The wake-ups up to `K` advance exactly when every correction before it is
smaller than a cycle. -/
theorem advances_run_iff (cfg : EcatConfig n) (hcycle : 0 < cfg.cycletime)
    (now : ClockReading) (outputs : Nat -> UInt8) (shm : HandShm n)
    (ts : Timespec) (env : Nat -> Between n) (K : Nat) :
    (forall k, k ≤ K -> Advances cfg (operating now outputs shm ts) env k) <->
      forall k, k < K -> Delivers env k ->
        correction cfg.cycletime env k < cfg.cycletime := by
  have hsucc := stateBefore_toff_succ cfg (operating now outputs shm ts) env rfl
  constructor
  · intro h k hk hdelivers
    have hadvances := (advances_iff cfg _ env (k + 1)).mp (h (k + 1) hk)
    rw [hsucc, if_pos hdelivers] at hadvances
    omega
  · intro h k hk
    rw [advances_iff]
    induction k with
    | zero =>
        have hzero : (stateBefore cfg (operating now outputs shm ts).operate
            env 0).toff = 0 := rfl
        rw [hzero]
        omega
    | succ k ih =>
        rw [hsucc]
        by_cases hdelivers : Delivers env k
        · have hcorrection := h k hk hdelivers
          rw [if_pos hdelivers]
          omega
        · rw [if_neg hdelivers]
          exact ih (Nat.le_of_succ_le hk)

/-- Twenty calls on one side, of a reference time that stays one nanosecond
ahead, shorten the cycle by one nanosecond. -/
theorem advances_run_twenty :
    Advances ⟨1000000, 1, Nat.le_refl 1, Nat.le_refl 1, none⟩
      (operating ⟨0, 0, by omega⟩ (fun _ => 0) (HandShm.zero 1) ⟨0, 0⟩)
      (fun _ => ⟨HandShm.zero 1, ⟨3, fun _ => 0, true, 50001⟩⟩) 20 :=
  (advances_run_iff _ (by decide) _ _ _ _ _ 20).mpr (by decide) 20
    (Nat.le_refl 20)

/-!
## The first hours

The phase error alone never exceeds a two-hundredth of the cycle, so it takes
almost twenty million calls on one side to stop the schedule.
-/

theorem sign_le_one (x : Int) : x.sign ≤ 1 := by
  rcases Int.lt_trichotomy x 0 with hneg | hzero | hpos
  · rw [Int.sign_eq_neg_one_of_neg hneg]
    decide
  · subst hzero
    decide
  · rw [Int.sign_eq_one_of_pos hpos]

theorem surplus_le (cycletime : Int) (env : Nat -> Between n) (k : Nat) :
    surplus cycletime env k ≤ k := by
  induction k with
  | zero => exact Int.le_refl 0
  | succ k ih =>
      have hsign := sign_le_one (phase cycletime (env k).input.dcTime)
      rw [surplus]
      split
      · omega
      · omega

theorem correction_lt {env : Nat -> Between n} {k : Nat}
    (hdc : 0 ≤ (env k).input.dcTime) (hk : k + 1 < 19900000) :
    correction 1000000 env k < 1000000 := by
  have hphase : (phase 1000000 (env k).input.dcTime).tdiv 100 ≤ 5000 :=
    Int.tdiv_le_tdiv (by decide) (phase_le hdc).right
  have hsurplus : (surplus 1000000 env (k + 1)).tdiv 20 ≤ 994999 := by
    have hle := surplus_le 1000000 env (k + 1)
    exact Int.tdiv_le_tdiv (by decide)
      (show surplus 1000000 env (k + 1) ≤ 19899999 by omega)
  unfold correction
  omega

/-!
## A reference time that stops
-/

def stuck (shm : HandShm n) (reftime : Int) : Nat -> Between n :=
  fun _ => ⟨shm, ⟨-1, fun _ => 0, true, reftime⟩⟩

theorem surplus_stuck (cycletime reftime : Int) (shm : HandShm n) {k : Nat}
    (hk : k ≤ 2147483647) :
    surplus cycletime (stuck shm reftime) k =
      k * (phase cycletime reftime).sign := by
  induction k with
  | zero => simp [surplus]
  | succ k ih =>
      have hdelivers : Delivers (stuck shm reftime) k := ⟨hk, rfl⟩
      rw [surplus, if_pos hdelivers, ih (Nat.le_of_succ_le hk)]
      push_cast
      rw [Int.add_mul, Int.one_mul]
      rfl

/-- The reference time stops one nanosecond behind its set point: after twenty
million cycles the next sleep has no length. -/
theorem not_advances_forever :
    ¬forall (now : ClockReading) (outputs : Nat -> UInt8) (shm : HandShm 1)
      (ts : Timespec) (env : Nat -> Between 1),
      (forall k, 0 ≤ (env k).input.dcTime) ->
        forall k, Advances ⟨1000000, 1, Nat.le_refl 1, Nat.le_refl 1, none⟩
          (operating now outputs shm ts) env k := by
  intro h
  have hadvances := h ⟨0, 0, by omega⟩ (fun _ => 0) (HandShm.zero 1) ⟨0, 0⟩
    (stuck (HandShm.zero 1) 50001) (fun _ => show (0 : Int) ≤ 50001 by decide) 20000000
  rw [advances_iff, stateBefore_toff_succ _ _ _ rfl,
    if_pos ⟨by decide, rfl⟩, correction, surplus_stuck _ _ _ (by decide)]
    at hadvances
  exact absurd hadvances (by decide)

end EtherCat
end FrankaKistar
