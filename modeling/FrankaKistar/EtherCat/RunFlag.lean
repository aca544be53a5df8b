import FrankaKistar.EtherCat.Loop

/-!
# The run flag that counts

`dorun` is the guard of the exchange and the counter of the exchanges.  Nothing
else writes it while the operation runs, so the loop exchanges until the counter
wraps to a negative value, and from then on it only sleeps.
-/

namespace FrankaKistar
namespace EtherCat

variable {n : Nat}

structure Between (n : Nat) where
  shm : HandShm n
  input : CycleInput

/-- The state that iteration `k` begins in. -/
def stateBefore (cfg : EcatConfig n) (s : EcatState n)
    (env : Nat -> Between n) : Nat -> EcatState n
  | 0 => { s with shm := (env 0).shm }
  | k + 1 =>
      { ecatIteration cfg (env k).input (stateBefore cfg s env k) with
        shm := (env (k + 1)).shm }

theorem wrapInt_max_succ : wrapInt (2147483647 + 1) = -2147483648 := by decide

/-- The counter: one more an iteration up to the largest `int`, then stuck at
the smallest. -/
theorem stateBefore_dorun (cfg : EcatConfig n) (s : EcatState n)
    (env : Nat -> Between n) (k : Nat) :
    (stateBefore cfg s.operate env k).dorun =
      if k < 2147483647 then (k : Int) + 1 else -2147483648 := by
  induction k with
  | zero => rfl
  | succ k ih =>
      have hstep : (stateBefore cfg s.operate env (k + 1)).dorun =
          (ecatIteration cfg (env k).input
            (stateBefore cfg s.operate env k)).dorun := rfl
      rw [hstep, ecatIteration_dorun, ih]
      rcases Nat.lt_trichotomy k 2147483646 with hlt | heq | hgt
      · rw [if_pos (show k < 2147483647 by omega),
          if_pos (show k + 1 < 2147483647 by omega), if_pos (by omega),
          wrapInt_of_bounds (by omega) (by omega)]
        push_cast
        rfl
      · subst heq
        exact wrapInt_max_succ
      · rw [if_neg (show ¬k < 2147483647 by omega),
          if_neg (show ¬k + 1 < 2147483647 by omega), if_neg (by decide)]

/-- Exactly the first `2^31 - 1` iterations exchange. -/
theorem exchanges_iff (cfg : EcatConfig n) (s : EcatState n)
    (env : Nat -> Between n) (k : Nat) :
    (stateBefore cfg s.operate env k).Exchanges <-> k < 2147483647 := by
  unfold EcatState.Exchanges
  rw [stateBefore_dorun]
  split
  · rename_i hk
    exact ⟨fun _ => hk, fun _ => by omega⟩
  · rename_i hk
    exact ⟨fun h => absurd h (by decide), fun h => absurd h hk⟩

/-- The shared memory is zeroed, no frame returns, and there is one hand. -/
theorem not_exchanges_forever :
    ¬forall (n : Nat) (cfg : EcatConfig n) (s : EcatState n)
      (env : Nat -> Between n) (k : Nat),
      (stateBefore cfg s.operate env k).Exchanges := by
  intro h
  have hlast := h 1 ⟨1000000, 1, by omega, by omega, none⟩
    (EcatState.start ⟨0, 0, by omega⟩ (fun _ => 0) (HandShm.zero 1))
    (fun _ => ⟨HandShm.zero 1, ⟨-1, fun _ => 0, true, 0⟩⟩) 2147483647
  unfold EcatState.Exchanges at hlast
  rw [stateBefore_dorun, if_neg (by omega)] at hlast
  exact absurd hlast (by decide)

/-!
## After the wrap

An iteration that does not exchange moves the clock and nothing else: the
process image keeps the last command.
-/

theorem ecatIteration_of_not_exchanges (cfg : EcatConfig n)
    (input : CycleInput) {s : EcatState n} (h : ¬s.Exchanges) :
    ecatIteration cfg input s =
      { s with ts := addTimespec s.ts (cfg.cycletime + s.toff) } :=
  if_neg h

theorem outputs_after_wrap (cfg : EcatConfig n) (s : EcatState n)
    (env : Nat -> Between n) {k : Nat} (hk : 2147483647 ≤ k) :
    (stateBefore cfg s.operate env k).outputs =
      (stateBefore cfg s.operate env 2147483647).outputs := by
  induction k, hk using Nat.le_induction with
  | base => rfl
  | succ k hk ih =>
      have hstuck : ¬(stateBefore cfg s.operate env k).Exchanges := by
        unfold EcatState.Exchanges
        rw [stateBefore_dorun, if_neg (by omega)]
        decide
      have hstep : (stateBefore cfg s.operate env (k + 1)).outputs =
          (ecatIteration cfg (env k).input
            (stateBefore cfg s.operate env k)).outputs := rfl
      rw [hstep, ecatIteration_of_not_exchanges cfg _ hstuck]
      exact ih

end EtherCat
end FrankaKistar
