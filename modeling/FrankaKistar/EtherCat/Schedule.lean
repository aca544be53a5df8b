import Mathlib.Algebra.BigOperators.Group.List.Basic
import Mathlib.Algebra.Order.Ring.Int
import Mathlib.Tactic.Ring

/-!
# Wake-up times

`add_timespec` moves a `timespec` forward; `ecatthread` starts from the clock
rounded up to a millisecond and sleeps until one such sum after another.  The
total is always exact.  The nanoseconds are carried into the seconds only when
they exceed a second, so a sum that hits a whole second is left as it is.

Division and remainder truncate, as in C.  `tv_sec` is a 64-bit count of
seconds and is taken without its bound.
-/

namespace FrankaKistar
namespace EtherCat

abbrev nsecPerSec : Int := 1000000000

structure Timespec where
  tvSec : Int
  tvNsec : Int
deriving DecidableEq

def Timespec.total (ts : Timespec) : Int := ts.tvSec * nsecPerSec + ts.tvNsec

/-- What `clock_nanosleep` accepts. -/
def Timespec.Valid (ts : Timespec) : Prop :=
  0 ≤ ts.tvNsec ∧ ts.tvNsec < nsecPerSec

def addTimespec (ts : Timespec) (addtime : Int) : Timespec :=
  let nsec := addtime.tmod nsecPerSec
  let sec := (addtime - nsec).tdiv nsecPerSec
  let tvSec := ts.tvSec + sec
  let tvNsec := ts.tvNsec + nsec
  if nsecPerSec < tvNsec then
    let nsec := tvNsec.tmod nsecPerSec
    { tvSec := tvSec + (tvNsec - nsec).tdiv nsecPerSec
      tvNsec := nsec }
  else
    { tvSec := tvSec
      tvNsec := tvNsec }

/-- A reading of `CLOCK_MONOTONIC`. -/
structure ClockReading where
  tvSec : Nat
  tvNsec : Nat
  tvNsec_lt : tvNsec < 1000000000

/-- The start of the schedule in `ecatthread`. -/
def startTime (now : ClockReading) : Timespec :=
  let ht : Int := (now.tvNsec : Int).tdiv 1000000 + 1
  { tvSec := now.tvSec
    tvNsec := ht * 1000000 }

/-- The times that are handed to `clock_nanosleep`, one an increment. -/
def wakeUps (ts : Timespec) : List Nat -> List Timespec
  | [] => []
  | addtime :: rest =>
      addTimespec ts addtime :: wakeUps (addTimespec ts addtime) rest

/-!
## The total is exact
-/

theorem sub_tmod_tdiv (a b : Int) : (a - a.tmod b).tdiv b * b = a - a.tmod b :=
  Int.tdiv_mul_cancel_of_dvd Int.dvd_self_sub_tmod

theorem total_addTimespec (ts : Timespec) (addtime : Int) :
    (addTimespec ts addtime).total = ts.total + addtime := by
  have hadd := sub_tmod_tdiv addtime nsecPerSec
  have hcarry := sub_tmod_tdiv (ts.tvNsec + addtime.tmod nsecPerSec) nsecPerSec
  simp only [addTimespec, Timespec.total, nsecPerSec] at *
  split
  · simp only
    omega
  · simp only
    omega

def wakeUpAfter (ts : Timespec) : List Nat -> Timespec
  | [] => ts
  | addtime :: rest => wakeUpAfter (addTimespec ts addtime) rest

theorem total_wakeUpAfter (ts : Timespec) (increments : List Nat) :
    (wakeUpAfter ts increments).total = ts.total + increments.sum := by
  induction increments generalizing ts with
  | nil => simp [wakeUpAfter]
  | cons addtime rest ih =>
      rw [wakeUpAfter, ih, total_addTimespec, List.sum_cons]
      push_cast
      ring

/-!
## The nanoseconds stay between 1 and a whole second
-/

/-- The nanoseconds of every time of the schedule. -/
def Timespec.Reduced (ts : Timespec) : Prop :=
  1 ≤ ts.tvNsec ∧ ts.tvNsec ≤ nsecPerSec

theorem reduced_startTime (now : ClockReading) : (startTime now).Reduced := by
  have hlt := now.tvNsec_lt
  have hht : (now.tvNsec : Int).tdiv 1000000 = (now.tvNsec : Int) / 1000000 :=
    Int.tdiv_eq_ediv_of_nonneg (Int.natCast_nonneg _)
  simp only [Timespec.Reduced, startTime, hht, nsecPerSec]
  omega

theorem reduced_addTimespec {ts : Timespec} (h : ts.Reduced) (addtime : Nat) :
    (addTimespec ts addtime).Reduced := by
  have hnsec : (addtime : Int).tmod nsecPerSec = addtime % nsecPerSec :=
    Int.tmod_eq_emod_of_nonneg (Int.natCast_nonneg _)
  rcases h with ⟨hlow, hhigh⟩
  have hcarried : (ts.tvNsec + addtime % nsecPerSec).tmod nsecPerSec =
      (ts.tvNsec + addtime % nsecPerSec) % nsecPerSec := by
    apply Int.tmod_eq_emod_of_nonneg
    have hmod := Int.emod_nonneg addtime (by decide : nsecPerSec ≠ 0)
    omega
  simp only [addTimespec, Timespec.Reduced, hnsec, hcarried]
  simp only [nsecPerSec] at *
  split
  · simp only
    omega
  · simp only
    omega

theorem reduced_wakeUpAfter {ts : Timespec} (h : ts.Reduced)
    (increments : List Nat) : (wakeUpAfter ts increments).Reduced := by
  induction increments generalizing ts with
  | nil => exact h
  | cons addtime rest ih => exact ih (reduced_addTimespec h addtime)

theorem valid_iff_of_reduced {ts : Timespec} (h : ts.Reduced) :
    ts.Valid <-> ¬nsecPerSec ∣ ts.total := by
  rcases h with ⟨hlow, hhigh⟩
  simp only [Timespec.Valid, Timespec.total, nsecPerSec] at *
  omega

/-!
## The schedule
-/

theorem getElem?_wakeUps (ts : Timespec) (increments : List Nat) {k : Nat}
    (hk : k < increments.length) :
    (wakeUps ts increments)[k]? =
      some (wakeUpAfter ts (increments.take (k + 1))) := by
  induction increments generalizing ts k with
  | nil => cases hk
  | cons addtime rest ih =>
      cases k with
      | zero => rfl
      | succ k => exact ih (addTimespec ts addtime) (Nat.lt_of_succ_lt_succ hk)

theorem length_wakeUps (ts : Timespec) (increments : List Nat) :
    (wakeUps ts increments).length = increments.length := by
  induction increments generalizing ts with
  | nil => rfl
  | cons addtime rest ih => simp [wakeUps, ih]

/-- Wake-up `k` is normalised and at the start plus the increments so far. -/
def OnSchedule (start : Timespec) (increments : List Nat) : Prop :=
  forall k ts, (wakeUps start increments)[k]? = some ts ->
    ts.Valid ∧ ts.total = start.total + (increments.take (k + 1)).sum

/-- The schedule is right exactly while no wake-up falls on a whole second. -/
theorem onSchedule_iff (now : ClockReading) (increments : List Nat) :
    OnSchedule (startTime now) increments <->
      forall k, k < increments.length ->
        ¬nsecPerSec ∣
          (startTime now).total + (increments.take (k + 1)).sum := by
  have hreduced := reduced_wakeUpAfter (reduced_startTime now)
  have htotal := total_wakeUpAfter (startTime now)
  constructor
  · intro h k hk
    have hwake := h k _ (getElem?_wakeUps (startTime now) increments hk)
    rw [<- hwake.right]
    exact (valid_iff_of_reduced (hreduced _)).mp hwake.left
  · intro h k ts hts
    have hk : k < increments.length := by
      rw [<- length_wakeUps (startTime now) increments]
      exact (List.getElem?_eq_some_iff.mp hts).choose
    rw [getElem?_wakeUps _ _ hk, Option.some_inj] at hts
    subst hts
    refine ⟨?_, htotal _⟩
    rw [valid_iff_of_reduced (hreduced _), htotal]
    exact h k hk

/-- A clock at 998.5 ms and one increment of a cycle: the first wake-up is a
whole second. -/
theorem not_onSchedule :
    ¬forall now increments, OnSchedule (startTime now) increments := by
  intro h
  have hwake := h ⟨0, 998500000, by omega⟩ [1000000] 0 ⟨0, 1000000000⟩
    (by decide)
  exact absurd hwake.left.right (Int.lt_irrefl _)

/-!
The start is the next whole millisecond.
-/

theorem total_startTime (now : ClockReading) :
    (startTime now).total =
      ((now.tvSec * nsecPerSec + now.tvNsec) / 1000000 + 1) * 1000000 := by
  have hht : (now.tvNsec : Int).tdiv 1000000 = (now.tvNsec : Int) / 1000000 :=
    Int.tdiv_eq_ediv_of_nonneg (Int.natCast_nonneg _)
  simp only [Timespec.total, startTime, hht, nsecPerSec]
  omega

end EtherCat
end FrankaKistar
