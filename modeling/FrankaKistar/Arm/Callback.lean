import FrankaKistar.Arm.Trajectory

/-!
# The control callback

The callback that `executeTrajFromShm` hands to `robot.control`: it advances the
elapsed time, searches the segment, and commands a joint position.  Every read
of the local vectors `waypoints` and `times` is checked, and a read outside of
them ends the callback with the offending index.
-/

namespace FrankaKistar
namespace Arm

open Foundation

structure OutOfRange where
  index : Nat
  size : Nat
deriving DecidableEq

/-- What the callback returns: a joint position, or the end of the motion. -/
inductive Command where
  | jointPositions (q : Joints ℚ)
  | motionFinished (q : Joints ℚ)
deriving DecidableEq

def Command.q : Command -> Joints ℚ
  | .jointPositions q => q
  | .motionFinished q => q

def Command.finished : Command -> Bool
  | .jointPositions _ => false
  | .motionFinished _ => true

/-!
## Reads
-/

def rowAt (rows : List Waypoint) (i : Nat) : Except OutOfRange Waypoint :=
  match rows[i]? with
  | some r => .ok r
  | none => .error ⟨i, rows.length⟩

/-- `waypoints[i]` -/
def waypointAt (rows : List Waypoint) (i : Nat) : Except OutOfRange (Joints ℚ) :=
  (rowAt rows i).map Waypoint.q

/-- `times[i]` -/
def timeAt (rows : List Waypoint) (i : Nat) : Except OutOfRange ℚ :=
  (rowAt rows i).map Waypoint.t

theorem waypointAt_ok {rows : List Waypoint} {i : Nat} (h : i < rows.length) :
    waypointAt rows i = .ok rows[i].q := by
  simp [waypointAt, rowAt, List.getElem?_eq_getElem h, Except.map]

theorem timeAt_ok {rows : List Waypoint} {i : Nat} (h : i < rows.length) :
    timeAt rows i = .ok rows[i].t := by
  simp [timeAt, rowAt, List.getElem?_eq_getElem h, Except.map]

theorem timeAt_error {rows : List Waypoint} {i : Nat} (h : rows.length ≤ i) :
    timeAt rows i = .error ⟨i, rows.length⟩ := by
  simp [timeAt, rowAt, List.getElem?_eq_none h, Except.map]

/-!
## One callback
-/

def lerp7 (a b : Joints ℚ) (alpha : ℚ) : Joints ℚ :=
  fun i => a i + alpha * (b i - a i)

/-- The segment search: `remaining` values of the loop index are left, starting
with `i`.  When the loop ends without a hit, `seg` still has its initial
value 0. -/
def findSegment (rows : List Waypoint) (elapsed : ℚ) :
    (remaining i : Nat) -> Except OutOfRange Nat
  | 0, _ => .ok 0
  | remaining + 1, i => do
      if (← timeAt rows i) ≤ elapsed then
        if elapsed < (← timeAt rows (i + 1)) then
          return i
      findSegment rows elapsed remaining (i + 1)

/-- A segment is interpolated when it is longer than `1e-9` s. -/
def minSegment : ℚ := 1 / 1000000000

/-- `q_des` before the end of the trajectory. -/
def interpolate (rows : List Waypoint) (elapsed : ℚ) :
    Except OutOfRange (Joints ℚ) := do
  let seg ← findSegment rows elapsed (rows.length - 1) 0
  let t1 ← timeAt rows (seg + 1)
  let t0 ← timeAt rows seg
  let dt := t1 - t0
  let alpha := if minSegment < dt then (elapsed - t0) / dt else 0
  return lerp7 (← waypointAt rows seg) (← waypointAt rows (seg + 1)) alpha

def command (rows : List Waypoint) (elapsed : ℚ) : Except OutOfRange Command := do
  let totalDur ← timeAt rows (rows.length - 1)
  let qDes ←
    if totalDur ≤ elapsed then waypointAt rows (rows.length - 1)
    else interpolate rows elapsed
  if totalDur + 1 / 20 ≤ elapsed then
    return .motionFinished (← waypointAt rows (rows.length - 1))
  return .jointPositions qDes

/-- `elapsed += period.toSec()`, the period being whole milliseconds. -/
def advance (elapsed : ℚ) (period : Nat) : ℚ :=
  elapsed + period / 1000

/-!
## A sequence of callbacks

`robot.control` calls the callback until it returns the end of the motion; a
read out of range ends the sequence, since nothing is promised after it.
-/

def runCallbacks (rows : List Waypoint) :
    ℚ -> List Nat -> List (Except OutOfRange Command)
  | _, [] => []
  | elapsed, period :: rest =>
      let elapsed' := advance elapsed period
      match command rows elapsed' with
      | .error fault => [.error fault]
      | .ok c =>
          .ok c :: if c.finished then [] else runCallbacks rows elapsed' rest

/-- The elapsed time that callback `k` sees. -/
def elapsedAt (elapsed : ℚ) (periods : List Nat) (k : Nat) : ℚ :=
  (periods.take (k + 1)).foldl advance elapsed

end Arm
end FrankaKistar
