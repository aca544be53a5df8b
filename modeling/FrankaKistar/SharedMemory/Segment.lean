import FrankaKistar.SharedMemory.Layout

/-!
# Attaching and detaching

A System V key leads to at most one segment; removing a segment takes the key
away from it, and the next attach makes a new one.  The two segments of the
source are attached and detached by the same code up to what a clean start
writes, so the operations are written once over the content.
-/

namespace FrankaKistar

open Foundation

structure Segment (content : Type) where
  content : content
  processNum : Int

/-- What the clean start of a segment writes: `memset`, then the values that are
not zero. -/
structure CleanStart (content : Type) where
  zero : content
  prepare : content -> content

/-- All segments ever made for one key, by identifier, and the one that the key
leads to now. -/
structure Ipc (content : Type) where
  segs : Nat -> Segment content
  next : Nat
  key : Option Nat

/-- `int` arithmetic of the process counter. -/
def wrapInt (n : Int) : Int := Int.bmod n 4294967296

theorem wrapInt_of_bounds {n : Int} (hlow : 0 ≤ n) (hhigh : n < 2147483648) :
    wrapInt n = n := by
  unfold wrapInt
  rw [Int.bmod_eq_of_le (by omega) (by omega)]

namespace Ipc

variable {content : Type}

/-- No segment was made yet; a new segment is zeroed by the kernel. -/
def empty (start : CleanStart content) : Ipc content where
  segs := fun _ => ⟨start.zero, 0⟩
  next := 0
  key := none

/-- `shmget` with `IPC_CREAT`, and `shmat`. -/
def attach (ipc : Ipc content) : Nat × Ipc content :=
  match ipc.key with
  | some g => (g, ipc)
  | none => (ipc.next, { ipc with key := some ipc.next, next := ipc.next + 1 })

def setSegment (ipc : Ipc content) (g : Nat) (seg : Segment content) :
    Ipc content :=
  { ipc with segs := Function.update ipc.segs g seg }

/-- `memset`, which also clears `process_num`. -/
def zero (ipc : Ipc content) (start : CleanStart content) (g : Nat) :
    Ipc content :=
  ipc.setSegment g ⟨start.zero, 0⟩

def prepare (ipc : Ipc content) (start : CleanStart content) (g : Nat) :
    Ipc content :=
  ipc.setSegment g
    { ipc.segs g with content := start.prepare (ipc.segs g).content }

/-- `process_num++` -/
def increment (ipc : Ipc content) (g : Nat) : Ipc content :=
  ipc.setSegment g
    { ipc.segs g with processNum := wrapInt ((ipc.segs g).processNum + 1) }

/-- `process_num--` -/
def decrement (ipc : Ipc content) (g : Nat) : Ipc content :=
  ipc.setSegment g
    { ipc.segs g with processNum := wrapInt ((ipc.segs g).processNum - 1) }

/-- `shmctl` with `IPC_RMID`. -/
def remove (ipc : Ipc content) (g : Nat) : Ipc content :=
  { ipc with key := if ipc.key = some g then none else ipc.key }

/-- `init_shm` and `init_arm_traj_shm` in one go: the segment attached to, and
what is left. -/
def init (ipc : Ipc content) (start : CleanStart content) :
    Nat × Ipc content :=
  let g := ipc.attach.1
  let ipc := ipc.attach.2
  if (ipc.segs g).processNum = 0 then
    (g, (((ipc.zero start g).prepare start g).increment g))
  else (g, ipc.increment g)

/-- `deleteSharedMemory` and `deleteArmTrajSharedMemory` in one go. -/
def delete (ipc : Ipc content) (g : Nat) : Ipc content :=
  let ipc := ipc.decrement g
  if (ipc.segs g).processNum = 0 then ipc.remove g else ipc

theorem segs_setSegment (ipc : Ipc content) (g k : Nat)
    (seg : Segment content) :
    (ipc.setSegment g seg).segs k = if k = g then seg else ipc.segs k := by
  by_cases hk : k = g
  · subst hk
    rw [if_pos rfl]
    exact Function.update_self _ _ _
  · rw [if_neg hk]
    exact Function.update_of_ne hk _ _

@[simp] theorem segs_attach (ipc : Ipc content) :
    ipc.attach.2.segs = ipc.segs := by
  unfold attach
  split <;> rfl

@[simp] theorem segs_remove (ipc : Ipc content) (g : Nat) :
    (ipc.remove g).segs = ipc.segs := rfl

theorem init_of_zero (start : CleanStart content) {ipc : Ipc content}
    (h : (ipc.segs ipc.attach.1).processNum = 0) :
    ipc.init start =
      (ipc.attach.1,
        ((ipc.attach.2.zero start ipc.attach.1).prepare start
          ipc.attach.1).increment ipc.attach.1) := by
  unfold init
  simp only [segs_attach, h, if_true]

theorem init_of_ne_zero (start : CleanStart content) {ipc : Ipc content}
    (h : (ipc.segs ipc.attach.1).processNum ≠ 0) :
    ipc.init start =
      (ipc.attach.1, ipc.attach.2.increment ipc.attach.1) := by
  unfold init
  simp only [segs_attach, h, if_false]

/-!
What each operation does to the counters.
-/

@[simp] theorem processNum_zero (ipc : Ipc content)
    (start : CleanStart content) (g k : Nat) :
    ((ipc.zero start g).segs k).processNum =
      if k = g then 0 else (ipc.segs k).processNum := by
  rw [zero, segs_setSegment]
  split <;> rfl

@[simp] theorem processNum_prepare (ipc : Ipc content)
    (start : CleanStart content) (g k : Nat) :
    ((ipc.prepare start g).segs k).processNum = (ipc.segs k).processNum := by
  rw [prepare, segs_setSegment]
  split
  · rename_i hk
    rw [hk]
  · rfl

@[simp] theorem processNum_increment (ipc : Ipc content) (g k : Nat) :
    ((ipc.increment g).segs k).processNum =
      if k = g then wrapInt ((ipc.segs k).processNum + 1)
      else (ipc.segs k).processNum := by
  rw [increment, segs_setSegment]
  by_cases hk : k = g
  · rw [if_pos hk, if_pos hk, hk]
  · rw [if_neg hk, if_neg hk]

@[simp] theorem processNum_decrement (ipc : Ipc content) (g k : Nat) :
    ((ipc.decrement g).segs k).processNum =
      if k = g then wrapInt ((ipc.segs k).processNum - 1)
      else (ipc.segs k).processNum := by
  rw [decrement, segs_setSegment]
  by_cases hk : k = g
  · rw [if_pos hk, if_pos hk, hk]
  · rw [if_neg hk, if_neg hk]

end Ipc

/-!
## The two segments of the source
-/

/-- `init_shm`: the speed factors start at 0.1. -/
def shmMsgsStart : CleanStart SHMmsgs where
  zero := SHMmsgs.zero
  prepare := fun msgs => { msgs with armSpeedFactor := .finite (1 / 10) }

/-- `init_arm_traj_shm`: no trajectory. -/
def armTrajStart : CleanStart ArmTrajBuf where
  zero := ArmTrajBuf.zero
  prepare := fun buf => { buf with state := .idle, len := 0 }

end FrankaKistar
