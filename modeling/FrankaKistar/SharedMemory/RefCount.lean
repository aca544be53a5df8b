import FrankaKistar.SharedMemory.Segment
import FrankaKistar.Foundation.Runs

/-!
# The process counter

Any number of processes attach and detach one step at a time.  The counter is
atomic, but a process that finds it zero clears or removes the segment in a later
step, and another process can increment it in between.  Without such an
increment the counter of every segment is the number of processes that use it.
-/

namespace FrankaKistar
namespace SharedMemory

open Foundation

/-- The next step of a process; the argument is the segment it is attached
to. -/
inductive ProcLoc where
  | out
  | attached (g : Nat)
  | mustZero (g : Nat)
  | mustPrepare (g : Nat)
  | mustIncrement (g : Nat)
  | inside (g : Nat)
  | decremented (g : Nat)
  | mustRemove (g : Nat)
deriving DecidableEq

structure Users (content : Type) where
  ipc : Ipc content
  procs : List ProcLoc

variable {content : Type}

/-- One step of `init_shm` from `out` to `inside`, or of `deleteSharedMemory`
back. -/
def procStep (start : CleanStart content) (ipc : Ipc content) :
    ProcLoc -> Ipc content × ProcLoc
  | .out => (ipc.attach.2, .attached ipc.attach.1)
  | .attached g =>
      (ipc, if (ipc.segs g).processNum = 0 then .mustZero g
        else .mustIncrement g)
  | .mustZero g => (ipc.zero start g, .mustPrepare g)
  | .mustPrepare g => (ipc.prepare start g, .mustIncrement g)
  | .mustIncrement g => (ipc.increment g, .inside g)
  | .inside g => (ipc.decrement g, .decremented g)
  | .decremented g =>
      (ipc, if (ipc.segs g).processNum = 0 then .mustRemove g else .out)
  | .mustRemove g => (ipc.remove g, .out)

/-- Process `i` takes its next step. -/
def usersStep (start : CleanStart content) : Machine (Users content) Nat :=
  fun s i => (s.procs[i]?).map fun loc =>
    ⟨(procStep start s.ipc loc).1, s.procs.set i (procStep start s.ipc loc).2⟩

def Users.start (start : CleanStart content) (n : Nat) : Users content :=
  ⟨Ipc.empty start, List.replicate n .out⟩

/-!
## What is promised

A process is inside when it has completed `init_shm` and has not started
`deleteSharedMemory`.
-/

def ProcLoc.inside? : ProcLoc -> Option Nat
  | .inside g => some g
  | _ => none

/-- The segment that the process zeroes or removes in its next step. -/
def ProcLoc.clearing? : ProcLoc -> Option Nat
  | .mustZero g => some g
  | .mustRemove g => some g
  | _ => none

def ClearPending (procs : List ProcLoc) (g : Nat) : Prop :=
  exists loc, loc ∈ procs ∧ loc.clearing? = some g

/-- Whenever a pending clear is made, nobody is inside, and the counter is never
below the number of processes inside. -/
structure SegmentSafe (s : Users content) : Prop where
  clear : forall g, ClearPending s.procs g -> ProcLoc.inside g ∉ s.procs
  count : forall g,
    (s.procs.count (.inside g) : Int) ≤ (s.ipc.segs g).processNum

/-- The counter is not incremented while a clear of the segment is pending. -/
def IncrementExcluded (s : Users content) (i : Nat) : Prop :=
  match s.procs[i]? with
  | some (.mustIncrement g) => ¬ ClearPending s.procs g
  | _ => True

instance (procs : List ProcLoc) (g : Nat) :
    Decidable (ClearPending procs g) :=
  inferInstanceAs (Decidable (exists loc, loc ∈ procs ∧ _))

instance (s : Users content) (i : Nat) : Decidable (IncrementExcluded s i) := by
  unfold IncrementExcluded
  split <;> infer_instance

/-!
## The invariant
-/

structure Counted (s : Users content) : Prop where
  exact : forall g, (s.ipc.segs g).processNum = s.procs.count (.inside g)
  clear : forall g, ClearPending s.procs g -> s.procs.count (.inside g) = 0

theorem segmentSafe_of_counted {s : Users content} (h : Counted s) :
    SegmentSafe s where
  clear := fun g hpending => List.count_eq_zero.mp (h.clear g hpending)
  count := fun g => le_of_eq (h.exact g).symm

/-- A clear that is pending after a step was pending before, or the process that
moved has just found the counter zero. -/
theorem clearPending_set {procs : List ProcLoc} {i g : Nat} {loc : ProcLoc}
    (h : ClearPending (procs.set i loc) g) :
    ClearPending procs g ∨ loc.clearing? = some g := by
  rcases h with ⟨other, hmem, hclear⟩
  rcases List.mem_or_eq_of_mem_set hmem with hold | hnew
  · exact Or.inl ⟨other, hold, hclear⟩
  · rw [hnew] at hclear
    exact Or.inr hclear

theorem inside?_eq_some {loc : ProcLoc} {g : Nat} :
    loc.inside? = some g <-> loc = .inside g := by
  cases loc <;> simp [ProcLoc.inside?]

theorem count_set_inside {procs : List ProcLoc} {i : Nat} {loc : ProcLoc}
    (hloc : procs[i]? = some loc) (loc' : ProcLoc) (g : Nat) :
    (procs.set i loc').count (.inside g) +
        (if loc.inside? = some g then 1 else 0) =
      procs.count (.inside g) + (if loc'.inside? = some g then 1 else 0) := by
  rcases List.getElem?_eq_some_iff.mp hloc with ⟨hi, hget⟩
  have hpos : loc = .inside g -> 0 < procs.count (.inside g) := by
    intro heq
    rw [heq] at hloc
    exact List.count_pos_iff.mpr (List.mem_of_getElem? hloc)
  rw [List.count_set hi, hget]
  simp only [inside?_eq_some, beq_iff_eq]
  by_cases hbefore : loc = .inside g
  · have := hpos hbefore
    simp only [hbefore, if_true]
    omega
  · simp only [hbefore, if_false]
    omega

theorem count_le_procs (procs : List ProcLoc) (i g : Nat) (loc : ProcLoc) :
    (procs.set i loc).count (.inside g) ≤ procs.length := by
  have hle : (procs.set i loc).count (.inside g) ≤
      (procs.set i loc).length := List.count_le_length
  rwa [List.length_set] at hle

/-!
## Steps
-/

/-- A step that stays outside and keeps every counter; a process that is about
to clear has found the counter zero. -/
theorem counted_of_outside {s : Users content} {ipc : Ipc content} {i : Nat}
    {loc loc' : ProcLoc} (hs : Counted s) (hloc : s.procs[i]? = some loc)
    (hbefore : loc.inside? = none) (hafter : loc'.inside? = none)
    (hsame : forall g,
      (ipc.segs g).processNum = (s.ipc.segs g).processNum)
    (hfound : forall g, loc'.clearing? = some g ->
      (s.ipc.segs g).processNum = 0) :
    Counted ⟨ipc, s.procs.set i loc'⟩ := by
  have hcount : forall g,
      (s.procs.set i loc').count (.inside g) = s.procs.count (.inside g) := by
    intro g
    have hset := count_set_inside hloc loc' g
    rw [hbefore, hafter] at hset
    simpa using hset
  constructor
  · intro g
    rw [hcount g, hsame g]
    exact hs.exact g
  · intro g hpending
    rw [hcount g]
    rcases clearPending_set hpending with hold | hnew
    · exact hs.clear g hold
    · have hexact := hs.exact g
      have hzero := hfound g hnew
      omega

theorem counted_enter {s : Users content} {i g : Nat}
    (hbound : s.procs.length < 2147483648) (hs : Counted s)
    (hloc : s.procs[i]? = some (.mustIncrement g))
    (hcond : ¬ ClearPending s.procs g) :
    Counted ⟨s.ipc.increment g, s.procs.set i (.inside g)⟩ := by
  have hcount := fun k =>
    count_set_inside hloc (.inside g) k
  simp only [ProcLoc.inside?, Option.some.injEq, reduceCtorEq, if_false,
    Nat.add_zero] at hcount
  constructor
  · intro k
    have hk := hcount k
    have hle := count_le_procs s.procs i k (.inside g)
    have hexact := hs.exact k
    simp only [Ipc.processNum_increment]
    by_cases heq : k = g
    · subst heq
      rw [if_pos rfl] at hk
      rw [if_pos rfl, hexact, wrapInt_of_bounds (by omega) (by omega)]
      omega
    · rw [if_neg (fun h => heq h.symm)] at hk
      rw [if_neg heq]
      omega
  · intro k hpending
    rcases clearPending_set hpending with hold | hnew
    · have hk := hcount k
      have hzero := hs.clear k hold
      have hne : ¬ g = k := by
        intro heq
        subst heq
        exact hcond hold
      rw [if_neg hne] at hk
      simp only
      omega
    · cases hnew

theorem counted_leave {s : Users content} {i g : Nat}
    (hbound : s.procs.length < 2147483648) (hs : Counted s)
    (hloc : s.procs[i]? = some (.inside g)) :
    Counted ⟨s.ipc.decrement g, s.procs.set i (.decremented g)⟩ := by
  have hcount := fun k =>
    count_set_inside hloc (.decremented g) k
  simp only [ProcLoc.inside?, Option.some.injEq, reduceCtorEq, if_false,
    Nat.add_zero] at hcount
  constructor
  · intro k
    have hk := hcount k
    have hle := count_le_procs s.procs i k (.decremented g)
    have hexact := hs.exact k
    simp only [Ipc.processNum_decrement]
    by_cases heq : k = g
    · subst heq
      rw [if_pos rfl] at hk
      rw [if_pos rfl, hexact, wrapInt_of_bounds (by omega) (by omega)]
      omega
    · rw [if_neg (fun h => heq h.symm)] at hk
      rw [if_neg heq]
      omega
  · intro k hpending
    have hk := hcount k
    rcases clearPending_set hpending with hold | hnew
    · have hzero := hs.clear k hold
      simp only
      omega
    · cases hnew

theorem usersStep_counted {start : CleanStart content} {s s' : Users content}
    {i : Nat} (hbound : s.procs.length < 2147483648) (hs : Counted s)
    (hcond : IncrementExcluded s i) (h : usersStep start s i = some s') :
    Counted s' := by
  rcases Option.map_eq_some_iff.mp h with ⟨loc, hloc, rfl⟩
  cases loc with
  | out =>
      apply counted_of_outside hs hloc rfl rfl
      · intro g
        simp [procStep]
      · intro g hg
        cases hg
  | attached g =>
      simp only [procStep]
      split
      · rename_i hzero
        apply counted_of_outside hs hloc rfl rfl (fun _ => rfl)
        intro k hk
        cases hk
        exact hzero
      · apply counted_of_outside hs hloc rfl rfl (fun _ => rfl)
        intro k hk
        cases hk
  | mustZero g =>
      have hmem : ProcLoc.mustZero g ∈ s.procs := List.mem_of_getElem? hloc
      have hnone := hs.clear g ⟨_, hmem, rfl⟩
      have hexact := hs.exact g
      apply counted_of_outside hs hloc rfl rfl
      · intro k
        simp only [procStep, Ipc.processNum_zero]
        split
        · rename_i hk
          rw [hk]
          omega
        · rfl
      · intro k hk
        cases hk
  | mustPrepare g =>
      apply counted_of_outside hs hloc rfl rfl
      · intro k
        simp [procStep]
      · intro k hk
        cases hk
  | mustIncrement g =>
      unfold IncrementExcluded at hcond
      rw [hloc] at hcond
      exact counted_enter hbound hs hloc hcond
  | inside g => exact counted_leave hbound hs hloc
  | decremented g =>
      simp only [procStep]
      split
      · rename_i hzero
        apply counted_of_outside hs hloc rfl rfl (fun _ => rfl)
        intro k hk
        cases hk
        exact hzero
      · apply counted_of_outside hs hloc rfl rfl (fun _ => rfl)
        intro k hk
        cases hk
  | mustRemove g =>
      apply counted_of_outside hs hloc rfl rfl
      · intro k
        simp [procStep]
      · intro k hk
        cases hk

/-!
## Runs
-/

theorem usersStep_length {start : CleanStart content} {s s' : Users content}
    {i : Nat} (h : usersStep start s i = some s') :
    s'.procs.length = s.procs.length := by
  rcases Option.map_eq_some_iff.mp h with ⟨loc, _, rfl⟩
  exact List.length_set

theorem counted_start (start : CleanStart content) (n : Nat) :
    Counted (Users.start start n) := by
  have hout : forall loc, loc ∈ (Users.start start n).procs -> loc = .out :=
    fun loc hmem => List.eq_of_mem_replicate hmem
  have hcount : forall g,
      (Users.start start n).procs.count (.inside g) = 0 := by
    intro g
    rw [List.count_eq_zero]
    intro hmem
    cases hout _ hmem
  constructor
  · intro g
    rw [hcount g]
    rfl
  · intro g _
    exact hcount g

/-- In every run whose increments are never taken while a clear is pending, the
segments are safe, for any number of processes that an `int` can count. -/
theorem segmentSafe_of_run {start : CleanStart content} {n : Nat}
    {history : List Nat} {s : Users content} (hn : n < 2147483648)
    (h : Machine.RunWhere (usersStep start) IncrementExcluded
      (Users.start start n) history s) : SegmentSafe s := by
  have hinv : s.procs.length = n ∧ Counted s := by
    apply Machine.invariant_of_step _ _ h
    · intro s i s' hs hcond hstep
      refine ⟨(usersStep_length hstep).trans hs.left, ?_⟩
      exact usersStep_counted (by omega) hs.right hcond hstep
    · exact ⟨List.length_replicate, counted_start start n⟩
  exact segmentSafe_of_counted hinv.right

/-!
## Whole calls

A call that nobody interrupts is the same call in one go.
-/

theorem reaches_procStep (start : CleanStart content) (ipc : Ipc content)
    {procs : List ProcLoc} {i : Nat} (hi : i < procs.length) (loc : ProcLoc) :
    (usersStep start).Reaches ⟨ipc, procs.set i loc⟩
      ⟨(procStep start ipc loc).1,
        procs.set i (procStep start ipc loc).2⟩ := by
  have hloc : (procs.set i loc)[i]? = some loc := List.getElem?_set_self hi
  have hstep : usersStep start ⟨ipc, procs.set i loc⟩ i =
      some ⟨(procStep start ipc loc).1,
        procs.set i (procStep start ipc loc).2⟩ := by
    simp only [usersStep, hloc, Option.map_some, List.set_set]
  exact Machine.reaches_of_step hstep

theorem reaches_init (start : CleanStart content) (ipc : Ipc content)
    {procs : List ProcLoc} {i : Nat} (hi : i < procs.length) :
    (usersStep start).Reaches ⟨ipc, procs.set i .out⟩
      ⟨(ipc.init start).2, procs.set i (.inside (ipc.init start).1)⟩ := by
  have hattach := reaches_procStep start ipc hi .out
  have htest := reaches_procStep start ipc.attach.2 hi (.attached ipc.attach.1)
  simp only [procStep, Ipc.segs_attach] at hattach htest
  by_cases hzero : (ipc.segs ipc.attach.1).processNum = 0
  · rw [Ipc.init_of_zero start hzero]
    rw [if_pos hzero] at htest
    apply Machine.reaches_trans hattach
    apply Machine.reaches_trans htest
    apply Machine.reaches_trans
      (reaches_procStep start ipc.attach.2 hi (.mustZero ipc.attach.1))
    apply Machine.reaches_trans
      (reaches_procStep start _ hi (.mustPrepare ipc.attach.1))
    exact reaches_procStep start _ hi (.mustIncrement ipc.attach.1)
  · rw [Ipc.init_of_ne_zero start hzero]
    rw [if_neg hzero] at htest
    apply Machine.reaches_trans hattach
    apply Machine.reaches_trans htest
    exact reaches_procStep start _ hi (.mustIncrement ipc.attach.1)

theorem reaches_delete (start : CleanStart content) (ipc : Ipc content)
    {procs : List ProcLoc} {i : Nat} (hi : i < procs.length) (g : Nat) :
    (usersStep start).Reaches ⟨ipc, procs.set i (.inside g)⟩
      ⟨ipc.delete g, procs.set i .out⟩ := by
  have hdecrement := reaches_procStep start ipc hi (.inside g)
  have htest := reaches_procStep start (ipc.decrement g) hi (.decremented g)
  simp only [procStep] at hdecrement htest
  apply Machine.reaches_trans hdecrement
  unfold Ipc.delete
  simp only
  split
  · rename_i hzero
    rw [if_pos hzero] at htest
    apply Machine.reaches_trans htest
    exact reaches_procStep start _ hi (.mustRemove g)
  · rename_i hpos
    rw [if_neg hpos] at htest
    exact htest

/-!
## Two processes

When the second process attaches after the first one has completed `init_shm`,
the counter is right.  When both find the counter zero, the second clear falls
on the first process.
-/

def oneAfterTheOther : List Nat := [0, 0, 0, 0, 0, 1, 1, 1, 0, 0]

def bothFindZero : List Nat := [0, 0, 1, 1, 0, 0, 0, 1]

theorem segmentSafe_oneAfterTheOther :
    exists s : Users SHMmsgs,
      s.procs = [.out, .inside 0] ∧ SegmentSafe s := by
  have hrun : (((usersStep shmMsgsStart).guarded IncrementExcluded).runFrom
      (Users.start shmMsgsStart 2) oneAfterTheOther).any
      (fun s => decide (s.procs = [.out, .inside 0])) = true := by
    decide +kernel
  rcases Machine.exists_runWhere_of_any hrun with ⟨s, hs, hprocs⟩
  exact ⟨s, of_decide_eq_true hprocs, segmentSafe_of_run (by decide) hs⟩

theorem not_all_segmentSafe :
    ¬ forall n history s, n < 2147483648 ->
        Machine.Run (usersStep shmMsgsStart) (Users.start shmMsgsStart n)
          history s ->
        SegmentSafe s := by
  intro hclaim
  have hrun : ((usersStep shmMsgsStart).runFrom (Users.start shmMsgsStart 2)
      bothFindZero).any
      (fun s => decide ((s.ipc.segs 0).processNum <
        s.procs.count (.inside 0))) = true := by
    decide +kernel
  rcases Machine.exists_run_of_any hrun with ⟨s, hs, hbelow⟩
  have hcount := (hclaim 2 _ s (by decide) hs).count 0
  have hlt := of_decide_eq_true hbelow
  omega

end SharedMemory
end FrankaKistar
