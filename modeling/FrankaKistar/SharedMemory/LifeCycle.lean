import FrankaKistar.SharedMemory.Segment
import FrankaKistar.Foundation.Runs
import FrankaKistar.Foundation.Sums

/-!
# Life cycle of the segments

The main process attaches from three threads and detaches at most once, and it
never detaches from the trajectory segment; the bridge attaches and detaches once
from each.  Each attach and each detach is one step here.  The segments come back
to nothing when every main process that ends has given back what it attached.
-/

namespace FrankaKistar
namespace SharedMemory

open Foundation

/-- `shm_msgs` of the EtherCAT thread, which `ethercat_run` passes to
`deleteSharedMemory` at its end.  The call does nothing when the thread has not
attached yet. -/
inductive EcatAttachment where
  | waiting
  | attached (g : Nat)
  | deleted (g : Nat)
  | skipped
  | late (g : Nat)
deriving DecidableEq

/-- The attachments of a main process: of its EtherCAT thread, `g_shm_msgs` and
`g_traj_shm` of its Franka thread, and `shm_msgs` of its print thread. -/
structure MainProcess where
  ecat : EcatAttachment
  frankaMsgs : Option Nat
  frankaTraj : Option Nat
  print : Option Nat
deriving DecidableEq

/-- A process that may run: the main process, or the bridge in its constructor,
while it spins and in its destructor. -/
inductive Process where
  | off
  | main (m : MainProcess)
  | bridgeMsgs (g : Nat)
  | bridge (g h : Nat)
  | bridgeTrajDeleted (g : Nat)
deriving DecidableEq

structure Life where
  msgs : Ipc SHMmsgs
  traj : Ipc ArmTrajBuf
  procs : List Process

inductive LifeAction where
  | startMain
  | ecatthread
  | ensureMsgs
  | ensureTraj
  | shmPrint
  | deleteMsgs
  | exitMain
  | bridgeInitMsgs
  | bridgeInitTraj
  | bridgeDeleteTraj
  | bridgeDeleteMsgs

def MainProcess.fresh : MainProcess := ⟨.waiting, none, none, none⟩

/-- What one action of a process does: the two segments and the process after
it. -/
def processStep (msgs : Ipc SHMmsgs) (traj : Ipc ArmTrajBuf) :
    Process -> LifeAction -> Option (Ipc SHMmsgs × Ipc ArmTrajBuf × Process)
  | .off, .startMain => some (msgs, traj, .main .fresh)
  | .main m, .ecatthread =>
      match m.ecat with
      | .waiting =>
          some ((msgs.init shmMsgsStart).2, traj,
            .main { m with ecat := .attached (msgs.init shmMsgsStart).1 })
      | .skipped =>
          some ((msgs.init shmMsgsStart).2, traj,
            .main { m with ecat := .late (msgs.init shmMsgsStart).1 })
      | _ => none
  | .main m, .ensureMsgs =>
      match m.frankaMsgs with
      | none =>
          some ((msgs.init shmMsgsStart).2, traj,
            .main { m with frankaMsgs := some (msgs.init shmMsgsStart).1 })
      | some _ => some (msgs, traj, .main m)
  | .main m, .ensureTraj =>
      match m.frankaMsgs, m.frankaTraj with
      | none, _ => none
      | some _, none =>
          some (msgs, (traj.init armTrajStart).2,
            .main { m with frankaTraj := some (traj.init armTrajStart).1 })
      | some _, some _ => some (msgs, traj, .main m)
  | .main m, .shmPrint =>
      match m.print with
      | none =>
          some ((msgs.init shmMsgsStart).2, traj,
            .main { m with print := some (msgs.init shmMsgsStart).1 })
      | some _ => none
  | .main m, .deleteMsgs =>
      match m.ecat with
      | .waiting => some (msgs, traj, .main { m with ecat := .skipped })
      | .attached g =>
          some (msgs.delete g, traj, .main { m with ecat := .deleted g })
      | _ => none
  | .main _, .exitMain => some (msgs, traj, .off)
  | .off, .bridgeInitMsgs =>
      some ((msgs.init shmMsgsStart).2, traj,
        .bridgeMsgs (msgs.init shmMsgsStart).1)
  | .bridgeMsgs g, .bridgeInitTraj =>
      some (msgs, (traj.init armTrajStart).2,
        .bridge g (traj.init armTrajStart).1)
  | .bridge g h, .bridgeDeleteTraj =>
      some (msgs, traj.delete h, .bridgeTrajDeleted g)
  | .bridgeTrajDeleted g, .bridgeDeleteMsgs => some (msgs.delete g, traj, .off)
  | _, _ => none

def lifeStep : Machine Life (Nat × LifeAction) :=
  fun s e =>
    (s.procs[e.1]?).bind fun p =>
      (processStep s.msgs s.traj p e.2).map fun r =>
        ⟨r.1, r.2.1, s.procs.set e.1 r.2.2⟩

/-- `n` processes that may run, none of which does, and no segment. -/
def Life.start (n : Nat) : Life where
  msgs := Ipc.empty shmMsgsStart
  traj := Ipc.empty armTrajStart
  procs := List.replicate n .off

/-!
## What is promised
-/

/-- Nothing is left: the key leads nowhere, every counter is zero, and the next
attach finds what a clean start writes. -/
structure CleanSlate {content : Type} (ipc : Ipc content)
    (start : CleanStart content) : Prop where
  removed : ipc.key = none
  counters : forall g, (ipc.segs g).processNum = 0
  nextStart : ((ipc.init start).2.segs (ipc.init start).1).content =
    start.prepare start.zero

def Process.msgsHeld (g : Nat) : Process -> Nat
  | .off => 0
  | .main m =>
      (if m.ecat = .attached g ∨ m.ecat = .late g then 1 else 0) +
        (if m.frankaMsgs = some g then 1 else 0) +
        (if m.print = some g then 1 else 0)
  | .bridgeMsgs k => if k = g then 1 else 0
  | .bridge k _ => if k = g then 1 else 0
  | .bridgeTrajDeleted k => if k = g then 1 else 0

def Process.trajHeld (g : Nat) : Process -> Nat
  | .main m => if m.frankaTraj = some g then 1 else 0
  | .bridge _ h => if h = g then 1 else 0
  | _ => 0

/-- Nothing that was counted is left to be counted down. -/
def MainProcess.balanced : MainProcess -> Bool
  | ⟨.attached _, _, _, _⟩ => false
  | ⟨.late _, _, _, _⟩ => false
  | ⟨_, none, none, none⟩ => true
  | _ => false

def Process.balanced : Process -> Bool
  | .main m => m.balanced
  | _ => true

def LifeAction.isExit : LifeAction -> Bool
  | .exitMain => true
  | _ => false

def BalancedExit (s : Life) (e : Nat × LifeAction) : Prop :=
  e.2.isExit = true -> (s.procs[e.1]?).all Process.balanced = true

instance (s : Life) (e : Nat × LifeAction) : Decidable (BalancedExit s e) :=
  inferInstanceAs (Decidable (_ -> _))

/-!
## One segment

The counter is the number of counted attachments, and the key leads to the
segment that has some.
-/

section Accounts

variable {content : Type} {start : CleanStart content} {ipc : Ipc content}
variable {held held' : Nat -> Nat}

structure Accounted (ipc : Ipc content) (held : Nat -> Nat) : Prop where
  counter : forall g, (ipc.segs g).processNum = held g
  current : forall g, 0 < held g -> ipc.key = some g
  inUse : forall g, ipc.key = some g -> 0 < held g

theorem cleanSlate_of_accounted (h : Accounted ipc held)
    (hnone : forall g, held g = 0) : CleanSlate ipc start := by
  have hcounters : forall g, (ipc.segs g).processNum = 0 := by
    intro g
    rw [h.counter g, hnone g]
    rfl
  refine ⟨?_, hcounters, ?_⟩
  · cases hkey : ipc.key with
    | none => rfl
    | some g =>
        have hpos := h.inUse g hkey
        rw [hnone g] at hpos
        cases hpos
  · rw [Ipc.init_of_zero start (hcounters _)]
    simp [Ipc.increment, Ipc.prepare, Ipc.zero, Ipc.segs_setSegment]

theorem accounted_empty (start : CleanStart content) :
    Accounted (Ipc.empty start) (fun _ => 0) where
  counter := fun _ => rfl
  current := fun _ h => absurd h (Nat.lt_irrefl 0)
  inUse := fun _ h => by cases h

theorem accounted_init (h : Accounted ipc held)
    (hheld : forall k,
      held' k = held k + (if (ipc.init start).1 = k then 1 else 0))
    (hbound : forall k, held' k < 2147483648) :
    Accounted (ipc.init start).2 held' := by
  cases hkey : ipc.key with
  | some g =>
      have hattach : ipc.attach = (g, ipc) := by
        simp [Ipc.attach, hkey]
      have hpos := h.inUse g hkey
      have hne : (ipc.segs g).processNum ≠ 0 := by
        rw [h.counter g]
        omega
      have hinit : ipc.init start = (g, ipc.increment g) := by
        rw [Ipc.init_of_ne_zero start (by rw [hattach]; exact hne), hattach]
      rw [hinit] at hheld ⊢
      constructor
      · intro k
        have hk := hheld k
        have hlt := hbound k
        have hcounter := h.counter k
        simp only [Ipc.processNum_increment]
        by_cases heq : k = g
        · subst heq
          rw [if_pos rfl] at hk
          rw [if_pos rfl, hcounter, wrapInt_of_bounds (by omega) (by omega)]
          omega
        · rw [if_neg (fun hgk => heq hgk.symm)] at hk
          rw [if_neg heq]
          omega
      · intro k hk
        rw [hheld k] at hk
        show ipc.key = some k
        by_cases heq : g = k
        · rw [hkey, heq]
        · rw [if_neg heq] at hk
          exact h.current k (by omega)
      · intro k hk
        have hold := h.inUse k hk
        rw [hheld k]
        omega
  | none =>
      have hnone : forall k, held k = 0 := by
        intro k
        rcases Nat.eq_zero_or_pos (held k) with hzero | hpos
        · exact hzero
        · have hsome := h.current k hpos
          rw [hkey] at hsome
          cases hsome
      have hzero : (ipc.segs ipc.attach.1).processNum = 0 := by
        rw [h.counter, hnone]
        rfl
      have hinit := Ipc.init_of_zero start hzero
      have hfst := congrArg Prod.fst hinit
      have hsnd := congrArg Prod.snd hinit
      have hcurrent : (ipc.init start).2.key = some ipc.attach.1 := by
        rw [hsnd]
        show ipc.attach.2.key = some ipc.attach.1
        simp [Ipc.attach, hkey]
      rw [hfst] at hheld
      constructor
      · intro k
        have hk := hheld k
        have hcounter := h.counter k
        rw [hnone k] at hk hcounter
        rw [hsnd, Ipc.processNum_increment, Ipc.processNum_prepare,
          Ipc.processNum_zero, Ipc.segs_attach]
        by_cases heq : k = ipc.attach.1
        · rw [if_pos heq.symm] at hk
          rw [if_pos heq, if_pos heq, hk,
            wrapInt_of_bounds (by omega) (by omega)]
          rfl
        · rw [if_neg (fun hgk => heq hgk.symm)] at hk
          rw [if_neg heq, if_neg heq, hcounter, hk]
      · intro k hk
        rw [hheld k, hnone k] at hk
        rw [hcurrent]
        by_cases heq : ipc.attach.1 = k
        · rw [heq]
        · rw [if_neg heq] at hk
          omega
      · intro k hk
        rw [hcurrent] at hk
        rw [hheld k, if_pos (Option.some.inj hk)]
        omega

theorem accounted_delete {g : Nat} (h : Accounted ipc held)
    (hheld : forall k, held' k + (if g = k then 1 else 0) = held k)
    (hbound : forall k, held k < 2147483648) :
    Accounted (ipc.delete g) held' := by
  have hg := hheld g
  rw [if_pos rfl] at hg
  have hkey : ipc.key = some g := h.current g (by omega)
  have hcounter : forall k,
      ((ipc.decrement g).segs k).processNum = held' k := by
    intro k
    have hk := hheld k
    have hlt := hbound k
    have hold := h.counter k
    rw [Ipc.processNum_decrement]
    by_cases heq : k = g
    · subst heq
      rw [if_pos rfl] at hk
      rw [if_pos rfl, hold, wrapInt_of_bounds (by omega) (by omega)]
      omega
    · rw [if_neg (fun hgk => heq hgk.symm)] at hk
      rw [if_neg heq]
      omega
  have honly : forall k, 0 < held' k -> k = g := by
    intro k hk
    have hold := hheld k
    have hcurrent := h.current k (by omega)
    rw [hkey] at hcurrent
    exact (Option.some.inj hcurrent).symm
  unfold Ipc.delete
  simp only
  split
  · rename_i hzero
    rw [hcounter g] at hzero
    have hkeyEnd : ((ipc.decrement g).remove g).key = none := by
      show (if ipc.key = some g then none else ipc.key) = none
      rw [if_pos hkey]
    constructor
    · intro k
      rw [Ipc.segs_remove]
      exact hcounter k
    · intro k hk
      have heq := honly k hk
      subst heq
      omega
    · intro k hk
      rw [hkeyEnd] at hk
      cases hk
  · rename_i hpos
    rw [hcounter g] at hpos
    constructor
    · exact hcounter
    · intro k hk
      show ipc.key = some k
      rw [honly k hk]
      exact hkey
    · intro k hk
      have hsame : g = k := by
        have : ipc.key = some k := hk
        rw [hkey] at this
        exact Option.some.inj this
      subst hsame
      omega

end Accounts

/-!
## What one action does to one key
-/

/-- A key is left alone, attached once, or detached once, and the attachments of
the process that acts follow. -/
inductive Effect {content : Type} (start : CleanStart content)
    (held : Nat -> Process -> Nat) (ipc : Ipc content) (p p' : Process) :
    Ipc content -> Prop where
  | keep (h : forall g, held g p' = held g p) :
      Effect start held ipc p p' ipc
  | init (h : forall g,
        held g p' = held g p + (if (ipc.init start).1 = g then 1 else 0)) :
      Effect start held ipc p p' (ipc.init start).2
  | delete (k : Nat) (h : forall g,
        held g p' + (if k = g then 1 else 0) = held g p) :
      Effect start held ipc p p' (ipc.delete k)

theorem accounted_effect {content : Type} {start : CleanStart content}
    {held : Nat -> Process -> Nat} {ipc ipc' : Ipc content} {p p' : Process}
    {procs : List Process} {i : Nat}
    (hbound : forall g q, held g q ≤ 3)
    (hprocs : procs.length * 3 < 2147483648)
    (h : Accounted ipc (fun g => weight (held g) procs))
    (hp : procs[i]? = some p) (heffect : Effect start held ipc p p' ipc') :
    Accounted ipc' (fun g => weight (held g) (procs.set i p')) := by
  have hset := fun g => weight_set (held g) hp p'
  have hbefore : forall g, weight (held g) procs < 2147483648 := by
    intro g
    exact Nat.lt_of_le_of_lt (weight_le (held g) (hbound g) procs) hprocs
  have hafter : forall g, weight (held g) (procs.set i p') < 2147483648 := by
    intro g
    have hle := weight_le (held g) (hbound g) (procs.set i p')
    rw [List.length_set] at hle
    exact Nat.lt_of_le_of_lt hle hprocs
  cases heffect with
  | keep hkeep =>
      have hsame : forall g,
          weight (held g) (procs.set i p') = weight (held g) procs := by
        intro g
        have hg := hset g
        have hkg := hkeep g
        omega
      simp only [hsame]
      exact h
  | init hinit =>
      apply accounted_init h _ hafter
      intro g
      have hg := hset g
      have hig := hinit g
      omega
  | delete k hdelete =>
      apply accounted_delete h _ hbefore
      intro g
      have hg := hset g
      have hdg := hdelete g
      omega

theorem held_of_balanced {m : MainProcess} (h : m.balanced = true) (g : Nat) :
    (Process.main m).msgsHeld g = 0 ∧ (Process.main m).trajHeld g = 0 := by
  rcases m with ⟨ecat, frankaMsgs, frankaTraj, print⟩
  revert h
  cases ecat <;> cases frankaMsgs <;> cases frankaTraj <;> cases print <;>
    simp [MainProcess.balanced, Process.msgsHeld, Process.trajHeld]

theorem msgsHeld_le (g : Nat) (p : Process) : p.msgsHeld g ≤ 3 := by
  cases p with
  | off => exact Nat.zero_le 3
  | main m =>
      simp only [Process.msgsHeld]
      split <;> split <;> split <;> decide
  | bridgeMsgs | bridge | bridgeTrajDeleted =>
      simp only [Process.msgsHeld]
      split <;> decide

theorem trajHeld_le (g : Nat) (p : Process) : p.trajHeld g ≤ 3 := by
  cases p with
  | off | bridgeMsgs | bridgeTrajDeleted => exact Nat.zero_le 3
  | main m =>
      simp only [Process.trajHeld]
      split <;> decide
  | bridge =>
      simp only [Process.trajHeld]
      split <;> decide

theorem main_effects {msgs msgs' : Ipc SHMmsgs} {traj traj' : Ipc ArmTrajBuf}
    {m : MainProcess} {p' : Process} {action : LifeAction}
    (hexit : action.isExit = true -> m.balanced = true)
    (h : processStep msgs traj (.main m) action = some (msgs', traj', p')) :
    Effect shmMsgsStart Process.msgsHeld msgs (.main m) p' msgs' ∧
      Effect armTrajStart Process.trajHeld traj (.main m) p' traj' := by
  rcases m with ⟨ecat, frankaMsgs, frankaTraj, print⟩
  cases action with
  | startMain | bridgeInitMsgs | bridgeInitTraj | bridgeDeleteTraj
  | bridgeDeleteMsgs => cases h
  | ecatthread =>
      cases ecat with
      | attached | deleted | late => cases h
      | waiting =>
          cases h
          refine ⟨Effect.init ?_, Effect.keep fun _ => rfl⟩
          intro g
          simp [Process.msgsHeld]
          omega
      | skipped =>
          cases h
          refine ⟨Effect.init ?_, Effect.keep fun _ => rfl⟩
          intro g
          simp [Process.msgsHeld]
          omega
  | ensureMsgs =>
      cases frankaMsgs with
      | some k =>
          cases h
          exact ⟨Effect.keep fun _ => rfl, Effect.keep fun _ => rfl⟩
      | none =>
          cases h
          refine ⟨Effect.init ?_, Effect.keep fun _ => rfl⟩
          intro g
          simp [Process.msgsHeld]
          omega
  | ensureTraj =>
      cases frankaMsgs with
      | none => cases h
      | some k =>
          cases frankaTraj with
          | some l =>
              cases h
              exact ⟨Effect.keep fun _ => rfl, Effect.keep fun _ => rfl⟩
          | none =>
              cases h
              refine ⟨Effect.keep fun _ => rfl, Effect.init ?_⟩
              intro g
              simp [Process.trajHeld]
  | shmPrint =>
      cases print with
      | some k => cases h
      | none =>
          cases h
          refine ⟨Effect.init ?_, Effect.keep fun _ => rfl⟩
          intro g
          simp [Process.msgsHeld]
  | deleteMsgs =>
      cases ecat with
      | deleted | skipped | late => cases h
      | waiting =>
          cases h
          refine ⟨Effect.keep ?_, Effect.keep fun _ => rfl⟩
          intro g
          simp [Process.msgsHeld]
      | attached k =>
          cases h
          refine ⟨Effect.delete k ?_, Effect.keep fun _ => rfl⟩
          intro g
          simp [Process.msgsHeld]
          omega
  | exitMain =>
      cases h
      have hnone := held_of_balanced (hexit rfl)
      refine ⟨Effect.keep ?_, Effect.keep ?_⟩
      · intro g
        exact (hnone g).left.symm
      · intro g
        exact (hnone g).right.symm

theorem other_effects {msgs msgs' : Ipc SHMmsgs} {traj traj' : Ipc ArmTrajBuf}
    {p p' : Process} {action : LifeAction}
    (hother : forall m, p ≠ .main m)
    (h : processStep msgs traj p action = some (msgs', traj', p')) :
    Effect shmMsgsStart Process.msgsHeld msgs p p' msgs' ∧
      Effect armTrajStart Process.trajHeld traj p p' traj' := by
  cases p with
  | main m => exact absurd rfl (hother m)
  | off =>
      cases action with
      | startMain =>
          cases h
          refine ⟨Effect.keep ?_, Effect.keep fun _ => rfl⟩
          intro g
          simp [Process.msgsHeld, MainProcess.fresh]
      | bridgeInitMsgs =>
          cases h
          refine ⟨Effect.init ?_, Effect.keep fun _ => rfl⟩
          intro g
          simp [Process.msgsHeld]
      | _ => cases h
  | bridgeMsgs k =>
      cases action with
      | bridgeInitTraj =>
          cases h
          refine ⟨Effect.keep fun _ => rfl, Effect.init ?_⟩
          intro g
          simp [Process.trajHeld]
      | _ => cases h
  | bridge k l =>
      cases action with
      | bridgeDeleteTraj =>
          cases h
          refine ⟨Effect.keep fun _ => rfl, Effect.delete l ?_⟩
          intro g
          simp [Process.trajHeld]
      | _ => cases h
  | bridgeTrajDeleted k =>
      cases action with
      | bridgeDeleteMsgs =>
          cases h
          refine ⟨Effect.delete k ?_, Effect.keep fun _ => rfl⟩
          intro g
          simp [Process.msgsHeld]
      | _ => cases h

/-!
## Runs
-/

structure LifeInv (s : Life) : Prop where
  msgs : Accounted s.msgs (fun g => weight (Process.msgsHeld g) s.procs)
  traj : Accounted s.traj (fun g => weight (Process.trajHeld g) s.procs)

theorem lifeStep_inv {s s' : Life} {e : Nat × LifeAction}
    (hbound : s.procs.length * 3 < 2147483648) (hs : LifeInv s)
    (hcond : BalancedExit s e) (h : lifeStep s e = some s') :
    LifeInv s' ∧ s'.procs.length = s.procs.length := by
  rcases e with ⟨i, action⟩
  rcases Option.bind_eq_some_iff.mp h with ⟨p, hp, hstep⟩
  rcases Option.map_eq_some_iff.mp hstep with ⟨⟨msgs, traj, p'⟩, hresult, rfl⟩
  have heffects :
      Effect shmMsgsStart Process.msgsHeld s.msgs p p' msgs ∧
        Effect armTrajStart Process.trajHeld s.traj p p' traj := by
    cases p with
    | main m =>
        apply main_effects _ hresult
        intro hexit
        have hbalanced := hcond hexit
        have hp' : s.procs[i]? = some (.main m) := hp
        rw [hp'] at hbalanced
        exact hbalanced
    | off | bridgeMsgs | bridge | bridgeTrajDeleted =>
        exact other_effects (fun _ => nofun) hresult
  refine ⟨⟨?_, ?_⟩, List.length_set⟩
  · exact accounted_effect msgsHeld_le hbound hs.msgs hp heffects.left
  · exact accounted_effect trajHeld_le hbound hs.traj hp heffects.right

theorem weight_of_off {f : Process -> Nat} (hf : f .off = 0)
    {procs : List Process} (h : forall p, p ∈ procs -> p = .off) :
    weight f procs = 0 := by
  apply weight_eq_zero
  intro p hp
  rw [h p hp]
  exact hf

theorem lifeInv_start (n : Nat) : LifeInv (Life.start n) := by
  have hoff : forall p, p ∈ (Life.start n).procs -> p = .off :=
    fun p hp => List.eq_of_mem_replicate hp
  constructor
  · have hnone : forall g,
        weight (Process.msgsHeld g) (Life.start n).procs = 0 :=
      fun g => weight_of_off rfl hoff
    simp only [hnone]
    exact accounted_empty shmMsgsStart
  · have hnone : forall g,
        weight (Process.trajHeld g) (Life.start n).procs = 0 :=
      fun g => weight_of_off rfl hoff
    simp only [hnone]
    exact accounted_empty armTrajStart

/-- In every run whose main processes end balanced, nothing is left of either
segment whenever no process runs. -/
theorem cleanSlate_of_run {n : Nat} {history : List (Nat × LifeAction)}
    {s : Life} (hn : n * 3 < 2147483648)
    (h : Machine.RunWhere lifeStep BalancedExit (Life.start n) history s)
    (hoff : forall p, p ∈ s.procs -> p = .off) :
    CleanSlate s.msgs shmMsgsStart ∧ CleanSlate s.traj armTrajStart := by
  have hinv : LifeInv s ∧ s.procs.length = n := by
    apply Machine.invariant_of_step _ _ h
    · intro s e s' hs hcond hstep
      have hnext := lifeStep_inv (by omega) hs.left hcond hstep
      exact ⟨hnext.left, hnext.right.trans hs.right⟩
    · exact ⟨lifeInv_start n, List.length_replicate⟩
  constructor
  · apply cleanSlate_of_accounted hinv.left.msgs
    exact fun g => weight_of_off rfl hoff
  · apply cleanSlate_of_accounted hinv.left.traj
    exact fun g => weight_of_off rfl hoff

/-!
## Two lives

A main process whose EtherCAT thread alone has attached leaves nothing, even
when the bridge overlaps it.  One that ran all its threads leaves both segments,
with counters 2 and 1.
-/

def overlapping : List (Nat × LifeAction) :=
  [ (0, .startMain), (0, .ecatthread), (1, .bridgeInitMsgs),
    (1, .bridgeInitTraj), (0, .deleteMsgs), (0, .exitMain),
    (1, .bridgeDeleteTraj), (1, .bridgeDeleteMsgs) ]

def ordinaryLife : List (Nat × LifeAction) :=
  [ (0, .startMain), (0, .ecatthread), (0, .ensureMsgs), (0, .ensureTraj),
    (0, .shmPrint), (0, .deleteMsgs), (0, .exitMain) ]

theorem cleanSlate_overlapping :
    exists s : Life, s.procs = [.off, .off] ∧
      CleanSlate s.msgs shmMsgsStart ∧ CleanSlate s.traj armTrajStart := by
  have hrun : ((lifeStep.guarded BalancedExit).runFrom (Life.start 2)
      overlapping).any (fun s => decide (s.procs = [.off, .off])) = true := by
    decide +kernel
  rcases Machine.exists_runWhere_of_any hrun with ⟨s, hs, htest⟩
  have hprocs := of_decide_eq_true htest
  have hoff : forall p, p ∈ s.procs -> p = .off := by
    rw [hprocs]
    simp
  exact ⟨s, hprocs, cleanSlate_of_run (by decide) hs hoff⟩

theorem not_all_cleanSlate :
    ¬ forall n history s, n * 3 < 2147483648 ->
        Machine.Run lifeStep (Life.start n) history s ->
        (forall p, p ∈ s.procs -> p = .off) ->
        CleanSlate s.msgs shmMsgsStart ∧ CleanSlate s.traj armTrajStart := by
  intro hclaim
  have hrun : (lifeStep.runFrom (Life.start 1) ordinaryLife).any
      (fun s => decide (s.procs = [.off]) &&
        decide ((s.msgs.segs 0).processNum = 2)) = true := by
    decide +kernel
  rcases Machine.exists_run_of_any hrun with ⟨s, hs, htest⟩
  rw [Bool.and_eq_true, decide_eq_true_eq, decide_eq_true_eq] at htest
  have hoff : forall p, p ∈ s.procs -> p = .off := by
    rw [htest.left]
    simp
  have hclean := (hclaim 1 _ s (by decide) hs hoff).left.counters 0
  rw [htest.right] at hclean
  cases hclean

end SharedMemory
end FrankaKistar
