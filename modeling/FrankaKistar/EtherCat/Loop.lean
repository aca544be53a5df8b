import FrankaKistar.Foundation.Blocks
import FrankaKistar.SharedMemory.Hand
import FrankaKistar.SharedMemory.Segment
import FrankaKistar.EtherCat.Frames
import FrankaKistar.EtherCat.Schedule

/-!
# The EtherCAT loop

One iteration of `ecatthread` as a function of what it reads from outside: the
result of `ec_receive_processdata`, the process image of the inputs, and the
distributed clock.  The process image of the outputs is a memory of bytes; the
forward kinematics of the fingertips and the printing are left out.

`dorun` is a signed 32-bit integer that wraps.
-/

namespace FrankaKistar
namespace EtherCat

open Foundation

/-- What one iteration reads from SOEM. -/
structure CycleInput where
  wkc : Int
  inputs : Nat -> UInt8
  hasdc : Bool
  dcTime : Int

/-- What is fixed before the loop runs.  At least one hand and at most
`Hand_Num` hands are active; `digout` is the place of the digital output byte in
the process image. -/
structure EcatConfig (n : Nat) where
  cycletime : Int
  activeHandNum : Nat
  active_pos : 1 ≤ activeHandNum
  active_le : activeHandNum ≤ n
  digout : Option Nat

structure EcatState (n : Nat) where
  ts : Timespec
  toff : Int
  integral : Int
  dorun : Int
  wkc : Int
  kistarTx : Fin n -> RobotHandCommand
  kistarRx : Fin n -> RobotHandData
  outputs : Nat -> UInt8
  shm : HandShm n

variable {n : Nat}

/-!
## Clock correction
-/

/-- `ec_sync`: the new integral and the offset. -/
def ecSync (reftime cycletime integral : Int) : Int × Int :=
  let delta := (reftime - 50000).tmod cycletime
  let delta := if cycletime.tdiv 2 < delta then delta - cycletime else delta
  let integral := if 0 < delta then integral + 1 else integral
  let integral := if delta < 0 then integral - 1 else integral
  (integral, -delta.tdiv 100 - integral.tdiv 20)

/-!
## The frames of one hand
-/

def fillCommand (shm : HandShm n) (hand : Fin n) (tx : RobotHandCommand) :
    RobotHandCommand :=
  { tx with
    handStatus1 := if shm.servoOn hand = 1 then 0xFFFF else 0x0000
    handStatus2 := (shm.handMode hand).toUInt16
    jointTarget := shm.jTar hand }

def kinestheticIndex (i : Fin kinestheticSensorNum)
    (j : Fin kinestheticSensorDOF) : Fin 12 :=
  ⟨3 * i.val + j.val, by
    have hi : i.val < 4 := i.isLt
    have hj : j.val < 3 := j.isLt
    omega⟩

def storeData (shm : HandShm n) (hand : Fin n) (rx : RobotHandData) :
    HandShm n :=
  { shm with
    jPos := Function.update shm.jPos hand rx.position
    jCur := Function.update shm.jCur hand rx.current
    jKin := Function.update shm.jKin hand fun i j =>
      rx.kinesthetic (kinestheticIndex i j)
    jTac := Function.update shm.jTac hand rx.tactile }

def exchangeHand (input : CycleInput) (s : EcatState n) (hand : Fin n) :
    EcatState n :=
  let tx := fillCommand s.shm hand (s.kistarTx hand)
  let rx := RobotHandData.ofByte
    (Blocks.loadBlock handDataReadByteNum input.inputs hand.val)
  { s with
    kistarTx := Function.update s.kistarTx hand tx
    outputs := Blocks.storeBlock s.outputs hand.val tx.byte
    kistarRx := Function.update s.kistarRx hand rx
    shm := storeData s.shm hand rx }

/-!
## One iteration
-/

def EcatConfig.activeHands (cfg : EcatConfig n) : List (Fin n) :=
  (List.finRange cfg.activeHandNum).map (Fin.castLE cfg.active_le)

def exchangeHands (cfg : EcatConfig n) (input : CycleInput)
    (s : EcatState n) : EcatState n :=
  cfg.activeHands.foldl (exchangeHand input) s

def writeDigout (cfg : EcatConfig n) (s : EcatState n) : EcatState n :=
  match cfg.digout with
  | none => s
  | some a =>
      { s with
        outputs := Function.update s.outputs a
          (UInt8.ofNat ((s.dorun.tdiv 16) % 256).toNat) }

def EcatState.Exchanges (s : EcatState n) : Prop := 0 < s.dorun

instance (s : EcatState n) : Decidable s.Exchanges :=
  inferInstanceAs (Decidable (0 < s.dorun))

def exchange (cfg : EcatConfig n) (input : CycleInput) (s : EcatState n) :
    EcatState n :=
  let s := { s with wkc := input.wkc, dorun := wrapInt (s.dorun + 1) }
  let s := writeDigout cfg (exchangeHands cfg input s)
  if input.hasdc then
    let sync := ecSync input.dcTime cfg.cycletime s.integral
    { s with integral := sync.1, toff := sync.2 }
  else
    s

def ecatIteration (cfg : EcatConfig n) (input : CycleInput)
    (s : EcatState n) : EcatState n :=
  let s := { s with ts := addTimespec s.ts (cfg.cycletime + s.toff) }
  if s.Exchanges then exchange cfg input s else s

/-- `ecatthread` before its loop, with zeroed frames. -/
def EcatState.start (now : ClockReading) (outputs : Nat -> UInt8)
    (shm : HandShm n) : EcatState n where
  ts := startTime now
  toff := 0
  integral := 0
  dorun := 0
  wkc := 0
  kistarTx := fun _ => RobotHandCommand.zero
  kistarRx := fun _ => RobotHandData.ofByte fun _ => 0
  outputs := outputs
  shm := shm

/-- `ethercat_run` starts the operation. -/
def EcatState.operate (s : EcatState n) : EcatState n :=
  { s with dorun := 1 }

/-!
## What the loop over the hands leaves alone
-/

section Kept

variable (cfg : EcatConfig n) (input : CycleInput) (s : EcatState n)

theorem exchangeHands_keeps {part : Type} (view : EcatState n -> part)
    (h : forall s hand, view (exchangeHand input s hand) = view s) :
    view (exchangeHands cfg input s) = view s := by
  unfold exchangeHands
  induction cfg.activeHands generalizing s with
  | nil => rfl
  | cons hand rest ih => exact (ih (exchangeHand input s hand)).trans (h s hand)

@[simp] theorem exchangeHands_ts : (exchangeHands cfg input s).ts = s.ts :=
  exchangeHands_keeps cfg input s EcatState.ts fun _ _ => rfl

@[simp] theorem exchangeHands_toff :
    (exchangeHands cfg input s).toff = s.toff :=
  exchangeHands_keeps cfg input s EcatState.toff fun _ _ => rfl

@[simp] theorem exchangeHands_integral :
    (exchangeHands cfg input s).integral = s.integral :=
  exchangeHands_keeps cfg input s EcatState.integral fun _ _ => rfl

@[simp] theorem exchangeHands_dorun :
    (exchangeHands cfg input s).dorun = s.dorun :=
  exchangeHands_keeps cfg input s EcatState.dorun fun _ _ => rfl

@[simp] theorem writeDigout_ts : (writeDigout cfg s).ts = s.ts := by
  unfold writeDigout
  split <;> rfl

@[simp] theorem writeDigout_toff : (writeDigout cfg s).toff = s.toff := by
  unfold writeDigout
  split <;> rfl

@[simp] theorem writeDigout_integral :
    (writeDigout cfg s).integral = s.integral := by
  unfold writeDigout
  split <;> rfl

@[simp] theorem writeDigout_dorun : (writeDigout cfg s).dorun = s.dorun := by
  unfold writeDigout
  split <;> rfl

@[simp] theorem writeDigout_shm : (writeDigout cfg s).shm = s.shm := by
  unfold writeDigout
  split <;> rfl

/-!
## One iteration, field by field
-/

theorem ecatIteration_ts :
    (ecatIteration cfg input s).ts =
      addTimespec s.ts (cfg.cycletime + s.toff) := by
  unfold ecatIteration exchange
  simp only
  split
  · split <;> simp
  · rfl

theorem ecatIteration_dorun :
    (ecatIteration cfg input s).dorun =
      if 0 < s.dorun then wrapInt (s.dorun + 1) else s.dorun := by
  simp only [ecatIteration, exchange, EcatState.Exchanges]
  split
  · split <;> simp
  · rfl

theorem ecatIteration_keeps {part : Type} (view : HandShm n -> part)
    (h : forall shm hand rx, view (storeData shm hand rx) = view shm) :
    view (ecatIteration cfg input s).shm = view s.shm := by
  have hhands : forall s, view (exchangeHands cfg input s).shm = view s.shm :=
    fun s =>
      exchangeHands_keeps cfg input s (fun s => view s.shm) fun s hand =>
        h s.shm hand _
  simp only [ecatIteration, exchange]
  split
  · split
    · simp only [writeDigout_shm, hhands]
    · simp only [writeDigout_shm, hhands]
  · rfl

end Kept

end EtherCat
end FrankaKistar
