import FrankaKistar.Foundation.Runs
import FrankaKistar.Bridge.Hand
import FrankaKistar.EtherCat.Loop

/-!
# From hand messages to command frames

The three hand callbacks write the shared memory, and the next exchange turns it
into the command frame of hand 0.  A callback and an iteration of the loop are
each one step here.
-/

namespace FrankaKistar
namespace EtherCat

open Foundation LittleEndian Bridge

variable {n : Nat}

/-!
## The frame of one hand
-/

theorem loadBlock_foldl_of_notMem (input : CycleInput) {hand : Fin n}
    {hands : List (Fin n)} (h : hand ∉ hands) (s : EcatState n) :
    Blocks.loadBlock handDataWriteByteNum
        (hands.foldl (exchangeHand input) s).outputs hand.val =
      Blocks.loadBlock handDataWriteByteNum s.outputs hand.val := by
  induction hands generalizing s with
  | nil => rfl
  | cons other rest ih =>
      rw [List.mem_cons, not_or] at h
      rw [List.foldl_cons, ih h.right]
      apply Blocks.loadBlock_storeBlock_of_ne
      intro heq
      exact h.left (Fin.ext heq)

theorem fillCommand_exchangeHand (input : CycleInput) (s : EcatState n)
    {hand other : Fin n} (h : hand ≠ other) :
    fillCommand (exchangeHand input s other).shm hand
        ((exchangeHand input s other).kistarTx hand) =
      fillCommand s.shm hand (s.kistarTx hand) := by
  have htx : (exchangeHand input s other).kistarTx hand = s.kistarTx hand :=
    Function.update_of_ne h _ _
  rw [htx]
  rfl

theorem loadBlock_foldl_of_mem (input : CycleInput) {hand : Fin n}
    {hands : List (Fin n)} (hnodup : hands.Nodup) (h : hand ∈ hands)
    (s : EcatState n) :
    Blocks.loadBlock handDataWriteByteNum
        (hands.foldl (exchangeHand input) s).outputs hand.val =
      (fillCommand s.shm hand (s.kistarTx hand)).byte := by
  induction hands generalizing s with
  | nil => cases h
  | cons other rest ih =>
      rw [List.nodup_cons] at hnodup
      rw [List.foldl_cons]
      by_cases heq : hand = other
      · subst heq
        rw [loadBlock_foldl_of_notMem input hnodup.left]
        exact Blocks.loadBlock_storeBlock_same _ _ _
      · have hrest : hand ∈ rest := (List.mem_cons.mp h).resolve_left heq
        rw [ih hnodup.right hrest, fillCommand_exchangeHand input s heq]

theorem activeHands_nodup (cfg : EcatConfig n) : cfg.activeHands.Nodup :=
  (List.nodup_finRange _).map (Fin.castLE_injective cfg.active_le)

theorem zero_mem_activeHands (cfg : EcatConfig (n + 1)) :
    0 ∈ cfg.activeHands :=
  List.mem_map.mpr ⟨⟨0, cfg.active_pos⟩, List.mem_finRange _, rfl⟩

def commandFrame (cfg : EcatConfig (n + 1)) (input : CycleInput)
    (s : EcatState (n + 1)) : Fin handDataWriteByteNum -> UInt8 :=
  Blocks.loadBlock handDataWriteByteNum (exchangeHands cfg input s).outputs 0

theorem commandFrame_eq (cfg : EcatConfig (n + 1)) (input : CycleInput)
    (s : EcatState (n + 1)) :
    commandFrame cfg input s = (fillCommand s.shm 0 (s.kistarTx 0)).byte :=
  loadBlock_foldl_of_mem input (activeHands_nodup cfg)
    (zero_mem_activeHands cfg) s

theorem outputs_ecatIteration (cfg : EcatConfig (n + 1)) (input : CycleInput)
    {s : EcatState (n + 1)} (hexchanges : s.Exchanges)
    (hdigout : forall a, cfg.digout = some a -> handDataWriteByteNum ≤ a) :
    Blocks.loadBlock handDataWriteByteNum
        (ecatIteration cfg input s).outputs 0 =
      commandFrame cfg input s := by
  have hframe := commandFrame_eq cfg input
    { s with
      ts := addTimespec s.ts (cfg.cycletime + s.toff)
      wkc := input.wkc
      dorun := wrapInt (s.dorun + 1) }
  have houtputs : Blocks.loadBlock handDataWriteByteNum
      (ecatIteration cfg input s).outputs 0 =
      Blocks.loadBlock handDataWriteByteNum
        (writeDigout cfg (exchangeHands cfg input
          { s with
            ts := addTimespec s.ts (cfg.cycletime + s.toff)
            wkc := input.wkc
            dorun := wrapInt (s.dorun + 1) })).outputs 0 := by
    simp only [ecatIteration, if_pos
      (show EcatState.Exchanges
        { s with ts := addTimespec s.ts (cfg.cycletime + s.toff) }
        from hexchanges), exchange]
    split <;> rfl
  rw [houtputs, commandFrame_eq, <- hframe]
  funext i
  unfold writeDigout
  split
  · rfl
  · rename_i a hsome
    have hlow := hdigout a hsome
    have hi : Blocks.index handDataWriteByteNum 0 i < handDataWriteByteNum := by
      rw [Blocks.index_zero]
      exact i.isLt
    exact Function.update_of_ne (Nat.ne_of_lt (Nat.lt_of_lt_of_le hi hlow)) _ _

/-!
## Messages and cycles
-/

inductive CommandEvent where
  | target (data : List Int16)
  | mode (x : Int32)
  | servoOn (x : Int32)
  | cycle (input : CycleInput)

def commandStep (cfg : EcatConfig (n + 1)) (s : EcatState (n + 1)) :
    CommandEvent -> EcatState (n + 1)
  | .target data => { s with shm := onHandTarget data s.shm }
  | .mode x => { s with shm := onHandMode x s.shm }
  | .servoOn x => { s with shm := onHandServoOn x s.shm }
  | .cycle input => ecatIteration cfg input s

/-- The shared memory is zeroed before the first message. -/
def runCommands (cfg : EcatConfig (n + 1)) (s : EcatState (n + 1))
    (events : List CommandEvent) : EcatState (n + 1) :=
  events.foldl (commandStep cfg) { s with shm := HandShm.zero (n + 1) }

def CommandEvent.servoValue : CommandEvent -> Option Int32
  | .servoOn x => some x
  | _ => none

def CommandEvent.modeValue : CommandEvent -> Option Int32
  | .mode x => some x
  | _ => none

/-- A mode that a `uint8_t` can represent. -/
def CommandEvent.byteMode : CommandEvent -> Option UInt8
  | .mode x =>
      if 0 ≤ x.toInt ∧ x.toInt ≤ 255 then
        some (UInt8.ofNat x.toInt.toNat)
      else
        none
  | _ => none

theorem handDOF_eq_length {data : List Int16} (h : data.length = handDOF) :
    handDOF = data.length := h.symm

def CommandEvent.targetValue : CommandEvent -> Option (Fin handDOF -> Int16)
  | .target data =>
      if h : data.length = handDOF then
        some fun i => data.get (i.cast (handDOF_eq_length h))
      else
        none
  | _ => none

structure AsCommanded (events : List CommandEvent)
    (frame : Fin handDataWriteByteNum -> UInt8) : Prop where
  status1 : HasWord (m := 32) frame status1Word
    (if Machine.lastValue CommandEvent.servoValue events = some 1 then
      0xFFFF
    else
      0x0000)
  status2 : HasWord (m := 32) frame status2Word
    ((Machine.lastValue CommandEvent.byteMode events).getD 0).toUInt16
  jointTarget : forall i, HasWord (m := 32) frame (jointTargetWord i)
    ((Machine.lastValue CommandEvent.targetValue events).getD
      (fun _ => 0) i).toUInt16

/-!
## What the shared memory holds

The cells of hand 0 that the callbacks write.
-/

local instance (priority := high) neZero_hands (n : Nat) : NeZero (n + 1) :=
  ⟨Nat.succ_ne_zero n⟩

def EcatState.servo (s : EcatState (n + 1)) : UInt8 := s.shm.servoOn 0
def EcatState.mode (s : EcatState (n + 1)) : UInt8 := s.shm.handMode 0
def EcatState.target (s : EcatState (n + 1)) : Fin handDOF -> Int16 :=
  s.shm.jTar 0

section Steps

variable (cfg : EcatConfig (n + 1)) (s : EcatState (n + 1)) (e : CommandEvent)

theorem commandStep_servo :
    (commandStep cfg s e).servo =
      (e.servoValue.map toByte).getD s.servo := by
  cases e with
  | target data =>
      simp only [EcatState.servo, commandStep, onHandTarget]
      split <;> rfl
  | mode x => rfl
  | servoOn x => rfl
  | cycle input =>
      exact congrFun
        (ecatIteration_keeps cfg input s HandShm.servoOn fun _ _ _ => rfl) 0

theorem commandStep_mode :
    (commandStep cfg s e).mode =
      (e.modeValue.map toByte).getD s.mode := by
  cases e with
  | target data =>
      simp only [EcatState.mode, commandStep, onHandTarget]
      split <;> rfl
  | mode x => rfl
  | servoOn x => rfl
  | cycle input =>
      exact congrFun
        (ecatIteration_keeps cfg input s HandShm.handMode fun _ _ _ => rfl) 0

theorem commandStep_target :
    (commandStep cfg s e).target = e.targetValue.getD s.target := by
  cases e with
  | target data =>
      simp only [EcatState.target, commandStep, onHandTarget,
        CommandEvent.targetValue]
      split <;> rfl
  | mode x => rfl
  | servoOn x => rfl
  | cycle input =>
      exact congrFun
        (ecatIteration_keeps cfg input s HandShm.jTar fun _ _ _ => rfl) 0

end Steps

section Runs

variable (cfg : EcatConfig (n + 1)) (s : EcatState (n + 1))
  (events : List CommandEvent)

theorem runCommands_servo :
    (runCommands cfg s events).servo =
      ((Machine.lastValue CommandEvent.servoValue events).map toByte).getD 0 := by
  rw [<- Machine.lastValue_map]
  exact Machine.lastValue_of_overwrite (commandStep_servo cfg) _ events

theorem runCommands_mode :
    (runCommands cfg s events).mode =
      ((Machine.lastValue CommandEvent.modeValue events).map toByte).getD 0 := by
  rw [<- Machine.lastValue_map]
  exact Machine.lastValue_of_overwrite (commandStep_mode cfg) _ events

theorem runCommands_target :
    (runCommands cfg s events).target =
      (Machine.lastValue CommandEvent.targetValue events).getD fun _ => 0 :=
  Machine.lastValue_of_overwrite (commandStep_target cfg) _ events

end Runs

/-!
## When the frame is right
-/

/-- The latest servo value is 1 or is not 1 modulo 256, and the latest mode is
the latest byte modulo 256. -/
def NarrowingHarmless (events : List CommandEvent) : Prop :=
  (forall x, Machine.lastValue CommandEvent.servoValue events = some x ->
    x.toInt % 256 = 1 -> x = 1) ∧
    ((Machine.lastValue CommandEvent.modeValue events).map toByte).getD 0 =
      (Machine.lastValue CommandEvent.byteMode events).getD 0

theorem toByte_eq_one_iff (x : Int32) : toByte x = 1 <-> x.toInt % 256 = 1 := by
  rw [<- UInt8.toNat_inj, <- toByte_toNat]
  exact Int.natCast_inj.symm

theorem status_inj {p q : Prop} [Decidable p] [Decidable q] :
    ((if p then 0xFFFF else 0x0000 : UInt16) =
      if q then 0xFFFF else 0x0000) <-> (p <-> q) := by
  by_cases hp : p <;> by_cases hq : q <;> simp [hp, hq]

theorem asCommanded_iff (cfg : EcatConfig (n + 1)) (s : EcatState (n + 1))
    (events : List CommandEvent) (input : CycleInput) :
    AsCommanded events (commandFrame cfg input (runCommands cfg s events)) <->
      NarrowingHarmless events := by
  have hservo := runCommands_servo cfg s events
  have hmode := runCommands_mode cfg s events
  have htarget := runCommands_target cfg s events
  have hstatus1 : ((runCommands cfg s events).servo = 1 <->
      Machine.lastValue CommandEvent.servoValue events = some 1) <->
      forall x, Machine.lastValue CommandEvent.servoValue events = some x ->
        x.toInt % 256 = 1 -> x = 1 := by
    rw [hservo]
    cases Machine.lastValue CommandEvent.servoValue events with
    | none => simp
    | some x =>
        simp only [Option.map_some, Option.getD_some, Option.some_inj,
          toByte_eq_one_iff]
        constructor
        · intro h y hy hmod
          subst hy
          exact h.mp hmod
        · intro h
          refine ⟨h x rfl, ?_⟩
          intro hx
          subst hx
          decide
  rw [commandFrame_eq]
  constructor
  · intro h
    have hword1 := (hasWord_byte _ _ _).mp h.status1
    have hword2 := (hasWord_byte _ _ _).mp h.status2
    rw [words_status1] at hword1
    rw [words_status2] at hword2
    refine ⟨hstatus1.mp (status_inj.mp hword1), ?_⟩
    rw [<- hmode]
    exact UInt8.toUInt16_inj.mp hword2
  · intro h
    constructor
    · rw [hasWord_byte, words_status1]
      exact status_inj.mpr (hstatus1.mpr h.left)
    · rw [hasWord_byte, words_status2, <- h.right, <- hmode]
      rfl
    · intro i
      rw [hasWord_byte, words_jointTarget, <- htarget]
      rfl

/-- A servo message of 257 energises the hand. -/
theorem not_asCommanded :
    ¬forall (cfg : EcatConfig 1) (s : EcatState 1)
      (events : List CommandEvent) (input : CycleInput),
      AsCommanded events
        (commandFrame cfg input (runCommands cfg s events)) := by
  intro h
  have hframe := h ⟨1000000, 1, Nat.le_refl 1, Nat.le_refl 1, none⟩
    (EcatState.start ⟨0, 0, by omega⟩ (fun _ => 0) (HandShm.zero 1))
    [.servoOn 257] ⟨3, fun _ => 0, true, 0⟩
  have hword := hframe.status1
  rw [commandFrame_eq, hasWord_byte, words_status1] at hword
  exact absurd hword (by decide)

end EtherCat
end FrankaKistar
