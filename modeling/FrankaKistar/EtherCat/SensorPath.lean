import FrankaKistar.Bridge.Publish
import FrankaKistar.EtherCat.HandCommand
import Mathlib.Tactic.FinCases

/-!
# From the received frame to the sensor messages

An exchange copies the words of the received frame of each hand to the shared
memory, and the bridge copies those of hand 0 to its messages.  Position `i` is
word `2 + i` of the frame, kinesthetic value `i` word `34 + i` and taxel `i`
word `46 + i`.
-/

namespace FrankaKistar
namespace EtherCat

open Foundation LittleEndian Bridge

variable {n : Nat}

/-!
## The exchange
-/

def receivedData (input : CycleInput) (hand : Nat) : RobotHandData :=
  RobotHandData.ofByte (Blocks.loadBlock handDataReadByteNum input.inputs hand)

structure HasSensors (shm : HandShm n) (hand : Fin n) (rx : RobotHandData) :
    Prop where
  position : shm.jPos hand = rx.position
  current : shm.jCur hand = rx.current
  kinesthetic : shm.jKin hand = fun i j =>
    rx.kinesthetic (kinestheticIndex i j)
  tactile : shm.jTac hand = rx.tactile

theorem hasSensors_storeData (shm : HandShm n) (hand : Fin n)
    (rx : RobotHandData) : HasSensors (storeData shm hand rx) hand rx where
  position := Function.update_self hand _ _
  current := Function.update_self hand _ _
  kinesthetic := Function.update_self hand _ _
  tactile := Function.update_self hand _ _

theorem HasSensors.storeData_of_ne {shm : HandShm n} {hand other : Fin n}
    {rx : RobotHandData} (h : HasSensors shm hand rx) (hne : hand ≠ other)
    (data : RobotHandData) : HasSensors (storeData shm other data) hand rx where
  position := (Function.update_of_ne hne _ _).trans h.position
  current := (Function.update_of_ne hne _ _).trans h.current
  kinesthetic := (Function.update_of_ne hne _ _).trans h.kinesthetic
  tactile := (Function.update_of_ne hne _ _).trans h.tactile

theorem hasSensors_foldl (input : CycleInput) {hand : Fin n}
    {hands : List (Fin n)} {s : EcatState n}
    (h : hand ∈ hands ∨
      HasSensors s.shm hand (receivedData input hand.val)) :
    HasSensors (hands.foldl (exchangeHand input) s).shm hand
      (receivedData input hand.val) := by
  induction hands generalizing s with
  | nil => exact h.resolve_left List.not_mem_nil
  | cons other rest ih =>
      rw [List.foldl_cons]
      apply ih
      by_cases heq : hand = other
      · subst heq
        exact Or.inr (hasSensors_storeData s.shm hand _)
      · rcases h with hmem | hsensors
        · exact Or.inl ((List.mem_cons.mp hmem).resolve_left heq)
        · exact Or.inr (hsensors.storeData_of_ne heq _)

theorem hasSensors_ecatIteration (cfg : EcatConfig (n + 1)) (input : CycleInput)
    {s : EcatState (n + 1)} (hexchanges : s.Exchanges) :
    HasSensors (ecatIteration cfg input s).shm 0 (receivedData input 0) := by
  have hguard : EcatState.Exchanges
      { s with ts := addTimespec s.ts (cfg.cycletime + s.toff) } := hexchanges
  simp only [ecatIteration, if_pos hguard, exchange]
  split
  · simp only [writeDigout_shm]
    exact hasSensors_foldl input (Or.inl (zero_mem_activeHands cfg))
  · rw [writeDigout_shm]
    exact hasSensors_foldl input (Or.inl (zero_mem_activeHands cfg))

/-!
## The bytes of the frame
-/

/-- The signed little-endian value of the bytes `a` and `a + 1`. -/
def int16At (bytes : Nat -> UInt8) (a : Nat) : Int :=
  (((bytes a).toNat + 256 * (bytes (a + 1)).toNat : Nat) : Int).bmod 65536

theorem signedField_toInt (bytes : Nat -> UInt8) {len base : Nat}
    (h : base + len ≤ 128) (i : Fin len) :
    (signedField
        (ofBytes (m := 128) (Blocks.loadBlock handDataReadByteNum bytes 0))
        base h i).toInt =
      int16At bytes (2 * (base + i.val)) := by
  have hindex : forall a : Fin handDataReadByteNum,
      Blocks.loadBlock handDataReadByteNum bytes 0 a = bytes a.val := by
    intro a
    rw [Blocks.loadBlock, Blocks.index_zero]
  rw [signedField, ofBytes, hindex, hindex, word, UInt16.toInt16_ofNat',
    Int16.toInt_ofNat']
  rfl

theorem received_position (input : CycleInput) (i : Fin handDOF) :
    ((receivedData input 0).position i).toInt =
      int16At input.inputs (4 + 2 * i.val) := by
  have hbyte : 2 * (2 + i.val) = 4 + 2 * i.val := by omega
  rw [<- hbyte]
  exact signedField_toInt input.inputs _ i

theorem received_kinesthetic (input : CycleInput)
    (finger : Fin kinestheticSensorNum) (axis : Fin kinestheticSensorDOF) :
    ((receivedData input 0).kinesthetic (kinestheticIndex finger axis)).toInt =
      int16At input.inputs (68 + 2 * (3 * finger.val + axis.val)) := by
  have hbyte : 2 * (34 + (3 * finger.val + axis.val)) =
      68 + 2 * (3 * finger.val + axis.val) := by omega
  rw [<- hbyte]
  exact signedField_toInt input.inputs _ (kinestheticIndex finger axis)

theorem received_tactile (input : CycleInput) (i : Fin tactileSensorNum) :
    ((receivedData input 0).tactile i).toInt =
      int16At input.inputs (92 + 2 * i.val) := by
  have hbyte : 2 * (46 + i.val) = 92 + 2 * i.val := by omega
  rw [<- hbyte]
  exact signedField_toInt input.inputs _ i

/-!
## The messages
-/

/-- The element of a two-dimensional message that its own layout addresses. -/
def address {α : Type} (msg : MultiArray α) (i j : Nat) : Option Nat :=
  msg.layout.dim[1]?.map fun dimension =>
    msg.layout.dataOffset.toNat + dimension.stride.toNat * i + j

/-- The messages that the bridge has after it has published some contents of
the segment. -/
def publishedAfter (earlier : List (Option SHMmsgs)) : BridgeMessages :=
  earlier.foldl publishFromSharedMemory .start

theorem publishFromSharedMemory_layout (node : BridgeMessages)
    (shm : Option SHMmsgs) :
    (publishFromSharedMemory node shm).jointKinesthetic.val.layout =
      node.jointKinesthetic.val.layout := by
  cases shm with
  | none => rfl
  | some shm => rfl

theorem publishedAfter_layout (earlier : List (Option SHMmsgs)) :
    (publishedAfter earlier).jointKinesthetic.val.layout =
      BridgeMessages.start.jointKinesthetic.val.layout := by
  have hfold : forall node, (earlier.foldl publishFromSharedMemory
      node).jointKinesthetic.val.layout =
        node.jointKinesthetic.val.layout := by
    induction earlier with
    | nil => exact fun node => rfl
    | cons shm rest ih =>
        intro node
        rw [List.foldl_cons, ih, publishFromSharedMemory_layout]
  exact hfold .start

structure CarriesFrame (sent : BridgeMessages) (frame : Nat -> UInt8) :
    Prop where
  position : sent.jointPosition.val.data =
    List.ofFn fun i : Fin handDOF => (int16At frame (4 + 2 * i.val) : ℚ)
  tactile : sent.jointTactile.val.data =
    List.ofFn fun i : Fin tactileSensorNum =>
      (int16At frame (92 + 2 * i.val) : ℚ)
  kinestheticSize : sent.jointKinesthetic.val.data.length = 12
  kinesthetic : forall (finger : Fin kinestheticSensorNum)
      (axis : Fin kinestheticSensorDOF),
    exists k, address sent.jointKinesthetic.val finger axis = some k ∧
      sent.jointKinesthetic.val.data[k]? =
        some (int16At frame (68 + 2 * (3 * finger.val + axis.val)) : ℚ)
  kinestheticAll : forall k, k < 12 ->
    exists (finger : Fin kinestheticSensorNum) (axis : Fin kinestheticSensorDOF),
      address sent.jointKinesthetic.val finger axis = some k

theorem kinestheticValues_getElem?
    (jKin : Fin kinestheticSensorNum -> Fin kinestheticSensorDOF -> Int16)
    (finger : Fin kinestheticSensorNum) (axis : Fin kinestheticSensorDOF) :
    (kinestheticValues jKin)[3 * finger.val + axis.val]? =
      some (castFloat (jKin finger axis)) := by
  fin_cases finger <;> fin_cases axis <;> rfl

theorem kinestheticValues_length
    (jKin : Fin kinestheticSensorNum -> Fin kinestheticSensorDOF -> Int16) :
    (kinestheticValues jKin).length = 12 := rfl

theorem carriesFrame_of_exchange (cfg : EcatConfig handNum)
    (input : CycleInput) {s : EcatState handNum} (hexchanges : s.Exchanges)
    (earlier : List (Option SHMmsgs)) (msgs : SHMmsgs) :
    CarriesFrame
      (publishFromSharedMemory (publishedAfter earlier)
        (some (msgs.withHands (ecatIteration cfg input s).shm)))
      input.inputs := by
  have hsensors := hasSensors_ecatIteration cfg input hexchanges
  have hlayout := publishedAfter_layout earlier
  have hsize : (publishedAfter earlier).jointKinesthetic.val.data.length = 12 :=
    (publishedAfter earlier).jointKinesthetic.property
  have hkinesthetic : (publishFromSharedMemory (publishedAfter earlier)
      (some (msgs.withHands (ecatIteration cfg input s).shm))
        ).jointKinesthetic.val.data =
      kinestheticValues ((ecatIteration cfg input s).shm.jKin 0) :=
    writeFrom_zero hsize
  have haddress : forall finger axis : Nat,
      address (publishFromSharedMemory (publishedAfter earlier)
        (some (msgs.withHands (ecatIteration cfg input s).shm))
          ).jointKinesthetic.val finger axis =
        some (3 * finger + axis) := by
    intro finger axis
    rw [address, publishFromSharedMemory_layout, hlayout,
      start_jointKinesthetic_layout]
    show some (0 + 3 * finger + axis) = some (3 * finger + axis)
    rw [Nat.zero_add]
  constructor
  · refine congrArg List.ofFn (funext fun i => ?_)
    show castFloat ((ecatIteration cfg input s).shm.jPos 0 i) = _
    rw [castFloat, hsensors.position, received_position]
  · refine congrArg List.ofFn (funext fun i => ?_)
    show castFloat ((ecatIteration cfg input s).shm.jTac 0 i) = _
    rw [castFloat, hsensors.tactile, received_tactile]
  · rw [hkinesthetic, kinestheticValues_length]
  · intro finger axis
    refine ⟨_, haddress finger axis, ?_⟩
    rw [hkinesthetic, kinestheticValues_getElem?, castFloat,
      hsensors.kinesthetic, received_kinesthetic]
  · intro k hk
    have hfinger : k / 3 < kinestheticSensorNum :=
      Nat.div_lt_of_lt_mul hk
    have haxis : k % 3 < kinestheticSensorDOF := Nat.mod_lt k (by decide)
    refine ⟨⟨k / 3, hfinger⟩, ⟨k % 3, haxis⟩, ?_⟩
    rw [haddress, Nat.div_add_mod]

/-- The path of the sensor values, and every layout whose sizes are positive and
whose volume a message can hold. -/
theorem sensor_path :
    (forall (cfg : EcatConfig handNum) (input : CycleInput)
        (s : EcatState handNum), s.Exchanges ->
      forall (earlier : List (Option SHMmsgs)) (msgs : SHMmsgs),
        CarriesFrame
          (publishFromSharedMemory (publishedAfter earlier)
            (some (msgs.withHands (ecatIteration cfg input s).shm)))
          input.inputs) ∧
    forall dims : List (String × UInt64),
      (forall dim, dim ∈ dims -> 0 < dim.2) ->
      volume dims ≤ maxSize ->
      HasLayout (makeMessageWithLayout dims) dims :=
  ⟨fun cfg input _ hexchanges earlier msgs =>
      carriesFrame_of_exchange cfg input hexchanges earlier msgs,
    fun _ hpos hfits => makeMultiArray_hasLayout 0 hpos hfits⟩

def oneHand : EcatConfig handNum where
  cycletime := 500000
  activeHandNum := 1
  active_pos := Nat.le_refl 1
  active_le := Nat.le_refl 1
  digout := none

def countingInput : CycleInput where
  wkc := 3
  inputs := UInt8.ofNat
  hasdc := false
  dcTime := 0

/-- The loop after `ethercat_run` has started the operation. -/
def operatingHand : EcatState handNum :=
  (EcatState.start ⟨0, 0, by decide⟩ (fun _ => 0)
    (HandShm.zero handNum)).operate

theorem sensor_path_counting :
    CarriesFrame
        (publishFromSharedMemory (publishedAfter [])
          (some (SHMmsgs.zero.withHands
            (ecatIteration oneHand countingInput operatingHand).shm)))
        UInt8.ofNat ∧
      HasLayout (makeMessageWithLayout [("finger", 4), ("axis", 3)])
        [("finger", 4), ("axis", 3)] :=
  ⟨sensor_path.left oneHand countingInput operatingHand Int.one_pos [] .zero,
    sensor_path.right _ (by decide) (by decide)⟩

/-- A size that needs more than 32 bits has stride zero. -/
theorem stride_reduced :
    ¬ forall dims : List (String × UInt64),
      (forall dim, dim ∈ dims -> 0 < dim.2) ->
      forall k dimension,
        (makeMessageWithLayout dims).layout.dim[k]? = some dimension ->
        dimension.stride.toNat = volume (dims.drop k) := by
  intro h
  have hstride := h [("taxel", 4294967296)] (by decide) 0
    ⟨"taxel", 0, 0⟩ rfl
  exact absurd hstride (by decide)

end EtherCat
end FrankaKistar
