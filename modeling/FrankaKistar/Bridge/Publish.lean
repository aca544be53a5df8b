import FrankaKistar.SharedMemory.Hand
import Mathlib.Algebra.BigOperators.Group.List.Basic

/-!
# The messages of the bridge

`make_message_with_layout` and `publish_from_shared_memory`.  Sizes and strides
are computed in `std::size_t`, which has 64 bits here, and the two fields of the
message have 32; memory is taken to suffice up to `max_size` of the vector.  A
message keeps the length of its data from the constructor of the node on.  A
16-bit integer is a `float` without rounding.
-/

namespace FrankaKistar
namespace Bridge

open Foundation

/-!
## Messages with a layout
-/

structure MultiArrayDimension where
  label : String
  size : UInt32
  stride : UInt32
deriving DecidableEq

structure MultiArrayLayout where
  dim : List MultiArrayDimension
  dataOffset : UInt32
deriving DecidableEq

structure MultiArray (α : Type) where
  layout : MultiArrayLayout
  data : List α
deriving DecidableEq

/-- `stride` after the first loop. -/
def totalStride (dims : List (String × UInt64)) : UInt64 :=
  dims.reverse.foldl (fun stride dim => stride * dim.2) 1

/-- The second loop.  A division by zero, which the source must not reach, gives
zero. -/
def layoutDims : UInt64 -> List (String × UInt64) -> List MultiArrayDimension
  | _, [] => []
  | running, dim :: rest =>
      ⟨dim.1, dim.2.toUInt32, running.toUInt32⟩ ::
        layoutDims (running / dim.2) rest

def makeMultiArray {α : Type} (zero : α) (dims : List (String × UInt64)) :
    MultiArray α :=
  let stride := totalStride dims
  { layout := ⟨layoutDims stride dims, 0⟩
    data := List.replicate stride.toNat zero }

def makeMessageWithLayout (dims : List (String × UInt64)) : MultiArray ℚ :=
  makeMultiArray 0 dims

def makeMessageWithLayout64 (dims : List (String × UInt64)) :
    MultiArray ExactDouble :=
  makeMultiArray (.finite 0) dims

/-!
## Strides
-/

def volume (dims : List (String × UInt64)) : Nat :=
  (dims.map fun dim => dim.2.toNat).prod

theorem volume_cons (dim : String × UInt64) (rest : List (String × UInt64)) :
    volume (dim :: rest) = dim.2.toNat * volume rest := rfl

theorem totalStride_toNat (dims : List (String × UInt64)) :
    (totalStride dims).toNat = volume dims % 18446744073709551616 := by
  unfold totalStride
  rw [List.foldl_reverse]
  induction dims with
  | nil => rfl
  | cons dim rest ih =>
      rw [List.foldr_cons, UInt64.toNat_mul, ih, volume_cons, Nat.mod_mul_mod,
        Nat.mul_comm]

theorem layoutDims_stride {dims : List (String × UInt64)}
    (hpos : forall dim, dim ∈ dims -> 0 < dim.2) {running : UInt64}
    (hrunning : running.toNat = volume dims) {k : Nat}
    {dimension : MultiArrayDimension}
    (hk : (layoutDims running dims)[k]? = some dimension) :
    dimension.stride.toNat = volume (dims.drop k) % 4294967296 := by
  induction dims generalizing running k with
  | nil => cases hk
  | cons dim rest ih =>
      cases k with
      | zero =>
          cases hk
          rw [UInt64.toNat_toUInt32, hrunning]
          rfl
      | succ k =>
          have hdim : 0 < dim.2.toNat :=
            UInt64.lt_iff_toNat_lt.mp (hpos dim List.mem_cons_self)
          refine ih (fun d hd => hpos d (List.mem_cons_of_mem dim hd)) ?_ hk
          rw [UInt64.toNat_div, hrunning, volume_cons,
            Nat.mul_div_cancel_left _ hdim]

theorem layoutDims_length (running : UInt64) (dims : List (String × UInt64)) :
    (layoutDims running dims).length = dims.length := by
  induction dims generalizing running with
  | nil => rfl
  | cons dim rest ih =>
      rw [layoutDims, List.length_cons, List.length_cons, ih]

/-- `max_size()` of a vector of `float`; `resize` throws beyond. -/
def maxSize : Nat := 2305843009213693951

/-- The message has the lengths and the strides of its dimensions; a stride is
reduced to the 32 bits of its field. -/
structure HasLayout {α : Type} (msg : MultiArray α)
    (dims : List (String × UInt64)) : Prop where
  length : msg.data.length = volume dims
  rank : msg.layout.dim.length = dims.length
  stride : forall k dimension, msg.layout.dim[k]? = some dimension ->
    dimension.stride.toNat = volume (dims.drop k) % 4294967296

theorem makeMultiArray_hasLayout {α : Type} (zero : α)
    {dims : List (String × UInt64)}
    (hpos : forall dim, dim ∈ dims -> 0 < dim.2)
    (hfits : volume dims ≤ maxSize) :
    HasLayout (makeMultiArray zero dims) dims := by
  have htotal : (totalStride dims).toNat = volume dims := by
    have hlt : volume dims < 18446744073709551616 :=
      Nat.lt_of_le_of_lt hfits (by decide)
    rw [totalStride_toNat, Nat.mod_eq_of_lt hlt]
  constructor
  · rw [makeMultiArray, List.length_replicate, htotal]
  · exact layoutDims_length _ dims
  · intro k dimension hk
    exact layoutDims_stride hpos htotal hk

/-!
## The node
-/

abbrev Sized (α : Type) (n : Nat) : Type :=
  { msg : MultiArray α // msg.data.length = n }

/-- `data[i] = f(i)` for every index of the message. -/
def Sized.fill {α : Type} {n : Nat} (msg : Sized α n) (f : Fin n -> α) :
    Sized α n :=
  ⟨{ msg.val with data := List.ofFn f }, List.length_ofFn⟩

/-- `data[index++] = value` for every value. -/
def writeFrom {α : Type} : Nat -> List α -> List α -> List α
  | _, [], data => data
  | index, value :: rest, data =>
      writeFrom (index + 1) rest (data.set index value)

theorem writeFrom_length {α : Type} (index : Nat) (values data : List α) :
    (writeFrom index values data).length = data.length := by
  induction values generalizing index data with
  | nil => rfl
  | cons value rest ih => rw [writeFrom, ih, List.length_set]

theorem writeFrom_eq {α : Type} {index : Nat} {values data : List α}
    (h : data.length = index + values.length) :
    writeFrom index values data = data.take index ++ values := by
  induction values generalizing index data with
  | nil =>
      have hlength : data.length ≤ index := Nat.le_of_eq h
      rw [writeFrom, List.append_nil, List.take_of_length_le hlength]
  | cons value rest ih =>
      have hindex : index < data.length := by
        rw [h, List.length_cons]
        omega
      have hlength : (data.set index value).length =
          index + 1 + rest.length := by
        rw [List.length_set, h, List.length_cons]
        omega
      have htake : (data.set index value).take (index + 1) =
          data.take index ++ [value] := by
        rw [List.take_add_one, List.take_set_of_le (Nat.le_refl index),
          List.getElem?_set_self hindex, Option.toList_some]
      rw [writeFrom, ih hlength, htake, List.append_assoc]
      rfl

theorem writeFrom_zero {α : Type} {values data : List α}
    (h : data.length = values.length) : writeFrom 0 values data = values := by
  rw [writeFrom_eq (h.trans (Nat.zero_add _).symm), List.take_zero,
    List.nil_append]

def Sized.fillFrom {α : Type} {n : Nat} (msg : Sized α n) (values : List α) :
    Sized α n :=
  ⟨{ msg.val with data := writeFrom 0 values msg.val.data },
    (writeFrom_length 0 values msg.val.data).trans msg.property⟩

structure BridgeMessages where
  jointPosition : Sized ℚ handDOF
  jointKinesthetic : Sized ℚ (kinestheticSensorNum * kinestheticSensorDOF)
  jointTactile : Sized ℚ tactileSensorNum
  handMode : Int32
  handServoOn : Int32
  handTarget : List Int16
  frankaJointPosition : Sized ExactDouble armDOF
  frankaJointTarget : Sized ExactDouble armDOF
  frankaJointVelocity : Sized ExactDouble armDOF
  frankaJointTorque : Sized ExactDouble armDOF
  frankaSpeed : ExactDouble

/-- `make_message_with_layout_64({{"joint", Arm_DOF}})` -/
def armMessage : Sized ExactDouble armDOF :=
  ⟨makeMessageWithLayout64 [("joint", .ofNat armDOF)], rfl⟩

def BridgeMessages.start : BridgeMessages where
  jointPosition := ⟨makeMessageWithLayout [("joint", .ofNat handDOF)], rfl⟩
  jointKinesthetic :=
    ⟨makeMessageWithLayout [
      ("finger", .ofNat kinestheticSensorNum),
      ("axis", .ofNat kinestheticSensorDOF)], rfl⟩
  jointTactile := ⟨makeMessageWithLayout [("taxel", .ofNat tactileSensorNum)], rfl⟩
  handMode := 0
  handServoOn := 0
  handTarget := []
  frankaJointPosition := armMessage
  frankaJointTarget := armMessage
  frankaJointVelocity := armMessage
  frankaJointTorque := armMessage
  frankaSpeed := .finite 0

theorem start_jointKinesthetic_layout :
    BridgeMessages.start.jointKinesthetic.val.layout =
      ⟨[⟨"finger", 4, 12⟩, ⟨"axis", 3, 3⟩], 0⟩ := rfl

/-- `static_cast<float>` of an `int16_t`. -/
def castFloat (x : Int16) : ℚ := x.toInt

def kinestheticValues
    (jKin : Fin kinestheticSensorNum -> Fin kinestheticSensorDOF -> Int16) :
    List ℚ :=
  (List.finRange kinestheticSensorNum).flatMap fun finger =>
    (List.finRange kinestheticSensorDOF).map fun axis =>
      castFloat (jKin finger axis)

/-- The messages that are sent; nothing is sent without the segment. -/
def publishFromSharedMemory (node : BridgeMessages) :
    Option SHMmsgs -> BridgeMessages
  | none => node
  | some shm =>
      { jointPosition := node.jointPosition.fill fun i =>
          castFloat (shm.jPos 0 i)
        jointKinesthetic :=
          node.jointKinesthetic.fillFrom (kinestheticValues (shm.jKin 0))
        jointTactile := node.jointTactile.fill fun i =>
          castFloat (shm.jTac 0 i)
        handMode := Int32.ofNat (shm.handMode 0).toNat
        handServoOn := Int32.ofNat (shm.servoOn 0).toNat
        handTarget := List.ofFn (shm.jTar 0)
        frankaJointPosition := node.frankaJointPosition.fill shm.armJPos
        frankaJointTarget := node.frankaJointTarget.fill shm.armJTar
        frankaJointVelocity := node.frankaJointVelocity.fill shm.armJVel
        frankaJointTorque := node.frankaJointTorque.fill shm.armJTq
        frankaSpeed := shm.armSpeedFactor }

end Bridge
end FrankaKistar
