import FrankaKistar.Foundation.LittleEndian
import FrankaKistar.SharedMemory.Layout

/-!
# Hand frames

`Robot_Hand_Command` and `Robot_Hand_Data` are unions of a byte array and a
struct whose fields are all 16 bits wide.  A command is written field by field
and sent as bytes; data is received as bytes and read field by field.
-/

namespace FrankaKistar
namespace EtherCat

open Foundation LittleEndian

abbrev handDataWriteByteNum : Nat := 64
abbrev handDataReadByteNum : Nat := 256

structure RobotHandCommand where
  handStatus1 : UInt16
  handStatus2 : UInt16
  jointTarget : Fin handDOF -> Int16
  addInfo : Fin 14 -> Int16

structure RobotHandData where
  handStatus1 : UInt16
  handStatus2 : UInt16
  position : Fin handDOF -> Int16
  current : Fin handDOF -> Int16
  kinesthetic : Fin 12 -> Int16
  tactile : Fin tactileSensorNum -> Int16
  addInfo : Fin 22 -> Int16

def RobotHandCommand.zero : RobotHandCommand where
  handStatus1 := 0
  handStatus2 := 0
  jointTarget := fun _ => 0
  addInfo := fun _ => 0

/-!
## The command as bytes
-/

def RobotHandCommand.words (tx : RobotHandCommand) (k : Fin 32) : UInt16 :=
  if k.val = 0 then
    tx.handStatus1
  else if k.val = 1 then
    tx.handStatus2
  else if h : k.val - 2 < handDOF then
    (tx.jointTarget ⟨k.val - 2, h⟩).toUInt16
  else
    (tx.addInfo ⟨k.val - 18, by omega⟩).toUInt16

/-- The `Byte` member of the union. -/
def RobotHandCommand.byte (tx : RobotHandCommand) :
    Fin handDataWriteByteNum -> UInt8 :=
  toBytes tx.words

/-!
Words of the struct members; `JOINT_TARGET[i]` is at byte `4 + 2i`.
-/

def status1Word : Fin 32 := 0
def status2Word : Fin 32 := 1
def jointTargetWord : Fin handDOF -> Fin 32 := fieldWord 2 (by decide)
def addInfoWord : Fin 14 -> Fin 32 := fieldWord 18 (by decide)

theorem words_status1 (tx : RobotHandCommand) :
    tx.words status1Word = tx.handStatus1 := rfl

theorem words_status2 (tx : RobotHandCommand) :
    tx.words status2Word = tx.handStatus2 := rfl

theorem words_jointTarget (tx : RobotHandCommand) (i : Fin handDOF) :
    tx.words (jointTargetWord i) = (tx.jointTarget i).toUInt16 := by
  have hval : (jointTargetWord i).val = 2 + i.val := rfl
  have hi : (jointTargetWord i).val - 2 = i.val := by omega
  unfold RobotHandCommand.words
  rw [if_neg (by omega), if_neg (by omega), dif_pos (hi ▸ i.isLt)]
  simp only [hi]

theorem words_addInfo (tx : RobotHandCommand) (i : Fin 14) :
    tx.words (addInfoWord i) = (tx.addInfo i).toUInt16 := by
  have hval : (addInfoWord i).val = 18 + i.val := rfl
  have hi : (addInfoWord i).val - 18 = i.val := by omega
  have hbeyond : ¬(addInfoWord i).val - 2 < 16 := by omega
  unfold RobotHandCommand.words
  rw [if_neg (by omega), if_neg (by omega), dif_neg hbeyond]
  simp only [hi]

theorem int16_of_toUInt16 {x y : Int16} (h : x.toUInt16 = y.toUInt16) :
    x = y := by
  rw [<- Int16.toInt16_toUInt16 x, h, Int16.toInt16_toUInt16]

theorem byte_injective : Function.Injective RobotHandCommand.byte := by
  intro tx tx' h
  have hwords : tx.words = tx'.words := toBytes_injective h
  have hstatus1 : tx.handStatus1 = tx'.handStatus1 :=
    congrFun hwords ⟨0, by decide⟩
  have hstatus2 : tx.handStatus2 = tx'.handStatus2 :=
    congrFun hwords ⟨1, by decide⟩
  have htarget : tx.jointTarget = tx'.jointTarget := by
    funext i
    apply int16_of_toUInt16
    rw [<- words_jointTarget, <- words_jointTarget, hwords]
  have hinfo : tx.addInfo = tx'.addInfo := by
    funext i
    apply int16_of_toUInt16
    rw [<- words_addInfo, <- words_addInfo, hwords]
  cases tx with
  | mk =>
      cases tx' with
      | mk =>
          subst hstatus1 hstatus2 htarget hinfo
          rfl

theorem hasWord_byte (tx : RobotHandCommand) (k : Fin 32) (x : UInt16) :
    HasWord (m := 32) tx.byte k x <-> tx.words k = x := by
  have hwords : ofBytes (m := 32) tx.byte = tx.words := ofBytes_toBytes tx.words
  rw [hasWord_iff, hwords]

/-!
## Data from bytes
-/

/-- The signed array of received words that starts at word `base`. -/
def signedField (words : Fin 128 -> UInt16) {len : Nat} (base : Nat)
    (h : base + len ≤ 128) (i : Fin len) : Int16 :=
  (words (fieldWord base h i)).toInt16

/-- The `OUT` member of the union. -/
def RobotHandData.ofByte (byte : Fin handDataReadByteNum -> UInt8) :
    RobotHandData :=
  let words : Fin 128 -> UInt16 := ofBytes byte
  { handStatus1 := words 0
    handStatus2 := words 1
    position := signedField words 2 (by decide)
    current := signedField words 18 (by decide)
    kinesthetic := signedField words 34 (by decide)
    tactile := signedField words 46 (by decide)
    addInfo := signedField words 106 (by decide) }

end EtherCat
end FrankaKistar
