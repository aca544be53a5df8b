import FrankaKistar.SharedMemory.Hand
import Mathlib.Logic.Function.Basic

/-!
# The hand callbacks of the bridge

`on_hand_target`, `on_hand_mode` and `on_hand_servo_on` write the entry of hand
0.  The integer messages are narrowed to a byte by a `static_cast`; a target of
the wrong size is dropped.
-/

namespace FrankaKistar
namespace Bridge

/-- `static_cast<uint8_t>` of an `int32_t`. -/
def toByte (x : Int32) : UInt8 := UInt8.ofNat (x.toInt % 256).toNat

theorem toByte_toNat (x : Int32) : ((toByte x).toNat : Int) = x.toInt % 256 := by
  have hmod := Int.emod_nonneg x.toInt (by decide : (256 : Int) ≠ 0)
  have hlt := Int.emod_lt_of_pos x.toInt (by decide : (0 : Int) < 256)
  simp only [toByte, UInt8.toNat_ofNat']
  omega

variable {n : Nat}

def onHandTarget (data : List Int16) (hand : HandShm (n + 1)) :
    HandShm (n + 1) :=
  if h : data.length = handDOF then
    { hand with
      jTar := Function.update hand.jTar 0 fun i => data.get (i.cast h.symm) }
  else
    hand

def onHandMode (x : Int32) (hand : HandShm (n + 1)) :
    HandShm (n + 1) :=
  { hand with handMode := Function.update hand.handMode 0 (toByte x) }

def onHandServoOn (x : Int32) (hand : HandShm (n + 1)) :
    HandShm (n + 1) :=
  { hand with servoOn := Function.update hand.servoOn 0 (toByte x) }

end Bridge
end FrankaKistar
