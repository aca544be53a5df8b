import FrankaKistar.SharedMemory.Layout

/-!
# The hand part of the shared memory

The fields of `SHMmsgs` that the EtherCAT cycle and the hand callbacks work on,
for any number of hands; the source sets `Hand_Num` to 1.  The fingertip poses
are left out.
-/

namespace FrankaKistar

structure HandShm (n : Nat) where
  handMode : Fin n -> UInt8
  servoOn : Fin n -> UInt8
  jPos : Fin n -> Fin handDOF -> Int16
  jTar : Fin n -> Fin handDOF -> Int16
  jCur : Fin n -> Fin handDOF -> Int16
  jKin : Fin n -> Fin kinestheticSensorNum ->
    Fin kinestheticSensorDOF -> Int16
  jTac : Fin n -> Fin tactileSensorNum -> Int16

def HandShm.zero (n : Nat) : HandShm n where
  handMode := fun _ => 0
  servoOn := fun _ => 0
  jPos := fun _ _ => 0
  jTar := fun _ _ => 0
  jCur := fun _ _ => 0
  jKin := fun _ _ _ => 0
  jTac := fun _ _ => 0

def SHMmsgs.hands (msgs : SHMmsgs) : HandShm handNum where
  handMode := msgs.handMode
  servoOn := msgs.servoOn
  jPos := msgs.jPos
  jTar := msgs.jTar
  jCur := msgs.jCur
  jKin := msgs.jKin
  jTac := msgs.jTac

def SHMmsgs.withHands (msgs : SHMmsgs) (hands : HandShm handNum) : SHMmsgs :=
  { msgs with
    handMode := hands.handMode
    servoOn := hands.servoOn
    jPos := hands.jPos
    jTar := hands.jTar
    jCur := hands.jCur
    jKin := hands.jKin
    jTac := hands.jTac }

theorem hands_withHands (msgs : SHMmsgs) (hands : HandShm handNum) :
    (msgs.withHands hands).hands = hands := rfl

theorem hands_zero : SHMmsgs.zero.hands = HandShm.zero handNum := rfl

end FrankaKistar
