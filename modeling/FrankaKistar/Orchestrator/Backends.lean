import FrankaKistar.Orchestrator.Sequence

/-!
# The two backends

`_ShmBridgeBackend` sends every command on a topic of its own.
`_WhitePcBackend` packs the joint targets, the mode and the servo of the hand
into one message and fills in what a call does not mention from the values it
has sent last.  Both keep the joint vectors they have received last, which start
as zeros.
-/

namespace FrankaKistar
namespace Orchestrator

open Foundation

inductive Backend where
  | shmBridge
  | whitePc
deriving DecidableEq

/-!
## Received states
-/

def gather {α : Type} {n : Nat} (f : Fin n -> Option α) :
    Option (Fin n -> α) :=
  if h : forall i, (f i).isSome = true then some fun i => (f i).get (h i)
  else none

/-- `_on_franka_q`, and `_on_arm_state` with `_read_float7`: a shorter vector is
ignored. -/
def armVector (values : List ExactDouble) : Option (Joints ExactDouble) :=
  if values.length < armDOF then none
  else some fun i => values.getD i.val (.finite 0)

/-- `int(round(x))` -/
def roundDouble : ExactDouble -> Option Int
  | .finite x => some (roundHalfEven x)
  | _ => none

/-- `_on_hand_q` ignores a shorter vector; `_read_hand16` fills it up with
zeros. -/
def handVector : Backend -> List ExactDouble -> Option Hand
  | .shmBridge, values =>
      if values.length < handDOF then none
      else gather fun i : Fin 16 => roundDouble (values.getD i.val (.finite 0))
  | .whitePc, values =>
      gather fun i : Fin 16 =>
        if i.val < values.length then truncate (values.getD i.val (.finite 0))
        else some 0

/-!
## Clamped values
-/

/-- `max(1e-3, min(1.0, speed))`: a comparison with NaN keeps the first
argument. -/
def clampSpeed (speed : ExactDouble) : ExactDouble :=
  let low := if speed.lt (.finite 1) then speed else .finite 1
  if (ExactDouble.finite (1 / 1000)).lt low then low else .finite (1 / 1000)

def clampHand (h : Hand) : Hand :=
  fun i => max (-32768) (min 32767 (h i))

/-!
## Separate topics
-/

inductive BridgeMessage where
  | targetSpeedFactor (speed : ExactDouble)
  | frankaTargetJoint (q : Joints ExactDouble)
  | handTargetJoint (h : Hand)
  | handTargetMode (mode : Int)
  | handTargetServoOn (on : Int)

/-- What `_ShmBridgeBackend` publishes for a call. -/
def shmBridgeCall : IoCall -> List BridgeMessage
  | .publishFranka q speed =>
      [.targetSpeedFactor (clampSpeed speed), .frankaTargetJoint q]
  | .holdFranka q => [.frankaTargetJoint q]
  | .publishHand h => [.handTargetJoint (clampHand h)]
  | .setHandMode mode => [.handTargetMode mode]
  | .setServo on => [.handTargetServoOn (if on then 1 else 0)]

/-!
## Packed messages
-/

/-- The fields that the message types have: `max_velocity` and its like in
`FrankaArmTarget`, `hand_mode` and `servo_on` and their like in `HandTarget`. -/
structure WhitePcFields where
  speed : Bool
  mode : Bool
  servo : Bool

/-- A `HandTarget`; a field that is missing, or left at its default, is
`none`. -/
structure HandTarget where
  joints : Hand
  mode : Option Int
  servo : Option Bool

inductive WhitePcMessage where
  | armTarget (q : Joints ExactDouble) (speed : Option ExactDouble)
  | handTarget (m : HandTarget)

structure WhitePc where
  view : View
  lastSpeed : ExactDouble
  lastHand : Hand
  lastHandMode : Int

def WhitePc.start : WhitePc where
  view := .start
  lastSpeed := .finite (15 / 100)
  lastHand := fun _ => 0
  lastHandMode := handModePosition

def setField {α : Type} (present : Bool) (value : α) : Option α :=
  if present then some value else none

def WhitePc.publishFranka (fields : WhitePcFields) (b : WhitePc)
    (q : Joints ExactDouble) (speed : ExactDouble) :
    WhitePc × List WhitePcMessage :=
  ({ b with lastSpeed := clampSpeed speed },
    [.armTarget q (setField fields.speed (clampSpeed speed))])

/-- What `_WhitePcBackend` publishes for a call, and the values it keeps. -/
def WhitePc.call (fields : WhitePcFields) (b : WhitePc) :
    IoCall -> WhitePc × List WhitePcMessage
  | .publishFranka q speed => b.publishFranka fields q speed
  | .holdFranka q => b.publishFranka fields q b.lastSpeed
  | .publishHand h =>
      ({ b with lastHand := clampHand h },
        [.handTarget
          ⟨clampHand h, setField fields.mode b.lastHandMode, none⟩])
  | .setHandMode mode =>
      ({ b with lastHandMode := mode },
        if fields.mode then [.handTarget ⟨b.lastHand, some mode, none⟩]
        else [])
  | .setServo on =>
      (b,
        if fields.servo then
          [.handTarget
            ⟨b.lastHand, setField fields.mode b.lastHandMode, some on⟩]
        else [])

/-- `_on_hand_state` -/
def WhitePc.onHandState (b : WhitePc) (values : List ExactDouble) : WhitePc :=
  { b with view :=
    { b.view with handQ := (handVector .whitePc values).getD b.view.handQ } }

end Orchestrator
end FrankaKistar
