import FrankaKistar.Arm.Leftover
import FrankaKistar.EtherCat.SensorPath
import FrankaKistar.Orchestrator.Backends
import FrankaKistar.Orchestrator.Exclusivity

/-!
# The whole system

The orchestrator, the bridge, the control process and the EtherCAT loop of one
robot.  The orchestrator talks to the bridge on topics; a message that was sent
arrives at any later time, more than once, out of order or not at all.  The
bridge runs one callback at a time.  Its arm stores interleave with the steps of
the control thread, and the control process may be killed and started again; a
callback of the hand, a publication and an EtherCAT cycle are one step each.

The orchestrator is the only publisher of commands here.
-/

namespace FrankaKistar
namespace System

open Foundation Arm Bridge EtherCat Orchestrator

variable {status : Type}

structure SystemConfig where
  orchestrator : OrchestratorConfig
  arm : FrankaRightArmConfig
  ecat : EcatConfig handNum

/-- The hand part of the shared memory is the one of the EtherCAT loop.  The
publications of the bridge are kept, oldest first. -/
structure World (status : Type) where
  node : Orch status
  arm : Split
  ecat : EcatState handNum
  bridge : BridgeMessages
  reported : List BridgeMessages

def World.start (status : Type) (now : ClockReading)
    (outputs : Nat -> UInt8) : World status where
  node := Orch.start status .start
  arm := Split.fresh ⟨SHMmsgs.zero, ArmTrajBuf.zero⟩
  ecat := (EcatState.start now outputs (HandShm.zero handNum)).operate
  bridge := .start
  reported := []

/-- The commands that the orchestrator has sent, oldest first. -/
def World.sent (w : World status) : List BridgeMessage :=
  w.node.shared.published.reverse.flatMap shmBridgeCall

/-!
## Events
-/

inductive WorldEvent where
  | node (e : NodeEvent)
  | armState (i : Nat)
  | handState (i : Nat)
  | command (i : Nat)
  | publish
  | arm (e : LifetimeEvent)
  | cycle (input : CycleInput)

/-- The states come from the bridge only. -/
def isStateMessage : NodeEvent -> Bool
  | .step (.armState _) => true
  | .step (.handState _) => true
  | _ => false

/-- The arm commands come from the orchestrator only. -/
def isReceive : LifetimeEvent -> Bool
  | .step (.receive _) => true
  | _ => false

/-!
## Messages
-/

def World.segment (w : World status) : SHMmsgs :=
  w.arm.ctl.shm.msgs.withHands w.ecat.shm

def World.nodeStep (server : GoalServer status) (cfg : SystemConfig)
    (w : World status) (e : NodeEvent) : Option (World status) :=
  (Orchestrator.nodeStep server cfg.orchestrator w.node e).map fun node =>
    { w with node := node }

/-- `_on_franka_q` -/
def onFrankaQ (server : GoalServer status) (cfg : SystemConfig)
    (w : World status) (msg : BridgeMessages) : Option (World status) :=
  match armVector msg.frankaJointPosition.val.data with
  | none => some w
  | some q => w.nodeStep server cfg (.step (.armState q))

/-- `_on_hand_q` -/
def onHandQ (server : GoalServer status) (cfg : SystemConfig)
    (w : World status) (msg : BridgeMessages) : Option (World status) :=
  match handVector .shmBridge (msg.jointPosition.val.data.map .finite) with
  | none => some w
  | some h => w.nodeStep server cfg (.step (.handState h))

def World.receive (cfg : SystemConfig) (w : World status) (msg : ArmMessage) :
    Option (World status) :=
  (splitStep cfg.arm w.arm (.receive msg)).map fun arm => { w with arm := arm }

def World.handCallback (cfg : SystemConfig) (w : World status)
    (e : CommandEvent) : Option (World status) :=
  match w.arm.outgoing with
  | [] => some { w with ecat := commandStep cfg.ecat w.ecat e }
  | _ :: _ => none

def World.onCommand (cfg : SystemConfig) (w : World status) :
    BridgeMessage -> Option (World status)
  | .targetSpeedFactor speed => w.receive cfg (.speed speed)
  | .frankaTargetJoint q => w.receive cfg (.target (List.ofFn q))
  | .handTargetJoint h =>
      w.handCallback cfg (.target (List.ofFn fun i => Int16.ofInt (h i)))
  | .handTargetMode mode => w.handCallback cfg (.mode (Int32.ofInt mode))
  | .handTargetServoOn on => w.handCallback cfg (.servoOn (Int32.ofInt on))

def World.publish (w : World status) : Option (World status) :=
  match w.arm.outgoing with
  | [] =>
      some
        { w with
          bridge := publishFromSharedMemory w.bridge (some w.segment)
          reported := w.reported ++
            [publishFromSharedMemory w.bridge (some w.segment)] }
  | _ :: _ => none

/-!
## Steps
-/

def worldStep (server : GoalServer status) (cfg : SystemConfig) :
    Machine (World status) WorldEvent
  | w, .node e => if isStateMessage e then none else w.nodeStep server cfg e
  | w, .armState i => (w.reported[i]?).bind (onFrankaQ server cfg w)
  | w, .handState i => (w.reported[i]?).bind (onHandQ server cfg w)
  | w, .command i => (w.sent[i]?).bind (w.onCommand cfg)
  | w, .publish => w.publish
  | w, .arm e =>
      if isReceive e then none
      else (lifetimeStep cfg.arm w.arm e).map fun arm => { w with arm := arm }
  | w, .cycle input => some { w with ecat := ecatIteration cfg.ecat input w.ecat }

end System
end FrankaKistar
