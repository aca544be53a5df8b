import FrankaKistar.Foundation.Runs
import FrankaKistar.Orchestrator.Backends

/-!
# Hand targets of mode and servo changes

`set_servo` and `set_hand_mode` of `_WhitePcBackend` send the joint vector that
`publish_hand` has sent last, and zeros before the first one.  On the separate
topics of `_ShmBridgeBackend` they send no joint vector at all.  So a mode or
servo change leaves the hand where it is exactly when a `publish_hand` came
before it, or when the last received hand state is the zero vector.
-/

namespace FrankaKistar
namespace Orchestrator

open Foundation

/-!
## Call sequences
-/

inductive HandEvent where
  | handState (values : List ExactDouble)
  | call (c : IoCall)

def WhitePc.step (fields : WhitePcFields) (b : WhitePc) : HandEvent -> WhitePc
  | .handState values => b.onHandState values
  | .call c => (b.call fields c).1

def WhitePc.after (fields : WhitePcFields) (events : List HandEvent) :
    WhitePc :=
  events.foldl (WhitePc.step fields) .start

/-- The vector of a `publish_hand`, clamped. -/
def HandEvent.published : HandEvent -> Option Hand
  | .call (.publishHand h) => some (clampHand h)
  | _ => none

def HandEvent.received : HandEvent -> Option Hand
  | .handState values => handVector .whitePc values
  | _ => none

def zeroHand : Hand := fun _ => 0

def IoCall.isHandSetting : IoCall -> Bool
  | .setServo _ => true
  | .setHandMode _ => true
  | _ => false

def WhitePcMessage.handJoints : WhitePcMessage -> Option Hand
  | .armTarget _ _ => none
  | .handTarget m => some m.joints

/-!
## What is promised
-/

/-- The most recent `publish_hand`, or else the most recently received hand
state. -/
def currentHand (before : List HandEvent) : Option Hand :=
  (Machine.lastValue HandEvent.published before).or
    (Machine.lastValue HandEvent.received before)

/-- Every message of a mode or servo change carries the current vector. -/
def KeepsHand (fields : WhitePcFields) (events : List HandEvent) : Prop :=
  forall before c rest, events = before ++ .call c :: rest ->
    c.isHandSetting = true ->
      forall m h, m ∈ ((WhitePc.after fields before).call fields c).2 ->
        m.handJoints = some h -> currentHand before = some h

/-- When a mode or servo change is made, a vector was published before, or the
hand is known to be at zero. -/
def SettingsKnown (events : List HandEvent) : Prop :=
  forall before c rest, events = before ++ .call c :: rest ->
    c.isHandSetting = true ->
      (Machine.lastValue HandEvent.published before).isSome = true ∨
        Machine.lastValue HandEvent.received before = some zeroHand

/-- A `HandTarget` with a mode field and a servo field. -/
def WhitePcFields.withHand (speed : Bool) : WhitePcFields := ⟨speed, true, true⟩

/-!
## The reference
-/

/-- The joint targets of the hand on the topics of `_ShmBridgeBackend`. -/
def BridgeMessage.handJoints : BridgeMessage -> Option Hand
  | .handTargetJoint h => some h
  | _ => none

def HandEvent.bridgeMessages : HandEvent -> List BridgeMessage
  | .handState _ => []
  | .call c => shmBridgeCall c

/-- The last joint target of the reference is the last published vector, so its
mode and servo changes leave the target as it was. -/
theorem lastValue_bridge (events : List HandEvent) :
    Machine.lastValue BridgeMessage.handJoints
        (events.flatMap HandEvent.bridgeMessages) =
      Machine.lastValue HandEvent.published events := by
  induction events with
  | nil => rfl
  | cons e rest ih =>
      rw [Machine.lastValue_cons, ← ih, List.flatMap_cons]
      cases e with
      | handState values =>
          show _ = Option.or _ none
          rw [Option.or_none]
          rfl
      | call c =>
          cases c with
          | publishFranka q speed =>
              show Machine.lastValue _ (_ :: _ :: _) = _
              rw [Machine.lastValue_cons, Machine.lastValue_cons]
              simp [BridgeMessage.handJoints, HandEvent.published]
          | _ =>
              show Machine.lastValue _ (_ :: _) = _
              rw [Machine.lastValue_cons]
              rfl

/-!
## The kept vector
-/

theorem lastHand_step (fields : WhitePcFields) (b : WhitePc) (e : HandEvent) :
    (b.step fields e).lastHand = e.published.getD b.lastHand := by
  cases e with
  | handState values => rfl
  | call c => cases c <;> rfl

theorem lastHand_after (fields : WhitePcFields) (events : List HandEvent) :
    (WhitePc.after fields events).lastHand =
      (Machine.lastValue HandEvent.published events).getD zeroHand :=
  Machine.lastValue_of_overwrite (lastHand_step fields) .start events

theorem handJoints_of_setting {speed : Bool} {b : WhitePc} {c : IoCall}
    (hc : c.isHandSetting = true) :
    ((b.call (.withHand speed) c).2).map WhitePcMessage.handJoints =
      [some b.lastHand] := by
  cases c with
  | setServo on => rfl
  | setHandMode mode => rfl
  | publishFranka | holdFranka | publishHand => cases hc

/-- One call is answered with the current vector exactly when the kept vector is
the current one. -/
theorem setting_keeps_iff {speed : Bool} {before : List HandEvent} {c : IoCall}
    (hc : c.isHandSetting = true) :
    (forall m h,
        m ∈ ((WhitePc.after (.withHand speed) before).call (.withHand speed)
          c).2 ->
        m.handJoints = some h -> currentHand before = some h) ↔
      currentHand before =
        some ((Machine.lastValue HandEvent.published before).getD
          zeroHand) := by
  have hmap := @handJoints_of_setting speed
    (WhitePc.after (.withHand speed) before) c hc
  rw [lastHand_after] at hmap
  rcases List.map_eq_singleton_iff.mp hmap with ⟨m, hlist, hm⟩
  rw [hlist]
  constructor
  · intro hall
    exact hall m _ List.mem_cons_self hm
  · intro hcurrent m' h hmem hh
    cases List.mem_singleton.mp hmem
    rw [hm] at hh
    cases hh
    exact hcurrent

theorem currentHand_eq_iff (before : List HandEvent) :
    currentHand before =
        some ((Machine.lastValue HandEvent.published before).getD zeroHand) ↔
      (Machine.lastValue HandEvent.published before).isSome = true ∨
        Machine.lastValue HandEvent.received before = some zeroHand := by
  unfold currentHand
  cases Machine.lastValue HandEvent.published before with
  | some h => simp
  | none => simp

/-- Mode and servo changes leave the hand where it is exactly when each of them
comes after a `publish_hand`, or with the last received hand state at zero. -/
theorem keepsHand_iff (speed : Bool) (events : List HandEvent) :
    KeepsHand (.withHand speed) events ↔ SettingsKnown events := by
  constructor
  · intro h before c rest hsplit hc
    exact (currentHand_eq_iff before).mp
      ((setting_keeps_iff hc).mp (h before c rest hsplit hc))
  · intro h before c rest hsplit hc
    exact (setting_keeps_iff hc).mpr
      ((currentHand_eq_iff before).mpr (h before c rest hsplit hc))

def stage2Calls : List HandEvent :=
  [.handState (List.replicate 16 (.finite 100)),
    .call (.setServo handSafeServoOn), .call (.setHandMode handModeCircular)]

theorem not_all_keepsHand :
    ¬ forall speed events, KeepsHand (.withHand speed) events := by
  intro hclaim
  have hknown := (keepsHand_iff true stage2Calls).mp (hclaim true stage2Calls)
    [.handState (List.replicate 16 (.finite 100))] (.setServo handSafeServoOn)
    [.call (.setHandMode handModeCircular)] rfl rfl
  rcases hknown with hpublished | hzero
  · cases hpublished
  · have hat := congrFun (Option.some.inj hzero) 0
    revert hat
    decide +kernel

end Orchestrator
end FrankaKistar
