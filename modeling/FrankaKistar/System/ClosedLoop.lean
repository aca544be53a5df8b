import FrankaKistar.Arm.Motions
import FrankaKistar.Orchestrator.Provenance
import FrankaKistar.System.World

/-!
# The loop stays in the box

The orchestrator sends poses that it was given or has received, and it receives
what the controller and the hand have reported.  So when the poses of the
parameters, the waypoints of the goals and the measured states lie in a box
around zero, everything that is sent lies in it as well, all the way to the
motions of the arm and the command frames of the hand.  Zero is in the box
because it is reported before the controller has connected.
-/

namespace FrankaKistar
namespace System

open Foundation LittleEndian Arm Bridge EtherCat Orchestrator

variable {status : Type}

/-!
## The box
-/

def boxTargets (box : Box) : Targets := fun j x =>
  x.isFinite = true ∧ box.lower j ≤ x.toRat ∧ x.toRat ≤ box.upper j

def InHand (box : Box) (i : Fin handDOF) (x : Int) : Prop :=
  box.low i ≤ x ∧ x ≤ box.high i

/-- `max(-32768, min(32767, x))` -/
def clampInt16 (x : Int) : Int := max (-32768) (min 32767 x)

def HandTargetIn (box : Box) (delta : Int) (i : Fin handDOF) (x : Int) :
    Prop :=
  InHand box i x ∨ exists y, InHand box i y ∧ x = clampInt16 (y + delta)

/-- The measured states and the normalised waypoints lie in the box. -/
def Environment (box : Box) (cfg : SystemConfig) (w : World status) :
    WorldEvent -> Prop
  | .node e => box.Receives cfg.orchestrator w.node e
  | .arm e => forall state, e.state? = some state -> box.Arm state.q
  | .cycle input => forall i,
      InHand box i ((receivedData input 0).position i).toInt
  | _ => True

structure StaysIn (box : Box) (cfg : SystemConfig) (w : World status) :
    Prop where
  calls : forall c, c ∈ w.node.shared.published ->
    box.Frames cfg.orchestrator.params.handCloseDelta c
  motion : forall target speed, w.arm.ctl.loc = .ptpMotion target speed ->
    box.Arm target ∧ SpeedFactorInRange speed
  noTrajectory : w.arm.ctl.loc.follows = false
  jointTarget : forall input i, exists x : Int16,
    HasWord (m := 32) (commandFrame cfg.ecat input w.ecat) (jointTargetWord i)
      x.toUInt16 ∧
    HandTargetIn box cfg.orchestrator.params.handCloseDelta i x.toInt
  mode : forall input, exists mode : UInt8,
    HasWord (m := 32) (commandFrame cfg.ecat input w.ecat) status2Word
      mode.toUInt16 ∧
    (mode = 0 ∨ mode = 1 ∨ mode = 2)

/-!
## Reported states
-/

structure Reports (box : Box) (msg : BridgeMessages) : Prop where
  arm : exists q, msg.frankaJointPosition.val.data = List.ofFn q ∧ box.Arm q
  hand : exists h : Fin handDOF -> Int16,
    msg.jointPosition.val.data = List.ofFn (fun i => castFloat (h i)) ∧
      forall i, InHand box i (h i).toInt

theorem armVector_ofFn (q : Joints ExactDouble) :
    armVector (List.ofFn q) = some q := by
  unfold armVector
  rw [if_neg (by rw [List.length_ofFn]; exact Nat.lt_irrefl _)]
  refine congrArg some (funext fun i => ?_)
  rw [List.getD_eq_getElem?_getD, List.getElem?_ofFn, dif_pos i.isLt]
  rfl

theorem gather_some {α : Type} {n : Nat} (f : Fin n -> α) :
    gather (fun i => some (f i)) = some f := by
  have hall : forall i : Fin n, (some (f i)).isSome = true := fun i => rfl
  unfold gather
  rw [dif_pos hall]
  rfl

theorem handVector_ofFn (h : Fin handDOF -> Int16) :
    handVector .shmBridge
        ((List.ofFn fun i => castFloat (h i)).map .finite) =
      some fun i => (h i).toInt := by
  have hround : forall i : Fin 16,
      roundDouble (((List.ofFn fun i => castFloat (h i)).map
        ExactDouble.finite).getD i.val (.finite 0)) = some (h i).toInt := by
    intro i
    rw [List.getD_eq_getElem?_getD, List.getElem?_map, List.getElem?_ofFn,
      dif_pos i.isLt]
    show some (roundHalfEven (castFloat (h i))) = some (h i).toInt
    rw [castFloat, roundHalfEven_intCast]
  have hlength : ¬ ((List.ofFn fun i => castFloat (h i)).map
      ExactDouble.finite).length < handDOF := by
    rw [List.length_map, List.length_ofFn]
    exact Nat.lt_irrefl _
  simp only [handVector, if_neg hlength, hround]
  exact gather_some _

/-!
## Commands on their way
-/

def MessageIn (box : Box) (delta : Int) : BridgeMessage -> Prop
  | .targetSpeedFactor _ => True
  | .frankaTargetJoint q => box.Arm q
  | .handTargetJoint h => IsInt16 h ∧ forall i, HandTargetIn box delta i (h i)
  | .handTargetMode mode => mode = handModePosition ∨ mode = handModeCircular
  | .handTargetServoOn _ => True

structure HasZero (box : Box) : Prop where
  arm : box.Arm zeroJoints
  hand : forall i, InHand box i 0

theorem clampInt16_mem {box : Box} {i : Fin handDOF} {x : Int}
    (hzero : InHand box i 0) (hx : InHand box i x) :
    InHand box i (clampInt16 x) := by
  have hlow := hzero.1
  have hhigh := hzero.2
  have hxlow := hx.1
  have hxhigh := hx.2
  unfold InHand clampInt16
  omega

theorem clampInt16_idem (x : Int) :
    clampInt16 (clampInt16 x) = clampInt16 x := by
  unfold clampInt16
  omega

theorem handTargetIn_of_frames {box : Box} {delta : Int} {h : Hand}
    (hzero : HasZero box) (hframes : box.Frames delta (.publishHand h))
    (i : Fin handDOF) : HandTargetIn box delta i (clampHand h i) := by
  rcases hframes with hbox | ⟨h0, hbox, heq⟩
  · exact Or.inl (clampInt16_mem (hzero.hand i) (hbox i))
  · rw [heq]
    show HandTargetIn box delta i (clampInt16 (applyHandCloseOffset h0 delta i))
    unfold applyHandCloseOffset
    split_ifs with hexclude
    · exact Or.inl (clampInt16_mem (hzero.hand i) (hbox i))
    · exact Or.inr ⟨h0 i, hbox i, clampInt16_idem _⟩

theorem messageIn_of_sanctioned {box : Box} {p : SequenceParams} {view : View}
    (hzero : HasZero box) (hstart : box.HoldsStart p view) {c : IoCall}
    (hc : Sanctioned p box.inputs c) {m : BridgeMessage}
    (hm : m ∈ shmBridgeCall c) : MessageIn box p.handCloseDelta m := by
  have hframes := frames_of_sanctioned hstart hc
  have hrange := shmBridgeCall_inRange hc m hm
  cases c with
  | publishFranka q speed =>
      rcases List.mem_cons.mp hm with heq | hrest
      · rw [heq]
        exact True.intro
      · rw [List.mem_singleton.mp hrest]
        exact hframes
  | holdFranka q =>
      rw [List.mem_singleton.mp hm]
      exact hframes
  | publishHand h =>
      rw [List.mem_singleton.mp hm]
      exact ⟨clampHand_isInt16 h, handTargetIn_of_frames hzero hframes⟩
  | setHandMode mode =>
      rw [List.mem_singleton.mp hm] at hrange ⊢
      exact hrange
  | setServo on =>
      rw [List.mem_singleton.mp hm]
      exact True.intro

/-!
## Parts of the invariant
-/

structure ArmIn (box : Box) (s : Split) : Prop where
  targets : TargetsInv (boxTargets box) s
  quiet : Quiet s
  position : box.Arm s.ctl.shm.msgs.armJPos

structure HandIn (box : Box) (delta : Int) (s : EcatState handNum) : Prop where
  position : forall i, InHand box i (s.shm.jPos 0 i).toInt
  target : forall i, HandTargetIn box delta i (s.target i).toInt
  mode : s.mode = 0 ∨ s.mode = 1 ∨ s.mode = 2

structure WorldIn (server : GoalServer status) (box : Box)
    (cfg : SystemConfig) (w : World status) : Prop where
  node : ProvenanceInv server cfg.orchestrator box.inputs w.node
  arm : ArmIn box w.arm
  hand : HandIn box cfg.orchestrator.params.handCloseDelta w.ecat
  reported : forall msg, msg ∈ w.reported -> Reports box msg

/-!
## The arm
-/

theorem armIn_lifetimeStep {box : Box} {cfg : FrankaRightArmConfig}
    {s s' : Split} {e : LifetimeEvent}
    (hcfg : SpeedFactorInRange cfg.speedFactor) (hs : ArmIn box s)
    (hstate : forall state, e.state? = some state -> box.Arm state.q)
    (hmsg : forall msg, e = .step (.receive msg) ->
      msg.stores.any Store.writesTraj = false ∧
        forall store, store ∈ msg.stores -> (boxTargets box).Stored store)
    (hstep : lifetimeStep cfg s e = some s') : ArmIn box s' := by
  have hfeeds : (boxTargets box).Feeds s e := by
    cases e with
    | kill => exact True.intro
    | step e =>
        cases e with
        | control e =>
            cases e with
            | robotState state => exact hstate state rfl
            | _ => exact True.intro
        | receive msg => exact (hmsg msg rfl).2
        | store => exact True.intro
  refine ⟨targetsInv_lifetimeStep hcfg hs.targets hfeeds hstep,
    quiet_lifetimeStep hs.quiet (fun msg he => (hmsg msg he).1) hstep, ?_⟩
  rcases armJPos_lifetimeStep hstep with heq | ⟨state, he, heq⟩
  · rw [heq]
    exact hs.position
  · rw [heq]
    exact hstate state he

theorem armIn_receive {box : Box} {cfg : FrankaRightArmConfig} {s s' : Split}
    {msg : ArmMessage} (hcfg : SpeedFactorInRange cfg.speedFactor)
    (hs : ArmIn box s) (hwrites : msg.stores.any Store.writesTraj = false)
    (hstores : forall store, store ∈ msg.stores ->
      (boxTargets box).Stored store)
    (hstep : splitStep cfg s (.receive msg) = some s') : ArmIn box s' := by
  have hlifetime : lifetimeStep cfg s (.step (.receive msg)) = some s' := hstep
  refine armIn_lifetimeStep hcfg hs ?_ ?_ hlifetime
  · intro state he
    cases he
  · intro msg' he
    cases he
    exact ⟨hwrites, hstores⟩

theorem stored_speedStores {allowed : Targets} (speed : ExactDouble)
    (store : Store) (hstore : store ∈ (ArmMessage.speed speed).stores) :
    allowed.Stored store := by
  simp only [ArmMessage.stores, speedStores] at hstore
  split_ifs at hstore
  all_goals
    rw [List.mem_singleton.mp hstore]
    exact True.intro

theorem stored_targetStores {box : Box} {q : Joints ExactDouble}
    (hq : box.Arm q) (store : Store)
    (hstore : store ∈ (ArmMessage.target (List.ofFn q)).stores) :
    (boxTargets box).Stored store := by
  have hlength : ¬ (List.ofFn q).length ≠ armDOF := by
    rw [List.length_ofFn]
    exact fun h => h rfl
  simp only [ArmMessage.stores, targetStores, if_neg hlength, Option.getD_some]
    at hstore
  rcases List.mem_map.mp hstore with ⟨j, _, rfl⟩
  show boxTargets box j _
  rw [List.getD_eq_getElem?_getD, List.getElem?_ofFn, dif_pos j.isLt]
  exact hq j

/-!
## The hand
-/

theorem toInt_ofInt {x : Int} (h : -32768 ≤ x ∧ x ≤ 32767) :
    (Int16.ofInt x).toInt = x := by
  have hsize : (Int16.size : Int) = 65536 := rfl
  rw [Int16.toInt_ofInt]
  exact Int.bmod_eq_of_le (by omega) (by omega)

theorem handIn_target {box : Box} {delta : Int} {cfg : EcatConfig handNum}
    {s : EcatState handNum} {h : Hand} (hs : HandIn box delta s)
    (hint : IsInt16 h) (htarget : forall i, HandTargetIn box delta i (h i)) :
    HandIn box delta
      (commandStep cfg s (.target (List.ofFn fun i => Int16.ofInt (h i)))) := by
  have hlength : (List.ofFn fun i => Int16.ofInt (h i)).length = handDOF :=
    List.length_ofFn
  refine ⟨?_, ?_, ?_⟩
  · intro i
    have hkeep : (commandStep cfg s
        (.target (List.ofFn fun i => Int16.ofInt (h i)))).shm.jPos =
          s.shm.jPos := by
      simp only [commandStep, onHandTarget]
      split <;> rfl
    rw [hkeep]
    exact hs.position i
  · intro i
    rw [commandStep_target]
    simp only [CommandEvent.targetValue, dif_pos hlength, Option.getD_some]
    rw [List.get_ofFn, toInt_ofInt (hint _)]
    exact htarget i
  · rw [commandStep_mode]
    exact hs.mode

theorem handIn_mode {box : Box} {delta : Int} {cfg : EcatConfig handNum}
    {s : EcatState handNum} {mode : Int} (hs : HandIn box delta s)
    (hmode : mode = handModePosition ∨ mode = handModeCircular) :
    HandIn box delta (commandStep cfg s (.mode (Int32.ofInt mode))) := by
  refine ⟨hs.position, ?_, ?_⟩
  · intro i
    rw [commandStep_target]
    exact hs.target i
  · rw [commandStep_mode]
    rcases hmode with hposition | hcircular
    · rw [hposition]
      exact Or.inr (Or.inl rfl)
    · rw [hcircular]
      exact Or.inr (Or.inr rfl)

theorem handIn_servoOn {box : Box} {delta : Int} {cfg : EcatConfig handNum}
    {s : EcatState handNum} (x : Int32) (hs : HandIn box delta s) :
    HandIn box delta (commandStep cfg s (.servoOn x)) := by
  refine ⟨hs.position, ?_, ?_⟩
  · intro i
    rw [commandStep_target]
    exact hs.target i
  · rw [commandStep_mode]
    exact hs.mode

theorem handIn_cycle {box : Box} {delta : Int} {cfg : EcatConfig handNum}
    {s : EcatState handNum} {input : CycleInput} (hs : HandIn box delta s)
    (hinput : forall i, InHand box i ((receivedData input 0).position i).toInt) :
    HandIn box delta (ecatIteration cfg input s) := by
  refine ⟨?_, ?_, ?_⟩
  · intro i
    by_cases hexchanges : s.Exchanges
    · rw [(hasSensors_ecatIteration cfg input hexchanges).position]
      exact hinput i
    · have hkeep : (ecatIteration cfg input s).shm = s.shm := by
        have hguard : ¬ EcatState.Exchanges
            { s with ts := addTimespec s.ts (cfg.cycletime + s.toff) } :=
          hexchanges
        simp only [ecatIteration, if_neg hguard]
      rw [hkeep]
      exact hs.position i
  · intro i
    have hkeep : (ecatIteration cfg input s).target = s.target :=
      commandStep_target cfg s (.cycle input)
    rw [hkeep]
    exact hs.target i
  · have hkeep : (ecatIteration cfg input s).mode = s.mode :=
      commandStep_mode cfg s (.cycle input)
    rw [hkeep]
    exact hs.mode

/-!
## Steps of the system
-/

section Steps

variable {server : GoalServer status} {box : Box} {cfg : SystemConfig}
  {w w' : World status}

theorem worldIn_nodeStep {e : NodeEvent} (hw : WorldIn server box cfg w)
    (hexpected : cfg.orchestrator.expectedJointNames = [] ∨
      cfg.orchestrator.expectedJointNames.length = armDOF)
    (hcond : box.Receives cfg.orchestrator w.node e)
    (hstep : w.nodeStep server cfg e = some w') :
    WorldIn server box cfg w' := by
  rcases Option.map_eq_some_iff.mp hstep with ⟨node, hnode, rfl⟩
  have hreceives := receives_inputs hexpected w.node e hcond
  exact ⟨⟨sequenceInv_nodeStep hw.node.sequence hnode,
    knownState_nodeStep hw.node.state hw.node.sequence hreceives hnode⟩,
    hw.arm, hw.hand, hw.reported⟩

theorem worldIn_onFrankaQ {msg : BridgeMessages}
    (hw : WorldIn server box cfg w)
    (hexpected : cfg.orchestrator.expectedJointNames = [] ∨
      cfg.orchestrator.expectedJointNames.length = armDOF)
    (hmsg : Reports box msg) (hstep : onFrankaQ server cfg w msg = some w') :
    WorldIn server box cfg w' := by
  rcases hmsg.arm with ⟨q, hdata, hq⟩
  have hstate : w.nodeStep server cfg (.step (.armState q)) = some w' := by
    simpa only [onFrankaQ, hdata, armVector_ofFn] using hstep
  refine worldIn_nodeStep hw hexpected ?_ hstate
  exact hq

theorem worldIn_onHandQ {msg : BridgeMessages}
    (hw : WorldIn server box cfg w)
    (hexpected : cfg.orchestrator.expectedJointNames = [] ∨
      cfg.orchestrator.expectedJointNames.length = armDOF)
    (hmsg : Reports box msg) (hstep : onHandQ server cfg w msg = some w') :
    WorldIn server box cfg w' := by
  rcases hmsg.hand with ⟨h, hdata, hh⟩
  have hstate : w.nodeStep server cfg
      (.step (.handState fun i => (h i).toInt)) = some w' := by
    simpa only [onHandQ, hdata, handVector_ofFn] using hstep
  refine worldIn_nodeStep hw hexpected ?_ hstate
  exact hh

theorem worldIn_receive {msg : ArmMessage} (hw : WorldIn server box cfg w)
    (hcfg : SpeedFactorInRange cfg.arm.speedFactor)
    (hwrites : msg.stores.any Store.writesTraj = false)
    (hstores : forall store, store ∈ msg.stores ->
      (boxTargets box).Stored store)
    (hstep : w.receive cfg msg = some w') : WorldIn server box cfg w' := by
  rcases Option.map_eq_some_iff.mp hstep with ⟨arm, harm, rfl⟩
  exact ⟨hw.node, armIn_receive hcfg hw.arm hwrites hstores harm, hw.hand,
    hw.reported⟩

theorem worldIn_handCallback {e : CommandEvent}
    (hw : WorldIn server box cfg w)
    (hand : HandIn box cfg.orchestrator.params.handCloseDelta
      (commandStep cfg.ecat w.ecat e))
    (hstep : w.handCallback cfg e = some w') : WorldIn server box cfg w' := by
  unfold World.handCallback at hstep
  split at hstep
  · cases hstep
    exact ⟨hw.node, hw.arm, hand, hw.reported⟩
  · cases hstep

theorem worldIn_onCommand {m : BridgeMessage} (hw : WorldIn server box cfg w)
    (hcfg : SpeedFactorInRange cfg.arm.speedFactor)
    (hm : MessageIn box cfg.orchestrator.params.handCloseDelta m)
    (hstep : w.onCommand cfg m = some w') : WorldIn server box cfg w' := by
  cases m with
  | targetSpeedFactor speed =>
      refine worldIn_receive hw hcfg ?_ (stored_speedStores speed) hstep
      exact speedStores_not_writesTraj speed
  | frankaTargetJoint q =>
      refine worldIn_receive hw hcfg ?_ (stored_targetStores hm) hstep
      exact targetStores_not_writesTraj (List.ofFn q)
  | handTargetJoint h =>
      exact worldIn_handCallback hw (handIn_target hw.hand hm.1 hm.2) hstep
  | handTargetMode mode =>
      exact worldIn_handCallback hw (handIn_mode hw.hand hm) hstep
  | handTargetServoOn on =>
      exact worldIn_handCallback hw (handIn_servoOn (Int32.ofInt on) hw.hand)
        hstep

theorem reports_publish (hw : WorldIn server box cfg w) :
    Reports box (publishFromSharedMemory w.bridge (some w.segment)) where
  arm := ⟨w.arm.ctl.shm.msgs.armJPos, rfl, hw.arm.position⟩
  hand := ⟨w.ecat.shm.jPos 0, rfl, hw.hand.position⟩

theorem worldIn_publish (hw : WorldIn server box cfg w)
    (hstep : w.publish = some w') : WorldIn server box cfg w' := by
  unfold World.publish at hstep
  split at hstep
  · cases hstep
    refine ⟨hw.node, hw.arm, hw.hand, ?_⟩
    intro msg hmsg
    rcases List.mem_append.mp hmsg with hold | hnew
    · exact hw.reported msg hold
    · rw [List.mem_singleton.mp hnew]
      exact reports_publish hw
  · cases hstep

theorem messageIn_of_sent {view : View} (hw : WorldIn server box cfg w)
    (hzero : HasZero box) (hstart : box.HoldsStart cfg.orchestrator.params view)
    {m : BridgeMessage} (hm : m ∈ w.sent) :
    MessageIn box cfg.orchestrator.params.handCloseDelta m := by
  rcases List.mem_flatMap.mp hm with ⟨c, hc, hmem⟩
  exact messageIn_of_sanctioned hzero hstart
    (hw.node.state.published c (List.mem_reverse.mp hc)) hmem

end Steps

/-- What is fixed before the system runs. -/
structure Setup (box : Box) (cfg : SystemConfig) : Prop where
  start : box.HoldsStart cfg.orchestrator.params .start
  expected : cfg.orchestrator.expectedJointNames = [] ∨
    cfg.orchestrator.expectedJointNames.length = armDOF
  speed : SpeedFactorInRange cfg.arm.speedFactor

theorem hasZero_of_setup {box : Box} {cfg : SystemConfig}
    (h : Setup box cfg) : HasZero box :=
  ⟨h.start.frankaQ, h.start.handQ⟩

theorem worldIn_worldStep {server : GoalServer status} {box : Box}
    {cfg : SystemConfig} {w w' : World status} {e : WorldEvent}
    (hsetup : Setup box cfg) (hw : WorldIn server box cfg w)
    (hcond : Environment box cfg w e)
    (hstep : worldStep server cfg w e = some w') :
    WorldIn server box cfg w' := by
  cases e with
  | node e =>
      simp only [worldStep] at hstep
      split at hstep
      · cases hstep
      · exact worldIn_nodeStep hw hsetup.expected hcond hstep
  | armState i =>
      rcases Option.bind_eq_some_iff.mp hstep with ⟨msg, hmsg, hnext⟩
      exact worldIn_onFrankaQ hw hsetup.expected
        (hw.reported msg (List.mem_of_getElem? hmsg)) hnext
  | handState i =>
      rcases Option.bind_eq_some_iff.mp hstep with ⟨msg, hmsg, hnext⟩
      exact worldIn_onHandQ hw hsetup.expected
        (hw.reported msg (List.mem_of_getElem? hmsg)) hnext
  | command i =>
      rcases Option.bind_eq_some_iff.mp hstep with ⟨m, hm, hnext⟩
      exact worldIn_onCommand hw hsetup.speed
        (messageIn_of_sent hw (hasZero_of_setup hsetup) hsetup.start
          (List.mem_of_getElem? hm)) hnext
  | publish => exact worldIn_publish hw hstep
  | arm e =>
      simp only [worldStep] at hstep
      split at hstep
      · cases hstep
      · rename_i hreceive
        rcases Option.map_eq_some_iff.mp hstep with ⟨arm, harm, rfl⟩
        refine ⟨hw.node, ?_, hw.hand, hw.reported⟩
        refine armIn_lifetimeStep hsetup.speed hw.arm hcond ?_ harm
        intro msg he
        rw [he] at hreceive
        exact absurd rfl hreceive
  | cycle input =>
      cases hstep
      exact ⟨hw.node, hw.arm, handIn_cycle hw.hand hcond, hw.reported⟩

theorem worldIn_start (server : GoalServer status) {box : Box}
    {cfg : SystemConfig} (hsetup : Setup box cfg) (now : ClockReading)
    (outputs : Nat -> UInt8) :
    WorldIn server box cfg (World.start status now outputs) := by
  have hzero := hasZero_of_setup hsetup
  refine ⟨⟨sequenceInv_start server cfg.orchestrator .start, ?_⟩, ?_, ?_, ?_⟩
  · refine ⟨⟨hsetup.start.frankaQ, hsetup.start.handQ⟩, ?_, ?_⟩
    · intro c hc
      cases hc
    · intro g hg
      cases hg
  · refine ⟨⟨⟨True.intro, Targets.before_zero, ?_⟩, ?_⟩, quiet_fresh ?_,
      hzero.arm⟩
    · intro i j _
      exact hzero.arm j
    · intro store hstore
      cases hstore
    · intro hpending
      cases hpending
  · exact ⟨hzero.hand, fun i => Or.inl (hzero.hand i), Or.inl rfl⟩
  · intro msg hmsg
    cases hmsg

theorem staysIn_of_worldIn {server : GoalServer status} {box : Box}
    {cfg : SystemConfig} {w : World status} (hsetup : Setup box cfg)
    (hw : WorldIn server box cfg w) : StaysIn box cfg w where
  calls := fun c hc =>
    frames_of_sanctioned hsetup.start (hw.node.state.published c hc)
  motion := (motionAllowed_of_ctlAllowed hw.arm.targets.ctl).ptp
  noTrajectory := Loc.not_follows_of_quiet hw.arm.quiet.loc
  jointTarget := by
    intro input i
    refine ⟨w.ecat.target i, ?_, hw.hand.target i⟩
    rw [commandFrame_eq, hasWord_byte, words_jointTarget]
    rfl
  mode := by
    intro input
    refine ⟨w.ecat.mode, ?_, hw.hand.mode⟩
    rw [commandFrame_eq, hasWord_byte, words_status2]
    rfl

/-- In every run of the system whose environment keeps to a box around zero,
everything that is sent stays in the box. -/
theorem staysIn_of_run {server : GoalServer status} {box : Box}
    {cfg : SystemConfig} {now : ClockReading} {outputs : Nat -> UInt8}
    {history : List WorldEvent} {w : World status} (hsetup : Setup box cfg)
    (hrun : Machine.RunWhere (worldStep server cfg) (Environment box cfg)
      (World.start status now outputs) history w) : StaysIn box cfg w := by
  have hinv : WorldIn server box cfg w :=
    Machine.invariant_of_step
      (fun _ _ _ hw hcond hstep => worldIn_worldStep hsetup hw hcond hstep)
      (worldIn_start server hsetup now outputs) hrun
  exact staysIn_of_worldIn hsetup hinv

/-!
The controller connects at zero, the orchestrator hears of it and accepts a
goal, and its first target reaches the arm.
-/

def smallSystem : SystemConfig := ⟨quickConfig, defaultConfig, oneHand⟩

def silentInput : CycleInput := ⟨3, fun _ => 0, false, 0⟩

def controlTicks (n : Nat) : List WorldEvent :=
  List.replicate n (.arm (.step (.control .tick)))

def readAtRest : WorldEvent := .arm (.step (.control (.robotState .atRest)))

def bridgeStores (n : Nat) : List WorldEvent :=
  List.replicate n (.arm (.step .store))

def firstMotion : List WorldEvent :=
  List.flatten
    [[readAtRest], controlTicks 11, [.cycle silentInput, .publish],
      [.armState 0, .handState 0, .node (.step (.request restingGoal))],
      List.replicate 6 (.node (.step (.execute 0 false))),
      [.command 0], bridgeStores 1, [.command 1], bridgeStores 7,
      [readAtRest], controlTicks 10]

section FirstMotion

variable (w : World GoalStatus)

theorem environment_readAtRest :
    Environment wideBox smallSystem w readAtRest := by
  intro state hstate
  cases hstate
  decide +kernel

theorem environment_controlTicks (n : Nat) (e : WorldEvent)
    (he : e ∈ controlTicks n) : Environment wideBox smallSystem w e := by
  rw [List.eq_of_mem_replicate he]
  intro state hstate
  cases hstate

theorem environment_bridgeStores (n : Nat) (e : WorldEvent)
    (he : e ∈ bridgeStores n) : Environment wideBox smallSystem w e := by
  rw [List.eq_of_mem_replicate he]
  intro state hstate
  cases hstate

theorem environment_request :
    Environment wideBox smallSystem w (.node (.step (.request restingGoal))) :=
  receives_executedToTheEnd _ (List.mem_cons_of_mem _ List.mem_cons_self) w.node

theorem environment_silentInput :
    Environment wideBox smallSystem w (.cycle silentInput) := by
  show forall i, wideBox.low i ≤ ((receivedData silentInput 0).position i).toInt ∧
    ((receivedData silentInput 0).position i).toInt ≤ wideBox.high i
  decide +kernel

theorem environment_firstMotion (e : WorldEvent) (he : e ∈ firstMotion) :
    Environment wideBox smallSystem w e := by
  rcases List.mem_flatten.mp he with ⟨part, hpart, hmem⟩
  simp only [List.mem_cons, List.not_mem_nil, or_false] at hpart
  rcases hpart with rfl | rfl | rfl | rfl | rfl | rfl | rfl | rfl | rfl | rfl |
    rfl
  · rw [List.mem_singleton.mp hmem]
    exact environment_readAtRest w
  · exact environment_controlTicks w 11 e hmem
  · rcases List.mem_cons.mp hmem with heq | hrest
    · rw [heq]
      exact environment_silentInput w
    · rw [List.mem_singleton.mp hrest]
      exact True.intro
  · simp only [List.mem_cons, List.not_mem_nil, or_false] at hmem
    rcases hmem with rfl | rfl | rfl
    · exact True.intro
    · exact True.intro
    · exact environment_request w
  · rw [List.eq_of_mem_replicate hmem]
    exact True.intro
  · rw [List.mem_singleton.mp hmem]
    exact True.intro
  · exact environment_bridgeStores w 1 e hmem
  · rw [List.mem_singleton.mp hmem]
    exact True.intro
  · exact environment_bridgeStores w 7 e hmem
  · rw [List.mem_singleton.mp hmem]
    exact environment_readAtRest w
  · exact environment_controlTicks w 10 e hmem

end FirstMotion

theorem staysIn_firstMotion :
    exists w : World GoalStatus, w.arm.ctl.loc.ptpTarget?.isSome = true ∧
      StaysIn wideBox smallSystem w := by
  have hrun : ((worldStep GoalStatus.server smallSystem).runFrom
      (World.start GoalStatus ⟨0, 0, by decide⟩ fun _ => 0) firstMotion).any
        (fun w => w.arm.ctl.loc.ptpTarget?.isSome) = true := by
    decide +kernel
  rcases Machine.exists_runWhere_of_forall
      (fun e he w => environment_firstMotion w e he) hrun with ⟨w, hw, hptp⟩
  have hstart : wideBox.HoldsStart quickConfig.params .start := by
    constructor <;> decide +kernel
  have hspeed : SpeedFactorInRange defaultConfig.speedFactor :=
    defaultConfig_inRange
  exact ⟨w, hptp, staysIn_of_run ⟨hstart, Or.inr rfl, hspeed⟩ hw⟩

end System
end FrankaKistar
