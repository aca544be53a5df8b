import FrankaKistar.EtherCat.Fingertips
import FrankaKistar.EtherCat.SensorPath

/-!
# The loop with the fingertips

The EtherCAT loop that also computes the fingertip poses of every active hand
and keeps them in the shared memory.  The poses change nothing in the rest of
the loop.  Once the loop has exchanged, the poses in the shared memory are those
of the encoder values that stand next to them, whatever messages and frames
came, and no frame makes the solver fail.
-/

namespace FrankaKistar
namespace EtherCat

open Foundation

variable {n : Nat} {K : Type}

/-- The loop, with `tip_pos` and `tip_quat` of the shared memory. -/
structure TipState (n : Nat) (K : Type) where
  ecat : EcatState n
  tips : Fin n -> Fin 4 -> FingerTip K

section Loop

variable [Field K] [LinearOrder K] (m : Libm K)

def exchangeHandTips (input : CycleInput) (s : TipState n K) (hand : Fin n) :
    Except ArithmeticError (TipState n K) := do
  let ecat := exchangeHand input s.ecat hand
  let tips <- computeHandFkFromJointPos m (ecat.shm.jPos hand)
  return ⟨ecat, Function.update s.tips hand tips⟩

def tipIteration (cfg : EcatConfig n) (input : CycleInput)
    (s : TipState n K) : Except ArithmeticError (TipState n K) := do
  let ecat :=
    { s.ecat with ts := addTimespec s.ecat.ts (cfg.cycletime + s.ecat.toff) }
  if ecat.Exchanges then
    let s <- cfg.activeHands.foldlM (exchangeHandTips m input)
      { s with ecat :=
        { ecat with wkc := input.wkc, dorun := wrapInt (ecat.dorun + 1) } }
    let ecat := writeDigout cfg s.ecat
    if input.hasdc then
      let sync := ecSync input.dcTime cfg.cycletime ecat.integral
      return { s with ecat := { ecat with integral := sync.1, toff := sync.2 } }
    else
      return { s with ecat := ecat }
  else
    return { s with ecat := ecat }

def tipStep (cfg : EcatConfig (n + 1)) (s : TipState (n + 1) K) :
    CommandEvent -> Except ArithmeticError (TipState (n + 1) K)
  | .cycle input => tipIteration m cfg input s
  | .target data =>
      return { s with ecat := commandStep cfg s.ecat (.target data) }
  | .mode x => return { s with ecat := commandStep cfg s.ecat (.mode x) }
  | .servoOn x => return { s with ecat := commandStep cfg s.ecat (.servoOn x) }

def runTips (cfg : EcatConfig (n + 1)) (s : TipState (n + 1) K)
    (events : List CommandEvent) :
    Except ArithmeticError (TipState (n + 1) K) :=
  events.foldlM (tipStep m cfg) s

/-- The poses of a hand are those of its encoder values. -/
def Coherent (s : TipState n K) (hand : Fin n) : Prop :=
  computeHandFkFromJointPos m (s.ecat.shm.jPos hand) = .ok (s.tips hand)

variable {m}

theorem Coherent.congr {s s' : TipState n K} {hand : Fin n}
    (h : Coherent m s hand)
    (hpos : s'.ecat.shm.jPos hand = s.ecat.shm.jPos hand)
    (htips : s'.tips hand = s.tips hand) : Coherent m s' hand := by
  unfold Coherent
  rw [hpos, htips]
  exact h

/-!
## One iteration
-/

def Solves (m : Libm K) : Prop :=
  forall jointPos, exists tips, computeHandFkFromJointPos m jointPos = .ok tips

theorem exists_exchangeHandTips (hm : Solves m) (input : CycleInput)
    (s : TipState n K) (hand : Fin n) :
    exists s', exchangeHandTips m input s hand = .ok s' ∧
      s'.ecat = exchangeHand input s.ecat hand ∧ Coherent m s' hand ∧
      forall other, other ≠ hand -> Coherent m s other ->
        Coherent m s' other := by
  rcases hm ((exchangeHand input s.ecat hand).shm.jPos hand) with ⟨tips, hok⟩
  refine ⟨⟨exchangeHand input s.ecat hand, Function.update s.tips hand tips⟩,
    ?_, rfl, ?_, ?_⟩
  · simp only [exchangeHandTips, hok]
    rfl
  · show computeHandFkFromJointPos m _ =
      .ok (Function.update s.tips hand tips hand)
    rw [Function.update_self]
    exact hok
  · intro other hne hother
    refine hother.congr ?_ ?_
    · exact Function.update_of_ne hne _ _
    · exact Function.update_of_ne hne _ _

theorem exists_foldlM_exchangeHandTips (hm : Solves m) (input : CycleInput)
    (hands : List (Fin n)) (s : TipState n K) :
    exists s', hands.foldlM (exchangeHandTips m input) s = .ok s' ∧
      s'.ecat = hands.foldl (exchangeHand input) s.ecat ∧
      forall hand, hand ∈ hands ∨ Coherent m s hand -> Coherent m s' hand := by
  induction hands generalizing s with
  | nil =>
      refine ⟨s, rfl, rfl, ?_⟩
      intro hand h
      exact h.resolve_left List.not_mem_nil
  | cons first rest ih =>
      rcases exists_exchangeHandTips hm input s first with
        ⟨middle, hfirst, hecat, hself, hothers⟩
      rcases ih middle with ⟨s', hrest, hecat', hall⟩
      refine ⟨s', ?_, ?_, ?_⟩
      · rw [List.foldlM_cons, hfirst]
        exact hrest
      · rw [hecat', hecat, List.foldl_cons]
      · intro hand h
        apply hall
        by_cases heq : hand = first
        · rw [heq]
          exact Or.inr hself
        · rcases h with hmem | hcoherent
          · exact Or.inl ((List.mem_cons.mp hmem).resolve_left heq)
          · exact Or.inr (hothers hand heq hcoherent)

theorem exists_tipIteration (hm : Solves m) (cfg : EcatConfig n)
    (input : CycleInput) (s : TipState n K) :
    exists s', tipIteration m cfg input s = .ok s' ∧
      s'.ecat = ecatIteration cfg input s.ecat ∧
      forall hand, (hand ∈ cfg.activeHands ∧ s.ecat.Exchanges) ∨
        Coherent m s hand -> Coherent m s' hand := by
  by_cases hexchanges : s.ecat.Exchanges
  · have hguard : EcatState.Exchanges
        { s.ecat with
          ts := addTimespec s.ecat.ts (cfg.cycletime + s.ecat.toff) } :=
      hexchanges
    rcases exists_foldlM_exchangeHandTips hm input cfg.activeHands
      { s with ecat :=
        { s.ecat with
          ts := addTimespec s.ecat.ts (cfg.cycletime + s.ecat.toff)
          wkc := input.wkc
          dorun := wrapInt (s.ecat.dorun + 1) } } with
      ⟨middle, hfold, hecat, hall⟩
    have hmiddle : forall hand, (hand ∈ cfg.activeHands ∧ s.ecat.Exchanges) ∨
        Coherent m s hand -> Coherent m middle hand :=
      fun hand h => hall hand (h.imp And.left id)
    have hkeep : (writeDigout cfg middle.ecat).shm = middle.ecat.shm :=
      writeDigout_shm cfg middle.ecat
    simp only [tipIteration, if_pos hguard, ecatIteration, exchange,
      exchangeHands]
    cases hdc : input.hasdc with
    | true =>
        refine ⟨_, by rw [hfold]; rfl, by rw [← hecat]; rfl, ?_⟩
        intro hand h
        refine (hmiddle hand h).congr ?_ rfl
        exact congrFun (congrArg HandShm.jPos hkeep) hand
    | false =>
        refine ⟨_, by rw [hfold]; rfl, by rw [← hecat]; rfl, ?_⟩
        intro hand h
        refine (hmiddle hand h).congr ?_ rfl
        exact congrFun (congrArg HandShm.jPos hkeep) hand
  · have hguard : ¬ EcatState.Exchanges
        { s.ecat with
          ts := addTimespec s.ecat.ts (cfg.cycletime + s.ecat.toff) } :=
      hexchanges
    simp only [tipIteration, if_neg hguard, ecatIteration]
    refine ⟨_, rfl, rfl, ?_⟩
    intro hand h
    rcases h with ⟨_, hyes⟩ | hcoherent
    · exact absurd hyes hexchanges
    · exact hcoherent

/-!
## Runs
-/

theorem exists_tipStep (hm : Solves m) (cfg : EcatConfig (n + 1))
    (s : TipState (n + 1) K) (e : CommandEvent) :
    exists s', tipStep m cfg s e = .ok s' ∧
      s'.ecat = commandStep cfg s.ecat e ∧
      forall hand, ((exists input, e = .cycle input) ∧
          hand ∈ cfg.activeHands ∧ s.ecat.Exchanges) ∨ Coherent m s hand ->
        Coherent m s' hand := by
  cases e with
  | cycle input =>
      rcases exists_tipIteration hm cfg input s with ⟨s', hok, hecat, hall⟩
      exact ⟨s', hok, hecat, fun hand h => hall hand (h.imp And.right id)⟩
  | target data =>
      refine ⟨_, rfl, rfl, ?_⟩
      intro hand h
      rcases h with ⟨⟨input, heq⟩, _⟩ | hcoherent
      · cases heq
      · refine hcoherent.congr ?_ rfl
        simp only [commandStep, Bridge.onHandTarget]
        split <;> rfl
  | mode x | servoOn x =>
      refine ⟨_, rfl, rfl, ?_⟩
      intro hand h
      rcases h with ⟨⟨input, heq⟩, _⟩ | hcoherent
      · cases heq
      · exact hcoherent.congr rfl rfl

theorem exchanges_commandStep {cfg : EcatConfig (n + 1)}
    {s : EcatState (n + 1)} {e : CommandEvent}
    (he : forall input, e ≠ .cycle input) (h : s.Exchanges) :
    (commandStep cfg s e).Exchanges := by
  cases e with
  | cycle input => exact absurd rfl (he input)
  | target | mode | servoOn => exact h

theorem exists_runTips (hm : Solves m) (cfg : EcatConfig (n + 1))
    (events : List CommandEvent) (s : TipState (n + 1) K) :
    exists s', runTips m cfg s events = .ok s' ∧
      s'.ecat = events.foldl (commandStep cfg) s.ecat ∧
      forall hand, ((exists input, .cycle input ∈ events) ∧
          hand ∈ cfg.activeHands ∧ s.ecat.Exchanges) ∨ Coherent m s hand ->
        Coherent m s' hand := by
  induction events generalizing s with
  | nil =>
      refine ⟨s, rfl, rfl, ?_⟩
      intro hand h
      rcases h with ⟨⟨input, hmem⟩, _⟩ | hcoherent
      · cases hmem
      · exact hcoherent
  | cons e rest ih =>
      rcases exists_tipStep hm cfg s e with ⟨middle, hok, hecat, hstep⟩
      rcases ih middle with ⟨s', hrest, hecat', hall⟩
      refine ⟨s', ?_, ?_, ?_⟩
      · rw [runTips, List.foldlM_cons, hok]
        exact hrest
      · rw [hecat', hecat, List.foldl_cons]
      · intro hand h
        apply hall
        rcases h with ⟨⟨input, hmem⟩, hactive, hexchanges⟩ | hcoherent
        · by_cases he : exists input, e = .cycle input
          · exact Or.inr (hstep hand (Or.inl ⟨he, hactive, hexchanges⟩))
          · have hnot : forall input, e ≠ .cycle input :=
              fun input heq => he ⟨input, heq⟩
            have hlater : CommandEvent.cycle input ∈ rest :=
              (List.mem_cons.mp hmem).resolve_left (hnot input).symm
            refine Or.inl ⟨⟨input, hlater⟩, hactive, ?_⟩
            rw [hecat]
            exact exchanges_commandStep hnot hexchanges
        · exact Or.inr (hstep hand (Or.inr hcoherent))

end Loop

/-!
## In real arithmetic
-/

theorem solves_realLibm : Solves realLibm := by
  intro jointPos
  rcases exists_computeHandFk circular_realLibm isSquareRoot_sqrt jointPos with
    ⟨tips, hok, _⟩
  exact ⟨tips, hok⟩

theorem isTip_of_coherent {s : TipState n ℝ} {hand : Fin n}
    (h : Coherent realLibm s hand) (finger : Fin 4) :
    IsTip (s.tips hand finger) (accumulate (handLinks realLibm
      (fun i => toRadianFromEncoder (s.ecat.shm.jPos hand i)) finger)) := by
  rcases exists_computeHandFk circular_realLibm isSquareRoot_sqrt
    (s.ecat.shm.jPos hand) with ⟨tips, hok, htips⟩
  rw [h] at hok
  cases hok
  exact htips finger

/-- The loop never fails and does what it does without the fingertips.  When it
exchanges, the tips of every active hand are those of the encoder values in the
shared memory after its first cycle. -/
theorem tips_of_run (cfg : EcatConfig (n + 1)) (s : TipState (n + 1) ℝ)
    (events : List CommandEvent) :
    exists s', runTips realLibm cfg s events = .ok s' ∧
      s'.ecat = events.foldl (commandStep cfg) s.ecat ∧
      (s.ecat.Exchanges ->
        (exists input, CommandEvent.cycle input ∈ events) ->
        forall hand, hand ∈ cfg.activeHands -> forall finger,
          IsTip (s'.tips hand finger) (accumulate (handLinks realLibm
            (fun i => toRadianFromEncoder (s'.ecat.shm.jPos hand i))
            finger))) := by
  rcases exists_runTips solves_realLibm cfg events s with
    ⟨s', hok, hecat, hall⟩
  refine ⟨s', hok, hecat, ?_⟩
  intro hexchanges hcycle hand hactive
  exact isTip_of_coherent (hall hand (Or.inl ⟨hcycle, hactive, hexchanges⟩))

def withoutTips : TipState handNum ℝ :=
  ⟨operatingHand, fun _ _ => ⟨fun _ => 0, fun _ => 0⟩⟩

theorem tips_countingInput :
    exists s', runTips realLibm oneHand withoutTips
        [.servoOn 1, .cycle countingInput] = .ok s' ∧
      s'.ecat = [CommandEvent.servoOn 1, .cycle countingInput].foldl
        (commandStep oneHand) operatingHand ∧
      forall hand, hand ∈ oneHand.activeHands -> forall finger,
        IsTip (s'.tips hand finger) (accumulate (handLinks realLibm
          (fun i => toRadianFromEncoder (s'.ecat.shm.jPos hand i)) finger)) := by
  rcases tips_of_run oneHand withoutTips [.servoOn 1, .cycle countingInput] with
    ⟨s', hok, hecat, htips⟩
  exact ⟨s', hok, hecat, htips Int.one_pos
    ⟨countingInput, List.mem_cons_of_mem _ List.mem_cons_self⟩⟩

end EtherCat
end FrankaKistar
