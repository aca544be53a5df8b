import FrankaKistar.EtherCat.Loop

/-!
# The process image

`ethercat_run` derives the number of active hands from the sizes of the process
image that SOEM reports, and the cycle copies one block for each of them.  The
number is clamped to at least one, so an image that is smaller than one frame
is overrun.
-/

namespace FrankaKistar
namespace EtherCat

open Foundation

variable {n : Nat}

/-- `g_active_hand_num` of `ethercat_run`. -/
def activeHandNum (handNum obytes ibytes : Nat) : Nat :=
  let maxHandsByOutput := obytes / handDataWriteByteNum
  let maxHandsByInput := ibytes / handDataReadByteNum
  let maxHandsByPdo := min maxHandsByOutput maxHandsByInput
  max 1 (min handNum maxHandsByPdo)

theorem one_le_activeHandNum (handNum obytes ibytes : Nat) :
    1 ≤ activeHandNum handNum obytes ibytes :=
  Nat.le_max_left _ _

theorem activeHandNum_le {handNum : Nat} (h : 1 ≤ handNum)
    (obytes ibytes : Nat) : activeHandNum handNum obytes ibytes ≤ handNum :=
  Nat.max_le.mpr ⟨h, Nat.min_le_left _ _⟩

/-- The loop as `ethercat_run` configures it, for `Hand_Num` at least 1. -/
def configure (n : Nat) (h : 1 ≤ n) (cycletime : Int) (obytes ibytes : Nat)
    (digout : Option Nat) : EcatConfig n where
  cycletime := cycletime
  activeHandNum := activeHandNum n obytes ibytes
  active_pos := one_le_activeHandNum n obytes ibytes
  active_le := activeHandNum_le h obytes ibytes
  digout := digout

/-!
## The accesses of one exchange
-/

theorem mem_activeHands (cfg : EcatConfig n) (hand : Fin n) :
    hand ∈ cfg.activeHands <-> hand.val < cfg.activeHandNum := by
  unfold EcatConfig.activeHands
  rw [List.mem_map]
  constructor
  · intro h
    rcases h with ⟨k, _, hk⟩
    rw [<- hk]
    exact k.isLt
  · intro h
    exact ⟨⟨hand.val, h⟩, List.mem_finRange _, rfl⟩

/-- Index `a` of `ec_slave[0].outputs` is written for the hand. -/
def Writes (cfg : EcatConfig n) (hand : Fin n) (a : Nat) : Prop :=
  hand ∈ cfg.activeHands ∧
    exists i : Fin handDataWriteByteNum, Blocks.index _ hand.val i = a

/-- Index `a` of `ec_slave[0].inputs` is read for the hand. -/
def Reads (cfg : EcatConfig n) (hand : Fin n) (a : Nat) : Prop :=
  hand ∈ cfg.activeHands ∧
    exists i : Fin handDataReadByteNum, Blocks.index _ hand.val i = a

theorem foldl_outputs_of_not_writes (input : CycleInput) {a : Nat}
    {hands : List (Fin n)}
    (h : forall hand, hand ∈ hands ->
      forall i : Fin handDataWriteByteNum, Blocks.index _ hand.val i ≠ a)
    (s : EcatState n) :
    (hands.foldl (exchangeHand input) s).outputs a = s.outputs a := by
  induction hands generalizing s with
  | nil => rfl
  | cons hand rest ih =>
      rw [List.foldl_cons, ih fun hand' hmem => h hand' (.tail _ hmem)]
      apply Blocks.storeAll_of_notMem
      intro hmem
      rcases Blocks.mem_blockStores_fst.mp hmem with ⟨i, hi⟩
      exact h hand (.head _) i hi

theorem exchangeHands_outputs_of_not_writes (cfg : EcatConfig n)
    (input : CycleInput) (s : EcatState n) {a : Nat}
    (h : forall hand, ¬Writes cfg hand a) :
    (exchangeHands cfg input s).outputs a = s.outputs a := by
  apply foldl_outputs_of_not_writes
  intro hand hmem i hi
  exact h hand ⟨hmem, i, hi⟩

theorem foldl_congr_inputs {input input' : CycleInput}
    {hands : List (Fin n)}
    (h : forall hand, hand ∈ hands -> forall i : Fin handDataReadByteNum,
      input.inputs (Blocks.index _ hand.val i) =
        input'.inputs (Blocks.index _ hand.val i))
    (s : EcatState n) :
    hands.foldl (exchangeHand input) s =
      hands.foldl (exchangeHand input') s := by
  induction hands generalizing s with
  | nil => rfl
  | cons hand rest ih =>
      have hload :
          Blocks.loadBlock handDataReadByteNum input.inputs hand.val =
            Blocks.loadBlock handDataReadByteNum input'.inputs hand.val :=
        funext (h hand (.head _))
      have hstep : exchangeHand input s hand = exchangeHand input' s hand := by
        simp only [exchangeHand, hload]
      rw [List.foldl_cons, List.foldl_cons, hstep]
      exact ih (fun hand' hmem => h hand' (.tail _ hmem)) _

theorem exchangeHands_congr_reads (cfg : EcatConfig n)
    {input input' : CycleInput} (s : EcatState n)
    (h : forall hand a, Reads cfg hand a ->
      input.inputs a = input'.inputs a) :
    exchangeHands cfg input s = exchangeHands cfg input' s := by
  apply foldl_congr_inputs
  intro hand hmem i
  exact h hand _ ⟨hmem, i, rfl⟩

/-!
## Bounds
-/

/-- Every access is inside its image, and the hands do not share bytes. -/
structure WithinImage (cfg : EcatConfig n) (obytes ibytes : Nat) : Prop where
  writes_lt : forall hand a, Writes cfg hand a -> a < obytes
  reads_lt : forall hand a, Reads cfg hand a -> a < ibytes
  writes_disjoint : forall hand hand' a,
    Writes cfg hand a -> Writes cfg hand' a -> hand = hand'
  reads_disjoint : forall hand hand' a,
    Reads cfg hand a -> Reads cfg hand' a -> hand = hand'

theorem mul_div_le_of_active {n obytes ibytes : Nat}
    (hout : handDataWriteByteNum ≤ obytes) (hin : handDataReadByteNum ≤ ibytes) :
    activeHandNum n obytes ibytes * handDataWriteByteNum ≤ obytes ∧
      activeHandNum n obytes ibytes * handDataReadByteNum ≤ ibytes := by
  have houtput : 1 ≤ obytes / handDataWriteByteNum :=
    (Nat.one_le_div_iff (by decide)).mpr hout
  have hinput : 1 ≤ ibytes / handDataReadByteNum :=
    (Nat.one_le_div_iff (by decide)).mpr hin
  have hcount : activeHandNum n obytes ibytes ≤
      min (obytes / handDataWriteByteNum) (ibytes / handDataReadByteNum) :=
    Nat.max_le.mpr ⟨Nat.le_min.mpr ⟨houtput, hinput⟩, Nat.min_le_right _ _⟩
  rcases Nat.le_min.mp hcount with ⟨hleft, hright⟩
  exact ⟨(Nat.le_div_iff_mul_le (by decide)).mp hleft,
    (Nat.le_div_iff_mul_le (by decide)).mp hright⟩

/-- The first hand is always active, and its last bytes are accessed. -/
theorem first_hand_accesses (cfg : EcatConfig n) :
    (exists hand, Writes cfg hand 63) ∧ exists hand, Reads cfg hand 255 := by
  have hlt : 0 < n := Nat.lt_of_lt_of_le cfg.active_pos cfg.active_le
  have hactive : (⟨0, hlt⟩ : Fin n) ∈ cfg.activeHands :=
    (mem_activeHands cfg _).mpr cfg.active_pos
  exact ⟨⟨⟨0, hlt⟩, hactive, ⟨63, Nat.lt_succ_self 63⟩,
      Blocks.index_zero _⟩,
    ⟨⟨0, hlt⟩, hactive, ⟨255, Nat.lt_succ_self 255⟩,
      Blocks.index_zero _⟩⟩

/-- The accesses stay inside exactly when the image holds one frame each way. -/
theorem withinImage_iff (n : Nat) (hn : 1 ≤ n) (cycletime : Int)
    (obytes ibytes : Nat) (digout : Option Nat) :
    WithinImage (configure n hn cycletime obytes ibytes digout) obytes ibytes <->
      handDataWriteByteNum ≤ obytes ∧ handDataReadByteNum ≤ ibytes := by
  constructor
  · intro h
    rcases first_hand_accesses
      (configure n hn cycletime obytes ibytes digout) with
      ⟨⟨hand, hwrites⟩, ⟨hand', hreads⟩⟩
    exact ⟨h.writes_lt hand 63 hwrites, h.reads_lt hand' 255 hreads⟩
  · intro h
    have hsize := mul_div_le_of_active (n := n) h.left h.right
    constructor
    · intro hand a hwrites
      rcases hwrites with ⟨hactive, i, rfl⟩
      exact Nat.lt_of_lt_of_le
        (Blocks.index_lt ((mem_activeHands _ hand).mp hactive) i) hsize.left
    · intro hand a hreads
      rcases hreads with ⟨hactive, i, rfl⟩
      exact Nat.lt_of_lt_of_le
        (Blocks.index_lt ((mem_activeHands _ hand).mp hactive) i) hsize.right
    · intro hand hand' a hwrites hwrites'
      rcases hwrites with ⟨_, i, rfl⟩
      rcases hwrites' with ⟨_, i', hi'⟩
      exact Fin.ext (Blocks.index_inj hi').left.symm
    · intro hand hand' a hreads hreads'
      rcases hreads with ⟨_, i, rfl⟩
      rcases hreads' with ⟨_, i', hi'⟩
      exact Fin.ext (Blocks.index_inj hi').left.symm

/-- Two hands, each with 64 bytes of output and 256 bytes of input. -/
theorem withinImage_two :
    WithinImage (configure 2 (by decide) 1000000 128 512 none) 128 512 :=
  (withinImage_iff 2 (by decide) 1000000 128 512 none).mpr
    ⟨by decide, by decide⟩

/-- A slave with 32 bytes of output is still written 64 bytes. -/
theorem not_withinImage :
    ¬forall (n : Nat) (hn : 1 ≤ n) (cycletime : Int) (obytes ibytes : Nat)
      (digout : Option Nat),
      WithinImage (configure n hn cycletime obytes ibytes digout)
        obytes ibytes := by
  intro h
  have himage := h 1 (Nat.le_refl 1) 1000000 32 256 none
  rcases first_hand_accesses
    (configure 1 (Nat.le_refl 1) 1000000 32 256 none) with
    ⟨⟨hand, hwrites⟩, _⟩
  exact absurd (himage.writes_lt hand 63 hwrites) (by decide)

end EtherCat
end FrankaKistar
