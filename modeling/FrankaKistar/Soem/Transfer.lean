import FrankaKistar.Foundation.Ranges
import FrankaKistar.Soem.Mapping
import Mathlib.Tactic.FinCases

/-!
# The transfer of the process image

`ecx_main_send_processdata` sends the segments of the image one after the
other: outputs and inputs together when every slave allows it, and otherwise
the inputs first and then the outputs.  The loops do not look at what they
send, so the parts that are sent are a list that the table of segments
determines.  The variant with overlapping outputs and inputs, which the program
does not use, is left out.
-/

namespace FrankaKistar
namespace Soem

open Foundation

/-- One turn of a loop: the datagram of so many bytes of the image. -/
structure Chunk where
  command : EcCmd
  logAdr : Nat
  data : Nat
  length : Nat
deriving DecidableEq

/-- The loop over segments, for the bytes that are left.  Outputs alone end
inside a segment, so their last part is cut. -/
def segmentLoop (command : EcCmd) (cut : Bool) :
    List Nat -> Int -> Nat -> Nat -> List Chunk
  | [], _, _, _ => []
  | size :: rest, length, logAdr, data =>
      let sublength := size % 65536
      let sublength :=
        if cut && decide (length - sublength < 0) then
          (length % 65536).toNat
        else
          sublength
      ⟨command, logAdr, data, sublength⟩ ::
        if length - sublength = 0 then
          []
        else
          segmentLoop command cut rest (length - sublength)
            (logAdr + sublength) (data + sublength)

/-- The first input segment lacks the outputs in front of it. -/
def Group.inputSizes (g : Group) : List Nat :=
  match g.segments.drop g.isegment with
  | [] => []
  | size :: rest => (size + 65536 - g.ioffset) % 65536 :: rest

/-- `ecx_main_send_processdata`: the parts in the order in which they are sent.
The outputs are at the start of the image and the inputs behind them. -/
def processDataChunks (g : Group) : List Chunk :=
  if g.obytes + g.ibytes = 0 then
    []
  else if g.blockLRW then
    (if g.ibytes = 0 then
      []
    else
      segmentLoop .lrd false g.inputSizes g.ibytes (g.logstartaddr + g.obytes)
        g.obytes) ++
    (if g.obytes = 0 then
      []
    else
      segmentLoop .lwr true g.segments g.obytes g.logstartaddr 0)
  else
    segmentLoop .lrw false g.segments (g.obytes + g.ibytes : Nat)
      g.logstartaddr (if g.obytes = 0 then g.obytes else 0)

/-!
## What the parts cover
-/

/-- The parts go through the image from `a` to `b` without a gap, each at its
own logical address. -/
def Covers (start : Nat) (command : EcCmd) : Nat -> Nat -> List Chunk -> Prop
  | a, b, [] => a = b
  | a, b, c :: rest =>
      c.command = command ∧ c.data = a ∧ c.logAdr = start + a ∧
        Covers start command (a + c.length) b rest

theorem segmentLoop_cons (command : EcCmd) {cut : Bool} {size : Nat}
    (hsize : size ≤ maxSegment) (rest : List Nat) {length : Nat}
    (hcut : cut = false -> size ≤ length) (logAdr data : Nat) :
    segmentLoop command cut (size :: rest) length logAdr data =
      ⟨command, logAdr, data, min size length⟩ ::
        if length ≤ size then
          []
        else
          segmentLoop command cut rest (length - size : Nat) (logAdr + size)
            (data + size) := by
  have hmod : size % 65536 = size :=
    Nat.mod_eq_of_lt (Nat.lt_of_le_of_lt hsize (by decide))
  have hmax : maxSegment = 1466 := rfl
  have hsublength : (if cut && decide ((length : Int) - (size : Nat) < 0) then
      ((length : Int) % 65536).toNat else size) = min size length := by
    by_cases hlt : length < size
    · have hcutting : cut = true := by
        cases cut with
        | true => rfl
        | false => exact absurd (hcut rfl) (Nat.not_le.mpr hlt)
      rw [if_pos (by
        rw [hcutting, Bool.true_and, decide_eq_true_iff]
        omega)]
      omega
    · rw [if_neg (by
        rw [Bool.and_eq_true, decide_eq_true_iff]
        omega)]
      omega
  rw [segmentLoop]
  simp only [hmod, hsublength]
  by_cases hdone : length ≤ size
  · rw [if_pos hdone, if_pos (by omega)]
  · have hmin : min size length = size := by omega
    have hleft : (length : Int) - (size : Nat) = (length - size : Nat) := by
      omega
    rw [if_neg hdone, hmin, hleft, if_neg (by omega)]

theorem covers_segmentLoop {start : Nat} {command : EcCmd} {cut : Bool}
    {sizes : List Nat} (hsizes : forall x, x ∈ sizes -> x ≤ maxSegment)
    {length : Nat} (hlow : length ≤ sizes.sum)
    (hhigh : cut = false -> sizes.sum = length) (a : Nat) :
    Covers start command a (a + length)
      (segmentLoop command cut sizes length (start + a) a) := by
  induction sizes generalizing length a with
  | nil =>
      have hzero : length = 0 := Nat.le_zero.mp hlow
      rw [hzero]
      rfl
  | cons size rest ih =>
      rw [List.sum_cons] at hlow hhigh
      have hrest := fun x hx => hsizes x (List.mem_cons_of_mem size hx)
      have hcut : cut = false -> size ≤ length := by
        intro h
        have := hhigh h
        omega
      rw [segmentLoop_cons command (hsizes size List.mem_cons_self) rest hcut]
      refine ⟨rfl, rfl, rfl, ?_⟩
      split
      · rename_i hdone
        show a + min size length = a + length
        omega
      · rename_i hmore
        have hmin : min size length = size := by omega
        have hend : a + length = a + size + (length - size) := by omega
        dsimp only
        rw [hmin, hend, Nat.add_assoc start]
        refine ih hrest (by omega) (fun h => ?_) (a + size)
        have := hhigh h
        omega

theorem mem_segmentLoop {command : EcCmd} {cut : Bool} {sizes : List Nat}
    (hsizes : forall x, x ∈ sizes -> x ≤ maxSegment) {length : Nat}
    (hhigh : cut = false -> sizes.sum = length) {logAdr data : Nat} {c : Chunk}
    (h : c ∈ segmentLoop command cut sizes length logAdr data) :
    c.length ≤ maxSegment := by
  induction sizes generalizing length logAdr data with
  | nil => cases h
  | cons size rest ih =>
      rw [List.sum_cons] at hhigh
      have hsize := hsizes size List.mem_cons_self
      have hcut : cut = false -> size ≤ length := by
        intro heq
        have := hhigh heq
        omega
      rw [segmentLoop_cons command hsize rest hcut] at h
      rcases List.mem_cons.mp h with rfl | htail
      · exact Nat.le_trans (Nat.min_le_left _ _) hsize
      · split at htail
        · cases htail
        · refine ih (fun x hx => hsizes x (List.mem_cons_of_mem size hx))
            (fun heq => ?_) htail
          have := hhigh heq
          omega

theorem length_segmentLoop (command : EcCmd) (cut : Bool) (sizes : List Nat)
    (length : Int) (logAdr data : Nat) :
    (segmentLoop command cut sizes length logAdr data).length ≤
      sizes.length := by
  induction sizes generalizing length logAdr data with
  | nil => exact Nat.le_refl 0
  | cons size rest ih =>
      rw [segmentLoop, List.length_cons, List.length_cons]
      apply Nat.succ_le_succ
      generalize (if cut && decide (length - (size % 65536 : Nat) < 0) then
        (length % 65536).toNat else size % 65536) = sublength
      split
      · exact Nat.zero_le _
      · exact ih _ _ _

/-!
## The parts of a table
-/

theorem Partition.drop_segments {g : Group} (h : Partition g) :
    g.segments.drop g.isegment =
      g.ioSegment g.isegment :: g.segments.drop (g.isegment + 1) := by
  have hlength : g.isegment < g.segments.length := by
    rw [Group.segments, List.length_map, List.length_range]
    exact h.boundary
  rw [List.drop_eq_getElem_cons hlength]
  congr 1
  simp only [Group.segments, List.getElem_map, List.getElem_range]

theorem Partition.inputSizes_eq {g : Group} (h : Partition g) :
    g.inputSizes = (g.ioSegment g.isegment - g.ioffset) ::
      g.segments.drop (g.isegment + 1) := by
  have hsize : g.ioSegment g.isegment ≤ maxSegment := by
    apply h.sizes
    apply List.mem_of_mem_drop (i := g.isegment)
    rw [h.drop_segments]
    exact List.mem_cons_self
  have hmax : maxSegment = 1466 := rfl
  have hle := h.ioffset_le
  have hmod : (g.ioSegment g.isegment + 65536 - g.ioffset) % 65536 =
      g.ioSegment g.isegment - g.ioffset := by
    omega
  rw [Group.inputSizes, h.drop_segments]
  simp only [hmod]

theorem Partition.inputSizes_sum {g : Group} (h : Partition g) :
    g.inputSizes.sum = g.ibytes := by
  have hparts : (g.segments.take g.isegment).sum +
      (g.segments.drop g.isegment).sum = g.segments.sum := by
    rw [<- List.sum_append, List.take_append_drop]
  have htotal := h.total
  have houtputs := h.outputs
  have hle := h.ioffset_le
  rw [h.drop_segments, List.sum_cons] at hparts
  rw [h.inputSizes_eq, List.sum_cons]
  omega

theorem Partition.inputSizes_le {g : Group} (h : Partition g) {x : Nat}
    (hx : x ∈ g.inputSizes) : x ≤ maxSegment := by
  have hfirst : g.ioSegment g.isegment ∈ g.segments := by
    apply List.mem_of_mem_drop (i := g.isegment)
    rw [h.drop_segments]
    exact List.mem_cons_self
  rw [h.inputSizes_eq] at hx
  rcases List.mem_cons.mp hx with rfl | hrest
  · exact Nat.le_trans (Nat.sub_le _ _) (h.sizes _ hfirst)
  · exact h.sizes x (List.mem_of_mem_drop hrest)

/-- Every byte of the image is sent once, at its own address, in parts that fit
a frame; there are buffers for all of them. -/
structure Transfers (g : Group) : Prop where
  few : (processDataChunks g).length ≤ 12
  sizes : forall c, c ∈ processDataChunks g -> c.length ≤ maxSegment
  together : g.blockLRW = false ->
    Covers g.logstartaddr .lrw 0 (g.obytes + g.ibytes) (processDataChunks g)
  apart : g.blockLRW = true -> exists ins outs,
    processDataChunks g = ins ++ outs ∧
    Covers g.logstartaddr .lrd g.obytes (g.obytes + g.ibytes) ins ∧
    Covers g.logstartaddr .lwr 0 g.obytes outs

theorem length_segments (g : Group) : g.segments.length = g.nsegments := by
  rw [Group.segments, List.length_map, List.length_range]

def Group.inputChunks (g : Group) : List Chunk :=
  if g.ibytes = 0 then
    []
  else
    segmentLoop .lrd false g.inputSizes g.ibytes (g.logstartaddr + g.obytes)
      g.obytes

def Group.outputChunks (g : Group) : List Chunk :=
  if g.obytes = 0 then
    []
  else
    segmentLoop .lwr true g.segments g.obytes g.logstartaddr 0

def Group.imageChunks (g : Group) : List Chunk :=
  segmentLoop .lrw false g.segments (g.obytes + g.ibytes : Nat) g.logstartaddr 0

theorem processDataChunks_eq (g : Group) :
    processDataChunks g =
      if g.obytes + g.ibytes = 0 then
        []
      else if g.blockLRW then
        g.inputChunks ++ g.outputChunks
      else
        g.imageChunks := by
  have hdata : (if g.obytes = 0 then g.obytes else 0) = 0 := by
    split
    · rename_i h
      exact h
    · rfl
  rw [processDataChunks, hdata]
  rfl

section Parts

variable {g : Group}

theorem Partition.inputChunks_covers (h : Partition g) :
    Covers g.logstartaddr .lrd g.obytes (g.obytes + g.ibytes) g.inputChunks := by
  unfold Group.inputChunks
  split
  · rename_i hzero
    rw [hzero]
    rfl
  · exact covers_segmentLoop (fun x hx => h.inputSizes_le hx)
      (Nat.le_of_eq h.inputSizes_sum.symm) (fun _ => h.inputSizes_sum) _

theorem Partition.outputChunks_covers (h : Partition g) :
    Covers g.logstartaddr .lwr 0 g.obytes g.outputChunks := by
  have hlow : g.obytes ≤ g.segments.sum := by
    rw [h.total]
    exact Nat.le_add_right _ _
  have hcovers : Covers g.logstartaddr .lwr 0 (0 + g.obytes)
      (segmentLoop .lwr true g.segments g.obytes (g.logstartaddr + 0) 0) :=
    covers_segmentLoop h.sizes hlow (fun hcut => by cases hcut) 0
  rw [Nat.zero_add] at hcovers
  unfold Group.outputChunks
  split
  · rename_i hzero
    rw [hzero]
    rfl
  · exact hcovers

theorem Partition.imageChunks_covers (h : Partition g) :
    Covers g.logstartaddr .lrw 0 (g.obytes + g.ibytes) g.imageChunks := by
  have hcovers : Covers g.logstartaddr .lrw 0 (0 + (g.obytes + g.ibytes))
      (segmentLoop .lrw false g.segments (g.obytes + g.ibytes : Nat)
        (g.logstartaddr + 0) 0) :=
    covers_segmentLoop h.sizes (Nat.le_of_eq h.total.symm) (fun _ => h.total) 0
  rw [Nat.zero_add] at hcovers
  exact hcovers

theorem Partition.mem_inputChunks (h : Partition g) {c : Chunk}
    (hc : c ∈ g.inputChunks) : c.length ≤ maxSegment := by
  unfold Group.inputChunks at hc
  split at hc
  · cases hc
  · exact mem_segmentLoop (fun x hx => h.inputSizes_le hx)
      (fun _ => h.inputSizes_sum) hc

theorem Partition.mem_outputChunks (h : Partition g) {c : Chunk}
    (hc : c ∈ g.outputChunks) : c.length ≤ maxSegment := by
  unfold Group.outputChunks at hc
  split at hc
  · cases hc
  · exact mem_segmentLoop h.sizes (fun hcut => by cases hcut) hc

theorem Partition.length_inputChunks (h : Partition g) :
    g.inputChunks.length ≤ 6 := by
  have hcount := h.count
  unfold Group.inputChunks
  split
  · exact Nat.zero_le _
  · refine Nat.le_trans (length_segmentLoop _ _ _ _ _ _) ?_
    have hboundary := h.boundary
    rw [h.inputSizes_eq, List.length_cons, List.length_drop, length_segments]
    omega

theorem Partition.length_outputChunks (h : Partition g) :
    g.outputChunks.length ≤ 6 := by
  unfold Group.outputChunks
  split
  · exact Nat.zero_le _
  · refine Nat.le_trans (length_segmentLoop _ _ _ _ _ _) ?_
    rw [length_segments]
    exact h.count

theorem Partition.length_imageChunks (h : Partition g) :
    g.imageChunks.length ≤ 6 := by
  refine Nat.le_trans (length_segmentLoop _ _ _ _ _ _) ?_
  rw [length_segments]
  exact h.count

end Parts

theorem transfers_of_partition {g : Group} (h : Partition g) : Transfers g := by
  have heq := processDataChunks_eq g
  by_cases hempty : g.obytes + g.ibytes = 0
  · rw [if_pos hempty] at heq
    constructor
    · rw [heq]
      exact Nat.zero_le _
    · intro c hc
      rw [heq] at hc
      cases hc
    · intro _
      rw [heq, hempty]
      rfl
    · intro _
      have hzero : g.obytes = 0 ∧ g.ibytes = 0 := by omega
      refine ⟨[], [], heq, ?_, ?_⟩
      · rw [hzero.left, hzero.right]
        rfl
      · rw [hzero.left]
        rfl
  · rw [if_neg hempty] at heq
    cases hblock : g.blockLRW with
    | true =>
        rw [hblock, if_pos rfl] at heq
        constructor
        · rw [heq, List.length_append]
          exact Nat.add_le_add h.length_inputChunks h.length_outputChunks
        · intro c hc
          rw [heq] at hc
          rcases List.mem_append.mp hc with hin | hout
          · exact h.mem_inputChunks hin
          · exact h.mem_outputChunks hout
        · intro hfalse
          rw [hblock] at hfalse
          cases hfalse
        · intro _
          exact ⟨_, _, heq, h.inputChunks_covers, h.outputChunks_covers⟩
    | false =>
        rw [hblock] at heq
        simp only [Bool.false_eq_true, if_false] at heq
        constructor
        · rw [heq]
          exact Nat.le_trans h.length_imageChunks (by decide)
        · intro c hc
          rw [heq] at hc
          exact mem_segmentLoop h.sizes (fun _ => h.total) hc
        · intro _
          rw [heq]
          exact h.imageChunks_covers
        · intro htrue
          rw [hblock] at htrue
          cases htrue

/-!
## The parts are clear of each other
-/

theorem Covers.mem {start : Nat} {command : EcCmd} {a b : Nat}
    {chunks : List Chunk} (h : Covers start command a b chunks) {c : Chunk}
    (hc : c ∈ chunks) :
    c.command = command ∧ a ≤ c.data ∧ c.data + c.length ≤ b := by
  have hends : forall {a : Nat} {chunks : List Chunk},
      Covers start command a b chunks -> a ≤ b := by
    intro a chunks h
    induction chunks generalizing a with
    | nil => exact Nat.le_of_eq h
    | cons first rest ih =>
        exact Nat.le_trans (Nat.le_add_right a _) (ih h.right.right.right)
  induction chunks generalizing a with
  | nil => cases hc
  | cons first rest ih =>
      rcases h with ⟨hcommand, hdata, _, hrest⟩
      rcases List.mem_cons.mp hc with rfl | htail
      · rw [hdata]
        exact ⟨hcommand, Nat.le_refl a, hends hrest⟩
      · rcases ih hrest htail with ⟨hkind, hlow, hhigh⟩
        exact ⟨hkind, Nat.le_trans (Nat.le_add_right a _) hlow, hhigh⟩

theorem Covers.logAdr {start : Nat} {command : EcCmd} {a b : Nat}
    {chunks : List Chunk} (h : Covers start command a b chunks) {c : Chunk}
    (hc : c ∈ chunks) : c.logAdr = start + c.data := by
  induction chunks generalizing a with
  | nil => cases hc
  | cons first rest ih =>
      rcases h with ⟨_, hdata, hlog, hrest⟩
      rcases List.mem_cons.mp hc with rfl | htail
      · rw [hlog, hdata]
      · exact ih hrest htail

def Chunk.Clear (c c' : Chunk) : Prop :=
  Ranges.Clear c.data c.length c'.data c'.length

theorem Covers.clear {start : Nat} {command : EcCmd} {a b : Nat}
    {chunks : List Chunk} (h : Covers start command a b chunks) :
    chunks.Pairwise Chunk.Clear := by
  induction chunks generalizing a with
  | nil => exact List.Pairwise.nil
  | cons first rest ih =>
      rcases h with ⟨_, hdata, _, hrest⟩
      refine List.Pairwise.cons ?_ (ih hrest)
      intro c hc
      refine Or.inl ?_
      rw [hdata]
      exact (hrest.mem hc).right.left

theorem Transfers.clear {g : Group} (h : Transfers g) :
    (processDataChunks g).Pairwise Chunk.Clear := by
  cases hblock : g.blockLRW with
  | false => exact (h.together hblock).clear
  | true =>
      rcases h.apart hblock with ⟨ins, outs, heq, hins, houts⟩
      rw [heq, List.pairwise_append]
      refine ⟨hins.clear, houts.clear, ?_⟩
      intro c hc c' hc'
      refine Or.inr ?_
      exact Nat.le_trans (houts.mem hc').right.right (hins.mem hc).right.left

theorem Transfers.logAdr {g : Group} (h : Transfers g) {c : Chunk}
    (hc : c ∈ processDataChunks g) : c.logAdr = g.logstartaddr + c.data := by
  cases hblock : g.blockLRW with
  | false => exact (h.together hblock).logAdr hc
  | true =>
      rcases h.apart hblock with ⟨ins, outs, heq, hins, houts⟩
      rw [heq] at hc
      rcases List.mem_append.mp hc with hin | hout
      · exact hins.logAdr hin
      · exact houts.logAdr hout

theorem Transfers.mem {g : Group} (h : Transfers g) {c : Chunk}
    (hc : c ∈ processDataChunks g) :
    (c.command = .lrd ∨ c.command = .lrw ∨ c.command = .lwr) ∧
      c.data + c.length ≤ g.obytes + g.ibytes := by
  cases hblock : g.blockLRW with
  | false =>
      rcases (h.together hblock).mem hc with ⟨hkind, _, hhigh⟩
      exact ⟨Or.inr (Or.inl hkind), hhigh⟩
  | true =>
      rcases h.apart hblock with ⟨ins, outs, heq, hins, houts⟩
      rw [heq] at hc
      rcases List.mem_append.mp hc with hin | hout
      · rcases hins.mem hin with ⟨hkind, _, hhigh⟩
        exact ⟨Or.inl hkind, hhigh⟩
      · rcases houts.mem hout with ⟨hkind, _, hhigh⟩
        exact ⟨Or.inr (Or.inr hkind), Nat.le_trans hhigh (Nat.le_add_right _ _)⟩

/-!
## Every configuration
-/

/-- The table of every configuration that `IOmap` holds. -/
theorem transfers_configMapGroup (align : Bool) (start : Nat)
    (slaves : List SlaveIo) (old : Nat -> Nat)
    (hslaves : forall slave, slave ∈ slaves -> slave.Small)
    (hfits : (configMapGroup align start slaves old).obytes +
      (configMapGroup align start slaves old).ibytes ≤ ioMapSize) :
    Transfers (configMapGroup align start slaves old) :=
  transfers_of_partition
    (partition_configMapGroup align start slaves old hslaves hfits)

/-- Two slaves of 800 bytes each way, the second without LRW, and a slave of
four bits. -/
def threeSlaves : List SlaveIo :=
  [⟨6400, 6400, false⟩, ⟨4, 4, false⟩, ⟨6400, 6400, true⟩]

theorem transfers_threeSlaves :
    Transfers (configMapGroup false 0 threeSlaves fun _ => 0) :=
  transfers_configMapGroup false 0 threeSlaves (fun _ => 0)
    (by
      intro slave hslave
      fin_cases hslave <;> exact ⟨by decide, by decide⟩)
    (by decide)

example :
    (processDataChunks (configMapGroup false 0 threeSlaves fun _ => 0)).map
        Chunk.length =
      [0, 800, 801, 800, 801] := by
  decide

end Soem
end FrankaKistar
