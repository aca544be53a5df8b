import FrankaKistar.Soem.Datagram
import Mathlib.Logic.Function.Basic

/-!
# The segments of the process image

`ecx_main_config_map_group` lays out the outputs of all slaves and then their
inputs, and packs them into segments that fit a frame next to the datagram of
the distributed clock.  A slave with whole bytes is never split: a segment is
closed when the next slave does not fit.  What the FMMU of a slave is set to is
left out; a slave is how far its bits move the logical address and the bit
position.
-/

namespace FrankaKistar
namespace Soem

abbrev ecMaxLrwData : Nat := ecMaxEcatFrame - 14 - 2 - 10 - 2 - 4
abbrev ecFirstDcDatagram : Nat := 20
abbrev ecMaxIoSegments : Nat := 64

abbrev maxSegment : Nat := ecMaxLrwData - ecFirstDcDatagram

/-- The logical address and the bit position that a mapping leaves. -/
abbrev CreateMapping : Type := Nat × Nat -> Nat × Nat

def bitMapping (bits : Nat) : CreateMapping
  | (logAddr, bitPos) =>
      let last := bitPos + bits - 1
      let logAddr := if 7 < last then logAddr + 1 else logAddr
      let last := if 7 < last then last - 8 else last
      if 7 < last + 1 then (logAddr + 1, last + 1 - 8) else (logAddr, last + 1)

def byteMapping (bytes : Nat) : CreateMapping
  | (logAddr, bitPos) =>
      ((if bitPos = 0 then logAddr else logAddr + 1) + bytes, 0)

/-- `ecx_config_create_output_mappings` and its sibling for inputs, for sync
managers that hold all bytes of the slave.  Only a slave with more than seven
bits is byte oriented. -/
def createMapping (bits : Nat) : CreateMapping :=
  if bits ≤ 7 then bitMapping bits else byteMapping ((bits + 7) / 8)

structure SlaveIo where
  obits : Nat
  ibits : Nat
  blockLRW : Bool

def mappings (bits : List Nat) : List CreateMapping :=
  (bits.filter fun n => n != 0).map createMapping

structure MapState where
  logAddr : Nat
  oLogAddr : Nat
  bitPos : Nat
  currentsegment : Nat
  segmentsize : Nat
  ioSegment : Nat -> Nat

/-- Add bytes to the segment, or close it and start the next one. -/
def addToSegment (diff : Nat) (s : MapState) : MapState :=
  if maxSegment < s.segmentsize + diff then
    let s := { s with
      ioSegment := Function.update s.ioSegment s.currentsegment s.segmentsize }
    if s.currentsegment < ecMaxIoSegments - 1 then
      { s with currentsegment := s.currentsegment + 1, segmentsize := diff }
    else
      s
  else
    { s with segmentsize := s.segmentsize + diff }

def mapSlave (forceByteAlignment : Bool) (create : CreateMapping)
    (s : MapState) : MapState :=
  let mapped := create (s.logAddr, s.bitPos)
  let mapped :=
    if forceByteAlignment && mapped.2 != 0 then (mapped.1 + 1, 0) else mapped
  let diff := mapped.1 - s.oLogAddr
  addToSegment diff
    { s with logAddr := mapped.1, bitPos := mapped.2, oLogAddr := mapped.1 }

/-- The byte that the last bits have begun. -/
def finishBits (s : MapState) : MapState :=
  if s.bitPos = 0 then
    s
  else
    addToSegment 1
      { s with logAddr := s.logAddr + 1, oLogAddr := s.logAddr + 1, bitPos := 0 }

def mapDirection (forceByteAlignment : Bool) (creates : List CreateMapping)
    (s : MapState) : MapState :=
  finishBits (creates.foldl (fun s create => mapSlave forceByteAlignment create s) s)

structure Group where
  logstartaddr : Nat
  obytes : Nat
  ibytes : Nat
  blockLRW : Bool
  nsegments : Nat
  isegment : Nat
  ioffset : Nat
  ioSegment : Nat -> Nat

/-- `ecx_main_config_map_group`, with what the table of segments held before. -/
def configMapGroup (forceByteAlignment : Bool) (logstartaddr : Nat)
    (slaves : List SlaveIo) (ioSegment : Nat -> Nat) : Group :=
  let s := mapDirection forceByteAlignment (mappings (slaves.map SlaveIo.obits))
    ⟨logstartaddr, logstartaddr, 0, 0, 0, ioSegment⟩
  let obytes := s.logAddr - logstartaddr
  let isegment := s.currentsegment
  let ioffset := s.segmentsize % 65536
  let s := mapDirection forceByteAlignment (mappings (slaves.map SlaveIo.ibits)) s
  { logstartaddr := logstartaddr
    obytes := obytes
    ibytes := s.logAddr - logstartaddr - obytes
    blockLRW := slaves.any SlaveIo.blockLRW
    nsegments := s.currentsegment + 1
    isegment := isegment
    ioffset := ioffset
    ioSegment := Function.update s.ioSegment s.currentsegment s.segmentsize }

def Group.segments (g : Group) : List Nat :=
  (List.range g.nsegments).map g.ioSegment

/-!
## Packing
-/

def MapState.closed (s : MapState) : List Nat :=
  (List.range s.currentsegment).map s.ioSegment

/-- So many bytes from the start of the image are packed.  Two neighbouring
segments never fit into one, which bounds their number. -/
structure Packed (start : Nat) (s : MapState) : Prop where
  same : s.oLogAddr = s.logAddr
  start_le : start ≤ s.logAddr
  total : s.closed.sum + s.segmentsize = s.logAddr - start
  size : s.segmentsize ≤ maxSegment
  sizes : forall x, x ∈ s.closed -> x ≤ maxSegment
  count : 1467 * s.currentsegment + s.segmentsize ≤
    2 * (s.closed.sum + s.segmentsize)

/-- The state has only grown. -/
structure Later (s s' : MapState) : Prop where
  current : s.currentsegment ≤ s'.currentsegment
  closed : forall k, k < s.currentsegment -> s'.ioSegment k = s.ioSegment k
  here : s'.currentsegment = s.currentsegment -> s.segmentsize ≤ s'.segmentsize
  after : s.currentsegment < s'.currentsegment ->
    s.segmentsize ≤ s'.ioSegment s.currentsegment
  logAddr : s.logAddr ≤ s'.logAddr

theorem Later.refl (s : MapState) : Later s s where
  current := Nat.le_refl _
  closed := fun _ _ => rfl
  here := fun _ => Nat.le_refl _
  after := fun h => absurd h (Nat.lt_irrefl _)
  logAddr := Nat.le_refl _

theorem Later.trans {s t u : MapState} (h : Later s t) (h' : Later t u) :
    Later s u where
  current := Nat.le_trans h.current h'.current
  closed := by
    intro k hk
    rw [h'.closed k (Nat.lt_of_lt_of_le hk h.current), h.closed k hk]
  here := by
    intro hsame
    have hst : t.currentsegment = s.currentsegment := by
      have := h.current
      have := h'.current
      omega
    exact Nat.le_trans (h.here hst) (h'.here (hsame.trans hst.symm))
  after := by
    intro hlt
    rcases Nat.lt_or_ge s.currentsegment t.currentsegment with hst | hst
    · rw [h'.closed _ hst]
      exact h.after hst
    · have hsame : t.currentsegment = s.currentsegment :=
        Nat.le_antisymm hst h.current
      have hle := h'.after (by rw [hsame]; exact hlt)
      rw [hsame] at hle
      exact Nat.le_trans (h.here hsame) hle
  logAddr := Nat.le_trans h.logAddr h'.logAddr

theorem MapState.length_closed (s : MapState) :
    s.closed.length = s.currentsegment := by
  rw [MapState.closed, List.length_map, List.length_range]

theorem Later.take_closed {s s' : MapState} (h : Later s s') :
    s'.closed.take s.currentsegment = s.closed := by
  rw [MapState.closed, MapState.closed, <- List.map_take, List.take_range,
    Nat.min_eq_left h.current]
  apply List.map_congr_left
  intro k hk
  exact h.closed k (List.mem_range.mp hk)

theorem Later.segmentsize_le {s s' : MapState} (h : Later s s') :
    s.segmentsize ≤ Function.update s'.ioSegment s'.currentsegment s'.segmentsize
      s.currentsegment := by
  rcases Nat.lt_or_ge s.currentsegment s'.currentsegment with hlt | hge
  · rw [Function.update_of_ne (Nat.ne_of_lt hlt)]
    exact h.after hlt
  · have heq := Nat.le_antisymm hge h.current
    rw [<- heq, Function.update_self]
    exact h.here heq

@[simp] theorem addToSegment_logAddr (diff : Nat) (s : MapState) :
    (addToSegment diff s).logAddr = s.logAddr := by
  unfold addToSegment
  split
  · dsimp only
    split <;> rfl
  · rfl

@[simp] theorem addToSegment_oLogAddr (diff : Nat) (s : MapState) :
    (addToSegment diff s).oLogAddr = s.oLogAddr := by
  unfold addToSegment
  split
  · dsimp only
    split <;> rfl
  · rfl

/-- At most 4096 bytes, which is the size of `IOmap`. -/
abbrev ioMapSize : Nat := 4096

theorem Packed.currentsegment_le {start : Nat} {s : MapState}
    (h : Packed start s) (hroom : s.logAddr - start ≤ ioMapSize) :
    s.currentsegment ≤ 5 := by
  have hcount := h.count
  rw [h.total] at hcount
  have hsmall : s.logAddr - start ≤ 4096 := hroom
  omega

theorem map_update_range (f : Nat -> Nat) (k x : Nat) :
    (List.range (k + 1)).map (Function.update f k x) =
      (List.range k).map f ++ [x] := by
  rw [List.range_succ, List.map_append, List.map_singleton,
    Function.update_self]
  congr 1
  apply List.map_congr_left
  intro i hi
  exact Function.update_of_ne (Nat.ne_of_lt (List.mem_range.mp hi)) _ _

section Slave

variable {start diff : Nat} {s : MapState}

theorem packed_nextSegment (h : Packed start s) (hdiff : diff ≤ maxSegment)
    (hfull : maxSegment < s.segmentsize + diff) (bitPos : Nat) :
    Packed start
      { s with
        logAddr := s.logAddr + diff
        oLogAddr := s.logAddr + diff
        bitPos := bitPos
        ioSegment := Function.update s.ioSegment s.currentsegment s.segmentsize
        currentsegment := s.currentsegment + 1
        segmentsize := diff } := by
  have hclosed := map_update_range s.ioSegment s.currentsegment s.segmentsize
  have hsum : ((List.range (s.currentsegment + 1)).map (Function.update
      s.ioSegment s.currentsegment s.segmentsize)).sum =
      s.closed.sum + s.segmentsize := by
    rw [hclosed, List.sum_append, List.sum_singleton]
    rfl
  have htotal := h.total
  have hstart := h.start_le
  constructor
  · rfl
  · exact Nat.le_add_right_of_le hstart
  · show _ + diff = s.logAddr + diff - start
    rw [MapState.closed, hsum, htotal]
    omega
  · exact hdiff
  · intro x hx
    rw [MapState.closed, hclosed] at hx
    rcases List.mem_append.mp hx with hold | hlast
    · exact h.sizes x hold
    · rw [List.mem_singleton.mp hlast]
      exact h.size
  · -- The two segments hold more than one does.
    show 1467 * (s.currentsegment + 1) + diff ≤ 2 * (_ + diff)
    rw [MapState.closed, hsum]
    have hcount := h.count
    have hmax : maxSegment = 1466 := rfl
    omega

theorem later_nextSegment (s : MapState) (diff bitPos : Nat) :
    Later s
      { s with
        logAddr := s.logAddr + diff
        oLogAddr := s.logAddr + diff
        bitPos := bitPos
        ioSegment := Function.update s.ioSegment s.currentsegment s.segmentsize
        currentsegment := s.currentsegment + 1
        segmentsize := diff } := by
  constructor
  · exact Nat.le_succ _
  · intro k hk
    exact Function.update_of_ne (Nat.ne_of_lt hk) _ _
  · intro hsame
    exact absurd hsame (Nat.succ_ne_self _)
  · intro _
    dsimp only
    rw [Function.update_self]
  · exact Nat.le_add_right _ _

theorem packed_sameSegment (h : Packed start s)
    (hfull : ¬maxSegment < s.segmentsize + diff) (bitPos : Nat) :
    Packed start
      { s with
        logAddr := s.logAddr + diff
        oLogAddr := s.logAddr + diff
        bitPos := bitPos
        segmentsize := s.segmentsize + diff } := by
  have htotal := h.total
  have hstart := h.start_le
  constructor
  · rfl
  · exact Nat.le_add_right_of_le hstart
  · show s.closed.sum + (s.segmentsize + diff) = s.logAddr + diff - start
    omega
  · exact Nat.not_lt.mp hfull
  · exact h.sizes
  · show 1467 * s.currentsegment + (s.segmentsize + diff) ≤
      2 * (s.closed.sum + (s.segmentsize + diff))
    have hcount := h.count
    omega

theorem later_sameSegment (s : MapState) (diff bitPos : Nat) :
    Later s
      { s with
        logAddr := s.logAddr + diff
        oLogAddr := s.logAddr + diff
        bitPos := bitPos
        segmentsize := s.segmentsize + diff } := by
  constructor
  · exact Nat.le_refl _
  · exact fun _ _ => rfl
  · exact fun _ => Nat.le_add_right _ _
  · exact fun hlt => absurd hlt (Nat.lt_irrefl _)
  · exact Nat.le_add_right _ _

theorem packed_addToSegment (h : Packed start s)
    (hroom : s.logAddr - start ≤ ioMapSize) (hdiff : diff ≤ maxSegment)
    (bitPos : Nat) {s' : MapState}
    (hs' : s' = addToSegment diff { s with
      logAddr := s.logAddr + diff
      oLogAddr := s.logAddr + diff
      bitPos := bitPos }) :
    Packed start s' ∧ Later s s' := by
  have htable : s.currentsegment < ecMaxIoSegments - 1 :=
    Nat.lt_of_le_of_lt (h.currentsegment_le hroom) (by decide)
  rw [hs', addToSegment]
  by_cases hfull : maxSegment < s.segmentsize + diff
  · rw [if_pos hfull, if_pos htable]
    exact ⟨packed_nextSegment h hdiff hfull bitPos,
      later_nextSegment s diff bitPos⟩
  · rw [if_neg hfull]
    exact ⟨packed_sameSegment h hfull bitPos, later_sameSegment s diff bitPos⟩

end Slave

/-!
## Both directions
-/

/-- A mapping that moves forward by less than a segment. -/
def Advances (create : CreateMapping) : Prop :=
  forall a b, a ≤ (create (a, b)).1 ∧ (create (a, b)).1 < a + maxSegment

/-- Neither direction of the slave fills a segment. -/
def SlaveIo.Small (slave : SlaveIo) : Prop :=
  slave.obits ≤ 8 * (maxSegment - 2) ∧ slave.ibits ≤ 8 * (maxSegment - 2)

theorem advances_createMapping {bits : Nat} (h : bits ≤ 8 * (maxSegment - 2)) :
    Advances (createMapping bits) := by
  have hmax : maxSegment = 1466 := rfl
  intro a b
  unfold createMapping
  split
  · unfold bitMapping
    dsimp only
    split <;> split <;> dsimp only <;> omega
  · unfold byteMapping
    dsimp only
    split <;> omega

theorem advances_mappings {bits : List Nat}
    (h : forall n, n ∈ bits -> n ≤ 8 * (maxSegment - 2))
    (create : CreateMapping) (hmem : create ∈ mappings bits) :
    Advances create := by
  rcases List.mem_map.mp hmem with ⟨n, hn, rfl⟩
  exact advances_createMapping (h n (List.mem_filter.mp hn).left)

theorem mapSlave_eq (align : Bool) {create : CreateMapping}
    (hcreate : Advances create) {s : MapState} (hsame : s.oLogAddr = s.logAddr) :
    exists diff bitPos, diff ≤ maxSegment ∧
      mapSlave align create s = addToSegment diff { s with
        logAddr := s.logAddr + diff
        oLogAddr := s.logAddr + diff
        bitPos := bitPos } := by
  have hmoves := hcreate s.logAddr s.bitPos
  generalize hmapped : (if align && (create (s.logAddr, s.bitPos)).2 != 0 then
      ((create (s.logAddr, s.bitPos)).1 + 1, 0)
    else create (s.logAddr, s.bitPos)) = mapped
  have hbounds : s.logAddr ≤ mapped.1 ∧ mapped.1 ≤ s.logAddr + maxSegment := by
    rw [<- hmapped]
    split
    · exact ⟨Nat.le_succ_of_le hmoves.left, hmoves.right⟩
    · exact ⟨hmoves.left, Nat.le_of_lt hmoves.right⟩
  have hlog : s.logAddr + (mapped.1 - s.logAddr) = mapped.1 :=
    Nat.add_sub_of_le hbounds.left
  refine ⟨mapped.1 - s.logAddr, mapped.2, ?_, ?_⟩
  · omega
  · rw [hlog]
    unfold mapSlave
    simp only [hmapped, hsame]

theorem finishBits_logAddr (s : MapState) :
    s.logAddr ≤ (finishBits s).logAddr := by
  unfold finishBits
  split
  · exact Nat.le_refl _
  · rw [addToSegment_logAddr]
    exact Nat.le_succ _

theorem mapSlave_logAddr (align : Bool) {create : CreateMapping}
    (hcreate : Advances create) (s : MapState) :
    s.logAddr ≤ (mapSlave align create s).logAddr := by
  have hmoves := (hcreate s.logAddr s.bitPos).left
  unfold mapSlave
  rw [addToSegment_logAddr]
  dsimp only
  split
  · exact Nat.le_succ_of_le hmoves
  · exact hmoves

theorem foldl_mapSlave_logAddr (align : Bool) {creates : List CreateMapping}
    (hcreates : forall create, create ∈ creates -> Advances create)
    (s : MapState) :
    s.logAddr ≤
      (creates.foldl (fun s create => mapSlave align create s) s).logAddr := by
  induction creates generalizing s with
  | nil => exact Nat.le_refl _
  | cons create rest ih =>
      exact Nat.le_trans
        (mapSlave_logAddr align (hcreates create List.mem_cons_self) s)
        (ih (fun c hc => hcreates c (List.mem_cons_of_mem create hc)) _)

theorem mapDirection_logAddr (align : Bool) {creates : List CreateMapping}
    (hcreates : forall create, create ∈ creates -> Advances create)
    (s : MapState) : s.logAddr ≤ (mapDirection align creates s).logAddr :=
  Nat.le_trans (foldl_mapSlave_logAddr align hcreates s) (finishBits_logAddr _)

theorem packed_foldl {start : Nat} {align : Bool} {creates : List CreateMapping}
    (hcreates : forall create, create ∈ creates -> Advances create)
    {s : MapState} (h : Packed start s)
    (hroom : (creates.foldl (fun s create => mapSlave align create s) s).logAddr
      - start ≤ ioMapSize) :
    Packed start (creates.foldl (fun s create => mapSlave align create s) s) ∧
      Later s (creates.foldl (fun s create => mapSlave align create s) s) := by
  induction creates generalizing s with
  | nil => exact ⟨h, Later.refl s⟩
  | cons create rest ih =>
      have hcreate := hcreates create List.mem_cons_self
      have hrest := fun c hc => hcreates c (List.mem_cons_of_mem create hc)
      have hgrows := foldl_mapSlave_logAddr align hcreates s
      rcases mapSlave_eq align hcreate h.same with
        ⟨diff, bitPos, hdiff, heq⟩
      rcases packed_addToSegment h (by omega) hdiff bitPos heq with
        ⟨hpacked, hlater⟩
      rcases ih hrest hpacked hroom with ⟨hall, hlast⟩
      exact ⟨hall, hlater.trans hlast⟩

theorem packed_mapDirection {start : Nat} {align : Bool}
    {creates : List CreateMapping}
    (hcreates : forall create, create ∈ creates -> Advances create)
    {s : MapState} (h : Packed start s)
    (hroom : (mapDirection align creates s).logAddr - start ≤ ioMapSize) :
    Packed start (mapDirection align creates s) ∧
      Later s (mapDirection align creates s) := by
  have hbits := finishBits_logAddr
    (creates.foldl (fun s create => mapSlave align create s) s)
  unfold mapDirection at hroom ⊢
  rcases packed_foldl hcreates h
    (Nat.le_trans (Nat.sub_le_sub_right hbits start) hroom) with
    ⟨hpacked, hlater⟩
  unfold finishBits at hroom ⊢
  split
  · exact ⟨hpacked, hlater⟩
  · rename_i hbits
    rw [if_neg hbits, addToSegment_logAddr] at hroom
    have hsame := hpacked.same
    have hone : 1 ≤ maxSegment := by decide
    rcases packed_addToSegment hpacked (by
        dsimp only at hroom
        omega) hone 0 rfl with ⟨hlast, hlater'⟩
    exact ⟨hlast, hlater.trans hlater'⟩

/-!
## The table
-/

/-- The segments cut the image into parts that fit a frame, and the inputs
begin so many bytes into one of them. -/
structure Partition (g : Group) : Prop where
  count : g.nsegments ≤ 6
  boundary : g.isegment < g.nsegments
  sizes : forall x, x ∈ g.segments -> x ≤ maxSegment
  total : g.segments.sum = g.obytes + g.ibytes
  outputs : (g.segments.take g.isegment).sum + g.ioffset = g.obytes
  ioffset_le : g.ioffset ≤ g.ioSegment g.isegment

theorem configMapGroup_eq (align : Bool) (start : Nat) (slaves : List SlaveIo)
    (old : Nat -> Nat) {s s' : MapState}
    (hs : mapDirection align (mappings (slaves.map SlaveIo.obits))
      ⟨start, start, 0, 0, 0, old⟩ = s)
    (hs' : mapDirection align (mappings (slaves.map SlaveIo.ibits)) s = s') :
    configMapGroup align start slaves old =
      { logstartaddr := start
        obytes := s.logAddr - start
        ibytes := s'.logAddr - start - (s.logAddr - start)
        blockLRW := slaves.any SlaveIo.blockLRW
        nsegments := s'.currentsegment + 1
        isegment := s.currentsegment
        ioffset := s.segmentsize % 65536
        ioSegment := Function.update s'.ioSegment s'.currentsegment
          s'.segmentsize } := by
  subst hs' hs
  rfl

theorem segments_configMapGroup (align : Bool) (start : Nat)
    (slaves : List SlaveIo) (old : Nat -> Nat) {s s' : MapState}
    (hs : mapDirection align (mappings (slaves.map SlaveIo.obits))
      ⟨start, start, 0, 0, 0, old⟩ = s)
    (hs' : mapDirection align (mappings (slaves.map SlaveIo.ibits)) s = s') :
    (configMapGroup align start slaves old).segments =
      s'.closed ++ [s'.segmentsize] := by
  rw [configMapGroup_eq align start slaves old hs hs']
  exact map_update_range _ _ _

theorem obits_le {slaves : List SlaveIo}
    (hslaves : forall slave, slave ∈ slaves -> slave.Small) :
    forall bits, bits ∈ slaves.map SlaveIo.obits ->
      bits ≤ 8 * (maxSegment - 2) := by
  intro bits hbits
  rcases List.mem_map.mp hbits with ⟨slave, hslave, rfl⟩
  exact (hslaves slave hslave).left

theorem ibits_le {slaves : List SlaveIo}
    (hslaves : forall slave, slave ∈ slaves -> slave.Small) :
    forall bits, bits ∈ slaves.map SlaveIo.ibits ->
      bits ≤ 8 * (maxSegment - 2) := by
  intro bits hbits
  rcases List.mem_map.mp hbits with ⟨slave, hslave, rfl⟩
  exact (hslaves slave hslave).right

theorem packed_start (start : Nat) (old : Nat -> Nat) :
    Packed start ⟨start, start, 0, 0, 0, old⟩ := by
  constructor
  · rfl
  · exact Nat.le_refl start
  · exact (Nat.sub_self start).symm
  · exact Nat.zero_le _
  · intro x hx
    cases hx
  · exact Nat.le_refl _

structure Mapped (start : Nat) (s s' : MapState) : Prop where
  outputs : Packed start s
  inputs : Packed start s'
  later : Later s s'
  room : s'.logAddr - start ≤ ioMapSize

theorem Mapped.room_outputs {start : Nat} {s s' : MapState}
    (h : Mapped start s s') : s.logAddr - start ≤ ioMapSize :=
  Nat.le_trans (Nat.sub_le_sub_right h.later.logAddr start) h.room

theorem mapped_configMapGroup {align : Bool} {start : Nat}
    {slaves : List SlaveIo} {old : Nat -> Nat} {s s' : MapState}
    (hslaves : forall slave, slave ∈ slaves -> slave.Small)
    (hs : mapDirection align (mappings (slaves.map SlaveIo.obits))
      ⟨start, start, 0, 0, 0, old⟩ = s)
    (hs' : mapDirection align (mappings (slaves.map SlaveIo.ibits)) s = s')
    (hfits : (configMapGroup align start slaves old).obytes +
      (configMapGroup align start slaves old).ibytes ≤ ioMapSize) :
    Mapped start s s' := by
  have hout := advances_mappings (obits_le hslaves)
  have hin := advances_mappings (ibits_le hslaves)
  have hgrows := mapDirection_logAddr align hout ⟨start, start, 0, 0, 0, old⟩
  have hgrows' := mapDirection_logAddr align hin s
  rw [configMapGroup_eq align start slaves old hs hs'] at hfits
  rw [hs] at hgrows
  rw [hs'] at hgrows'
  dsimp only at hfits hgrows
  have hroom : s.logAddr - start ≤ ioMapSize := by omega
  have hroom' : s'.logAddr - start ≤ ioMapSize := by omega
  have hpacked := packed_mapDirection hout (packed_start start old)
    (by rw [hs]; exact hroom)
  rw [hs] at hpacked
  have hpacked' := packed_mapDirection hin hpacked.left
    (by rw [hs']; exact hroom')
  rw [hs'] at hpacked'
  exact ⟨hpacked.left, hpacked'.left, hpacked'.right, hroom'⟩

theorem partition_configMapGroup (align : Bool) (start : Nat)
    (slaves : List SlaveIo) (old : Nat -> Nat)
    (hslaves : forall slave, slave ∈ slaves -> slave.Small)
    (hfits : (configMapGroup align start slaves old).obytes +
      (configMapGroup align start slaves old).ibytes ≤ ioMapSize) :
    Partition (configMapGroup align start slaves old) := by
  generalize hs : mapDirection align (mappings (slaves.map SlaveIo.obits))
    ⟨start, start, 0, 0, 0, old⟩ = s
  generalize hs' : mapDirection align (mappings (slaves.map SlaveIo.ibits)) s = s'
  have hmapped := mapped_configMapGroup hslaves hs hs' hfits
  have hsegments := segments_configMapGroup align start slaves old hs hs'
  rw [configMapGroup_eq align start slaves old hs hs'] at hsegments ⊢
  have hsmall : s.segmentsize % 65536 = s.segmentsize :=
    Nat.mod_eq_of_lt (Nat.lt_of_le_of_lt hmapped.outputs.size (by decide))
  constructor
  · exact Nat.succ_le_succ (hmapped.inputs.currentsegment_le hmapped.room)
  · exact Nat.lt_succ_of_le hmapped.later.current
  · intro x hx
    rw [hsegments] at hx
    rcases List.mem_append.mp hx with hclosed | hlast
    · exact hmapped.inputs.sizes x hclosed
    · rw [List.mem_singleton.mp hlast]
      exact hmapped.inputs.size
  · rw [hsegments, List.sum_append, List.sum_singleton, hmapped.inputs.total]
    have hstart := hmapped.outputs.start_le
    have hgrows := hmapped.later.logAddr
    dsimp only
    omega
  · have hlength : s.currentsegment ≤ s'.closed.length := by
      rw [s'.length_closed]
      exact hmapped.later.current
    rw [hsegments]
    show ((s'.closed ++ [s'.segmentsize]).take s.currentsegment).sum +
      s.segmentsize % 65536 = s.logAddr - start
    rw [List.take_append_of_le_length hlength, hmapped.later.take_closed, hsmall,
      hmapped.outputs.total]
  · dsimp only
    rw [hsmall]
    exact hmapped.later.segmentsize_le

end Soem
end FrankaKistar
