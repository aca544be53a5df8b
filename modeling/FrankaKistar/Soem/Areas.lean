import FrankaKistar.Soem.Transfer

/-!
# The areas of the slaves

A slave with more than seven bits is given whole bytes of the image.  They lie
in one segment, so that the outputs of the slave go out in one frame and its
inputs come back in one.
-/

namespace FrankaKistar
namespace Soem

/-- The bytes of a slave, from the logical address of its first FMMU. -/
structure Area where
  logStart : Nat
  bytes : Nat

def byteArea (bits : Nat) (s : MapState) : Area :=
  ⟨if s.bitPos = 0 then s.logAddr else s.logAddr + 1, (bits + 7) / 8⟩

/-- The areas in one direction; slaves with fewer bits may share a byte. -/
def byteAreas (align : Bool) : List Nat -> MapState -> List (Option Area)
  | [], _ => []
  | bits :: rest, s =>
      if bits = 0 then
        none :: byteAreas align rest s
      else
        (if bits ≤ 7 then none else some (byteArea bits s)) ::
          byteAreas align rest (mapSlave align (createMapping bits) s)

def startState (start : Nat) (old : Nat -> Nat) : MapState :=
  ⟨start, start, 0, 0, 0, old⟩

/-- The areas of the outputs, which `ecx_config_create_output_mappings` points
`outputs` to. -/
def outputAreas (align : Bool) (start : Nat) (slaves : List SlaveIo)
    (old : Nat -> Nat) : List (Option Area) :=
  byteAreas align (slaves.map SlaveIo.obits) (startState start old)

/-- The areas of the inputs, which `ecx_config_create_input_mappings` points
`inputs` to. -/
def inputAreas (align : Bool) (start : Nat) (slaves : List SlaveIo)
    (old : Nat -> Nat) : List (Option Area) :=
  byteAreas align (slaves.map SlaveIo.ibits)
    (mapDirection align (mappings (slaves.map SlaveIo.obits))
      (startState start old))

/-!
## Areas and segments
-/

structure Placed (start : Nat) (area : Area) (s : MapState) : Prop where
  nonempty : 0 < area.bytes
  first : start + s.closed.sum ≤ area.logStart
  last : area.logStart + area.bytes ≤ start + s.closed.sum + s.segmentsize

theorem mapSlave_byte (align : Bool) {bits : Nat} (hbits : 7 < bits)
    (s : MapState) :
    mapSlave align (createMapping bits) s =
      addToSegment ((byteArea bits s).logStart + (byteArea bits s).bytes -
          s.oLogAddr)
        { s with
          logAddr := (byteArea bits s).logStart + (byteArea bits s).bytes
          bitPos := 0
          oLogAddr := (byteArea bits s).logStart + (byteArea bits s).bytes } := by
  have hcreate : createMapping bits (s.logAddr, s.bitPos) =
      ((byteArea bits s).logStart + (byteArea bits s).bytes, 0) := by
    unfold createMapping
    rw [if_neg (Nat.not_le.mpr hbits)]
    rfl
  unfold mapSlave
  rw [hcreate]
  cases align <;> rfl

theorem le_segmentsize_addToSegment (diff : Nat) {s : MapState}
    (h : s.currentsegment < ecMaxIoSegments - 1) :
    diff ≤ (addToSegment diff s).segmentsize := by
  unfold addToSegment
  split
  · rw [if_pos h]
  · exact Nat.le_add_left _ _

theorem placed_mapSlave (align : Bool) {start bits : Nat} (hbits : 7 < bits)
    {s : MapState} (h : Packed start s)
    (hroom : s.logAddr - start ≤ ioMapSize)
    (h' : Packed start (mapSlave align (createMapping bits) s)) :
    Placed start (byteArea bits s) (mapSlave align (createMapping bits) s) := by
  have hcurrent : s.currentsegment < ecMaxIoSegments - 1 :=
    Nat.lt_of_le_of_lt (h.currentsegment_le hroom) (by decide)
  have hbytes : 0 < (byteArea bits s).bytes := by
    unfold byteArea
    dsimp only
    omega
  have hstart : s.logAddr ≤ (byteArea bits s).logStart := by
    unfold byteArea
    dsimp only
    split <;> omega
  have hdiff : (byteArea bits s).logStart + (byteArea bits s).bytes -
      s.oLogAddr ≤ (mapSlave align (createMapping bits) s).segmentsize := by
    rw [mapSlave_byte align hbits]
    exact le_segmentsize_addToSegment _ hcurrent
  have hlog : (mapSlave align (createMapping bits) s).logAddr =
      (byteArea bits s).logStart + (byteArea bits s).bytes := by
    rw [mapSlave_byte align hbits, addToSegment_logAddr]
  have htotal := h'.total
  have hle := h'.start_le
  have hsame := h.same
  rw [hlog] at htotal hle
  refine ⟨hbytes, ?_, ?_⟩
  · omega
  · omega

theorem mappings_cons (bits : Nat) (rest : List Nat) :
    mappings (bits :: rest) =
      if bits = 0 then mappings rest else createMapping bits :: mappings rest := by
  unfold mappings
  rw [List.filter_cons]
  split
  · rename_i h
    rw [if_neg (bne_iff_ne.mp h)]
    rfl
  · rename_i h
    rw [if_pos (by
      by_contra hne
      exact h (bne_iff_ne.mpr hne))]

theorem mapDirection_cons (align : Bool) (bits : Nat) (rest : List Nat)
    (s : MapState) :
    mapDirection align (mappings (bits :: rest)) s =
      mapDirection align (mappings rest)
        (if bits = 0 then s else mapSlave align (createMapping bits) s) := by
  rw [mappings_cons]
  split
  · rfl
  · rfl

theorem placed_of_mem {align : Bool} {start : Nat} {bits : List Nat}
    (hbits : forall n, n ∈ bits -> n ≤ 8 * (maxSegment - 2)) {s : MapState}
    (h : Packed start s)
    (hroom : (mapDirection align (mappings bits) s).logAddr - start ≤ ioMapSize)
    {area : Area} (harea : some area ∈ byteAreas align bits s) :
    exists s', Packed start s' ∧ Placed start area s' ∧
      Later s' (mapDirection align (mappings bits) s) ∧
      s.logAddr ≤ area.logStart := by
  induction bits generalizing s with
  | nil => cases harea
  | cons n rest ih =>
      have hrest := fun m hm => hbits m (List.mem_cons_of_mem n hm)
      have hcreates := advances_mappings hrest
      rw [mapDirection_cons] at hroom ⊢
      rw [byteAreas] at harea
      by_cases hzero : n = 0
      · rw [if_pos hzero] at harea hroom ⊢
        rcases List.mem_cons.mp harea with hnone | htail
        · cases hnone
        · exact ih hrest h hroom htail
      · rw [if_neg hzero] at harea hroom ⊢
        have hcreate := advances_createMapping (hbits n List.mem_cons_self)
        have hgrows := mapSlave_logAddr align hcreate s
        have hgrows' := mapDirection_logAddr align hcreates
          (mapSlave align (createMapping n) s)
        rcases mapSlave_eq align hcreate h.same with
          ⟨diff, bitPos, hdiff, heq⟩
        rcases packed_addToSegment h (by omega) hdiff bitPos heq with
          ⟨hpacked, hlater⟩
        rcases List.mem_cons.mp harea with hhere | htail
        · have hbyte : 7 < n := by
            by_contra hsmall
            rw [if_pos (Nat.not_lt.mp hsmall)] at hhere
            cases hhere
          rw [if_neg (Nat.not_le.mpr hbyte)] at hhere
          cases hhere
          refine ⟨_, hpacked, ?_, ?_, ?_⟩
          · exact placed_mapSlave align hbyte h (by omega) hpacked
          · exact (packed_mapDirection hcreates hpacked hroom).right
          · unfold byteArea
            dsimp only
            split <;> omega
        · rcases ih hrest hpacked hroom htail with
            ⟨s', hpacked', hplaced, hlater', hstart⟩
          exact ⟨s', hpacked', hplaced, hlater', Nat.le_trans hgrows hstart⟩

/-!
## Areas and parts
-/

structure InSegment (g : Group) (x n : Nat) : Prop where
  nonempty : 0 < n
  segment : exists before size after, g.segments = before ++ size :: after ∧
    before.sum ≤ x ∧ x + n ≤ before.sum + size

theorem inSegment_of_placed {start : Nat} {area : Area} {s t : MapState}
    (h : Placed start area s) (hlater : Later s t) {g : Group}
    (hsegments : g.segments = t.closed ++ [t.segmentsize]) :
    InSegment g (area.logStart - start) area.bytes := by
  have hfirst := h.first
  have hlast := h.last
  refine ⟨h.nonempty, ?_⟩
  have htake := hlater.take_closed
  rcases Nat.lt_or_ge s.currentsegment t.currentsegment with hlt | hge
  · have hlength : s.currentsegment < t.closed.length := by
      rw [t.length_closed]
      exact hlt
    have hsize : t.closed[s.currentsegment] = t.ioSegment s.currentsegment := by
      simp only [MapState.closed, List.getElem_map, List.getElem_range]
    have hgrown := hlater.after hlt
    refine ⟨s.closed, t.ioSegment s.currentsegment,
      t.closed.drop (s.currentsegment + 1) ++ [t.segmentsize], ?_, ?_, ?_⟩
    · rw [hsegments, <- List.cons_append, <- List.append_assoc, <- htake, <- hsize,
        List.getElem_cons_drop, List.take_append_drop]
    · omega
    · omega
  · have heq := Nat.le_antisymm hge hlater.current
    have hgrown := hlater.here heq
    have hclosed : t.closed = s.closed := by
      rw [<- htake, List.take_of_length_le]
      rw [t.length_closed]
      exact hge
    refine ⟨s.closed, t.segmentsize, [], ?_, ?_, ?_⟩
    · rw [hsegments, hclosed]
    · omega
    · omega

/-- A part that contains so many bytes of the image. -/
def Chunk.Has (c : Chunk) (x n : Nat) : Prop :=
  c.data ≤ x ∧ x + n ≤ c.data + c.length

theorem segmentLoop_has {command : EcCmd} {cut : Bool} {before after : List Nat}
    {size : Nat}
    (hsizes : forall y, y ∈ before ++ size :: after -> y ≤ maxSegment)
    {length : Nat}
    (hhigh : cut = false -> (before ++ size :: after).sum = length)
    {logAdr a x n : Nat} (hn : 0 < n) (hlow : a + before.sum ≤ x)
    (hsize : x + n ≤ a + before.sum + size) (hlength : x + n ≤ a + length) :
    exists c, c ∈ segmentLoop command cut (before ++ size :: after) length logAdr
      a ∧ c.command = command ∧ c.Has x n := by
  induction before generalizing length logAdr a with
  | nil =>
      rw [List.nil_append] at hsizes hhigh ⊢
      rw [List.sum_nil] at hlow hsize
      rw [List.sum_cons] at hhigh
      have hcut : cut = false -> size ≤ length := by
        intro h
        have := hhigh h
        omega
      rw [segmentLoop_cons command (hsizes size List.mem_cons_self) after hcut]
      refine ⟨_, List.mem_cons_self, rfl, ?_, ?_⟩
      · exact hlow
      · show x + n ≤ a + min size length
        omega
  | cons first before ih =>
      rw [List.cons_append] at hsizes hhigh ⊢
      rw [List.sum_cons] at hlow hsize hhigh
      have hcut : cut = false -> first ≤ length := by
        intro h
        have := hhigh h
        omega
      rw [segmentLoop_cons command (hsizes first List.mem_cons_self) _ hcut]
      have hmore : ¬length ≤ first := by omega
      rw [if_neg hmore]
      have hrest : cut = false ->
          (before ++ size :: after).sum = length - first := by
        intro h
        have := hhigh h
        omega
      have htail : exists c, c ∈ segmentLoop command cut
          (before ++ size :: after) (length - first : Nat) (logAdr + first)
          (a + first) ∧ c.command = command ∧ c.Has x n :=
        ih (fun y hy => hsizes y (List.mem_cons_of_mem first hy)) hrest
          (by omega) (by omega) (by omega)
      rcases htail with ⟨c, hc, hcommand, hhas⟩
      exact ⟨c, List.mem_cons_of_mem _ hc, hcommand, hhas⟩

section Parts

variable {g : Group} {x n : Nat}

theorem mem_processDataChunks_together {c : Chunk} (hblock : g.blockLRW = false)
    (hsize : 0 < g.obytes + g.ibytes) (hc : c ∈ g.imageChunks) :
    c ∈ processDataChunks g := by
  rw [processDataChunks_eq, if_neg (Nat.ne_of_gt hsize), hblock]
  exact hc

theorem mem_processDataChunks_apart {c : Chunk} (hblock : g.blockLRW = true)
    (hsize : 0 < g.obytes + g.ibytes)
    (hc : c ∈ g.inputChunks ++ g.outputChunks) : c ∈ processDataChunks g := by
  rw [processDataChunks_eq, if_neg (Nat.ne_of_gt hsize), hblock]
  exact hc

theorem Partition.image_has (h : Partition g) (hin : InSegment g x n)
    (hend : x + n ≤ g.obytes + g.ibytes) :
    exists c, c ∈ g.imageChunks ∧ c.command = .lrw ∧ c.Has x n := by
  rcases hin.segment with ⟨before, size, after, hsegments, hlow, hhigh⟩
  have hsizes := h.sizes
  have htotal := h.total
  unfold Group.imageChunks
  rw [hsegments] at hsizes htotal ⊢
  exact segmentLoop_has hsizes (fun _ => htotal) hin.nonempty
    (by omega) (by omega) (by omega)

theorem Partition.output_has (h : Partition g) (hin : InSegment g x n)
    (hend : x + n ≤ g.obytes) :
    exists c, c ∈ processDataChunks g ∧ c.command ≠ .lrd ∧ c.Has x n := by
  have hn := hin.nonempty
  cases hblock : g.blockLRW with
  | false =>
      rcases h.image_has hin (by omega) with ⟨c, hc, hcommand, hhas⟩
      refine ⟨c, mem_processDataChunks_together hblock (by omega) hc, ?_, hhas⟩
      rw [hcommand]
      decide
  | true =>
      rcases hin.segment with ⟨before, size, after, hsegments, hlow, hhigh⟩
      have hsizes := h.sizes
      have houtput : g.outputChunks =
          segmentLoop .lwr true g.segments g.obytes g.logstartaddr 0 :=
        if_neg (by omega)
      rw [hsegments] at hsizes houtput
      have hloop : exists c, c ∈ segmentLoop .lwr true
          (before ++ size :: after) g.obytes g.logstartaddr 0 ∧
          c.command = .lwr ∧ c.Has x n :=
        segmentLoop_has hsizes (fun hcut => by cases hcut) hn (by omega)
          (by omega) (by omega)
      rcases hloop with ⟨c, hc, hcommand, hhas⟩
      rw [<- houtput] at hc
      refine ⟨c, mem_processDataChunks_apart hblock (by omega)
        (List.mem_append_right _ hc), ?_, hhas⟩
      rw [hcommand]
      decide

theorem Partition.inputSizes_split (h : Partition g) (hin : InSegment g x n)
    (hstart : g.obytes ≤ x) :
    exists before size after, g.inputSizes = before ++ size :: after ∧
      g.obytes + before.sum ≤ x ∧ x + n ≤ g.obytes + before.sum + size := by
  have hn := hin.nonempty
  have houtputs := h.outputs
  have hoffset := h.ioffset_le
  rcases hin.segment with ⟨before, size, after, hsegments, hlow, hhigh⟩
  have hparts : g.segments.take g.isegment ++ (g.ioSegment g.isegment ::
      g.segments.drop (g.isegment + 1)) = before ++ size :: after := by
    rw [<- h.drop_segments, List.take_append_drop, hsegments]
  have hbeyond : forall rest, g.ioSegment g.isegment = size ->
      g.segments.drop (g.isegment + 1) = rest ->
      g.segments.take g.isegment = before ->
      exists before size after, g.inputSizes = before ++ size :: after ∧
        g.obytes + before.sum ≤ x ∧ x + n ≤ g.obytes + before.sum + size := by
    intro rest hfirst hrest htake
    refine ⟨[], size - g.ioffset, rest, ?_, ?_, ?_⟩
    · rw [h.inputSizes_eq, hfirst, hrest]
      rfl
    · exact hstart
    · rw [htake] at houtputs
      rw [hfirst] at hoffset
      rw [List.sum_nil]
      omega
  rcases List.append_eq_append_iff.mp hparts with
    ⟨more, hbefore, hrest⟩ | ⟨more, htake, hrest⟩
  · cases more with
    | nil =>
        rw [List.append_nil] at hbefore
        rcases List.cons.inj hrest with ⟨hfirst, hafter⟩
        exact hbeyond _ hfirst rfl hbefore.symm
    | cons first more =>
        rcases List.cons.inj hrest with ⟨hfirst, hafter⟩
        have hsum : before.sum = (g.segments.take g.isegment).sum +
            (first + more.sum) := by
          rw [hbefore, List.sum_append, List.sum_cons]
        rw [hfirst] at hoffset
        refine ⟨(first - g.ioffset) :: more, size, after, ?_, ?_, ?_⟩
        · rw [h.inputSizes_eq, hfirst, hafter]
          rfl
        · rw [List.sum_cons]
          omega
        · rw [List.sum_cons]
          omega
  · cases more with
    | nil =>
        rw [List.append_nil] at htake
        rcases List.cons.inj hrest with ⟨hfirst, hafter⟩
        exact hbeyond _ hfirst.symm rfl htake
    | cons first more =>
        rcases List.cons.inj hrest with ⟨hfirst, _⟩
        rw [htake, List.sum_append, List.sum_cons, <- hfirst] at houtputs
        omega

theorem Partition.input_has (h : Partition g) (hin : InSegment g x n)
    (hstart : g.obytes ≤ x) (hend : x + n ≤ g.obytes + g.ibytes) :
    exists c, c ∈ processDataChunks g ∧ c.command ≠ .lwr ∧ c.Has x n := by
  have hn := hin.nonempty
  cases hblock : g.blockLRW with
  | false =>
      rcases h.image_has hin hend with ⟨c, hc, hcommand, hhas⟩
      refine ⟨c, mem_processDataChunks_together hblock (by omega) hc, ?_, hhas⟩
      rw [hcommand]
      decide
  | true =>
      rcases h.inputSizes_split hin hstart with
        ⟨before, size, after, hinputs, hlow, hhigh⟩
      have hsizes : forall y, y ∈ before ++ size :: after -> y ≤ maxSegment := by
        intro y hy
        rw [<- hinputs] at hy
        exact h.inputSizes_le hy
      have hsum := h.inputSizes_sum
      have hinput : g.inputChunks = segmentLoop .lrd false g.inputSizes g.ibytes
          (g.logstartaddr + g.obytes) g.obytes :=
        if_neg (by omega)
      rw [hinputs] at hinput hsum
      have hloop : exists c, c ∈ segmentLoop .lrd false
          (before ++ size :: after) g.ibytes (g.logstartaddr + g.obytes)
          g.obytes ∧ c.command = .lrd ∧ c.Has x n :=
        segmentLoop_has hsizes (fun _ => hsum) hn hlow hhigh hend
      rcases hloop with ⟨c, hc, hcommand, hhas⟩
      rw [<- hinput] at hc
      refine ⟨c, mem_processDataChunks_apart hblock (by omega)
        (List.mem_append_left _ hc), ?_, hhas⟩
      rw [hcommand]
      decide

end Parts

/-!
## Every configuration
-/

/-- The outputs of a slave are in one part that is written, and its inputs in
one that is read. -/
structure Undivided (start : Nat) (g : Group) (outs ins : List (Option Area)) :
    Prop where
  outputs : forall area, some area ∈ outs -> start ≤ area.logStart ∧
    exists c, c ∈ processDataChunks g ∧ c.command ≠ .lrd ∧
      c.Has (area.logStart - start) area.bytes
  inputs : forall area, some area ∈ ins -> start ≤ area.logStart ∧
    exists c, c ∈ processDataChunks g ∧ c.command ≠ .lwr ∧
      c.Has (area.logStart - start) area.bytes

theorem Placed.le_logAddr {start : Nat} {area : Area} {s t : MapState}
    (h : Placed start area s) (hpacked : Packed start s) (hlater : Later s t) :
    area.logStart + area.bytes ≤ t.logAddr := by
  have hlast := h.last
  have htotal := hpacked.total
  have hstart := hpacked.start_le
  have hgrows := hlater.logAddr
  omega

theorem undivided_configMapGroup (align : Bool) (start : Nat)
    (slaves : List SlaveIo) (old : Nat -> Nat)
    (hslaves : forall slave, slave ∈ slaves -> slave.Small)
    (hfits : (configMapGroup align start slaves old).obytes +
      (configMapGroup align start slaves old).ibytes ≤ ioMapSize) :
    Undivided start (configMapGroup align start slaves old)
      (outputAreas align start slaves old)
      (inputAreas align start slaves old) := by
  have hpartition := partition_configMapGroup align start slaves old hslaves hfits
  unfold outputAreas inputAreas
  generalize hs : mapDirection align (mappings (slaves.map SlaveIo.obits))
    (startState start old) = s
  generalize hs' : mapDirection align (mappings (slaves.map SlaveIo.ibits)) s = s'
  have hmapped := mapped_configMapGroup hslaves hs hs' hfits
  have hgroup := configMapGroup_eq align start slaves old hs hs'
  have hsegments := segments_configMapGroup align start slaves old hs hs'
  have hobytes : (configMapGroup align start slaves old).obytes =
      s.logAddr - start := by
    rw [hgroup]
  have hibytes : (configMapGroup align start slaves old).ibytes =
      s'.logAddr - start - (s.logAddr - start) := by
    rw [hgroup]
  have hnew : Packed start (startState start old) := packed_start start old
  have hstart := hmapped.outputs.start_le
  have hgrows := hmapped.later.logAddr
  constructor
  · intro area harea
    have hmem := placed_of_mem (obits_le hslaves) hnew
      (by rw [hs]; exact hmapped.room_outputs) harea
    rw [hs] at hmem
    rcases hmem with ⟨t, hpacked, hplaced, hlater, _⟩
    have hend := hplaced.le_logAddr hpacked hlater
    have hfirst := hplaced.first
    have hsegment := inSegment_of_placed hplaced (hlater.trans hmapped.later)
      hsegments
    constructor
    · omega
    · exact hpartition.output_has hsegment (by omega)
  · intro area harea
    have hmem := placed_of_mem (ibits_le hslaves) hmapped.outputs
      (by rw [hs']; exact hmapped.room) harea
    rw [hs'] at hmem
    rcases hmem with ⟨t, hpacked, hplaced, hlater, hlow⟩
    have hend := hplaced.le_logAddr hpacked hlater
    have hsegment := inSegment_of_placed hplaced hlater hsegments
    constructor
    · omega
    · exact hpartition.input_has hsegment (by omega) (by omega)

theorem undivided_threeSlaves :
    Undivided 0 (configMapGroup false 0 threeSlaves fun _ => 0)
      (outputAreas false 0 threeSlaves fun _ => 0)
      (inputAreas false 0 threeSlaves fun _ => 0) :=
  undivided_configMapGroup false 0 threeSlaves (fun _ => 0)
    (by
      intro slave hslave
      fin_cases hslave <;> exact ⟨by decide, by decide⟩)
    (by decide)

-- Bits are not whole bytes: the last slave has one bit in the first segment and
-- six bits in the second.
example :
    (configMapGroup false 0
      [⟨8 * 1464, 0, false⟩, ⟨8, 0, false⟩, ⟨7, 0, false⟩, ⟨7, 0, false⟩]
      fun _ => 0).segments = [1466, 1] := by
  decide

end Soem
end FrankaKistar
