import FrankaKistar.Soem.Datagram

/-!
# Reading a frame

A station reads the datagrams of a frame one after the other, each with the
length in its header, for as long as the last one says that another follows.  A
frame that is built by one `ecx_setupdatagram` and any number of
`ecx_adddatagram` is read as the datagrams that went into it, and the offsets
that `ecx_adddatagram` returns are those of the data in the answer.
-/

namespace FrankaKistar
namespace Soem

open Foundation LittleEndian Ranges

structure Datagram where
  command : UInt8
  index : UInt8
  adp : UInt16
  ado : UInt16
  data : List UInt8
  wkc : UInt16
deriving DecidableEq

def Slot.datagram (s : Slot) : Datagram :=
  ⟨s.command, s.index, s.adp, s.ado, s.data, s.wkc⟩

def DatagramArgs.datagram (idx : UInt8) (d : DatagramArgs) : Datagram :=
  ⟨d.command.code, idx, d.adp, d.ado, writtenData d.command d.data, 0⟩

/-- One datagram and the bytes that are left; the length has eleven bits. -/
def decodeSlot : List UInt8 -> Option (Slot × List UInt8)
  | command :: index :: a0 :: a1 :: o0 :: o1 :: l0 :: l1 :: i0 :: i1 :: rest =>
      let dlength := (word l0 l1).toNat
      match rest.drop (dlength % 2048) with
      | w0 :: w1 :: left =>
          some (⟨command, index, word a0 a1, word o0 o1,
            decide (32768 ≤ dlength), word i0 i1, rest.take (dlength % 2048),
            word w0 w1⟩, left)
      | _ => none
  | _ => none

def decodeSlots : Nat -> List UInt8 -> Option (List Slot)
  | 0, _ => none
  | fuel + 1, bytes =>
      match decodeSlot bytes with
      | none => none
      | some (s, left) =>
          if s.follows then
            match decodeSlots fuel left with
            | none => none
            | some rest => some (s :: rest)
          else
            some [s]

/-- The datagrams after the Ethernet header and the length word, whose low
twelve bits are the length and whose high four bits are the type. -/
def decodeFrame (packet : List UInt8) : Option (List Datagram) :=
  match packet.drop ethHeaderSize with
  | l0 :: l1 :: rest =>
      let elength := (word l0 l1).toNat
      if elength / 4096 = 1 ∧ elength % 4096 ≤ rest.length then
        match decodeSlots (elength % 4096) (rest.take (elength % 4096)) with
        | none => none
        | some slots => some (slots.map Slot.datagram)
      else
        none
  | _ => none

def TxBuffer.packet (frame : TxBuffer) : List UInt8 :=
  load frame.bytes 0 frame.length

/-!
## One datagram
-/

theorem toNat_dlength {s : Slot} (h : s.data.length < 2048) :
    s.dlength.toNat = s.data.length + if s.follows then 32768 else 0 := by
  have hsmall : (UInt16.ofNat s.data.length).toNat = s.data.length :=
    UInt16.toNat_ofNat_of_lt' (by
      show s.data.length < 65536
      omega)
  have hor : s.data.length ||| 32768 = s.data.length + 32768 := by
    have hadd := Nat.two_pow_add_eq_or_of_lt (i := 15)
      (show s.data.length < 2 ^ 15 by omega) 1
    rw [Nat.or_comm, Nat.add_comm]
    exact hadd.symm
  unfold Slot.dlength
  cases s.follows with
  | true =>
      simp only [if_true]
      rw [UInt16.toNat_or, hsmall]
      exact hor
  | false => exact hsmall

theorem decodeSlot_bytes {s : Slot} (h : s.data.length < 2048)
    (rest : List UInt8) : decodeSlot (s.bytes ++ rest) = some (s, rest) := by
  have hlength := toNat_dlength h
  have hmod : s.dlength.toNat % 2048 = s.data.length := by
    rw [hlength]
    split <;> omega
  have hflag : decide (32768 ≤ s.dlength.toNat) = s.follows := by
    rw [hlength]
    cases s.follows with
    | true => exact decide_eq_true (by simp only [if_true]; omega)
    | false => exact decide_eq_false (by simp only [Bool.false_eq_true, if_false]; omega)
  have hbytes : s.bytes ++ rest =
      s.command :: s.index :: lowByte s.adp :: highByte s.adp ::
        lowByte s.ado :: highByte s.ado :: lowByte s.dlength ::
        highByte s.dlength :: lowByte s.irpt :: highByte s.irpt ::
        (s.data ++ lowByte s.wkc :: highByte s.wkc :: rest) := by
    simp only [Slot.bytes, Slot.address, Slot.body, wordBytes,
      List.append_assoc, List.cons_append, List.nil_append]
  rw [hbytes]
  simp only [decodeSlot, word_lowByte_highByte, hmod, hflag,
    List.drop_left, List.take_left]

/-!
## A frame
-/

theorem decodeSlots_flatMap {slots : List Slot} {n fuel : Nat}
    (hflags : slots.map Slot.follows = List.replicate n true ++ [false])
    (hlengths : forall s, s ∈ slots -> s.data.length < 2048) (hfuel : n < fuel)
    (left : List UInt8) :
    decodeSlots fuel (slots.flatMap Slot.bytes ++ left) = some slots := by
  induction n generalizing slots fuel with
  | zero =>
      rcases List.map_eq_singleton_iff.mp hflags with ⟨s, rfl, hs⟩
      rcases Nat.exists_eq_succ_of_ne_zero (Nat.ne_of_gt hfuel) with ⟨f, rfl⟩
      rw [List.flatMap_singleton, decodeSlots,
        decodeSlot_bytes (hlengths s List.mem_cons_self)]
      simp only [hs, Bool.false_eq_true, if_false]
  | succ n ih =>
      rcases List.map_eq_cons_iff.mp hflags with ⟨s, rest, rfl, hs, hrest⟩
      rcases Nat.exists_eq_succ_of_ne_zero
        (Nat.ne_of_gt (Nat.lt_of_le_of_lt (Nat.zero_le _) hfuel)) with ⟨f, rfl⟩
      have hlater := ih hrest
        (fun s' hs' => hlengths s' (List.mem_cons_of_mem s hs'))
        (Nat.lt_of_succ_lt_succ hfuel)
      rw [List.flatMap_cons, List.append_assoc, decodeSlots,
        decodeSlot_bytes (hlengths s List.mem_cons_self)]
      simp only [hs, if_true, hlater]

theorem size_le_total {slots : List Slot} {s : Slot} (h : s ∈ slots) :
    s.size ≤ totalSize slots := by
  induction slots with
  | nil => cases h
  | cons first rest ih =>
      rw [totalSize_cons]
      rcases List.mem_cons.mp h with rfl | hrest
      · exact Nat.le_add_right _ _
      · exact Nat.le_trans (ih hrest) (Nat.le_add_left _ _)

theorem length_le_total (slots : List Slot) :
    slots.length ≤ totalSize slots := by
  induction slots with
  | nil => exact Nat.le_refl 0
  | cons first rest ih =>
      rw [totalSize_cons, List.length_cons, Slot.size, ecHeaderSize]
      omega

/-- A frame is read as its datagrams when the flags chain them. -/
theorem decodeFrame_packet {frame : TxBuffer} {slots : List Slot} {n : Nat}
    (h : Contains frame slots)
    (hflags : slots.map Slot.follows = List.replicate n true ++ [false])
    (hfits : frame.length ≤ ecMaxEcatFrame) :
    decodeFrame frame.packet = some (slots.map Slot.datagram) := by
  have htotal : totalSize slots ≤ 1502 := by
    have hlength := h.length
    unfold ethHeaderSize ecElengthSize at hlength
    unfold ecMaxEcatFrame at hfits
    omega
  have hlengths : forall s, s ∈ slots -> s.data.length < 2048 := by
    intro s hs
    have hsize := size_le_total hs
    unfold Slot.size ecHeaderSize at hsize
    omega
  have hcount : n < totalSize slots := by
    have hle := length_le_total slots
    rw [<- List.length_map Slot.follows, hflags, List.length_append,
      List.length_replicate] at hle
    exact hle
  have hdrop : frame.packet.drop ethHeaderSize =
      wordBytes (UInt16.ofNat (ecEcatType + totalSize slots)) ++
        slots.flatMap Slot.bytes := by
    have hparts : frame.length - ethHeaderSize = 2 + totalSize slots := by
      rw [h.length]
      unfold ethHeaderSize ecElengthSize
      omega
    have hheader : ethHeaderSize ≤ frame.length := by
      rw [h.length]
      exact Nat.le_trans (Nat.le_add_right _ _) (Nat.le_add_right _ _)
    rw [TxBuffer.packet, drop_load _ hheader, hparts, Nat.zero_add, load_add,
      h.elength]
    exact congrArg _ h.slots
  have hword : (UInt16.ofNat (ecEcatType + totalSize slots)).toNat =
      4096 + totalSize slots :=
    UInt16.toNat_ofNat_of_lt' (by
      show 4096 + totalSize slots < 65536
      omega)
  have hdiv : (4096 + totalSize slots) / 4096 = 1 := by omega
  have hmod : (4096 + totalSize slots) % 4096 = totalSize slots := by omega
  have hslots := decodeSlots_flatMap hflags hlengths hcount []
  rw [List.append_nil] at hslots
  rw [decodeFrame, hdrop]
  simp only [wordBytes, List.cons_append, List.nil_append,
    word_lowByte_highByte, hword, hdiv, hmod, length_flatMap_bytes,
    Nat.le_refl, and_self, if_true]
  rw [List.take_of_length_le (Nat.le_of_eq (length_flatMap_bytes slots)), hslots]

/-!
## Frames of several datagrams
-/

/-- The datagrams after the first one; all but the last are told that more
follow. -/
def addDatagrams (idx : UInt8) :
    List DatagramArgs -> TxBuffer -> List Nat × TxBuffer
  | [], frame => ([], frame)
  | d :: rest, frame =>
      let added := addDatagram idx (!rest.isEmpty) d frame
      let others := addDatagrams idx rest added.2
      (added.1 :: others.1, others.2)

/-- The offsets of the data in the answer, and the frame. -/
def buildFrame (idx : UInt8) (first : DatagramArgs) (rest : List DatagramArgs)
    (frame : TxBuffer) : List Nat × TxBuffer :=
  let added := addDatagrams idx rest (setupDatagram idx first frame)
  (ecHeaderSize :: added.1, added.2)

def DatagramArgs.size (d : DatagramArgs) : Nat := ecHeaderSize + d.data.length

def frameSize (ds : List DatagramArgs) : Nat :=
  ethHeaderSize + ecElengthSize + (ds.map DatagramArgs.size).sum

def dataOffsets : Nat -> List Nat -> List Nat
  | _, [] => []
  | t, len :: rest => (ecHeaderSize + t) :: dataOffsets (t + ecHeaderSize + len) rest

theorem datagram_slot (idx : UInt8) (more : Bool) (irpt : UInt16)
    (d : DatagramArgs) : (d.slot idx more irpt).datagram = d.datagram idx := rfl

theorem length_addDatagram {frame : TxBuffer} (hlength : frame.length < 65536)
    (idx : UInt8) (more : Bool) (d : DatagramArgs) :
    (addDatagram idx more d frame).2.length = frame.length + d.size := by
  show frame.length % 65536 + 12 - 2 + 2 + d.data.length =
    frame.length + (12 + d.data.length)
  rw [Nat.mod_eq_of_lt hlength]
  omega

structure Extended (idx : UInt8) (slots : List Slot) (ds : List DatagramArgs)
    (frame : TxBuffer) (added : List Slot) : Prop where
  contains : Contains frame added
  flags : added.map Slot.follows =
    List.replicate (slots.length + ds.length - 1) true ++ [false]
  datagrams : added.map Slot.datagram =
    slots.map Slot.datagram ++ ds.map (DatagramArgs.datagram idx)

theorem extended_addDatagrams {idx : UInt8} {frame : TxBuffer} {first : Slot}
    {middle : List Slot} {d : DatagramArgs} {rest : List DatagramArgs}
    (h : Contains frame (first :: middle))
    (hmiddle : middle.map Slot.follows = List.replicate middle.length true)
    (hfits : frame.length + ((d :: rest).map DatagramArgs.size).sum ≤
      ecMaxEcatFrame) :
    exists added, Extended idx (first :: middle) (d :: rest)
      (addDatagrams idx (d :: rest) frame).2 added := by
  have hlength : frame.length < 65536 := by
    unfold ecMaxEcatFrame at hfits
    omega
  induction rest generalizing frame first middle d with
  | nil =>
      rcases contains_addDatagram h hlength idx false d with ⟨irpt, hadded⟩
      refine ⟨_, hadded, ?_, ?_⟩
      · rw [List.map_cons, List.map_append, hmiddle]
        rfl
      · rw [List.map_cons, List.map_append]
        rfl
  | cons next rest ih =>
      rcases contains_addDatagram h hlength idx true d with ⟨irpt, hadded⟩
      have hmore : (middle ++ [d.slot idx true irpt]).map Slot.follows =
          List.replicate (middle ++ [d.slot idx true irpt]).length true := by
        rw [List.map_append, hmiddle, List.length_append,
          <- List.replicate_append_replicate]
        rfl
      have hroom : (addDatagram idx true d frame).2.length +
          ((next :: rest).map DatagramArgs.size).sum ≤ ecMaxEcatFrame := by
        rw [length_addDatagram hlength]
        rw [List.map_cons, List.sum_cons] at hfits
        omega
      rcases ih hadded hmore hroom (by
        unfold ecMaxEcatFrame at hroom
        omega) with ⟨added, hextended⟩
      refine ⟨added, hextended.contains, ?_, ?_⟩
      · rw [hextended.flags]
        simp only [List.length_cons, List.length_append, List.length_nil]
        congr 2
        omega
      · rw [hextended.datagrams]
        simp only [List.map_cons, List.map_append, List.map_nil,
          List.append_assoc, List.cons_append, List.nil_append, datagram_slot]
        rfl

theorem offset_addDatagram {frame : TxBuffer} {slots : List Slot}
    (h : Contains frame slots) (hlength : frame.length < 65536) (idx : UInt8)
    (more : Bool) (d : DatagramArgs) :
    (addDatagram idx more d frame).1 = ecHeaderSize + totalSize slots := by
  show frame.length % 65536 + 12 - 2 - 14 = 12 + totalSize slots
  rw [Nat.mod_eq_of_lt hlength, h.length]
  show 14 + 2 + totalSize slots + 12 - 2 - 14 = 12 + totalSize slots
  omega

theorem offsets_addDatagrams {idx : UInt8} {frame : TxBuffer} {first : Slot}
    {middle : List Slot} (h : Contains frame (first :: middle))
    (ds : List DatagramArgs)
    (hfits : frame.length + (ds.map DatagramArgs.size).sum ≤ ecMaxEcatFrame) :
    (addDatagrams idx ds frame).1 =
      dataOffsets (totalSize (first :: middle))
        (ds.map fun d => d.data.length) := by
  induction ds generalizing frame first middle with
  | nil => rfl
  | cons d rest ih =>
      have hlength : frame.length < 65536 := by
        unfold ecMaxEcatFrame at hfits
        omega
      rcases contains_addDatagram h hlength idx (!rest.isEmpty) d with
        ⟨irpt, hadded⟩
      have hroom : (addDatagram idx (!rest.isEmpty) d frame).2.length +
          (rest.map DatagramArgs.size).sum ≤ ecMaxEcatFrame := by
        rw [length_addDatagram hlength]
        rw [List.map_cons, List.sum_cons] at hfits
        omega
      have htotal := totalSize_marked first middle idx (!rest.isEmpty) d irpt
      rw [<- Nat.add_assoc] at htotal
      rw [addDatagrams, List.map_cons, dataOffsets,
        offset_addDatagram h hlength, ih hadded hroom, htotal]

theorem zipWith_load_dataOffsets {rx : Nat -> UInt8} {t : Nat}
    {answers : List Slot}
    (h : load rx (ecElengthSize + t) (totalSize answers) =
      answers.flatMap Slot.bytes) :
    List.zipWith (load rx) (dataOffsets t (answers.map fun s => s.data.length))
        (answers.map fun s => s.data.length) =
      answers.map Slot.data := by
  induction answers generalizing t with
  | nil => rfl
  | cons s rest ih =>
      rw [totalSize_cons, load_add, List.flatMap_cons] at h
      have hlength : (load rx (ecElengthSize + t) s.size).length =
          s.bytes.length := by
        rw [length_load, Slot.length_bytes]
      have hhead : load rx (ecElengthSize + t) s.size =
          (s.address ++ wordBytes s.dlength ++ wordBytes s.irpt) ++ s.data ++
            wordBytes s.wkc := by
        rw [List.append_inj_left h hlength]
        simp only [Slot.bytes, Slot.body, List.append_assoc]
      have haddress : ecElengthSize + t + 10 = ecHeaderSize + t := by
        unfold ecElengthSize ecHeaderSize
        omega
      have hdata : load rx (ecHeaderSize + t) s.data.length = s.data := by
        rw [<- haddress]
        exact load_middle hhead
      have hrest := List.append_inj_right h hlength
      rw [Slot.size, Nat.add_assoc, <- Nat.add_assoc t] at hrest
      rw [List.map_cons, dataOffsets, List.map_cons, List.zipWith_cons_cons,
        hdata, ih hrest]

/-!
## Round trip
-/

theorem length_setupDatagram (idx : UInt8) (d : DatagramArgs)
    (frame : TxBuffer) :
    (setupDatagram idx d frame).length =
      ethHeaderSize + ecElengthSize + d.size := by
  show 14 + 12 + 2 + d.data.length = 14 + 2 + (12 + d.data.length)
  omega

theorem length_addDatagrams {idx : UInt8} {frame : TxBuffer}
    (ds : List DatagramArgs)
    (hfits : frame.length + (ds.map DatagramArgs.size).sum ≤ ecMaxEcatFrame) :
    (addDatagrams idx ds frame).2.length =
      frame.length + (ds.map DatagramArgs.size).sum := by
  induction ds generalizing frame with
  | nil => rfl
  | cons d rest ih =>
      have hlength : frame.length < 65536 := by
        unfold ecMaxEcatFrame at hfits
        omega
      rw [List.map_cons, List.sum_cons] at hfits
      have hadded := length_addDatagram hlength idx (!rest.isEmpty) d
      have hroom : (addDatagram idx (!rest.isEmpty) d frame).2.length +
          (rest.map DatagramArgs.size).sum ≤ ecMaxEcatFrame := by
        rw [hadded]
        omega
      rw [addDatagrams, ih hroom, hadded, List.map_cons, List.sum_cons,
        Nat.add_assoc]

/-- The frame is read as its datagrams, and the data of every answer with
datagrams of the same lengths stands at the offsets. -/
structure RoundTrip (idx : UInt8) (first : DatagramArgs)
    (rest : List DatagramArgs) (frame : TxBuffer) : Prop where
  sent : decodeFrame (buildFrame idx first rest frame).2.packet =
    some ((first :: rest).map (DatagramArgs.datagram idx))
  answered : forall (answers : List Slot) (rx : Nat -> UInt8),
    (answers.map fun s => s.data.length) =
      ((first :: rest).map fun d => d.data.length) ->
    load rx ecElengthSize (totalSize answers) = answers.flatMap Slot.bytes ->
    List.zipWith (load rx) (buildFrame idx first rest frame).1
        ((first :: rest).map fun d => d.data.length) =
      answers.map Slot.data

theorem length_buildFrame {idx : UInt8} {first : DatagramArgs}
    {rest : List DatagramArgs} {frame : TxBuffer}
    (hfits : frameSize (first :: rest) ≤ ecMaxEcatFrame) :
    (buildFrame idx first rest frame).2.length = frameSize (first :: rest) := by
  unfold frameSize at hfits ⊢
  rw [List.map_cons, List.sum_cons, <- Nat.add_assoc,
    <- length_setupDatagram idx first frame] at hfits ⊢
  exact length_addDatagrams rest hfits

theorem extended_buildFrame {idx : UInt8} {first : DatagramArgs}
    {rest : List DatagramArgs} {frame : TxBuffer}
    (hfits : frameSize (first :: rest) ≤ ecMaxEcatFrame) :
    exists irpt added, Extended idx [first.slot idx false irpt] rest
      (buildFrame idx first rest frame).2 added := by
  rcases contains_setupDatagram idx first frame with ⟨irpt, hsetup⟩
  cases rest with
  | nil => exact ⟨irpt, _, hsetup, rfl, rfl⟩
  | cons d rest =>
      unfold frameSize at hfits
      rw [List.map_cons, List.sum_cons, <- Nat.add_assoc,
        <- length_setupDatagram idx first frame] at hfits
      exact ⟨irpt, extended_addDatagrams hsetup rfl hfits⟩

theorem sent_buildFrame {idx : UInt8} {first : DatagramArgs}
    {rest : List DatagramArgs} {frame : TxBuffer}
    (hfits : frameSize (first :: rest) ≤ ecMaxEcatFrame) :
    decodeFrame (buildFrame idx first rest frame).2.packet =
      some ((first :: rest).map (DatagramArgs.datagram idx)) := by
  have hlength : (buildFrame idx first rest frame).2.length ≤ ecMaxEcatFrame :=
    Nat.le_trans (Nat.le_of_eq (length_buildFrame hfits)) hfits
  have hextended : exists irpt added, Extended idx [first.slot idx false irpt]
      rest (buildFrame idx first rest frame).2 added := extended_buildFrame hfits
  rcases hextended with ⟨_, added, hadded⟩
  have hread := decodeFrame_packet hadded.contains hadded.flags hlength
  rw [hadded.datagrams] at hread
  exact hread

theorem offsets_buildFrame {idx : UInt8} {first : DatagramArgs}
    {rest : List DatagramArgs} {frame : TxBuffer}
    (hfits : frameSize (first :: rest) ≤ ecMaxEcatFrame) :
    (buildFrame idx first rest frame).1 =
      dataOffsets 0 ((first :: rest).map fun d => d.data.length) := by
  rcases contains_setupDatagram idx first frame with ⟨irpt, hsetup⟩
  unfold frameSize at hfits
  rw [List.map_cons, List.sum_cons, <- Nat.add_assoc,
    <- length_setupDatagram idx first frame] at hfits
  have hrest : (addDatagrams idx rest (setupDatagram idx first frame)).1 =
      dataOffsets (totalSize [first.slot idx false irpt])
        (rest.map fun d => d.data.length) :=
    offsets_addDatagrams hsetup rest hfits
  rw [totalSize_cons, size_slot] at hrest
  rw [buildFrame, hrest, List.map_cons, dataOffsets, Nat.zero_add]
  rfl

theorem roundTrip_of_fits (idx : UInt8) (first : DatagramArgs)
    (rest : List DatagramArgs) (frame : TxBuffer)
    (hfits : frameSize (first :: rest) ≤ ecMaxEcatFrame) :
    RoundTrip idx first rest frame where
  sent := sent_buildFrame hfits
  answered := by
    intro answers rx hlengths hanswer
    rw [offsets_buildFrame hfits, <- hlengths]
    exact zipWith_load_dataOffsets hanswer

/-!
`ecx_FPRD_multi` asks up to 64 stations for their status in one frame.
-/

/-- `ecx_FPRD_multi` reads six bytes at register `ECT_REG_ALSTAT`. -/
def alStatus (configadr : UInt16) : DatagramArgs :=
  ⟨.fprd, configadr, 0x0130, List.replicate 6 0⟩

def emptyBuffer : TxBuffer := ⟨fun _ => 0, 0⟩

theorem roundTrip_fprdMulti :
    RoundTrip 3 (alStatus 0x1001)
      ((List.range 63).map fun k => alStatus (0x1002 + UInt16.ofNat k))
      emptyBuffer :=
  roundTrip_of_fits 3 _ _ _ (by decide)

end Soem
end FrankaKistar
