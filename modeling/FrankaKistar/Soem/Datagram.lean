import FrankaKistar.Foundation.LittleEndian
import FrankaKistar.Foundation.Ranges
import Mathlib.Algebra.GroupWithZero.Nat

/-!
# Datagrams in a frame

`ecx_setupdatagram` writes the first datagram of a frame into a transmit buffer
and `ecx_adddatagram` appends another one.  A frame is the Ethernet header, the
EtherCAT length word and the datagrams; a bit in the length word of a datagram
says that another one follows.  The interrupt field is never written, so that
its bytes are those of an earlier frame.
-/

namespace FrankaKistar
namespace Soem

open Foundation LittleEndian Ranges

abbrev ethHeaderSize : Nat := 14
abbrev ecHeaderSize : Nat := 12
abbrev ecElengthSize : Nat := 2
abbrev ecWkcSize : Nat := 2
abbrev ecEcatType : Nat := 0x1000
abbrev ecMaxEcatFrame : Nat := 1518
def ecDatagramFollows : UInt16 := 0x8000

/-- `ec_cmdtype`. -/
inductive EcCmd where
  | nop | aprd | apwr | aprw | fprd | fpwr | fprw | brd | bwr | brw | lrd | lwr
  | lrw | armw | frmw
deriving DecidableEq

def EcCmd.code : EcCmd -> UInt8
  | .nop => 0x00
  | .aprd => 0x01
  | .apwr => 0x02
  | .aprw => 0x03
  | .fprd => 0x04
  | .fpwr => 0x05
  | .fprw => 0x06
  | .brd => 0x07
  | .bwr => 0x08
  | .brw => 0x09
  | .lrd => 0x0a
  | .lwr => 0x0b
  | .lrw => 0x0c
  | .armw => 0x0d
  | .frmw => 0x0e

/-- A buffer `txbuf[idx]` with its `txbuflength[idx]`. -/
structure TxBuffer where
  bytes : Nat -> UInt8
  length : Nat

/-- What the two functions are called with; the length is that of the data. -/
structure DatagramArgs where
  command : EcCmd
  adp : UInt16
  ado : UInt16
  data : List UInt8

/-!
## Writing a datagram
-/

def wordBytes (w : UInt16) : List UInt8 := [lowByte w, highByte w]

def storeWord (mem : Nat -> UInt8) (a : Nat) (w : UInt16) : Nat -> UInt8 :=
  store mem a (wordBytes w)

def loadWord (mem : Nat -> UInt8) (a : Nat) : UInt16 :=
  word (mem a) (mem (a + 1))

/-- The bytes that `ecx_writedatagramdata` writes. -/
def writtenData (com : EcCmd) (data : List UInt8) : List UInt8 :=
  match com with
  | .nop | .aprd | .fprd | .brd | .lrd => List.replicate data.length 0
  | _ => data

/-- The assignments that both functions make, for a datagram whose command byte
is at address `a`. -/
def writeDatagram (mem : Nat -> UInt8) (a : Nat) (idx : UInt8)
    (d : DatagramArgs) (dlength : UInt16) : Nat -> UInt8 :=
  let mem := store mem a [d.command.code, idx]
  let mem := storeWord mem (a + 2) d.adp
  let mem := storeWord mem (a + 4) d.ado
  let mem := storeWord mem (a + 6) dlength
  let mem := store mem (a + 10) (writtenData d.command d.data)
  store mem (a + 10 + d.data.length) [0x00, 0x00]

/-- `ecx_setupdatagram`. -/
def setupDatagram (idx : UInt8) (d : DatagramArgs) (frame : TxBuffer) :
    TxBuffer where
  bytes :=
    writeDatagram
      (storeWord frame.bytes ethHeaderSize
        (UInt16.ofNat (ecEcatType + ecHeaderSize + d.data.length)))
      (ethHeaderSize + ecElengthSize) idx d (UInt16.ofNat d.data.length)
  length := ethHeaderSize + ecHeaderSize + ecWkcSize + d.data.length

/-- `ecx_adddatagram`: the offset of the data in the received frame, and the
frame. -/
def addDatagram (idx : UInt8) (more : Bool) (d : DatagramArgs)
    (frame : TxBuffer) : Nat × TxBuffer :=
  let prevlength := frame.length % 65536
  let mem := storeWord frame.bytes ethHeaderSize
    (loadWord frame.bytes ethHeaderSize +
      UInt16.ofNat (ecHeaderSize + d.data.length))
  let mem := storeWord mem (ethHeaderSize + 8)
    (loadWord mem (ethHeaderSize + 8) ||| ecDatagramFollows)
  let dlength :=
    if more then
      UInt16.ofNat d.data.length ||| ecDatagramFollows
    else
      UInt16.ofNat d.data.length
  (prevlength + ecHeaderSize - ecElengthSize - ethHeaderSize,
    { bytes := writeDatagram mem prevlength idx d dlength
      length := prevlength + ecHeaderSize - ecElengthSize + ecWkcSize +
        d.data.length })

/-!
## What a frame contains
-/

structure Slot where
  command : UInt8
  index : UInt8
  adp : UInt16
  ado : UInt16
  follows : Bool
  irpt : UInt16
  data : List UInt8
  wkc : UInt16

def Slot.dlength (s : Slot) : UInt16 :=
  if s.follows then
    UInt16.ofNat s.data.length ||| ecDatagramFollows
  else
    UInt16.ofNat s.data.length

def Slot.address (s : Slot) : List UInt8 :=
  [s.command, s.index] ++ wordBytes s.adp ++ wordBytes s.ado

def Slot.body (s : Slot) : List UInt8 :=
  wordBytes s.irpt ++ s.data ++ wordBytes s.wkc

def Slot.bytes (s : Slot) : List UInt8 :=
  s.address ++ wordBytes s.dlength ++ s.body

def Slot.size (s : Slot) : Nat := ecHeaderSize + s.data.length

def totalSize (slots : List Slot) : Nat := (slots.map Slot.size).sum

def DatagramArgs.slot (idx : UInt8) (more : Bool) (irpt : UInt16)
    (d : DatagramArgs) : Slot where
  command := d.command.code
  index := idx
  adp := d.adp
  ado := d.ado
  follows := more
  irpt := irpt
  data := writtenData d.command d.data
  wkc := 0

@[simp] theorem length_wordBytes (w : UInt16) : (wordBytes w).length = 2 := rfl

@[simp] theorem length_writtenData (com : EcCmd) (data : List UInt8) :
    (writtenData com data).length = data.length := by
  unfold writtenData
  split <;> simp

@[simp] theorem Slot.length_bytes (s : Slot) : s.bytes.length = s.size := by
  simp only [Slot.bytes, Slot.address, Slot.body, List.length_append,
    List.length_cons, List.length_nil, length_wordBytes, Slot.size, ecHeaderSize]
  omega

theorem totalSize_cons (s : Slot) (rest : List Slot) :
    totalSize (s :: rest) = s.size + totalSize rest := rfl

theorem totalSize_append (slots more : List Slot) :
    totalSize (slots ++ more) = totalSize slots + totalSize more := by
  rw [totalSize, List.map_append, List.sum_append]
  rfl

theorem length_flatMap_bytes (slots : List Slot) :
    (slots.flatMap Slot.bytes).length = totalSize slots := by
  induction slots with
  | nil => rfl
  | cons s rest ih =>
      rw [List.flatMap_cons, List.length_append, Slot.length_bytes, ih,
        totalSize_cons]

structure Contains (frame : TxBuffer) (slots : List Slot) : Prop where
  length : frame.length = ethHeaderSize + ecElengthSize + totalSize slots
  elength : load frame.bytes ethHeaderSize 2 =
    wordBytes (UInt16.ofNat (ecEcatType + totalSize slots))
  slots : load frame.bytes (ethHeaderSize + ecElengthSize) (totalSize slots) =
    slots.flatMap Slot.bytes

theorem wordBytes_loadWord (mem : Nat -> UInt8) (a : Nat) :
    wordBytes (loadWord mem a) = load mem a 2 := by
  rw [wordBytes, loadWord, lowByte_word, highByte_word]
  rfl

theorem loadWord_of_load {mem : Nat -> UInt8} {a : Nat} {w : UInt16}
    (h : load mem a 2 = wordBytes w) : loadWord mem a = w := by
  have hlow : mem a = lowByte w := (List.cons.inj h).left
  have hhigh : mem (a + 1) = highByte w :=
    (List.cons.inj (List.cons.inj h).right).left
  rw [loadWord, hlow, hhigh, word_lowByte_highByte]

theorem load_store_eq {mem : Nat -> UInt8} {a n : Nat} {xs : List UInt8}
    (h : xs.length = n) : load (store mem a xs) a n = xs := by
  rw [<- h]
  exact load_store mem a xs

theorem load_store_wordBytes (mem : Nat -> UInt8) (a : Nat) (w : UInt16) :
    load (store mem a (wordBytes w)) a 2 = wordBytes w :=
  load_store_eq rfl

theorem load_writeDatagram (mem : Nat -> UInt8) (a : Nat) (idx : UInt8)
    (d : DatagramArgs) (more : Bool) :
    load
        (writeDatagram mem a idx d (d.slot idx more (loadWord mem (a + 8))).dlength)
        a (ecHeaderSize + d.data.length) =
      (d.slot idx more (loadWord mem (a + 8))).bytes := by
  have hparts : ecHeaderSize + d.data.length =
      2 + (2 + (2 + (2 + (2 + (d.data.length + 2))))) := by
    unfold ecHeaderSize
    omega
  rw [hparts, load_add, load_add, load_add, load_add, load_add, load_add]
  unfold writeDatagram storeWord
  simp (disch := first
    | omega
    | (simp only [List.length_cons, List.length_nil, length_wordBytes,
        length_writtenData]; done)
    | (simp only [List.length_cons, List.length_nil, length_wordBytes,
        length_writtenData]; omega)) only [Nat.add_assoc, Nat.reduceAdd,
    load_store_before, load_store_after, load_store_wordBytes, load_store_eq]
  rw [<- wordBytes_loadWord mem (a + 8)]
  simp only [Slot.bytes, Slot.address, Slot.body, DatagramArgs.slot,
    List.append_assoc]
  rfl

theorem load_writeDatagram_before (mem : Nat -> UInt8) {b n a : Nat}
    (h : b + n ≤ a) (idx : UInt8) (d : DatagramArgs) (dlength : UInt16) :
    load (writeDatagram mem a idx d dlength) b n = load mem b n := by
  unfold writeDatagram storeWord
  simp (disch := omega) only [load_store_before]

theorem Slot.dlength_follows (s : Slot) :
    ({ s with follows := true } : Slot).dlength =
      s.dlength ||| ecDatagramFollows := by
  unfold Slot.dlength
  cases s.follows with
  | true =>
      simp only [if_true]
      rw [UInt16.or_assoc, UInt16.or_self]
  | false => rfl

theorem dlength_slot (idx : UInt8) (more : Bool) (irpt : UInt16)
    (d : DatagramArgs) :
    (d.slot idx more irpt).dlength =
      if more then
        UInt16.ofNat d.data.length ||| ecDatagramFollows
      else
        UInt16.ofNat d.data.length := by
  simp only [Slot.dlength, DatagramArgs.slot, length_writtenData]

theorem size_slot (idx : UInt8) (more : Bool) (irpt : UInt16)
    (d : DatagramArgs) :
    (d.slot idx more irpt).size = ecHeaderSize + d.data.length := by
  simp only [Slot.size, DatagramArgs.slot, length_writtenData]

theorem contains_setupDatagram (idx : UInt8) (d : DatagramArgs)
    (frame : TxBuffer) :
    exists irpt, Contains (setupDatagram idx d frame)
      [d.slot idx false irpt] := by
  have hsize : forall irpt, totalSize [d.slot idx false irpt] =
      ecHeaderSize + d.data.length := by
    intro irpt
    rw [totalSize_cons, size_slot]
    rfl
  have hwritten := load_writeDatagram
    (storeWord frame.bytes ethHeaderSize
      (UInt16.ofNat (ecEcatType + ecHeaderSize + d.data.length)))
    (ethHeaderSize + ecElengthSize) idx d false
  rw [dlength_slot] at hwritten
  refine ⟨loadWord (storeWord frame.bytes ethHeaderSize
    (UInt16.ofNat (ecEcatType + ecHeaderSize + d.data.length))) 24, ?_⟩
  constructor
  · rw [hsize]
    show 14 + 12 + 2 + d.data.length = 14 + 2 + (12 + d.data.length)
    omega
  · rw [hsize]
    unfold setupDatagram
    rw [load_writeDatagram_before _ (Nat.le_refl _)]
    rw [Nat.add_assoc]
    exact load_store_wordBytes _ _ _
  · rw [hsize, List.flatMap_cons, List.flatMap_nil, List.append_nil]
    exact hwritten

theorem flatMap_bytes_cons (first : Slot) (rest : List Slot) :
    (first :: rest).flatMap Slot.bytes = first.address ++
      wordBytes first.dlength ++ (first.body ++ rest.flatMap Slot.bytes) := by
  rw [List.flatMap_cons, Slot.bytes, List.append_assoc]

theorem load_marked {mem : Nat -> UInt8} {a : Nat} {first : Slot}
    {rest : List Slot}
    (h : load mem a (totalSize (first :: rest)) =
      (first :: rest).flatMap Slot.bytes) :
    load (storeWord mem (a + 6) (first.dlength ||| ecDatagramFollows)) a
        (totalSize (first :: rest)) =
      ({ first with follows := true } :: rest).flatMap Slot.bytes := by
  have hroom : 6 + 2 ≤ totalSize (first :: rest) := by
    rw [totalSize_cons, Slot.size, ecHeaderSize]
    omega
  rw [storeWord, load_store_inside mem _ hroom, h, flatMap_bytes_cons,
    flatMap_bytes_cons, Slot.dlength_follows]
  rfl

theorem totalSize_marked (first : Slot) (rest : List Slot) (idx : UInt8)
    (more : Bool) (d : DatagramArgs) (irpt : UInt16) :
    totalSize ({ first with follows := true } ::
        (rest ++ [d.slot idx more irpt])) =
      totalSize (first :: rest) + (12 + d.data.length) := by
  rw [totalSize_cons, totalSize_append, totalSize_cons, totalSize_cons,
    size_slot, <- Nat.add_assoc]
  rfl

theorem contains_addDatagram {frame : TxBuffer} {first : Slot}
    {rest : List Slot} (h : Contains frame (first :: rest))
    (hlength : frame.length < 65536) (idx : UInt8) (more : Bool)
    (d : DatagramArgs) :
    exists irpt, Contains (addDatagram idx more d frame).2
      ({ first with follows := true } :: (rest ++ [d.slot idx more irpt])) := by
  have hmod : frame.length % 65536 = 16 + totalSize (first :: rest) :=
    (Nat.mod_eq_of_lt hlength).trans h.length
  have hsize := totalSize_marked first rest idx more d
  have helength : loadWord frame.bytes 14 + UInt16.ofNat (12 + d.data.length) =
      UInt16.ofNat
        (ecEcatType + (totalSize (first :: rest) + (12 + d.data.length))) := by
    rw [loadWord_of_load h.elength, <- UInt16.ofNat_add, Nat.add_assoc]
  generalize helong : storeWord frame.bytes 14
    (loadWord frame.bytes 14 + UInt16.ofNat (12 + d.data.length)) = mem
  have hold : load mem 16 (totalSize (first :: rest)) =
      (first :: rest).flatMap Slot.bytes := by
    rw [<- helong]
    exact (load_store_after _ _ (Nat.le_refl _)).trans h.slots
  have hword : loadWord mem 22 = first.dlength :=
    loadWord_of_load (load_middle (hold.trans (flatMap_bytes_cons _ _)))
  generalize hmark : storeWord mem 22 (loadWord mem 22 ||| ecDatagramFollows) =
    marked
  have hmarked : load marked 16 (totalSize (first :: rest)) =
      ({ first with follows := true } :: rest).flatMap Slot.bytes := by
    rw [<- hmark, hword]
    exact load_marked hold
  have hbefore : load marked 14 2 = load mem 14 2 := by
    rw [<- hmark]
    exact load_store_before _ _ (by decide)
  have hframe : (addDatagram idx more d frame).2 =
      ⟨writeDatagram marked (16 + totalSize (first :: rest)) idx d
        (d.slot idx more (loadWord marked
          (16 + totalSize (first :: rest) + 8))).dlength,
        16 + totalSize (first :: rest) + 12 - 2 + 2 + d.data.length⟩ := by
    rw [dlength_slot, <- hmark, <- helong, <- hmod]
    rfl
  refine ⟨loadWord marked (16 + totalSize (first :: rest) + 8), ?_⟩
  constructor
  · rw [hframe, hsize]
    show 16 + totalSize (first :: rest) + 12 - 2 + 2 + d.data.length =
      16 + (totalSize (first :: rest) + (12 + d.data.length))
    omega
  · rw [hframe, hsize]
    refine (load_writeDatagram_before marked ?_ idx d _).trans ?_
    · exact Nat.le_add_right 16 _
    · rw [hbefore, <- helong, helength]
      exact load_store_wordBytes _ _ _
  · rw [hframe, hsize, load_add]
    have hkept := load_writeDatagram_before marked
      (Nat.le_refl (16 + totalSize (first :: rest))) idx d
      (d.slot idx more (loadWord marked
        (16 + totalSize (first :: rest) + 8))).dlength
    have hadded := load_writeDatagram marked (16 + totalSize (first :: rest))
      idx d more
    rw [<- List.cons_append, List.flatMap_append, List.flatMap_singleton]
    exact congrArg₂ List.append (hkept.trans hmarked) hadded

end Soem
end FrankaKistar
