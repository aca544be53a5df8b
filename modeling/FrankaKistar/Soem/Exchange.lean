import FrankaKistar.Foundation.Runs
import FrankaKistar.Soem.Decode
import FrankaKistar.Soem.Polling
import FrankaKistar.Soem.Transfer

/-!
# The exchange of the process image

`ecx_send_processdata` sends the parts of the image and remembers on a stack
which buffer carries which part, and the next `ecx_receive_processdata` waits
for their answers in that order.  The outputs are set between the two calls of
one exchange and the next.

An event gives what the step reads from outside: the outputs, what `send`
returns, the frame that is read from the socket, whether the time is up.  The
stack, the image and the clock belong to the thread of the exchange.
-/

namespace FrankaKistar
namespace Soem

open Foundation LittleEndian Ranges

structure BusConfig where
  group : Group
  hasdc : Bool
  dcConfigadr : UInt16

/-- An entry of the index stack: the buffer, the part of the image whose place
and length are pushed, and the offset of the clock.  The frame and whether it
was the first one are kept for the statements only. -/
structure Sent where
  idx : Fin ecMaxBuf
  chunk : Chunk
  dcoffset : Nat
  first : Bool
  frame : TxBuffer

inductive ExchangeLoc where
  | sending (first : Bool) (rest : List Chunk)
  | indexing (first : Bool) (c : Chunk) (rest : List Chunk) (g : Getindex)
  | allocated (idx : Fin ecMaxBuf) (first : Bool) (c : Chunk)
      (rest : List Chunk)
  | waiting
  | polling (e : Sent) (q : Inframe)
  | arrived (e : Sent) (wkc2 : Int)
  | releasing (idx : Fin ecMaxBuf)
  | finished (result : Int)

/-- The image and the clock at the start, and what was received for the parts,
are kept for the statements only. -/
structure Exchange where
  ioMap : Nat -> UInt8
  dcTime : Nat -> UInt8
  idxstack : List Sent
  wkc : Int
  validWkc : Bool
  loc : ExchangeLoc
  image : Nat -> UInt8
  clock : Nat -> UInt8
  answered : List (Sent × Option (Nat -> UInt8))

inductive ExchangeEvent where
  | begin (image : Nat -> UInt8)
  | allocate
  | scan
  | take
  | transmit (ok : Bool)
  | receive
  | pull
  | poll (packet : Option Packet)
  | timer (expired : Bool)
  | settle
  | release
  | finish

/-!
## Sending
-/

def chunkArgs (image : Nat -> UInt8) (c : Chunk) : DatagramArgs where
  command := c.command
  adp := UInt16.ofNat (c.logAdr % 65536)
  ado := UInt16.ofNat (c.logAdr / 65536)
  data := load image c.data c.length

def dcArgs (cfg : BusConfig) (clock : Nat -> UInt8) : DatagramArgs where
  command := .frmw
  adp := cfg.dcConfigadr
  ado := 0x0910
  data := load clock 0 8

/-- The offset of the clock in the answer, and the frame. -/
def chunkFrame (cfg : BusConfig) (image clock : Nat -> UInt8)
    (idx : Fin ecMaxBuf) (first : Bool) (c : Chunk) (frame : TxBuffer) :
    Nat × TxBuffer :=
  let frame := setupDatagram (UInt8.ofNat idx.val) (chunkArgs image c) frame
  if first then
    addDatagram (UInt8.ofNat idx.val) false (dcArgs cfg clock) frame
  else
    (0, frame)

/-- `ecx_pushindex`. -/
def pushIndex (stack : List Sent) (e : Sent) : List Sent :=
  if stack.length < ecMaxBuf then stack ++ [e] else stack

def Exchange.start (cfg : BusConfig) (image clock : Nat -> UInt8) :
    Exchange where
  ioMap := image
  dcTime := clock
  idxstack := []
  wkc := 0
  validWkc := false
  loc := .sending cfg.hasdc (processDataChunks cfg.group)
  image := image
  clock := clock
  answered := []

/-!
## Receiving
-/

/-- The work counter of the part in front of the clock. -/
def firstWkc (e : Sent) (rx : Nat -> UInt8) : Int :=
  (loadWord rx (ecHeaderSize + e.chunk.length)).toNat

/-- What `ecx_receive_processdata_group` makes of an answer; outputs count twice,
as they do with LRW. -/
def takeAnswer (e : Sent) (wkc2 : Int) (rx : Nat -> UInt8) (x : Exchange) :
    Exchange :=
  let dcTime := store x.dcTime 0 (load rx e.dcoffset 8)
  if rx 2 = EcCmd.lrd.code ∨ rx 2 = EcCmd.lrw.code then
    let ioMap := store x.ioMap e.chunk.data
      (load rx ecHeaderSize e.chunk.length)
    if 0 < e.dcoffset then
      { x with
        ioMap := ioMap, wkc := firstWkc e rx, dcTime := dcTime, validWkc := true }
    else
      { x with ioMap := ioMap, wkc := x.wkc + wkc2, validWkc := true }
  else if rx 2 = EcCmd.lwr.code then
    if 0 < e.dcoffset then
      { x with wkc := firstWkc e rx * 2, dcTime := dcTime, validWkc := true }
    else
      { x with wkc := x.wkc + wkc2 * 2, validWkc := true }
  else
    x

/-- What is made of a turn, with what `ecx_waitinframe` returned. -/
def settle (e : Sent) (wkc2 : Int) (rx : Nat -> UInt8) (x : Exchange) :
    Exchange :=
  if noFrame < wkc2 then
    { takeAnswer e wkc2 rx x with
      loc := .releasing e.idx
      answered := x.answered ++ [(e, some rx)] }
  else
    { x with
      loc := .releasing e.idx
      answered := x.answered ++ [(e, none)] }

/-!
## Steps
-/

def exchangeStep (cfg : BusConfig) : Machine (Port × Exchange) ExchangeEvent
  | (p, x), .begin image =>
      match x.loc with
      | .finished _ => some (p, Exchange.start cfg image x.dcTime)
      | _ => none
  | (p, x), .allocate =>
      match x.loc with
      | .sending first (c :: rest) =>
          match p.lockIndex with
          | some (p', g) => some (p', { x with loc := .indexing first c rest g })
          | none => none
      | _ => none
  | (p, x), .scan =>
      match x.loc with
      | .indexing first c rest (.scan idx cnt) =>
          some (p,
            { x with loc := .indexing first c rest (p.scanIndex idx cnt) })
      | _ => none
  | (p, x), .take =>
      match x.loc with
      | .indexing first c rest (.take idx) =>
          some (p.takeIndex idx, { x with loc := .allocated idx first c rest })
      | _ => none
  | (p, x), .transmit ok =>
      match x.loc with
      | .allocated idx first c rest =>
          let built := chunkFrame cfg x.ioMap x.dcTime idx first c (p.tx idx)
          some (outframe idx ok (p.setFrame idx built.2),
            { x with
              idxstack := pushIndex x.idxstack ⟨idx, c, built.1, first, built.2⟩
              loc := .sending false rest })
      | _ => none
  | (p, x), .receive =>
      match x.loc with
      | .sending _ [] =>
          some (p, { x with wkc := 0, validWkc := false, loc := .waiting })
      | _ => none
  | (p, x), .pull =>
      match x.loc, x.idxstack with
      | .waiting, e :: rest =>
          some (p, { x with idxstack := rest, loc := .polling e .check })
      | _, _ => none
  | (p, x), .poll packet =>
      match x.loc with
      | .polling e q =>
          match inframeStep e.idx (p, q) packet with
          | some (p', q') => some (p', { x with loc := .polling e q' })
          | none => none
      | _ => none
  | (p, x), .timer expired =>
      match x.loc with
      | .polling e (.returned wkc2) =>
          if noFrame < wkc2 ∨ expired = true then
            some (p, { x with loc := .arrived e wkc2 })
          else
            some (p, { x with loc := .polling e .check })
      | _ => none
  | (p, x), .settle =>
      match x.loc with
      | .arrived e wkc2 => some (p, settle e wkc2 (p.rx e.idx) x)
      | _ => none
  | (p, x), .release =>
      match x.loc with
      | .releasing idx =>
          some (p.setBufStat idx .empty, { x with loc := .waiting })
      | _ => none
  | (p, x), .finish =>
      match x.loc, x.idxstack with
      | .waiting, [] =>
          some (p,
            { x with loc := .finished (if x.validWkc then x.wkc else noFrame) })
      | _, _ => none

def ExchangeLoc.buffer : ExchangeLoc -> List (Fin ecMaxBuf)
  | .allocated idx _ _ _ => [idx]
  | .polling e _ => [e.idx]
  | .arrived e _ => [e.idx]
  | .releasing idx => [idx]
  | _ => []

def ExchangeLoc.rxMutex : ExchangeLoc -> Bool
  | .polling _ q => q.locked
  | _ => false

def ExchangeLoc.getindexMutex : ExchangeLoc -> Bool
  | .indexing _ _ _ _ => true
  | _ => false

def Exchange.held (x : Exchange) : Holding where
  buffers := x.loc.buffer ++ x.idxstack.map Sent.idx
  rxMutex := x.loc.rxMutex
  getindexMutex := x.loc.getindexMutex

/-- A frame that is put away answers what its buffer waits for, and no buffer is
released while an answer is being put into it. -/
def ExchangeLoc.Timely (answer : AnswerRel) (p : Port) : ExchangeLoc -> Prop
  | .polling e q => q.Genuine answer e.idx p
  | .releasing idx => p.putting ≠ some idx
  | _ => True

/-- A buffer is empty when the search begins, and frames are sent. -/
def ExchangeEvent.Expected (p : Port) : ExchangeEvent -> Prop
  | .allocate => exists i, p.rxbufstat i = .empty
  | .transmit ok => ok = true
  | _ => True

/-!
## What is known of a frame
-/

def Sent.args (cfg : BusConfig) (image clock : Nat -> UInt8) (e : Sent) :
    List DatagramArgs :=
  chunkArgs image e.chunk :: if e.first then [dcArgs cfg clock] else []

/-- The stations read the part of the image, and the clock behind it. -/
structure Sent.Framed (cfg : BusConfig) (image clock : Nat -> UInt8)
    (e : Sent) : Prop where
  sent : decodeFrame e.frame.packet = some
    ((e.args cfg image clock).map (DatagramArgs.datagram (UInt8.ofNat e.idx.val)))
  length : e.frame.length = frameSize (e.args cfg image clock)
  command : e.frame.bytes (ethHeaderSize + 2) = e.chunk.command.code
  elength : e.first = false ->
    load e.frame.bytes ethHeaderSize 2 = wordBytes
      (UInt16.ofNat (ecEcatType + (ecHeaderSize + e.chunk.length)))
  dcoffset : e.dcoffset =
    if e.first then ecHeaderSize + (ecHeaderSize + e.chunk.length) else 0

theorem Contains.command {frame : TxBuffer} {first : Slot} {rest : List Slot}
    (h : Contains frame (first :: rest)) :
    frame.bytes (ethHeaderSize + 2) = first.command := by
  have hroom : 0 < totalSize (first :: rest) := by
    rw [totalSize_cons, Slot.size, ecHeaderSize]
    omega
  have hbytes := congrArg (fun xs => xs[0]?) h.slots
  rw [flatMap_bytes_cons] at hbytes
  exact Option.some.inj ((getElem?_load hroom).symm.trans hbytes)

theorem frameSize_args (cfg : BusConfig) (image clock : Nat -> UInt8)
    (e : Sent) :
    frameSize (e.args cfg image clock) =
      if e.first then 48 + e.chunk.length else 28 + e.chunk.length := by
  unfold frameSize Sent.args
  cases e.first with
  | true =>
      simp only [if_true, List.map_cons, List.map_nil, List.sum_cons,
        List.sum_nil, DatagramArgs.size, chunkArgs, dcArgs, length_load,
        ethHeaderSize, ecElengthSize, ecHeaderSize]
      omega
  | false =>
      simp only [Bool.false_eq_true, if_false, List.map_cons, List.map_nil,
        List.sum_cons, List.sum_nil, DatagramArgs.size, chunkArgs, length_load,
        ethHeaderSize, ecElengthSize, ecHeaderSize]
      omega

theorem fits_chunkArgs (cfg : BusConfig) (image clock : Nat -> UInt8)
    (first : Bool) {c : Chunk} (hsize : c.length ≤ maxSegment) :
    frameSize (chunkArgs image c :: if first then [dcArgs cfg clock] else []) ≤
      ecMaxEcatFrame := by
  have hmax : maxSegment = 1466 := rfl
  have hsum := frameSize_args cfg image clock ⟨0, c, 0, first, emptyBuffer⟩
  unfold Sent.args at hsum
  rw [hsum]
  unfold ecMaxEcatFrame
  cases first with
  | true =>
      show 48 + c.length ≤ 1518
      omega
  | false =>
      show 28 + c.length ≤ 1518
      omega

theorem framed_chunkFrame (cfg : BusConfig) (image clock : Nat -> UInt8)
    (idx : Fin ecMaxBuf) (first : Bool) {c : Chunk}
    (hsize : c.length ≤ maxSegment) (old : TxBuffer) :
    Sent.Framed cfg image clock
      ⟨idx, c, (chunkFrame cfg image clock idx first c old).1, first,
        (chunkFrame cfg image clock idx first c old).2⟩ := by
  have hmax : maxSegment = 1466 := rfl
  have hlength : (chunkArgs image c).data.length = c.length := length_load _ _ _
  rcases contains_setupDatagram (UInt8.ofNat idx.val) (chunkArgs image c) old with
    ⟨irpt, hsetup⟩
  have hslot : totalSize [(chunkArgs image c).slot (UInt8.ofNat idx.val) false
      irpt] = ecHeaderSize + c.length := by
    rw [totalSize_cons, size_slot, hlength]
    rfl
  have hframe : (chunkFrame cfg image clock idx first c old).2 =
      (buildFrame (UInt8.ofNat idx.val) (chunkArgs image c)
        (if first then [dcArgs cfg clock] else []) old).2 := by
    cases first <;> rfl
  have hfits := fits_chunkArgs cfg image clock first hsize
  have hshort : (setupDatagram (UInt8.ofNat idx.val) (chunkArgs image c)
      old).length < 65536 := by
    rw [hsetup.length, hslot]
    show 14 + 2 + (12 + c.length) < 65536
    omega
  constructor
  · dsimp only
    rw [hframe]
    exact sent_buildFrame hfits
  · dsimp only
    rw [hframe]
    exact length_buildFrame hfits
  · cases first with
    | false => exact hsetup.command
    | true =>
        rcases contains_addDatagram hsetup hshort (UInt8.ofNat idx.val) false
          (dcArgs cfg clock) with ⟨irpt', hadded⟩
        exact hadded.command
  · intro hfirst
    dsimp only at hfirst
    subst hfirst
    have helength := hsetup.elength
    rw [hslot] at helength
    exact helength
  · cases first with
    | false => rfl
    | true =>
        have hoffset := offset_addDatagram hsetup hshort (UInt8.ofNat idx.val)
          false (dcArgs cfg clock)
        rw [hslot] at hoffset
        exact hoffset

theorem Sent.Framed.length_ge {cfg : BusConfig} {image clock : Nat -> UInt8}
    {e : Sent} (h : e.Framed cfg image clock) :
    ethHeaderSize + 3 ≤ e.frame.length := by
  rw [h.length, frameSize_args, ethHeaderSize]
  split <;> omega

/-!
## What is known of an answer
-/

def Sent.counted (e : Sent) (rx : Nat -> UInt8) : Int :=
  if e.chunk.command = .lwr then firstWkc e rx * 2 else firstWkc e rx

def Sent.written (e : Sent) (rx : Nat -> UInt8) : List (Nat × List UInt8) :=
  if e.chunk.command = .lwr then
    []
  else
    [(e.chunk.data, load rx ecHeaderSize e.chunk.length)]

section Answers

variable {cfg : BusConfig} {answer : AnswerRel} {image clock : Nat -> UInt8}
  {e : Sent} {p : Port} {wkc2 : Int}

theorem Received.command (h : Received answer e.idx e.frame p wkc2)
    (hkeeps : Keeps answer) (hframed : e.Framed cfg image clock) :
    p.rx e.idx 2 = e.chunk.command.code := by
  have hbyte := congrArg (fun xs => xs[2]?)
    (h.header hkeeps (hframed.length_ge))
  rw [getElem?_load (by decide), getElem?_load (by decide)] at hbyte
  rw [<- hframed.command]
  exact Option.some.inj hbyte

/-- Without the clock the work counter is that of the part. -/
theorem Received.wkc_eq (h : Received answer e.idx e.frame p wkc2)
    (hkeeps : Keeps answer) (hframed : e.Framed cfg image clock)
    (hsize : e.chunk.length ≤ maxSegment) (hfirst : e.first = false) :
    wkc2 = firstWkc e (p.rx e.idx) := by
  have hmax : maxSegment = 1466 := rfl
  have helength : load (p.rx e.idx) 0 2 =
      wordBytes (UInt16.ofNat (ecEcatType + (ecHeaderSize + e.chunk.length))) := by
    rw [<- hframed.elength hfirst]
    exact h.elength hkeeps hframed.length_ge
  have hshort : ecHeaderSize + e.chunk.length < 4096 := by
    rw [ecHeaderSize]
    omega
  rw [h.wkc, rxLength_of_elength hshort helength, workCounter_eq]
  rfl

theorem takeAnswer_eq (h : Received answer e.idx e.frame p wkc2)
    (hkeeps : Keeps answer) (hframed : e.Framed cfg image clock)
    (hsize : e.chunk.length ≤ maxSegment)
    (hkind : e.chunk.command = .lrd ∨ e.chunk.command = .lrw ∨
      e.chunk.command = .lwr)
    (x : Exchange) (hfirst : e.first = true -> x.wkc = 0) :
    takeAnswer e wkc2 (p.rx e.idx) x =
      { x with
        ioMap := stores x.ioMap (e.written (p.rx e.idx))
        wkc := x.wkc + e.counted (p.rx e.idx)
        dcTime :=
          if e.first then
            store x.dcTime 0 (load (p.rx e.idx) e.dcoffset 8)
          else
            x.dcTime
        validWkc := true } := by
  have hcommand := h.command hkeeps hframed
  unfold takeAnswer Sent.written Sent.counted
  rw [hcommand]
  cases hf : e.first with
  | true =>
      have hoffset : 0 < e.dcoffset := by
        rw [hframed.dcoffset, hf, if_pos rfl]
        exact Nat.lt_of_lt_of_le (by decide) (Nat.le_add_right _ _)
      simp only [hfirst hf, hoffset, if_true, Int.zero_add]
      rcases hkind with hc | hc | hc
      · rw [hc]
        rfl
      · rw [hc]
        rfl
      · rw [hc]
        rfl
  | false =>
      have hoffset : ¬0 < e.dcoffset := by
        rw [hframed.dcoffset, hf]
        exact Nat.lt_irrefl 0
      rw [<- h.wkc_eq hkeeps hframed hsize hf]
      simp only [hoffset, if_false, Bool.false_eq_true]
      rcases hkind with hc | hc | hc
      · rw [hc]
        rfl
      · rw [hc]
        rfl
      · rw [hc]
        rfl

end Answers

end Soem
end FrankaKistar
