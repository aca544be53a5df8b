import FrankaKistar.Foundation.Runs
import FrankaKistar.Soem.Exchange

/-!
# Accesses to the registers of stations

The primitives of `ethercatbase.c` and `ecx_FPRD_multi` take a buffer, build
their frame, send it with `ecx_srconfirm` until an answer arrives or the time is
up, copy the data that came back and release the buffer.  They differ in the
datagrams and in the work counter that makes them copy.
-/

namespace FrankaKistar
namespace Soem

open Foundation LittleEndian Ranges

/-- The data of answers with at least this work counter is copied; writes copy
none. -/
structure Request where
  first : DatagramArgs
  rest : List DatagramArgs
  least : Option Nat

def readRequest (command : EcCmd) (adp ado : UInt16) (data : List UInt8) :
    Request :=
  ⟨⟨command, adp, ado, data⟩, [], some 1⟩

def writeRequest (command : EcCmd) (adp ado : UInt16) (data : List UInt8) :
    Request :=
  ⟨⟨command, adp, ado, data⟩, [], none⟩

def bwr : UInt16 -> UInt16 -> List UInt8 -> Request := writeRequest .bwr

def brd : UInt16 -> UInt16 -> List UInt8 -> Request := readRequest .brd

def aprd : UInt16 -> UInt16 -> List UInt8 -> Request := readRequest .aprd

def armw : UInt16 -> UInt16 -> List UInt8 -> Request := readRequest .armw

def frmw : UInt16 -> UInt16 -> List UInt8 -> Request := readRequest .frmw

def fprd : UInt16 -> UInt16 -> List UInt8 -> Request := readRequest .fprd

def apwr : UInt16 -> UInt16 -> List UInt8 -> Request := writeRequest .apwr

def fpwr : UInt16 -> UInt16 -> List UInt8 -> Request := writeRequest .fpwr

/-- `ecx_FPRD_multi` also copies the data that no station has answered. -/
def fprdMulti (first : UInt16) (configlst : List UInt16) : Request :=
  ⟨alStatus first, configlst.map alStatus, some 0⟩

def Request.copies (r : Request) (wkc : Int) : Bool :=
  match r.least with
  | none => false
  | some least => decide ((least : Int) ≤ wkc)

def Request.lengths (r : Request) : List Nat :=
  (r.first :: r.rest).map fun d => d.data.length

def Request.Fits (r : Request) : Prop :=
  frameSize (r.first :: r.rest) ≤ ecMaxEcatFrame

instance (r : Request) : Decidable r.Fits :=
  inferInstanceAs (Decidable (frameSize (r.first :: r.rest) ≤ ecMaxEcatFrame))

/-- Up to 64 stations are asked in one frame. -/
theorem fits_fprdMulti (first : UInt16) {configlst : List UInt16}
    (h : configlst.length < 64) : (fprdMulti first configlst).Fits := by
  have hsize : frameSize (alStatus first :: configlst.map alStatus) =
      ethHeaderSize + ecElengthSize + (18 + (configlst.map fun _ => 18).sum) := by
    rw [frameSize, List.map_cons, List.sum_cons, List.map_map]
    rfl
  unfold Request.Fits
  show frameSize (alStatus first :: configlst.map alStatus) ≤ 1518
  rw [hsize, List.map_const', List.sum_replicate_nat]
  show 14 + 2 + (18 + configlst.length * 18) ≤ 1518
  omega

inductive AccessLoc where
  | requested
  | indexing (g : Getindex)
  | allocated (idx : Fin ecMaxBuf)
  | sending (idx : Fin ecMaxBuf) (offsets : List Nat)
  | polling (idx : Fin ecMaxBuf) (offsets : List Nat) (q : Inframe)
  | confirmed (idx : Fin ecMaxBuf) (offsets : List Nat) (wkc : Int)
  | releasing (idx : Fin ecMaxBuf) (wkc : Int)
      (data : Option (List (List UInt8)))
  | finished (wkc : Int) (data : Option (List (List UInt8)))

/-- The frame is kept for the statements only. -/
structure Access where
  request : Request
  loc : AccessLoc
  frame : TxBuffer

/-- The timers are those of `ecx_waitinframe` and of `ecx_srconfirm`. -/
inductive AccessEvent where
  | begin (request : Request)
  | allocate
  | scan
  | take
  | setup
  | transmit (ok : Bool)
  | poll (packet : Option Packet)
  | timer (late expired : Bool)
  | copy
  | release

/-!
## Steps
-/

def Access.start (request : Request) : Access :=
  ⟨request, .requested, emptyBuffer⟩

/-- What is copied from the answer, with what `ecx_srconfirm` returned. -/
def Request.copied (r : Request) (offsets : List Nat) (wkc : Int)
    (rx : Nat -> UInt8) : Option (List (List UInt8)) :=
  if r.copies wkc then
    some (List.zipWith (load rx) offsets r.lengths)
  else
    none

def accessStep : Machine (Port × Access) AccessEvent
  | (p, a), .begin request =>
      match a.loc with
      | .finished _ _ => some (p, Access.start request)
      | _ => none
  | (p, a), .allocate =>
      match a.loc with
      | .requested =>
          match p.lockIndex with
          | some (p', g) => some (p', { a with loc := .indexing g })
          | none => none
      | _ => none
  | (p, a), .scan =>
      match a.loc with
      | .indexing (.scan idx cnt) =>
          some (p, { a with loc := .indexing (p.scanIndex idx cnt) })
      | _ => none
  | (p, a), .take =>
      match a.loc with
      | .indexing (.take idx) =>
          some (p.takeIndex idx, { a with loc := .allocated idx })
      | _ => none
  | (p, a), .setup =>
      match a.loc with
      | .allocated idx =>
          let built := buildFrame (UInt8.ofNat idx.val) a.request.first
            a.request.rest (p.tx idx)
          some (p.setFrame idx built.2,
            { a with loc := .sending idx built.1, frame := built.2 })
      | _ => none
  | (p, a), .transmit ok =>
      match a.loc with
      | .sending idx offsets =>
          some (outframe idx ok p,
            { a with loc := .polling idx offsets .check })
      | _ => none
  | (p, a), .poll packet =>
      match a.loc with
      | .polling idx offsets q =>
          match inframeStep idx (p, q) packet with
          | some (p', q') => some (p', { a with loc := .polling idx offsets q' })
          | none => none
      | _ => none
  | (p, a), .timer late expired =>
      match a.loc with
      | .polling idx offsets (.returned wkc) =>
          if noFrame < wkc ∨ (late = true ∧ expired = true) then
            some (p, { a with loc := .confirmed idx offsets wkc })
          else if late then
            some (p, { a with loc := .sending idx offsets })
          else
            some (p, { a with loc := .polling idx offsets .check })
      | _ => none
  | (p, a), .copy =>
      match a.loc with
      | .confirmed idx offsets wkc =>
          some (p, { a with
            loc := .releasing idx wkc
              (a.request.copied offsets wkc (p.rx idx)) })
      | _ => none
  | (p, a), .release =>
      match a.loc with
      | .releasing idx wkc data =>
          some (p.setBufStat idx .empty, { a with loc := .finished wkc data })
      | _ => none

def AccessLoc.buffer : AccessLoc -> List (Fin ecMaxBuf)
  | .allocated idx => [idx]
  | .sending idx _ => [idx]
  | .polling idx _ _ => [idx]
  | .confirmed idx _ _ => [idx]
  | .releasing idx _ _ => [idx]
  | _ => []

def AccessLoc.rxMutex : AccessLoc -> Bool
  | .polling _ _ q => q.locked
  | _ => false

def AccessLoc.getindexMutex : AccessLoc -> Bool
  | .indexing _ => true
  | _ => false

def Access.held (a : Access) : Holding where
  buffers := a.loc.buffer
  rxMutex := a.loc.rxMutex
  getindexMutex := a.loc.getindexMutex

def AccessLoc.Timely (answer : AnswerRel) (p : Port) : AccessLoc -> Prop
  | .polling idx _ q => q.Genuine answer idx p
  | .releasing idx _ _ => p.putting ≠ some idx
  | _ => True

/-- Requests fit a buffer, a buffer is empty when the search begins, and frames
are sent. -/
def AccessEvent.Expected (p : Port) : AccessEvent -> Prop
  | .begin request => request.Fits
  | .allocate => exists i, p.rxbufstat i = .empty
  | .transmit ok => ok = true
  | _ => True

/-!
## What is returned
-/

/-- The frame and the answer to it from which the result comes: the data is that
of the answer's datagrams, and the work counter that of the last one. -/
structure Confirmed (answer : AnswerRel) (r : Request) (wkc : Int)
    (data : Option (List (List UInt8))) (idx : Fin ecMaxBuf) (frame : TxBuffer)
    (packet : Packet) : Prop where
  sent : decodeFrame frame.packet = some
    ((r.first :: r.rest).map (DatagramArgs.datagram (UInt8.ofNat idx.val)))
  carries : Carries idx packet
  answer : answer frame packet
  data : forall answers : List Slot,
    (answers.map fun s => s.data.length) = r.lengths ->
    load packet (ethHeaderSize + ecElengthSize) (totalSize answers) =
      answers.flatMap Slot.bytes ->
    data = if r.copies wkc then some (answers.map Slot.data) else none
  wkc : forall (answers : List Slot) (last : Slot),
    ((answers ++ [last]).map fun s => s.data.length) = r.lengths ->
    load packet (ethHeaderSize + ecElengthSize) (totalSize (answers ++ [last])) =
      (answers ++ [last]).flatMap Slot.bytes ->
    wkc = last.wkc.toNat

/-- An access that ends without an answer returns no data. -/
def Access.Outcome (answer : AnswerRel) (r : Request) (wkc : Int)
    (data : Option (List (List UInt8))) : Prop :=
  (wkc ≤ noFrame ∧ data = none) ∨
    exists idx frame packet, Confirmed answer r wkc data idx frame packet

/-- The frame was built from the request, and this is where its data is. -/
def Access.Built (a : Access) (idx : Fin ecMaxBuf) (offsets : List Nat) : Prop :=
  exists old, buildFrame (UInt8.ofNat idx.val) a.request.first a.request.rest
    old = (offsets, a.frame)

def Access.At (answer : AnswerRel) (p : Port) (a : Access) : Prop :=
  match a.loc with
  | .requested => True
  | .indexing g => g.Finds p
  | .allocated idx => p.rxbufstat idx = .alloc
  | .sending idx offsets =>
      p.rxbufstat idx ≠ .empty ∧ p.tx idx = a.frame ∧ a.Built idx offsets
  | .polling idx offsets q =>
      q.Inv answer idx a.frame p ∧ a.Built idx offsets
  | .confirmed idx offsets wkc =>
      Polled answer idx a.frame p wkc ∧ a.Built idx offsets
  | .releasing idx wkc data =>
      p.rxbufstat idx ≠ .empty ∧ Access.Outcome answer a.request wkc data
  | .finished wkc data => Access.Outcome answer a.request wkc data

structure Access.Inv (answer : AnswerRel) (p : Port) (a : Access) : Prop where
  fits : a.request.Fits
  place : a.At answer p
  getindexMutex : a.loc.getindexMutex = true -> p.getindexMutex = true

/-!
## The answer to a request
-/

section Answers

variable {answer : AnswerRel} {r : Request} {idx : Fin ecMaxBuf}
  {offsets : List Nat} {old frame : TxBuffer} {p : Port} {wkc : Int}

theorem frameSize_of_lengths {ds : List DatagramArgs} {answers : List Slot}
    (h : (answers.map fun s => s.data.length) = ds.map fun d => d.data.length) :
    frameSize ds = ethHeaderSize + ecElengthSize + totalSize answers := by
  have hsizes : ds.map DatagramArgs.size = answers.map Slot.size := by
    have hmap := congrArg (fun ns => ns.map fun n => ecHeaderSize + n) h
    rw [List.map_map, List.map_map] at hmap
    exact hmap.symm
  rw [frameSize, hsizes]
  rfl

theorem length_of_built (hfits : r.Fits)
    (hbuilt : buildFrame (UInt8.ofNat idx.val) r.first r.rest old =
      (offsets, frame)) :
    frame.length = frameSize (r.first :: r.rest) := by
  have hlength : (buildFrame (UInt8.ofNat idx.val) r.first r.rest old).2.length =
      frameSize (r.first :: r.rest) := length_buildFrame hfits
  rw [hbuilt] at hlength
  exact hlength

theorem length_ge_of_built (hfits : r.Fits)
    (hbuilt : buildFrame (UInt8.ofNat idx.val) r.first r.rest old =
      (offsets, frame)) : ethHeaderSize + 3 ≤ frame.length := by
  rw [length_of_built hfits hbuilt, frameSize, List.map_cons, List.sum_cons,
    DatagramArgs.size]
  show 14 + 3 ≤ 14 + 2 + (12 + r.first.data.length + _)
  omega

theorem elength_of_built (hfits : r.Fits)
    (hbuilt : buildFrame (UInt8.ofNat idx.val) r.first r.rest old =
      (offsets, frame)) {t : Nat}
    (ht : frameSize (r.first :: r.rest) = ethHeaderSize + ecElengthSize + t) :
    load frame.bytes ethHeaderSize 2 = wordBytes (UInt16.ofNat (ecEcatType + t)) := by
  have hextended : exists irpt added,
      Extended (UInt8.ofNat idx.val)
        [r.first.slot (UInt8.ofNat idx.val) false irpt] r.rest
        (buildFrame (UInt8.ofNat idx.val) r.first r.rest old).2 added :=
    extended_buildFrame hfits
  rcases hextended with ⟨_, added, hadded⟩
  have hcontains := hadded.contains
  have hlength := length_of_built hfits hbuilt
  rw [hbuilt] at hcontains
  rw [hcontains.length] at hlength
  have htotal : totalSize added = t := Nat.add_left_cancel (hlength.trans ht)
  rw [<- htotal]
  exact hcontains.elength

theorem flatMap_bytes_concat (answers : List Slot) (last : Slot) :
    exists before, (answers ++ [last]).flatMap Slot.bytes =
        before ++ wordBytes last.wkc ∧
      before.length + ecWkcSize = totalSize (answers ++ [last]) := by
  refine ⟨answers.flatMap Slot.bytes ++ (last.address ++ wordBytes last.dlength ++
    (wordBytes last.irpt ++ last.data)), ?_, ?_⟩
  · rw [List.flatMap_append, List.flatMap_singleton, Slot.bytes, Slot.body]
    simp only [List.append_assoc]
  · rw [totalSize_append, totalSize_cons, List.length_append,
      length_flatMap_bytes, Slot.size, Slot.address]
    simp only [List.length_append, List.length_cons, List.length_nil,
      length_wordBytes]
    show _ = totalSize answers + (12 + last.data.length + 0)
    unfold ecWkcSize
    omega

theorem load_of_taken {packet : Packet}
    (h : Taken answer idx frame (p.rx idx) packet)
    (hlength : frame.length = frameSize (r.first :: r.rest))
    {answers : List Slot}
    (hshape : (answers.map fun s => s.data.length) = r.lengths)
    (hbytes : load packet (ethHeaderSize + ecElengthSize) (totalSize answers) =
      answers.flatMap Slot.bytes) :
    load (p.rx idx) ecElengthSize (totalSize answers) =
      answers.flatMap Slot.bytes := by
  have hsize := frameSize_of_lengths hshape
  have hcopied := h.copied
  rw [hlength, hsize, Nat.add_assoc, Nat.add_sub_cancel_left, load_add,
    load_add] at hcopied
  have hrest := List.append_inj_right hcopied (by
    rw [length_load, length_load])
  rw [Nat.zero_add] at hrest
  exact hrest.trans hbytes

theorem confirmed_of_received (h : Received answer idx frame p wkc)
    (hkeeps : Keeps answer) (hfits : r.Fits)
    (hbuilt : buildFrame (UInt8.ofNat idx.val) r.first r.rest old =
      (offsets, frame)) :
    exists packet, Confirmed answer r wkc
      (r.copied offsets wkc (p.rx idx)) idx frame packet := by
  have hsent : decodeFrame
      (buildFrame (UInt8.ofNat idx.val) r.first r.rest old).2.packet =
      some ((r.first :: r.rest).map
        (DatagramArgs.datagram (UInt8.ofNat idx.val))) := sent_buildFrame hfits
  have hoffsets : (buildFrame (UInt8.ofNat idx.val) r.first r.rest old).1 =
      dataOffsets 0 r.lengths := offsets_buildFrame hfits
  have hlength := length_of_built hfits hbuilt
  rw [hbuilt] at hsent hoffsets
  rcases h.taken with ⟨packet, htaken⟩
  refine ⟨packet, hsent, htaken.carries, htaken.answer, ?_, ?_⟩
  · intro answers hshape hbytes
    have hdata := zipWith_load_dataOffsets (t := 0)
      (load_of_taken htaken hlength hshape hbytes)
    rw [hshape] at hdata
    dsimp only at hoffsets
    rw [Request.copied, hoffsets, hdata]
  · intro answers last hshape hbytes
    have hbytes' := load_of_taken htaken hlength hshape hbytes
    rcases flatMap_bytes_concat answers last with ⟨before, hsplit, hbefore⟩
    have hsize := frameSize_of_lengths hshape
    have helength := h.elength hkeeps (length_ge_of_built hfits hbuilt)
    rw [elength_of_built hfits hbuilt hsize] at helength
    have hshort : totalSize (answers ++ [last]) < 4096 := by
      unfold Request.Fits at hfits
      rw [hsize] at hfits
      unfold ecMaxEcatFrame at hfits
      omega
    have hword : load (p.rx idx) (totalSize (answers ++ [last])) 2 =
        wordBytes last.wkc := by
      rw [<- List.append_nil (wordBytes last.wkc), <- List.append_assoc] at hsplit
      have hlast := load_middle (hbytes'.trans hsplit)
      rw [<- hbefore, Nat.add_comm before.length]
      exact hlast
    rw [h.wkc, rxLength_of_elength hshort helength, workCounter_eq,
      loadWord_of_load hword]

theorem outcome_of_polled {a : Access} (hkeeps : Keeps answer)
    (hfits : a.request.Fits) (hbuilt : a.Built idx offsets)
    (hpolled : Polled answer idx a.frame p wkc) :
    Access.Outcome answer a.request wkc
      (a.request.copied offsets wkc (p.rx idx)) := by
  rcases hbuilt with ⟨old, hbuilt⟩
  rcases lt_or_ge noFrame wkc with hfound | hmissed
  · rcases confirmed_of_received (hpolled.found hfound) hkeeps hfits hbuilt with
      ⟨packet, hconfirmed⟩
    exact Or.inr ⟨idx, a.frame, packet, hconfirmed⟩
  · refine Or.inl ⟨hmissed, if_neg ?_⟩
    unfold Request.copies
    unfold noFrame at hmissed
    split
    · exact Bool.false_ne_true
    · rw [decide_eq_true_iff]
      omega

end Answers

/-!
## Every step
-/

section Steps

variable {answer : AnswerRel} {p p' : Port} {a a' : Access}

theorem Access.Inv.busy (h : a.Inv answer p) {idx : Fin ecMaxBuf}
    (hidx : idx ∈ a.loc.buffer) : p.rxbufstat idx ≠ .empty := by
  have hplace := h.place
  unfold Access.At at hplace
  cases hloc : a.loc with
  | allocated other =>
      rw [hloc] at hplace hidx
      rw [List.mem_singleton.mp hidx, hplace]
      exact nofun
  | sending other offsets =>
      rw [hloc] at hplace hidx
      rw [List.mem_singleton.mp hidx]
      exact hplace.left
  | polling other offsets q =>
      rw [hloc] at hplace hidx
      rw [List.mem_singleton.mp hidx]
      exact hplace.left.busy
  | confirmed other offsets wkc =>
      rw [hloc] at hplace hidx
      rw [List.mem_singleton.mp hidx]
      exact hplace.left.busy
  | releasing other wkc data =>
      rw [hloc] at hplace hidx
      rw [List.mem_singleton.mp hidx]
      exact hplace.left
  | _ =>
      rw [hloc] at hidx
      cases hidx

theorem Access.Inv.marked (h : a.Inv answer p) : a.held.Marked p := by
  constructor
  · exact fun idx hidx => h.busy hidx
  · intro hlocked
    change a.loc.rxMutex = true at hlocked
    have hplace := h.place
    unfold Access.At at hplace
    cases hloc : a.loc with
    | polling idx offsets q =>
        rw [hloc] at hplace hlocked
        exact hplace.left.rxMutex hlocked
    | _ =>
        rw [hloc] at hlocked
        cases hlocked
  · exact h.getindexMutex

theorem Access.Inv.kept (h : a.Inv answer p) (hrely : Rely answer p p' a.held) :
    a.Inv answer p' := by
  have hbuffer : forall idx, idx ∈ a.loc.buffer -> Undisturbed answer p p' idx :=
    hrely.buffers
  have hrx : a.loc.rxMutex = true -> RxKept p p' := hrely.rxMutex
  have hindex : a.loc.getindexMutex = true -> IndexKept p p' :=
    hrely.getindexMutex
  refine ⟨h.fits, ?_, fun hlocked => ?_⟩
  · have hplace := h.place
    unfold Access.At at hplace ⊢
    cases hloc : a.loc with
    | requested => exact True.intro
    | indexing g =>
        rw [hloc] at hplace hindex
        exact hplace.kept (hindex rfl).unused
    | allocated idx =>
        rw [hloc] at hplace hbuffer
        exact ((hbuffer idx List.mem_cons_self).same hplace nofun).left
    | sending idx offsets =>
        rw [hloc] at hplace hbuffer
        have hidx := hbuffer idx List.mem_cons_self
        exact ⟨fun hempty => hplace.left (hidx.empty_iff.mp hempty),
          hidx.tx.trans hplace.right.left, hplace.right.right⟩
    | polling idx offsets q =>
        rw [hloc] at hplace hbuffer hrx
        exact ⟨hplace.left.kept (hbuffer idx List.mem_cons_self) hrx,
          hplace.right⟩
    | confirmed idx offsets wkc =>
        rw [hloc] at hplace hbuffer
        exact ⟨hplace.left.kept (hbuffer idx List.mem_cons_self), hplace.right⟩
    | releasing idx wkc data =>
        rw [hloc] at hplace hbuffer
        refine ⟨fun hempty => ?_, hplace.right⟩
        exact hplace.left
          ((hbuffer idx List.mem_cons_self).empty_iff.mp hempty)
    | finished wkc data =>
        rw [hloc] at hplace
        exact hplace
  · rw [(hindex hlocked).locked]
    exact h.getindexMutex hlocked

theorem mem_held_accessStep {event : AccessEvent} {idx : Fin ecMaxBuf}
    (hstep : accessStep (p, a) event = some (p', a'))
    (hidx : idx ∈ a'.held.buffers) :
    idx ∈ a.held.buffers ∨ a.loc = .indexing (.take idx) := by
  change idx ∈ a'.loc.buffer at hidx
  show idx ∈ a.loc.buffer ∨ _
  cases event with
  | take =>
      simp only [accessStep] at hstep
      split at hstep
      · rename_i hloc
        cases hstep
        rw [List.mem_singleton.mp hidx]
        exact Or.inr hloc
      · cases hstep
  | timer late expired =>
      simp only [accessStep] at hstep
      split at hstep
      · rename_i hloc
        rw [hloc]
        split_ifs at hstep
        · cases hstep
          exact Or.inl hidx
        · cases hstep
          exact Or.inl hidx
        · cases hstep
          exact Or.inl hidx
      · cases hstep
  | allocate =>
      simp only [accessStep] at hstep
      split at hstep
      · split at hstep
        · cases hstep
          cases hidx
        · cases hstep
      · cases hstep
  | poll packet =>
      simp only [accessStep] at hstep
      split at hstep
      · rename_i hloc
        rw [hloc]
        split at hstep
        · cases hstep
          exact Or.inl hidx
        · cases hstep
      · cases hstep
  | release =>
      simp only [accessStep] at hstep
      split at hstep
      · cases hstep
        cases hidx
      · cases hstep
  | _ =>
      simp only [accessStep] at hstep
      split at hstep
      · rename_i hloc
        rw [hloc]
        cases hstep
        exact Or.inl hidx
      · cases hstep

structure Access.Stepped (answer : AnswerRel) (p : Port) (a : Access) (p' : Port)
    (a' : Access) : Prop where
  inv : a'.Inv answer p'
  guarantee : Guarantee answer p p' a.held a'.held

theorem access_same (h : a'.Inv answer p) (hheld : a.held = a'.held) :
    Access.Stepped answer p a p a' :=
  ⟨h, Guarantee.of_eq answer p hheld⟩

theorem access_allocate {g : Getindex} (h : a.Inv answer p)
    (hloc : a.loc = .requested) (hempty : exists i, p.rxbufstat i = .empty)
    (hlock : p.lockIndex = some (p', g)) :
    Access.Stepped answer p a p' { a with loc := .indexing g } := by
  have hguarantee : Guarantee answer p p' a.held
      ({ a with loc := .indexing g } : Access).held := by
    unfold Access.held
    rw [hloc]
    exact guarantee_lockIndex hlock
  unfold Port.lockIndex at hlock
  split at hlock
  · cases hlock
  · cases hlock
    exact ⟨⟨h.fits, finds_start hempty, fun _ => rfl⟩, hguarantee⟩

theorem access_take {idx : Fin ecMaxBuf} (h : a.Inv answer p)
    (hloc : a.loc = .indexing (.take idx)) (hempty : p.rxbufstat idx = .empty) :
    Access.Stepped answer p a (p.takeIndex idx)
      { a with loc := .allocated idx } := by
  constructor
  · exact ⟨h.fits, Function.update_self _ _ _, nofun⟩
  · unfold Access.held
    rw [hloc]
    exact guarantee_takeIndex hempty

theorem access_setup {idx : Fin ecMaxBuf} (h : a.Inv answer p)
    (hloc : a.loc = .allocated idx) (halloc : p.rxbufstat idx = .alloc)
    {built : List Nat × TxBuffer}
    (hbuilt : built = buildFrame (UInt8.ofNat idx.val) a.request.first
      a.request.rest (p.tx idx)) :
    Access.Stepped answer p a (p.setFrame idx built.2)
      { a with loc := .sending idx built.1, frame := built.2 } := by
  have hheld : idx ∈ a.loc.buffer := by
    rw [hloc]
    exact List.mem_cons_self
  have hbusy := h.busy hheld
  have hnot : p.rxbufstat idx ≠ .tx := by
    rw [halloc]
    exact nofun
  constructor
  · exact ⟨h.fits, ⟨hbusy, Function.update_self _ _ _, p.tx idx, hbuilt.symm⟩,
      nofun⟩
  · unfold Access.held
    rw [hloc]
    exact (touches_setFrame answer idx built.2 p).guarantee List.mem_cons_self
      hbusy (fun _ => Iff.rfl) (fun _ _ => ⟨rfl, rxKept_setFrame hnot⟩) rfl rfl

theorem access_transmit {idx : Fin ecMaxBuf} {offsets : List Nat}
    (h : a.Inv answer p) (hloc : a.loc = .sending idx offsets)
    (htx : p.tx idx = a.frame) (hbuilt : a.Built idx offsets) :
    Access.Stepped answer p a (outframe idx true p)
      { a with loc := .polling idx offsets .check } := by
  have hheld : idx ∈ a.loc.buffer := by
    rw [hloc]
    exact List.mem_cons_self
  have hbusy := h.busy hheld
  have hflying := inFlight_outframe answer idx p
  rw [htx] at hflying
  constructor
  · exact ⟨h.fits, ⟨⟨hflying, nofun⟩, hbuilt⟩, nofun⟩
  · unfold Access.held
    rw [hloc]
    exact (touches_setBufStat answer idx .tx p).guarantee List.mem_cons_self
      hbusy (fun _ => Iff.rfl)
      (fun _ _ => ⟨rfl, rxKept_setBufStat fun _ _ => rfl⟩) rfl rfl

theorem access_poll {idx : Fin ecMaxBuf} {offsets : List Nat} {q q' : Inframe}
    {packet : Option Packet} (h : a.Inv answer p)
    (hloc : a.loc = .polling idx offsets q) (hq : q.Inv answer idx a.frame p)
    (hbuilt : a.Built idx offsets) (hgenuine : q.Genuine answer idx p)
    (hnext : inframeStep idx (p, q) packet = some (p', q')) :
    Access.Stepped answer p a p' { a with loc := .polling idx offsets q' } := by
  have hlength : ethHeaderSize + 3 ≤ a.frame.length := by
    rcases hbuilt with ⟨old, hbuilt⟩
    exact length_ge_of_built h.fits hbuilt
  have hstepped :=
    inframeStep_stepped hq (Nat.le_of_succ_le hlength) hgenuine hnext
  constructor
  · exact ⟨h.fits, ⟨hstepped.inv, hbuilt⟩, nofun⟩
  · unfold Access.held
    rw [hloc]
    exact hstepped.guarantee hq.busy List.mem_cons_self

theorem access_release {idx : Fin ecMaxBuf} {wkc : Int}
    {data : Option (List (List UInt8))} (h : a.Inv answer p)
    (hloc : a.loc = .releasing idx wkc data)
    (hbusy : p.rxbufstat idx ≠ .empty)
    (houtcome : Access.Outcome answer a.request wkc data)
    (hputting : p.putting ≠ some idx) :
    Access.Stepped answer p a (p.setBufStat idx .empty)
      { a with loc := .finished wkc data } := by
  constructor
  · exact ⟨h.fits, houtcome, nofun⟩
  · unfold Access.held
    rw [hloc]
    exact guarantee_release hputting hbusy

theorem accessStep_stepped (hkeeps : Keeps answer) (h : a.Inv answer p)
    {event : AccessEvent} (htimely : a.loc.Timely answer p)
    (hexpected : event.Expected p)
    (hstep : accessStep (p, a) event = some (p', a')) :
    Access.Stepped answer p a p' a' := by
  have hplace := h.place
  have hfits := h.fits
  unfold Access.At at hplace
  cases event with
  | begin request =>
      simp only [accessStep] at hstep
      split at hstep
      · rename_i hloc
        cases hstep
        refine access_same ⟨hexpected, True.intro, nofun⟩ ?_
        rw [Access.held, hloc]
        rfl
      · cases hstep
  | allocate =>
      simp only [accessStep] at hstep
      split at hstep
      · rename_i hloc
        split at hstep
        · rename_i hlock
          cases hstep
          exact access_allocate h hloc hexpected hlock
        · cases hstep
      · cases hstep
  | scan =>
      simp only [accessStep] at hstep
      split at hstep
      · rename_i hloc
        rw [hloc] at hplace
        have hlocked := h.getindexMutex (by rw [hloc]; rfl)
        cases hstep
        refine access_same ⟨hfits, finds_scanIndex hplace, fun _ => hlocked⟩ ?_
        unfold Access.held
        rw [hloc]
        rfl
      · cases hstep
  | take =>
      simp only [accessStep] at hstep
      split at hstep
      · rename_i hloc
        rw [hloc] at hplace
        cases hstep
        exact access_take h hloc hplace
      · cases hstep
  | setup =>
      simp only [accessStep] at hstep
      split at hstep
      · rename_i hloc
        rw [hloc] at hplace
        cases hstep
        exact access_setup h hloc hplace rfl
      · cases hstep
  | transmit ok =>
      have hok : ok = true := hexpected
      subst hok
      simp only [accessStep] at hstep
      split at hstep
      · rename_i hloc
        rw [hloc] at hplace
        cases hstep
        exact access_transmit h hloc hplace.right.left hplace.right.right
      · cases hstep
  | poll packet =>
      simp only [accessStep] at hstep
      split at hstep
      · rename_i hloc
        rw [hloc] at hplace htimely
        split at hstep
        · rename_i hnext
          cases hstep
          exact access_poll h hloc hplace.left hplace.right htimely hnext
        · cases hstep
      · cases hstep
  | timer late expired =>
      simp only [accessStep] at hstep
      split at hstep
      · rename_i idx offsets wkc hloc
        rw [hloc] at hplace
        have hpolled : Polled answer idx a.frame p wkc := hplace.left.place
        split at hstep
        · cases hstep
          refine access_same ⟨hfits, ⟨hpolled, hplace.right⟩, nofun⟩ ?_
          unfold Access.held
          rw [hloc]
          rfl
        · rename_i hagain
          have hmissed := hpolled.missed
            (not_lt.mp fun hlt => hagain (Or.inl hlt))
          split at hstep
          · cases hstep
            refine access_same ⟨hfits, ⟨hmissed.busy, hmissed.tx, hplace.right⟩,
              nofun⟩ ?_
            unfold Access.held
            rw [hloc]
            rfl
          · cases hstep
            refine access_same ⟨hfits, ⟨⟨hmissed, nofun⟩, hplace.right⟩,
              nofun⟩ ?_
            unfold Access.held
            rw [hloc]
            rfl
      · cases hstep
  | copy =>
      simp only [accessStep] at hstep
      split at hstep
      · rename_i hloc
        rw [hloc] at hplace
        cases hstep
        refine access_same ⟨hfits, ⟨hplace.left.busy, outcome_of_polled hkeeps
          hfits hplace.right hplace.left⟩, nofun⟩ ?_
        unfold Access.held
        rw [hloc]
        rfl
      · cases hstep
  | release =>
      simp only [accessStep] at hstep
      split at hstep
      · rename_i hloc
        rw [hloc] at hplace htimely
        cases hstep
        exact access_release h hloc hplace.left hplace.right htimely
      · cases hstep

end Steps

end Soem
end FrankaKistar
