import FrankaKistar.Foundation.Runs
import FrankaKistar.Soem.Datagram
import Mathlib.Data.Fin.Basic
import Mathlib.Logic.Function.Basic

/-!
# The network driver

The threads of the program share one port: sixteen buffers, each with the frame
to be sent, the frame that came back and a status.  A thread takes an empty
buffer, sends its frame and polls the socket for the answer; an answer that it
finds for another buffer is put there.  The secondary port of the redundant mode
is left out, since `ec_init` opens none.

The statuses are loaded and stored without a common mutex, so `ecx_getindex` and
`ecx_inframe` are taken apart: a step loads or stores one thing that another
thread may use at that moment.
-/

namespace FrankaKistar
namespace Soem

open Foundation LittleEndian Ranges

abbrev ecMaxBuf : Nat := 16

/-- `EC_BUF_EMPTY` to `EC_BUF_COMPLETE`. -/
inductive BufStat where
  | empty | alloc | tx | rcvd | complete
deriving DecidableEq

/-- The mutexes are locked or not.  The buffer that the holder of `rx_mutex` has
found waiting and has not yet marked is kept for the statements only. -/
structure Port where
  tx : Fin ecMaxBuf -> TxBuffer
  rx : Fin ecMaxBuf -> Nat -> UInt8
  rxbufstat : Fin ecMaxBuf -> BufStat
  lastidx : Fin ecMaxBuf
  getindexMutex : Bool
  rxMutex : Bool
  putting : Option (Fin ecMaxBuf)

/-- The buffer of the socket after a frame has been read into it. -/
abbrev Packet : Type := Nat -> UInt8

def noFrame : Int := -1
def otherFrame : Int := -2

/-- `ecx_setbufstat`. -/
def Port.setBufStat (p : Port) (idx : Fin ecMaxBuf) (bufstat : BufStat) :
    Port :=
  { p with rxbufstat := Function.update p.rxbufstat idx bufstat }

/-!
## Taking a buffer
-/

def nextIndex (idx : Fin ecMaxBuf) : Fin ecMaxBuf :=
  if h : idx.val + 1 < ecMaxBuf then ⟨idx.val + 1, h⟩ else ⟨0, by decide⟩

/-- Where a thread is in `ecx_getindex` while it holds `getindex_mutex`: at the
load of a status, with so many left, or at the store. -/
inductive Getindex where
  | scan (idx : Fin ecMaxBuf) (cnt : Nat)
  | take (idx : Fin ecMaxBuf)

def Port.lockIndex (p : Port) : Option (Port × Getindex) :=
  if p.getindexMutex then
    none
  else
    some ({ p with getindexMutex := true },
      .scan (nextIndex p.lastidx) ecMaxBuf)

/-- After a whole turn the search gives up. -/
def Port.scanIndex (p : Port) (idx : Fin ecMaxBuf) : Nat -> Getindex
  | 0 => .take idx
  | cnt + 1 =>
      if p.rxbufstat idx = .empty then .take idx else .scan (nextIndex idx) cnt

def Port.takeIndex (p : Port) (idx : Fin ecMaxBuf) : Port :=
  { p with
    rxbufstat := Function.update p.rxbufstat idx .alloc
    lastidx := idx
    getindexMutex := false }

/-!
## Sending
-/

def Port.setFrame (p : Port) (idx : Fin ecMaxBuf) (frame : TxBuffer) : Port :=
  { p with tx := Function.update p.tx idx frame }

/-- `ecx_outframe`, with what `send` returns. -/
def outframe (idx : Fin ecMaxBuf) (ok : Bool) (p : Port) : Port :=
  let p := p.setBufStat idx .tx
  if ok then p else p.setBufStat idx .empty

/-!
## Polling
-/

/-- The type of the frame is `ETH_P_ECAT`. -/
def isEcat (packet : Packet) : Bool := packet 12 == 0x88 && packet 13 == 0xA4

def packetIndex (packet : Packet) : UInt8 := packet 17

def rxLength (rx : Nat -> UInt8) : Nat := (rx 0).toNat + (rx 1).toNat % 16 * 256

def workCounter (rx : Nat -> UInt8) (l : Nat) : Int :=
  ((rx l).toNat + (rx (l + 1)).toNat * 256 : Nat)

def Port.copyFrame (p : Port) (idx : Fin ecMaxBuf) (packet : Packet) : Port :=
  { p with
    rx := Function.update p.rx idx
      (store (p.rx idx) 0
        (load packet ethHeaderSize ((p.tx idx).length - ethHeaderSize))) }

/-- Where a thread is in `ecx_inframe`; the frame is in the temporary buffer, which
only the holder of `rx_mutex` uses. -/
inductive Inframe where
  | check
  | take
  | lock
  | recv
  | sort (packet : Packet)
  | copy (other : Fin ecMaxBuf) (packet : Packet)
  | mark (other : Fin ecMaxBuf) (packet : Packet)
  | unlock (rval : Int)
  | returned (rval : Int)

def Port.sortOther (p : Port) (other : Fin ecMaxBuf) (packet : Packet) :
    Port × Inframe :=
  if p.rxbufstat other = .tx then
    ({ p with putting := some other }, .copy other packet)
  else
    (p, .unlock otherFrame)

/-- The thread's own answer is not looked at by others, so it is copied and marked
at once. -/
def Port.sortPacket (p : Port) (idx : Fin ecMaxBuf) (packet : Packet) :
    Port × Inframe :=
  if isEcat packet then
    if packetIndex packet = UInt8.ofNat idx.val then
      let copied := p.copyFrame idx packet
      (copied.setBufStat idx .complete,
        .unlock (workCounter (copied.rx idx)
          (rxLength fun k => packet (ethHeaderSize + k))))
    else if h : (packetIndex packet).toNat < ecMaxBuf then
      p.sortOther ⟨(packetIndex packet).toNat, h⟩ packet
    else
      (p, .unlock otherFrame)
  else
    (p, .unlock otherFrame)

/-- The statements of `ecx_inframe`, with what the socket has when it is read. -/
def inframeStep (idx : Fin ecMaxBuf) :
    Machine (Port × Inframe) (Option Packet)
  | (p, .check), _ =>
      some (p, if p.rxbufstat idx = .rcvd then .take else .lock)
  | (p, .take), _ =>
      some (p.setBufStat idx .complete,
        .returned (workCounter (p.rx idx) (rxLength (p.rx idx))))
  | (p, .lock), _ =>
      if p.rxMutex then none else some ({ p with rxMutex := true }, .recv)
  | (p, .recv), none => some (p, .unlock noFrame)
  | (p, .recv), some packet => some (p, .sort packet)
  | (p, .sort packet), _ => some (p.sortPacket idx packet)
  | (p, .copy other packet), _ =>
      some (p.copyFrame other packet, .mark other packet)
  | (p, .mark other _), _ =>
      some ({ p.setBufStat other .rcvd with putting := none },
        .unlock otherFrame)
  | (p, .unlock rval), _ => some ({ p with rxMutex := false }, .returned rval)
  | (_, .returned _), _ => none

/-- The thread holds `rx_mutex`. -/
def Inframe.locked : Inframe -> Bool
  | .recv => true
  | .sort _ => true
  | .copy _ _ => true
  | .mark _ _ => true
  | .unlock _ => true
  | _ => false

/-!
## An empty buffer is found
-/

theorem nextIndex_val (idx : Fin ecMaxBuf) :
    (nextIndex idx).val = (idx.val + 1) % ecMaxBuf := by
  have hlt := idx.isLt
  unfold nextIndex
  unfold ecMaxBuf at hlt ⊢
  split
  · show idx.val + 1 = (idx.val + 1) % 16
    omega
  · show 0 = (idx.val + 1) % 16
    omega

/-- One of the buffers that the search is going to load is empty, or the one that
it has found. -/
def Getindex.Finds (p : Port) : Getindex -> Prop
  | .scan idx cnt => exists k i, k < cnt ∧
      i.val = (idx.val + k) % ecMaxBuf ∧ p.rxbufstat i = .empty
  | .take idx => p.rxbufstat idx = .empty

variable {p p' : Port} {idx : Fin ecMaxBuf} {g : Getindex}

theorem finds_start (h : exists i, p.rxbufstat i = .empty) :
    (Getindex.scan (nextIndex p.lastidx) ecMaxBuf).Finds p := by
  rcases h with ⟨i, hi⟩
  have hlt := i.isLt
  have hlt' := (nextIndex p.lastidx).isLt
  refine ⟨(i.val + 16 - (nextIndex p.lastidx).val) % 16, i,
    Nat.mod_lt _ (by decide), ?_, hi⟩
  unfold ecMaxBuf at hlt hlt' ⊢
  omega

theorem finds_scanIndex {cnt : Nat} (h : (Getindex.scan idx cnt).Finds p) :
    (p.scanIndex idx cnt).Finds p := by
  rcases h with ⟨k, i, hk, hi, hempty⟩
  cases cnt with
  | zero => exact absurd hk (Nat.not_lt_zero k)
  | succ cnt =>
      rw [Port.scanIndex]
      split
      · rename_i hhere
        exact hhere
      · rename_i hbusy
        cases k with
        | zero =>
            have hhere : i = idx := by
              apply Fin.ext
              rw [hi]
              exact Nat.mod_eq_of_lt idx.isLt
            rw [hhere] at hempty
            exact absurd hempty hbusy
        | succ k =>
            refine ⟨k, i, Nat.lt_of_succ_lt_succ hk, ?_, hempty⟩
            rw [hi, nextIndex_val, Nat.mod_add_mod]
            congr 1
            omega

theorem Getindex.Finds.kept (h : g.Finds p)
    (hunused : forall i, p.rxbufstat i = .empty -> p'.rxbufstat i = .empty) :
    g.Finds p' := by
  cases g with
  | scan idx cnt =>
      rcases h with ⟨k, i, hk, hi, hempty⟩
      exact ⟨k, i, hk, hi, hunused i hempty⟩
  | take idx => exact hunused idx h

/-!
## Work counters
-/

theorem noFrame_lt_workCounter (rx : Nat -> UInt8) (l : Nat) :
    noFrame < workCounter rx l := by
  unfold noFrame workCounter
  omega

theorem lowByte_toNat (w : UInt16) : (lowByte w).toNat = w.toNat % 256 := rfl

theorem highByte_toNat (w : UInt16) :
    (highByte w).toNat = w.toNat / 256 % 256 := rfl

theorem rxLength_of_elength {rx : Nat -> UInt8} {t : Nat} (ht : t < 4096)
    (h : load rx 0 2 = wordBytes (UInt16.ofNat (ecEcatType + t))) :
    rxLength rx = t := by
  have hlow := (List.cons.inj h).left
  have hhigh := (List.cons.inj (List.cons.inj h).right).left
  have hword : (UInt16.ofNat (ecEcatType + t)).toNat = 4096 + t :=
    UInt16.toNat_ofNat_of_lt' (by
      show 4096 + t < 65536
      omega)
  rw [rxLength, hlow, hhigh, lowByte_toNat, highByte_toNat, hword]
  omega

theorem workCounter_eq (rx : Nat -> UInt8) (l : Nat) :
    workCounter rx l = (loadWord rx l).toNat := by
  have hlow := (rx l).toNat_lt
  have hhigh := (rx (l + 1)).toNat_lt
  have hword : (loadWord rx l).toNat = (rx l).toNat + 256 * (rx (l + 1)).toNat :=
    UInt16.toNat_ofNat_of_lt' (by
      show (rx l).toNat + 256 * (rx (l + 1)).toNat < 65536
      omega)
  rw [workCounter, hword, Nat.mul_comm]

end Soem
end FrankaKistar
