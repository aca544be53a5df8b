import FrankaKistar.Soem.Areas
import FrankaKistar.Soem.Clients

/-!
# The frames of a slave

What the loop writes for a slave goes out in one frame, at the logical address
that the slave is given.  What it reads for a slave after an exchange has come
back in one frame, or is what was there before.
-/

namespace FrankaKistar
namespace Soem

open Foundation Machine Ranges

structure Chunk.Covers (c : Chunk) (area : Area) : Prop where
  logAdr_le : c.logAdr ≤ area.logStart
  room : area.logStart - c.logAdr + area.bytes ≤ c.length

/-- What an exchange does for every slave that has whole bytes. -/
structure Delivered (answer : AnswerRel) (start : Nat)
    (outs ins : List (Option Area)) (x : Exchange) : Prop where
  outputs : forall area, some area ∈ outs ->
    exists entry d rest, entry ∈ x.answered ∧
      decodeFrame entry.1.frame.packet = some (d :: rest) ∧
      d = (chunkArgs x.image entry.1.chunk).datagram
        (UInt8.ofNat entry.1.idx.val) ∧
      entry.1.chunk.Covers area ∧
      (d.data.drop (area.logStart - entry.1.chunk.logAdr)).take area.bytes =
        load x.image (area.logStart - start) area.bytes
  inputs : forall area, some area ∈ ins ->
    load x.ioMap (area.logStart - start) area.bytes =
        load x.image (area.logStart - start) area.bytes ∨
      exists e rx packet, (e, some rx) ∈ x.answered ∧
        Taken answer e.idx e.frame rx packet ∧
        e.chunk.Covers area ∧
        load x.ioMap (area.logStart - start) area.bytes =
          load rx (ecHeaderSize + (area.logStart - e.chunk.logAdr)) area.bytes

section Exchanged

variable {cfg : BusConfig} {answer : AnswerRel} {x : Exchange} {result : Int}

theorem Exchanged.entry (h : Exchanged cfg answer x result) {c : Chunk}
    (hc : c ∈ processDataChunks cfg.group) :
    exists entry, entry ∈ x.answered ∧ entry.1.chunk = c := by
  have hchunks := congrArg (fun xs => xs.map Prod.fst) h.parts
  rw [map_fst_flagged, List.map_map] at hchunks
  rw [<- hchunks] at hc
  rcases List.mem_map.mp hc with ⟨entry, hentry, heq⟩
  exact ⟨entry, hentry, heq⟩

/-- Where an area lies in the part that has it. -/
structure Within (start : Nat) (area : Area) (c : Chunk) : Prop where
  covers : c.Covers area
  place : c.data + (area.logStart - c.logAdr) = area.logStart - start

theorem within_of_has (htransfers : Transfers cfg.group) {c : Chunk}
    (hc : c ∈ processDataChunks cfg.group) {area : Area}
    (hstart : cfg.group.logstartaddr ≤ area.logStart)
    (hhas : c.Has (area.logStart - cfg.group.logstartaddr) area.bytes) :
    Within cfg.group.logstartaddr area c := by
  have hlog := htransfers.logAdr hc
  rcases hhas with ⟨hlow, hhigh⟩
  refine ⟨⟨?_, ?_⟩, ?_⟩
  · omega
  · omega
  · omega

theorem writtenData_of_transfers (htransfers : Transfers cfg.group) {c : Chunk}
    (hc : c ∈ processDataChunks cfg.group) (hkind : c.command ≠ .lrd)
    (data : List UInt8) : writtenData c.command data = data := by
  rcases (htransfers.mem hc).left with hlrd | hlrw | hlwr
  · exact absurd hlrd hkind
  · rw [hlrw]
    rfl
  · rw [hlwr]
    rfl

theorem delivered_of_exchanged (h : Exchanged cfg answer x result)
    (htransfers : Transfers cfg.group) {outs ins : List (Option Area)}
    (hareas : Undivided cfg.group.logstartaddr cfg.group outs ins) :
    Delivered answer cfg.group.logstartaddr outs ins x := by
  constructor
  · intro area harea
    rcases hareas.outputs area harea with ⟨hstart, c, hc, hkind, hhas⟩
    rcases h.entry hc with ⟨entry, hentry, rfl⟩
    have hwithin := within_of_has htransfers hc hstart hhas
    refine ⟨entry, _, _, hentry, h.sent entry hentry, rfl, hwithin.covers, ?_⟩
    show ((writtenData entry.1.chunk.command
      (load x.image entry.1.chunk.data entry.1.chunk.length)).drop _).take _ = _
    have hroom := hwithin.covers.room
    rw [writtenData_of_transfers htransfers hc hkind, drop_load _ (by omega),
      hwithin.place, take_load _ (by omega)]
  · intro area harea
    rcases hareas.inputs area harea with ⟨hstart, c, hc, hkind, hhas⟩
    rcases h.entry hc with ⟨⟨e, received⟩, hentry, rfl⟩
    have hwithin := within_of_has htransfers hc hstart hhas
    cases received with
    | none =>
        have hpart := load_part _ _ hwithin.covers.room (h.missed e hentry)
        rw [hwithin.place] at hpart
        exact Or.inl hpart
    | some rx =>
        have hstored := h.stored e rx hentry
        rw [if_neg hkind] at hstored
        have hpart := load_part _ _ hwithin.covers.room hstored
        rw [hwithin.place] at hpart
        rcases h.taken e rx hentry with ⟨packet, htaken⟩
        exact Or.inr ⟨e, rx, packet, hentry, htaken, hwithin.covers, hpart⟩

end Exchanged

section Runs

variable {thread : Type} [DecidableEq thread] [Fintype thread]
  {answer : AnswerRel} {s : Master thread} {p : Port}
  {clients : thread -> Client} {history : List (thread × ClientEvent)}

end Runs

end Soem
end FrankaKistar
