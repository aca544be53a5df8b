import FrankaKistar.Soem.Exchange
import Mathlib.Algebra.Ring.Int.Defs
import Mathlib.Data.List.Pairwise

/-!
# What an exchange makes of the image

An exchange that comes to its end has sent every part of the image in a frame of
its own; what it stored for a part came with an answer to that frame, and the
rest of the image is as it was.
-/

namespace FrankaKistar
namespace Soem

open Foundation LittleEndian Ranges

/-- Only the first part carries the clock. -/
def flagged (first : Bool) : List Chunk -> List (Chunk × Bool)
  | [] => []
  | c :: rest => (c, first) :: flagged false rest

def Sent.part (e : Sent) : Chunk × Bool := (e.chunk, e.first)

def writes (entry : Sent × Option (Nat -> UInt8)) : List (Nat × List UInt8) :=
  match entry.2 with
  | some rx => entry.1.written rx
  | none => []

def counts (entry : Sent × Option (Nat -> UInt8)) : Int :=
  match entry.2 with
  | some rx => entry.1.counted rx
  | none => 0

theorem mem_flagged {first : Bool} {chunks : List Chunk} {c : Chunk} {b : Bool}
    (h : (c, b) ∈ flagged first chunks) : c ∈ chunks := by
  induction chunks generalizing first with
  | nil => cases h
  | cons next rest ih =>
      rcases List.mem_cons.mp h with heq | hrest
      · rw [(Prod.mk.inj heq).left]
        exact List.mem_cons_self
      · exact List.mem_cons_of_mem next (ih hrest)

theorem mem_flagged_false {chunks : List Chunk} {c : Chunk} {b : Bool}
    (h : (c, b) ∈ flagged false chunks) : b = false := by
  induction chunks with
  | nil => cases h
  | cons next rest ih =>
      rcases List.mem_cons.mp h with heq | hrest
      · exact (Prod.mk.inj heq).right
      · exact ih hrest

theorem length_flagged (first : Bool) (chunks : List Chunk) :
    (flagged first chunks).length = chunks.length := by
  induction chunks generalizing first with
  | nil => rfl
  | cons c rest ih => rw [flagged, List.length_cons, List.length_cons, ih]

theorem map_fst_flagged (first : Bool) (chunks : List Chunk) :
    (flagged first chunks).map Prod.fst = chunks := by
  induction chunks generalizing first with
  | nil => rfl
  | cons c rest ih => rw [flagged, List.map_cons, ih]

/-- Nothing comes before the part with the clock. -/
theorem nil_of_flagged {first : Bool} {chunks : List Chunk}
    {before after : List (Chunk × Bool)} {c : Chunk}
    (h : before ++ (c, true) :: after = flagged first chunks) : before = [] := by
  cases before with
  | nil => rfl
  | cons x before =>
      cases chunks with
      | nil => cases h
      | cons next rest =>
          have hrest := (List.cons.inj h).right
          have hmem : (c, true) ∈ flagged false rest := by
            rw [<- hrest]
            exact List.mem_append_right before List.mem_cons_self
          cases mem_flagged_false hmem

/-!
## The invariant
-/

structure Sending (cfg : BusConfig) (pending : List (Chunk × Bool))
    (x : Exchange) : Prop where
  parts : x.idxstack.map Sent.part ++ pending =
    flagged cfg.hasdc (processDataChunks cfg.group)
  fresh : x.answered = []
  ioMap : x.ioMap = x.image
  dcTime : x.dcTime = x.clock
  framed : forall e, e ∈ x.idxstack -> e.Framed cfg x.image x.clock

/-- While answers are awaited, with the entry whose turn it is. -/
structure Receiving (cfg : BusConfig) (answer : AnswerRel) (current : List Sent)
    (x : Exchange) : Prop where
  parts : (x.answered.map Prod.fst ++ (current ++ x.idxstack)).map Sent.part =
    flagged cfg.hasdc (processDataChunks cfg.group)
  framed : forall e, e ∈ x.answered.map Prod.fst ++ (current ++ x.idxstack) ->
    e.Framed cfg x.image x.clock
  taken : forall e rx, (e, some rx) ∈ x.answered ->
    exists packet, Taken answer e.idx e.frame rx packet
  ioMap : x.ioMap = stores x.image (x.answered.flatMap writes)
  dcTime : forall e rx, (e, some rx) ∈ x.answered -> e.first = true ->
    load x.dcTime 0 8 = load rx e.dcoffset 8
  wkc : x.wkc = (x.answered.map counts).sum
  validWkc : x.validWkc = x.answered.any fun entry => entry.2.isSome

/-- What is left of an exchange at its end. -/
structure Exchanged (cfg : BusConfig) (answer : AnswerRel) (x : Exchange)
    (result : Int) : Prop where
  parts : x.answered.map (fun entry => entry.1.part) =
    flagged cfg.hasdc (processDataChunks cfg.group)
  sent : forall entry, entry ∈ x.answered ->
    decodeFrame entry.1.frame.packet = some
      ((entry.1.args cfg x.image x.clock).map
        (DatagramArgs.datagram (UInt8.ofNat entry.1.idx.val)))
  taken : forall e rx, (e, some rx) ∈ x.answered ->
    exists packet, Taken answer e.idx e.frame rx packet
  stored : forall e rx, (e, some rx) ∈ x.answered ->
    load x.ioMap e.chunk.data e.chunk.length =
      if e.chunk.command = .lwr then
        load x.image e.chunk.data e.chunk.length
      else
        load rx ecHeaderSize e.chunk.length
  missed : forall e, (e, none) ∈ x.answered ->
    load x.ioMap e.chunk.data e.chunk.length =
      load x.image e.chunk.data e.chunk.length
  outside : forall k, cfg.group.obytes + cfg.group.ibytes ≤ k ->
    x.ioMap k = x.image k
  dcTime : forall e rx, (e, some rx) ∈ x.answered -> e.first = true ->
    load x.dcTime 0 8 = load rx (2 * ecHeaderSize + e.chunk.length) 8
  result : result =
    if x.answered.any fun entry => entry.2.isSome then
      (x.answered.map counts).sum
    else
      noFrame

/-!
## Sending
-/

section Steps

variable {cfg : BusConfig} {answer : AnswerRel} {p : Port} {x : Exchange}

theorem sending_start (cfg : BusConfig) (image clock : Nat -> UInt8) :
    Sending cfg (flagged cfg.hasdc (processDataChunks cfg.group))
      (Exchange.start cfg image clock) where
  parts := rfl
  fresh := rfl
  ioMap := rfl
  dcTime := rfl
  framed := fun _ he => by cases he

theorem Sending.mem {pending : List (Chunk × Bool)} (h : Sending cfg pending x)
    {c : Chunk} {first : Bool} (hc : (c, first) ∈ pending) :
    c ∈ processDataChunks cfg.group := by
  have hflagged : (c, first) ∈
      flagged cfg.hasdc (processDataChunks cfg.group) := by
    rw [<- h.parts]
    exact List.mem_append_right _ hc
  exact mem_flagged hflagged

theorem Sending.length_eq {pending : List (Chunk × Bool)}
    (h : Sending cfg pending x) :
    x.idxstack.length + pending.length =
      (processDataChunks cfg.group).length := by
  have hlength := congrArg List.length h.parts
  rw [length_flagged, List.length_append, List.length_map] at hlength
  exact hlength

theorem Sending.at_loc {pending : List (Chunk × Bool)}
    (h : Sending cfg pending x) (loc : ExchangeLoc) :
    Sending cfg pending { x with loc := loc } :=
  ⟨h.parts, h.fresh, h.ioMap, h.dcTime, h.framed⟩

theorem Sending.length_lt {next : Chunk × Bool} {pending : List (Chunk × Bool)}
    (h : Sending cfg (next :: pending) x) :
    x.idxstack.length < (processDataChunks cfg.group).length := by
  have hlength := h.length_eq
  rw [List.length_cons] at hlength
  omega

theorem Sending.pushIndex_eq {next : Chunk × Bool}
    {pending : List (Chunk × Bool)} (h : Sending cfg (next :: pending) x)
    (htransfers : Transfers cfg.group) (e : Sent) :
    pushIndex x.idxstack e = x.idxstack ++ [e] :=
  if_pos (Nat.lt_trans h.length_lt
    (Nat.lt_of_le_of_lt htransfers.few (by decide)))

theorem Sending.transmit {idx : Fin ecMaxBuf} {first : Bool} {c : Chunk}
    {rest : List Chunk} (h : Sending cfg (flagged first (c :: rest)) x)
    (htransfers : Transfers cfg.group) {built : Nat × TxBuffer}
    (hbuilt : built = chunkFrame cfg x.ioMap x.dcTime idx first c (p.tx idx)) :
    Sending cfg (flagged false rest)
      { x with
        idxstack := pushIndex x.idxstack ⟨idx, c, built.1, first, built.2⟩
        loc := .sending false rest } := by
  have hsize : c.length ≤ maxSegment :=
    htransfers.sizes c (h.mem List.mem_cons_self)
  have hpush := h.pushIndex_eq htransfers
  have hframed := framed_chunkFrame cfg x.ioMap x.dcTime idx first hsize
    (p.tx idx)
  rw [<- hbuilt, h.ioMap, h.dcTime] at hframed
  constructor
  · dsimp only
    rw [hpush, List.map_append, List.append_assoc]
    exact h.parts
  · exact h.fresh
  · exact h.ioMap
  · exact h.dcTime
  · intro e he
    dsimp only at he
    rw [hpush] at he
    rcases List.mem_append.mp he with hstack | hlast
    · exact h.framed e hstack
    · rw [List.mem_singleton.mp hlast]
      exact hframed

theorem Sending.receive (h : Sending cfg [] x) :
    Receiving cfg answer []
      { x with wkc := 0, validWkc := false, loc := .waiting } := by
  have hnone : forall {e : Sent} {rx : Nat -> UInt8},
      (e, some rx) ∈ x.answered -> False := by
    intro e rx he
    rw [h.fresh] at he
    cases he
  constructor
  · rw [h.fresh, List.map_nil, List.nil_append, <- h.parts, List.append_nil]
    rfl
  · rw [h.fresh]
    exact h.framed
  · exact fun e rx he => (hnone he).elim
  · rw [h.fresh]
    exact h.ioMap
  · exact fun e rx he => (hnone he).elim
  · rw [h.fresh]
    rfl
  · rw [h.fresh]
    rfl

/-!
## Receiving
-/

theorem Receiving.mem {current : List Sent}
    (h : Receiving cfg answer current x) {e : Sent}
    (he : e ∈ x.answered.map Prod.fst ++ (current ++ x.idxstack)) :
    e.chunk ∈ processDataChunks cfg.group := by
  have hflagged : e.part ∈
      flagged cfg.hasdc (processDataChunks cfg.group) := by
    rw [<- h.parts]
    exact List.mem_map_of_mem he
  exact mem_flagged hflagged

theorem Receiving.length_eq {current : List Sent}
    (h : Receiving cfg answer current x) :
    x.answered.length + (current.length + x.idxstack.length) =
      (processDataChunks cfg.group).length := by
  have hlength := congrArg List.length h.parts
  rw [length_flagged, List.length_map, List.length_append, List.length_append,
    List.length_map] at hlength
  exact hlength

theorem Receiving.at_loc {current : List Sent}
    (h : Receiving cfg answer current x) (loc : ExchangeLoc) :
    Receiving cfg answer current { x with loc := loc } :=
  ⟨h.parts, h.framed, h.taken, h.ioMap, h.dcTime, h.wkc, h.validWkc⟩

theorem Receiving.pull {e : Sent} {rest : List Sent} {loc : ExchangeLoc}
    (h : Receiving cfg answer [] x) (hstack : x.idxstack = e :: rest) :
    Receiving cfg answer [e] { x with idxstack := rest, loc := loc } := by
  have hentries : ([] : List Sent) ++ x.idxstack = [e] ++ rest := hstack
  constructor
  · have hparts := h.parts
    rw [hentries] at hparts
    exact hparts
  · have hframed := h.framed
    rw [hentries] at hframed
    exact hframed
  · exact h.taken
  · exact h.ioMap
  · exact h.dcTime
  · exact h.wkc
  · exact h.validWkc

theorem stores_concat {value : Type} (mem : Nat -> value)
    (writes more : List (Nat × List value)) :
    stores mem (writes ++ more) = stores (stores mem writes) more :=
  List.foldl_append

theorem answered_concat (answered : List (Sent × Option (Nat -> UInt8)))
    (entry : Sent × Option (Nat -> UInt8)) (rest : List Sent) :
    (answered ++ [entry]).map Prod.fst ++ ([] ++ rest) =
      answered.map Prod.fst ++ ([entry.1] ++ rest) := by
  rw [List.map_append, List.append_assoc]
  rfl

theorem Receiving.answered_eq_nil {e : Sent} (h : Receiving cfg answer [e] x)
    (hfirst : e.first = true) : x.answered = [] := by
  have hparts := h.parts
  rw [List.map_append, List.map_append, List.map_singleton,
    List.singleton_append] at hparts
  unfold Sent.part at hparts
  rw [hfirst] at hparts
  exact List.map_eq_nil_iff.mp (List.map_eq_nil_iff.mp (nil_of_flagged hparts))

theorem Receiving.settle_found {e : Sent} {wkc2 : Int}
    (h : Receiving cfg answer [e] x) (hkeeps : Keeps answer)
    (htransfers : Transfers cfg.group) (hfound : noFrame < wkc2)
    (hreceived : Received answer e.idx e.frame p wkc2) :
    Receiving cfg answer [] (settle e wkc2 (p.rx e.idx) x) := by
  have hentry : e ∈ x.answered.map Prod.fst ++ ([e] ++ x.idxstack) :=
    List.mem_append_right _ List.mem_cons_self
  have hchunk := h.mem hentry
  have hentries :=
    answered_concat x.answered (e, some (p.rx e.idx)) x.idxstack
  have hwkc : e.first = true -> x.wkc = 0 := by
    intro hfirst
    rw [h.wkc, h.answered_eq_nil hfirst]
    rfl
  have heq := takeAnswer_eq hreceived hkeeps (h.framed e hentry)
    (htransfers.sizes _ hchunk) (htransfers.mem hchunk).left x hwkc
  unfold settle
  rw [if_pos hfound, heq]
  constructor
  · dsimp only
    rw [hentries]
    exact h.parts
  · dsimp only
    rw [hentries]
    exact h.framed
  · intro e' rx he'
    rcases List.mem_append.mp he' with hold | hlast
    · exact h.taken e' rx hold
    · cases List.mem_singleton.mp hlast
      exact hreceived.taken
  · dsimp only
    rw [List.flatMap_append, stores_concat, <- h.ioMap, List.flatMap_singleton]
    rfl
  · intro e' rx he' hf
    dsimp only at he' ⊢
    rcases List.mem_append.mp he' with hold | hlast
    · cases hclock : e.first with
      | true =>
          rw [h.answered_eq_nil hclock] at hold
          cases hold
      | false => exact h.dcTime e' rx hold hf
    · cases List.mem_singleton.mp hlast
      rw [hf]
      exact load_store_eq (length_load _ _ _)
  · dsimp only
    rw [List.map_append, List.sum_append, <- h.wkc, List.map_singleton,
      List.sum_singleton]
    rfl
  · dsimp only
    rw [List.any_append]
    exact (Bool.or_true _).symm

theorem Receiving.settle_missed {e : Sent} {wkc2 : Int} {rx : Nat -> UInt8}
    (h : Receiving cfg answer [e] x) (hmissed : ¬noFrame < wkc2) :
    Receiving cfg answer [] (settle e wkc2 rx x) := by
  have hentries := answered_concat x.answered (e, none) x.idxstack
  have hold : forall e' rx,
      (e', some rx) ∈ x.answered ++ [((e, none) : Sent × Option (Nat -> UInt8))] ->
        (e', some rx) ∈ x.answered := by
    intro e' rx he'
    rcases List.mem_append.mp he' with hold | hlast
    · exact hold
    · cases List.mem_singleton.mp hlast
  unfold settle
  rw [if_neg hmissed]
  constructor
  · dsimp only
    rw [hentries]
    exact h.parts
  · dsimp only
    rw [hentries]
    exact h.framed
  · exact fun e' rx he' => h.taken e' rx (hold e' rx he')
  · dsimp only
    rw [List.flatMap_append, stores_concat, <- h.ioMap]
    rfl
  · exact fun e' rx he' => h.dcTime e' rx (hold e' rx he')
  · dsimp only
    rw [List.map_append, List.sum_append, <- h.wkc, List.map_singleton,
      List.sum_singleton]
    exact (Int.add_zero _).symm
  · dsimp only
    rw [List.any_append, <- h.validWkc]
    exact (Bool.or_false _).symm

theorem Receiving.settle {e : Sent} {wkc2 : Int}
    (h : Receiving cfg answer [e] x) (hkeeps : Keeps answer)
    (htransfers : Transfers cfg.group)
    (hpolled : Polled answer e.idx e.frame p wkc2) :
    Receiving cfg answer [] (settle e wkc2 (p.rx e.idx) x) := by
  rcases lt_or_ge noFrame wkc2 with hfound | hmissed
  · exact h.settle_found hkeeps htransfers hfound (hpolled.found hfound)
  · exact h.settle_missed (not_lt.mpr hmissed)

theorem settle_idxstack (e : Sent) (wkc2 : Int) (rx : Nat -> UInt8)
    (x : Exchange) : (settle e wkc2 rx x).idxstack = x.idxstack := by
  unfold Soem.settle takeAnswer
  split_ifs <;> rfl

theorem settle_loc (e : Sent) (wkc2 : Int) (rx : Nat -> UInt8) (x : Exchange) :
    (settle e wkc2 rx x).loc = .releasing e.idx := by
  unfold Soem.settle
  split_ifs <;> rfl

theorem settle_answered (e : Sent) (wkc2 : Int) (rx : Nat -> UInt8)
    (x : Exchange) : (settle e wkc2 rx x).answered ≠ [] := by
  unfold Soem.settle
  split_ifs
  · exact List.concat_ne_nil _ _
  · exact List.concat_ne_nil _ _

/-!
## The end
-/

theorem mem_writes {entry : Sent × Option (Nat -> UInt8)}
    {w : Nat × List UInt8} (hw : w ∈ writes entry) :
    w.1 = entry.1.chunk.data ∧ w.2.length = entry.1.chunk.length := by
  unfold writes at hw
  split at hw
  · unfold Sent.written at hw
    split at hw
    · cases hw
    · rw [List.mem_singleton.mp hw]
      exact ⟨rfl, length_load _ _ _⟩
  · cases hw

theorem clear_entries {g : Group} (htransfers : Transfers g) {first : Bool}
    {entries : List (Sent × Option (Nat -> UInt8))}
    (hparts : entries.map (fun entry => entry.1.part) =
      flagged first (processDataChunks g)) :
    entries.Pairwise fun entry entry' =>
      entry.1.chunk.Clear entry'.1.chunk := by
  have hchunks := congrArg (fun xs => xs.map Prod.fst) hparts
  rw [map_fst_flagged, List.map_map] at hchunks
  have hclear := htransfers.clear
  rw [<- hchunks, List.pairwise_map] at hclear
  exact hclear

theorem pairwise_writes {entries : List (Sent × Option (Nat -> UInt8))}
    (hclear : entries.Pairwise fun entry entry' =>
      entry.1.chunk.Clear entry'.1.chunk) :
    (entries.flatMap writes).Pairwise fun w w' =>
      Clear w.1 w.2.length w'.1 w'.2.length := by
  rw [List.pairwise_flatMap]
  constructor
  · intro entry _
    unfold writes
    split
    · unfold Sent.written
      split
      · exact List.Pairwise.nil
      · exact List.pairwise_singleton _ _
    · exact List.Pairwise.nil
  · refine hclear.imp ?_
    intro entry entry' h w hw w' hw'
    rw [(mem_writes hw).left, (mem_writes hw).right, (mem_writes hw').left,
      (mem_writes hw').right]
    exact h

theorem load_stores_unwritten (image : Nat -> UInt8)
    {entries : List (Sent × Option (Nat -> UInt8))}
    (hclear : entries.Pairwise fun entry entry' =>
      entry.1.chunk.Clear entry'.1.chunk)
    {entry : Sent × Option (Nat -> UInt8)} (hentry : entry ∈ entries)
    (hnone : writes entry = []) :
    load (stores image (entries.flatMap writes)) entry.1.chunk.data
        entry.1.chunk.length =
      load image entry.1.chunk.data entry.1.chunk.length := by
  apply load_stores_clear
  intro w hw
  rcases List.mem_flatMap.mp hw with ⟨entry', hentry', hw'⟩
  have hne : entry ≠ entry' := by
    intro heq
    rw [<- heq, hnone] at hw'
    cases hw'
  rw [(mem_writes hw').left, (mem_writes hw').right]
  have hsymm : Std.Symm fun entry entry' : Sent × Option (Nat -> UInt8) =>
      entry.1.chunk.Clear entry'.1.chunk := ⟨fun _ _ h => Clear.symm h⟩
  exact hclear.forall hentry hentry' hne

theorem Receiving.exchanged (h : Receiving cfg answer [] x)
    (htransfers : Transfers cfg.group) (hstack : x.idxstack = []) :
    Exchanged cfg answer
      { x with loc := .finished (if x.validWkc then x.wkc else noFrame) }
      (if x.validWkc then x.wkc else noFrame) := by
  have hparts : x.answered.map (fun entry => entry.1.part) =
      flagged cfg.hasdc (processDataChunks cfg.group) := by
    have hparts := h.parts
    rw [hstack, List.append_nil, List.append_nil, List.map_map] at hparts
    exact hparts
  have hframed : forall entry, entry ∈ x.answered ->
      entry.1.Framed cfg x.image x.clock := by
    intro entry hentry
    exact h.framed entry.1
      (List.mem_append_left _ (List.mem_map_of_mem hentry))
  have hclear := clear_entries htransfers hparts
  constructor
  · exact hparts
  · exact fun entry hentry => (hframed entry hentry).sent
  · exact h.taken
  · intro e rx he
    dsimp only
    rw [h.ioMap]
    split
    · rename_i hlwr
      exact load_stores_unwritten x.image hclear he (if_pos hlwr)
    · rename_i hreads
      have hwrites : writes (e, some rx) =
          [(e.chunk.data, load rx ecHeaderSize e.chunk.length)] := if_neg hreads
      have hmem : (e.chunk.data, load rx ecHeaderSize e.chunk.length) ∈
          x.answered.flatMap writes :=
        List.mem_flatMap.mpr ⟨(e, some rx), he, by
          rw [hwrites]
          exact List.mem_singleton.mpr rfl⟩
      have hload := load_stores_mem x.image (pairwise_writes hclear) hmem
      dsimp only at hload
      rw [length_load] at hload
      exact hload
  · intro e he
    dsimp only
    rw [h.ioMap]
    exact load_stores_unwritten x.image hclear he rfl
  · intro k hk
    dsimp only
    rw [h.ioMap]
    apply stores_of_ge
    intro w hw
    rcases List.mem_flatMap.mp hw with ⟨entry, hentry, hw'⟩
    rw [(mem_writes hw').left, (mem_writes hw').right]
    have hmem := h.mem (List.mem_append_left _ (List.mem_map_of_mem hentry))
    exact Nat.le_trans (htransfers.mem hmem).right hk
  · intro e rx he hf
    have hoffset := (hframed (e, some rx) he).dcoffset
    dsimp only at hoffset
    rw [hf, if_pos rfl, <- Nat.add_assoc, <- Nat.two_mul] at hoffset
    rw [<- hoffset]
    exact h.dcTime e rx he hf
  · rw [h.validWkc, h.wkc]

end Steps

end Soem
end FrankaKistar
