import FrankaKistar.Soem.Rounds

/-!
# The buffers of an exchange

Every entry of the stack has a buffer of its own with a frame in flight, whatever
the threads beside the exchange do, and the answer that a turn takes is one to
the frame of its entry.
-/

namespace FrankaKistar
namespace Soem

open Foundation Ranges

structure Outstanding (answer : AnswerRel) (p : Port) (stack : List Sent) :
    Prop where
  flying : forall e, e ∈ stack -> InFlight answer p e.idx e.frame
  distinct : (stack.map Sent.idx).Nodup

section Outstanding

variable {answer : AnswerRel} {p p' : Port} {stack rest : List Sent} {e : Sent}

theorem Outstanding.busy (h : Outstanding answer p stack) {idx : Fin ecMaxBuf}
    (hidx : idx ∈ stack.map Sent.idx) : p.rxbufstat idx ≠ .empty := by
  rcases List.mem_map.mp hidx with ⟨e, he, rfl⟩
  exact (h.flying e he).busy

theorem Outstanding.kept (h : Outstanding answer p stack)
    (hkept : forall idx, idx ∈ stack.map Sent.idx ->
      Undisturbed answer p p' idx) : Outstanding answer p' stack where
  flying := fun e he =>
    (h.flying e he).kept (hkept e.idx (List.mem_map_of_mem he))
  distinct := h.distinct

theorem Outstanding.beside (h : Outstanding answer p stack) {idx : Fin ecMaxBuf}
    (hnew : idx ∉ stack.map Sent.idx) (htouches : Touches answer idx p p') :
    Outstanding answer p' stack :=
  h.kept fun other hother => htouches other fun heq => hnew (heq ▸ hother)

theorem Outstanding.push (h : Outstanding answer p stack)
    (hnew : e.idx ∉ stack.map Sent.idx) (htouches : Touches answer e.idx p p')
    (hflying : InFlight answer p' e.idx e.frame) :
    Outstanding answer p' (stack ++ [e]) := by
  have hold : Outstanding answer p' stack := h.beside hnew htouches
  constructor
  · intro e' he'
    rcases List.mem_append.mp he' with hstack | hlast
    · exact hold.flying e' hstack
    · rw [List.mem_singleton.mp hlast]
      exact hflying
  · rw [List.map_append, List.nodup_append]
    refine ⟨h.distinct, List.nodup_singleton _, ?_⟩
    intro idx hidx idx' hidx' heq
    rw [List.map_singleton, List.mem_singleton] at hidx'
    rw [heq, hidx'] at hidx
    exact hnew hidx

theorem Outstanding.tail (h : Outstanding answer p (e :: rest)) :
    Outstanding answer p rest ∧ e.idx ∉ rest.map Sent.idx := by
  have hdistinct := h.distinct
  rw [List.map_cons, List.nodup_cons] at hdistinct
  exact ⟨⟨fun e' he' => h.flying e' (List.mem_cons_of_mem e he'),
    hdistinct.right⟩, hdistinct.left⟩

end Outstanding

/-!
## The invariant
-/

/-- What is known at each location; the buffer in hand is none of the stack. -/
def Exchange.At (cfg : BusConfig) (answer : AnswerRel) (p : Port)
    (x : Exchange) : Prop :=
  match x.loc with
  | .sending first rest => Sending cfg (flagged first rest) x
  | .indexing first c rest g =>
      Sending cfg (flagged first (c :: rest)) x ∧ g.Finds p
  | .allocated idx first c rest =>
      Sending cfg (flagged first (c :: rest)) x ∧ p.rxbufstat idx = .alloc
  | .waiting => Receiving cfg answer [] x
  | .polling e q =>
      Receiving cfg answer [e] x ∧ q.Inv answer e.idx e.frame p
  | .arrived e wkc2 =>
      Receiving cfg answer [e] x ∧ Polled answer e.idx e.frame p wkc2
  | .releasing idx =>
      Receiving cfg answer [] x ∧ x.answered ≠ [] ∧ p.rxbufstat idx ≠ .empty
  | .finished result => x.idxstack = [] ∧ Exchanged cfg answer x result

structure Exchange.Inv (cfg : BusConfig) (answer : AnswerRel) (p : Port)
    (x : Exchange) : Prop where
  place : x.At cfg answer p
  out : Outstanding answer p x.idxstack
  apart : forall idx, idx ∈ x.loc.buffer -> idx ∉ x.idxstack.map Sent.idx
  getindexMutex : x.loc.getindexMutex = true -> p.getindexMutex = true

section Steps

variable {cfg : BusConfig} {answer : AnswerRel} {p p' : Port}
  {x x' : Exchange}

theorem Exchange.Inv.busy_buffer (h : x.Inv cfg answer p) {idx : Fin ecMaxBuf}
    (hidx : idx ∈ x.loc.buffer) : p.rxbufstat idx ≠ .empty := by
  have hplace := h.place
  unfold Exchange.At at hplace
  cases hloc : x.loc with
  | allocated other first c rest =>
      rw [hloc] at hplace hidx
      rw [List.mem_singleton.mp hidx, hplace.right]
      exact nofun
  | polling e q =>
      rw [hloc] at hplace hidx
      rw [List.mem_singleton.mp hidx]
      exact hplace.right.busy
  | arrived e wkc2 =>
      rw [hloc] at hplace hidx
      rw [List.mem_singleton.mp hidx]
      exact hplace.right.busy
  | releasing other =>
      rw [hloc] at hplace hidx
      rw [List.mem_singleton.mp hidx]
      exact hplace.right.right
  | _ =>
      rw [hloc] at hidx
      cases hidx

theorem Exchange.Inv.not_mem (h : x.Inv cfg answer p) {idx : Fin ecMaxBuf}
    (hbuffer : x.loc.buffer = [idx]) : idx ∉ x.idxstack.map Sent.idx := by
  refine h.apart idx ?_
  rw [hbuffer]
  exact List.mem_cons_self

theorem Exchange.Inv.marked (h : x.Inv cfg answer p) : x.held.Marked p := by
  constructor
  · intro idx hidx
    rcases List.mem_append.mp hidx with hbuffer | hstack
    · exact h.busy_buffer hbuffer
    · exact h.out.busy hstack
  · intro hlocked
    have hplace := h.place
    unfold Exchange.At at hplace
    cases hloc : x.loc with
    | polling e q =>
        rw [hloc] at hplace
        change x.loc.rxMutex = true at hlocked
        rw [hloc] at hlocked
        exact hplace.right.rxMutex hlocked
    | _ =>
        change x.loc.rxMutex = true at hlocked
        rw [hloc] at hlocked
        cases hlocked
  · exact h.getindexMutex

theorem Exchange.Inv.length_held (h : x.Inv cfg answer p) :
    x.held.buffers.length ≤ (processDataChunks cfg.group).length := by
  have hplace := h.place
  unfold Exchange.At at hplace
  show (x.loc.buffer ++ x.idxstack.map Sent.idx).length ≤ _
  rw [List.length_append, List.length_map]
  cases hloc : x.loc with
  | sending first rest =>
      rw [hloc] at hplace
      have hlength := hplace.length_eq
      show 0 + _ ≤ _
      omega
  | indexing first c rest g =>
      rw [hloc] at hplace
      have hlength := hplace.left.length_lt
      show 0 + _ ≤ _
      omega
  | allocated idx first c rest =>
      rw [hloc] at hplace
      have hlength := hplace.left.length_lt
      show 1 + _ ≤ _
      omega
  | waiting =>
      rw [hloc] at hplace
      have hlength := hplace.length_eq
      show 0 + _ ≤ _
      omega
  | polling e q =>
      rw [hloc] at hplace
      have hlength := hplace.left.length_eq
      rw [List.length_singleton] at hlength
      show 1 + _ ≤ _
      omega
  | arrived e wkc2 =>
      rw [hloc] at hplace
      have hlength := hplace.left.length_eq
      rw [List.length_singleton] at hlength
      show 1 + _ ≤ _
      omega
  | releasing idx =>
      rw [hloc] at hplace
      have hlength := hplace.left.length_eq
      have hsome := List.length_pos_iff.mpr hplace.right.left
      rw [List.length_nil] at hlength
      show 1 + _ ≤ _
      omega
  | finished result =>
      rw [hloc] at hplace
      rw [hplace.left]
      exact Nat.zero_le _

theorem Exchange.Inv.kept (h : x.Inv cfg answer p)
    (hrely : Rely answer p p' x.held) : x.Inv cfg answer p' := by
  have hbuffer : forall idx, idx ∈ x.loc.buffer -> Undisturbed answer p p' idx :=
    fun idx hidx => hrely.buffers idx (List.mem_append_left _ hidx)
  have hrx : x.loc.rxMutex = true -> RxKept p p' := hrely.rxMutex
  have hindex : x.loc.getindexMutex = true -> IndexKept p p' :=
    hrely.getindexMutex
  constructor
  · have hplace := h.place
    unfold Exchange.At at hplace ⊢
    cases hloc : x.loc with
    | sending first rest =>
        rw [hloc] at hplace
        exact hplace
    | indexing first c rest g =>
        rw [hloc] at hplace hindex
        exact ⟨hplace.left, hplace.right.kept (hindex rfl).unused⟩
    | allocated idx first c rest =>
        rw [hloc] at hplace hbuffer
        exact ⟨hplace.left,
          ((hbuffer idx List.mem_cons_self).same hplace.right nofun).left⟩
    | waiting =>
        rw [hloc] at hplace
        exact hplace
    | polling e q =>
        rw [hloc] at hplace hbuffer hrx
        exact ⟨hplace.left,
          hplace.right.kept (hbuffer e.idx List.mem_cons_self) hrx⟩
    | arrived e wkc2 =>
        rw [hloc] at hplace hbuffer
        exact ⟨hplace.left,
          hplace.right.kept (hbuffer e.idx List.mem_cons_self)⟩
    | releasing idx =>
        rw [hloc] at hplace hbuffer
        refine ⟨hplace.left, hplace.right.left, fun hempty => ?_⟩
        exact hplace.right.right
          ((hbuffer idx List.mem_cons_self).empty_iff.mp hempty)
    | finished result =>
        rw [hloc] at hplace
        exact hplace
  · exact h.out.kept fun idx hidx =>
      hrely.buffers idx (List.mem_append_right _ hidx)
  · exact h.apart
  · intro hlocked
    rw [(hindex hlocked).locked]
    exact h.getindexMutex hlocked

theorem Exchange.Inv.length_lt (h : x.Inv cfg answer p)
    (hstep : exchangeStep cfg (p, x) .allocate = some (p', x')) :
    x.held.buffers.length < (processDataChunks cfg.group).length := by
  have hplace := h.place
  unfold Exchange.At at hplace
  simp only [exchangeStep] at hstep
  split at hstep
  · rename_i hloc
    rw [hloc] at hplace
    show (x.loc.buffer ++ x.idxstack.map Sent.idx).length < _
    rw [hloc, List.length_append, List.length_map]
    show 0 + _ < _
    rw [Nat.zero_add]
    exact hplace.length_lt
  · cases hstep

theorem mem_held_exchangeStep {event : ExchangeEvent} {idx : Fin ecMaxBuf}
    (hstep : exchangeStep cfg (p, x) event = some (p', x'))
    (hidx : idx ∈ x'.held.buffers) :
    idx ∈ x.held.buffers ∨
      exists first c rest, x.loc = .indexing first c rest (.take idx) := by
  change idx ∈ x'.loc.buffer ++ x'.idxstack.map Sent.idx at hidx
  show idx ∈ x.loc.buffer ++ x.idxstack.map Sent.idx ∨ _
  cases event with
  | begin image =>
      simp only [exchangeStep] at hstep
      split at hstep
      · cases hstep
        cases hidx
      · cases hstep
  | take =>
      simp only [exchangeStep] at hstep
      split at hstep
      · rename_i hloc
        cases hstep
        rcases List.mem_append.mp hidx with hfound | hstack
        · rw [List.mem_singleton.mp hfound]
          exact Or.inr ⟨_, _, _, hloc⟩
        · exact Or.inl (List.mem_append_right _ hstack)
      · cases hstep
  | allocate =>
      simp only [exchangeStep] at hstep
      split at hstep
      · rename_i hloc
        rw [hloc]
        split at hstep
        · cases hstep
          exact Or.inl hidx
        · cases hstep
      · cases hstep
  | transmit ok =>
      simp only [exchangeStep] at hstep
      split at hstep
      · rename_i hloc
        rw [hloc]
        cases hstep
        change idx ∈ (pushIndex x.idxstack _).map Sent.idx at hidx
        refine Or.inl ?_
        unfold pushIndex at hidx
        split at hidx
        · rw [List.map_append] at hidx
          exact List.mem_append.mpr (List.mem_append.mp hidx).symm
        · exact List.mem_append_right _ hidx
      · cases hstep
  | pull =>
      simp only [exchangeStep] at hstep
      split at hstep
      · rename_i hloc hstack
        rw [hloc, hstack]
        cases hstep
        exact Or.inl hidx
      · cases hstep
  | poll packet =>
      simp only [exchangeStep] at hstep
      split at hstep
      · rename_i hloc
        rw [hloc]
        split at hstep
        · cases hstep
          exact Or.inl hidx
        · cases hstep
      · cases hstep
  | timer expired =>
      simp only [exchangeStep] at hstep
      split at hstep
      · rename_i hloc
        rw [hloc]
        split_ifs at hstep
        · cases hstep
          exact Or.inl hidx
        · cases hstep
          exact Or.inl hidx
      · cases hstep
  | settle =>
      simp only [exchangeStep] at hstep
      split at hstep
      · rename_i hloc
        rw [hloc]
        cases hstep
        rw [settle_loc, settle_idxstack] at hidx
        exact Or.inl hidx
      · cases hstep
  | release =>
      simp only [exchangeStep] at hstep
      split at hstep
      · cases hstep
        exact Or.inl (List.mem_append_right _ hidx)
      · cases hstep
  | finish =>
      simp only [exchangeStep] at hstep
      split at hstep
      · cases hstep
        exact Or.inl (List.mem_append_right _ hidx)
      · cases hstep
  | _ =>
      simp only [exchangeStep] at hstep
      split at hstep
      · rename_i hloc
        rw [hloc]
        cases hstep
        exact Or.inl hidx
      · cases hstep

/-!
## Every step
-/

structure Exchange.Stepped (cfg : BusConfig) (answer : AnswerRel) (p : Port)
    (x : Exchange) (p' : Port) (x' : Exchange) : Prop where
  inv : x'.Inv cfg answer p'
  guarantee : Guarantee answer p p' x.held x'.held

theorem stepped_begin (hstack : x.idxstack = []) {result : Int}
    (hloc : x.loc = .finished result) (image : Nat -> UInt8) :
    Exchange.Stepped cfg answer p x p (Exchange.start cfg image x.dcTime) := by
  constructor
  · constructor
    · exact sending_start cfg image x.dcTime
    · exact ⟨fun _ he => absurd he List.not_mem_nil, List.nodup_nil⟩
    · exact fun _ hidx => absurd hidx List.not_mem_nil
    · exact nofun
  · refine Guarantee.of_eq answer p ?_
    unfold Exchange.held
    rw [hloc, hstack]
    rfl

theorem stepped_allocate {first : Bool} {c : Chunk} {rest : List Chunk}
    {g : Getindex} (h : x.Inv cfg answer p)
    (hloc : x.loc = .sending first (c :: rest))
    (hplace : Sending cfg (flagged first (c :: rest)) x)
    (hempty : exists i, p.rxbufstat i = .empty)
    (hlock : p.lockIndex = some (p', g)) :
    Exchange.Stepped cfg answer p x p'
      { x with loc := .indexing first c rest g } := by
  have hguarantee : Guarantee answer p p' x.held
      ({ x with loc := .indexing first c rest g } : Exchange).held := by
    unfold Exchange.held
    rw [hloc]
    exact guarantee_lockIndex hlock
  unfold Port.lockIndex at hlock
  split at hlock
  · cases hlock
  · cases hlock
    refine ⟨⟨⟨hplace.at_loc _, finds_start hempty⟩, ?_, ?_, fun _ => rfl⟩,
      hguarantee⟩
    · exact h.out.kept fun idx _ => .of_eq rfl rfl rfl
    · exact fun _ hidx => absurd hidx List.not_mem_nil

theorem stepped_scan {first : Bool} {c : Chunk} {rest : List Chunk}
    {idx : Fin ecMaxBuf} {cnt : Nat} (h : x.Inv cfg answer p)
    (hloc : x.loc = .indexing first c rest (.scan idx cnt))
    (hplace : Sending cfg (flagged first (c :: rest)) x)
    (hfinds : (Getindex.scan idx cnt).Finds p) :
    Exchange.Stepped cfg answer p x p
      { x with loc := .indexing first c rest (p.scanIndex idx cnt) } := by
  constructor
  · refine ⟨⟨hplace.at_loc _, finds_scanIndex hfinds⟩, h.out, ?_, fun _ => ?_⟩
    · exact fun _ hidx => absurd hidx List.not_mem_nil
    · exact h.getindexMutex (by rw [hloc]; rfl)
  · refine Guarantee.of_eq answer p ?_
    unfold Exchange.held
    rw [hloc]
    rfl

theorem stepped_take {first : Bool} {c : Chunk} {rest : List Chunk}
    {idx : Fin ecMaxBuf} (h : x.Inv cfg answer p)
    (hloc : x.loc = .indexing first c rest (.take idx))
    (hplace : Sending cfg (flagged first (c :: rest)) x)
    (hempty : p.rxbufstat idx = .empty) :
    Exchange.Stepped cfg answer p x (p.takeIndex idx)
      { x with loc := .allocated idx first c rest } := by
  have hnew : idx ∉ x.idxstack.map Sent.idx :=
    fun hmem => h.out.busy hmem hempty
  constructor
  · refine ⟨⟨hplace.at_loc _, Function.update_self _ _ _⟩, ?_, ?_, ?_⟩
    · exact h.out.beside hnew fun other hne =>
        .of_eq rfl rfl (Function.update_of_ne hne _ _)
    · intro other hother
      rw [List.mem_singleton.mp hother]
      exact hnew
    · exact nofun
  · unfold Exchange.held
    rw [hloc]
    exact guarantee_takeIndex hempty

theorem stepped_transmit {idx : Fin ecMaxBuf} {first : Bool} {c : Chunk}
    {rest : List Chunk} (h : x.Inv cfg answer p)
    (hloc : x.loc = .allocated idx first c rest)
    (hplace : Sending cfg (flagged first (c :: rest)) x)
    (halloc : p.rxbufstat idx = .alloc) (htransfers : Transfers cfg.group)
    {built : Nat × TxBuffer}
    (hbuilt : built = chunkFrame cfg x.ioMap x.dcTime idx first c (p.tx idx)) :
    Exchange.Stepped cfg answer p x (outframe idx true (p.setFrame idx built.2))
      { x with
        idxstack := pushIndex x.idxstack ⟨idx, c, built.1, first, built.2⟩
        loc := .sending false rest } := by
  have hpush := hplace.pushIndex_eq htransfers ⟨idx, c, built.1, first, built.2⟩
  have hnew : idx ∉ x.idxstack.map Sent.idx :=
    h.not_mem (congrArg _ hloc)
  have htouches : Touches answer idx p
      (outframe idx true (p.setFrame idx built.2)) :=
    fun other hne => .of_eq (Function.update_of_ne hne _ _) rfl
      (Function.update_of_ne hne _ _)
  have hflying := inFlight_outframe answer idx (p.setFrame idx built.2)
  have htx : (p.setFrame idx built.2).tx idx = built.2 :=
    Function.update_self _ _ _
  rw [htx] at hflying
  have hnot : p.rxbufstat idx ≠ .tx := by
    rw [halloc]
    exact nofun
  have hrx : RxKept p (outframe idx true (p.setFrame idx built.2)) :=
    (rxKept_setFrame hnot).trans (rxKept_setBufStat fun _ _ => rfl)
  have hheld : x.held = ⟨idx :: x.idxstack.map Sent.idx, false, false⟩ := by
    rw [Exchange.held, hloc]
    rfl
  constructor
  · constructor
    · exact hplace.transmit htransfers hbuilt
    · dsimp only
      rw [hpush]
      exact h.out.push hnew htouches hflying
    · exact fun _ hidx => absurd hidx List.not_mem_nil
    · exact nofun
  · rw [hheld]
    refine htouches.guarantee List.mem_cons_self ?_ ?_ (fun _ _ => ⟨rfl, hrx⟩)
      rfl rfl
    · rw [halloc]
      exact nofun
    · intro other
      show other ∈ [] ++ (pushIndex x.idxstack _).map Sent.idx ↔ _
      rw [hpush, List.nil_append, List.map_append, List.mem_append,
        List.map_singleton, List.mem_singleton, List.mem_cons]
      exact Or.comm

theorem stepped_receive {first : Bool} (h : x.Inv cfg answer p)
    (hloc : x.loc = .sending first []) (hplace : Sending cfg [] x) :
    Exchange.Stepped cfg answer p x p
      { x with wkc := 0, validWkc := false, loc := .waiting } := by
  constructor
  · refine ⟨hplace.receive, h.out, ?_, ?_⟩
    · exact fun _ hidx => absurd hidx List.not_mem_nil
    · exact nofun
  · refine Guarantee.of_eq answer p ?_
    unfold Exchange.held
    rw [hloc]
    rfl

theorem stepped_pull {e : Sent} {rest : List Sent} (h : x.Inv cfg answer p)
    (hloc : x.loc = .waiting) (hplace : Receiving cfg answer [] x)
    (hstack : x.idxstack = e :: rest) :
    Exchange.Stepped cfg answer p x p
      { x with idxstack := rest, loc := .polling e .check } := by
  have hout := h.out
  rw [hstack] at hout
  constructor
  · refine ⟨⟨hplace.pull hstack, hout.flying e List.mem_cons_self, ?_⟩,
      hout.tail.left, ?_, ?_⟩
    · exact nofun
    · intro idx hidx
      rw [List.mem_singleton.mp hidx]
      exact hout.tail.right
    · exact nofun
  · refine Guarantee.of_eq answer p ?_
    unfold Exchange.held
    rw [hloc, hstack]
    rfl

theorem stepped_poll {e : Sent} {q q' : Inframe} {packet : Option Packet}
    (h : x.Inv cfg answer p) (hloc : x.loc = .polling e q)
    (hplace : Receiving cfg answer [e] x)
    (hq : q.Inv answer e.idx e.frame p) (hgenuine : q.Genuine answer e.idx p)
    (hnext : inframeStep e.idx (p, q) packet = some (p', q')) :
    Exchange.Stepped cfg answer p x p' { x with loc := .polling e q' } := by
  have hmem : e ∈ x.answered.map Prod.fst ++ ([e] ++ x.idxstack) :=
    List.mem_append_right _ List.mem_cons_self
  have hstepped := inframeStep_stepped hq
    (Nat.le_of_succ_le (hplace.framed e hmem).length_ge) hgenuine hnext
  have hnew : e.idx ∉ x.idxstack.map Sent.idx :=
    h.not_mem (congrArg _ hloc)
  constructor
  · refine ⟨⟨hplace.at_loc _, hstepped.inv⟩, h.out.beside hnew hstepped.touches,
      ?_, ?_⟩
    · intro idx hidx
      rw [List.mem_singleton.mp hidx]
      exact hnew
    · exact nofun
  · unfold Exchange.held
    rw [hloc]
    exact hstepped.guarantee hq.busy List.mem_cons_self

theorem stepped_timer {e : Sent} {wkc2 : Int} {loc : ExchangeLoc}
    (h : x.Inv cfg answer p) (hloc : x.loc = .polling e (.returned wkc2))
    (hplace : Exchange.At cfg answer p { x with loc := loc })
    (hbuffer : loc.buffer = [e.idx]) (hrx : loc.rxMutex = false)
    (hindex : loc.getindexMutex = false) :
    Exchange.Stepped cfg answer p x p { x with loc := loc } := by
  have hnew : e.idx ∉ x.idxstack.map Sent.idx :=
    h.not_mem (congrArg _ hloc)
  constructor
  · refine ⟨hplace, h.out, ?_, ?_⟩
    · intro idx hidx
      dsimp only at hidx
      rw [hbuffer] at hidx
      rw [List.mem_singleton.mp hidx]
      exact hnew
    · intro hfalse
      dsimp only at hfalse
      rw [hindex] at hfalse
      cases hfalse
  · refine Guarantee.of_eq answer p ?_
    unfold Exchange.held
    rw [hloc, hbuffer, hrx, hindex]
    rfl

theorem stepped_settle {e : Sent} {wkc2 : Int} (h : x.Inv cfg answer p)
    (hloc : x.loc = .arrived e wkc2) (hplace : Receiving cfg answer [e] x)
    (hpolled : Polled answer e.idx e.frame p wkc2) (hkeeps : Keeps answer)
    (htransfers : Transfers cfg.group) :
    Exchange.Stepped cfg answer p x p (settle e wkc2 (p.rx e.idx) x) := by
  have hsettled := hplace.settle hkeeps htransfers hpolled
  have hloc' := settle_loc e wkc2 (p.rx e.idx) x
  have hstack' := settle_idxstack e wkc2 (p.rx e.idx) x
  constructor
  · constructor
    · unfold Exchange.At
      rw [hloc']
      exact ⟨hsettled, settle_answered e wkc2 _ x, hpolled.busy⟩
    · rw [hstack']
      exact h.out
    · intro idx hidx
      rw [hloc'] at hidx
      rw [hstack', List.mem_singleton.mp hidx]
      exact h.not_mem (congrArg _ hloc)
    · intro hfalse
      rw [hloc'] at hfalse
      cases hfalse
  · refine Guarantee.of_eq answer p ?_
    unfold Exchange.held
    rw [hloc, hloc', hstack']
    rfl

theorem stepped_release {idx : Fin ecMaxBuf} (h : x.Inv cfg answer p)
    (hloc : x.loc = .releasing idx) (hplace : Receiving cfg answer [] x)
    (hbusy : p.rxbufstat idx ≠ .empty) (hputting : p.putting ≠ some idx) :
    Exchange.Stepped cfg answer p x (p.setBufStat idx .empty)
      { x with loc := .waiting } := by
  have hnew : idx ∉ x.idxstack.map Sent.idx :=
    h.not_mem (congrArg _ hloc)
  constructor
  · refine ⟨hplace.at_loc _, ?_, ?_, ?_⟩
    · exact h.out.beside hnew (touches_setBufStat answer idx .empty p)
    · exact fun _ hother => absurd hother List.not_mem_nil
    · exact nofun
  · unfold Exchange.held
    rw [hloc]
    exact guarantee_release hputting hbusy

theorem stepped_finish (h : x.Inv cfg answer p) (hloc : x.loc = .waiting)
    (hplace : Receiving cfg answer [] x) (hstack : x.idxstack = [])
    (htransfers : Transfers cfg.group) :
    Exchange.Stepped cfg answer p x p
      { x with loc := .finished (if x.validWkc then x.wkc else noFrame) } := by
  constructor
  · refine ⟨⟨hstack, hplace.exchanged htransfers hstack⟩, h.out, ?_, ?_⟩
    · exact fun _ hidx => absurd hidx List.not_mem_nil
    · exact nofun
  · refine Guarantee.of_eq answer p ?_
    unfold Exchange.held
    rw [hloc]
    rfl

theorem exchangeStep_stepped (hkeeps : Keeps answer)
    (htransfers : Transfers cfg.group) (h : x.Inv cfg answer p)
    {event : ExchangeEvent} (htimely : x.loc.Timely answer p)
    (hexpected : event.Expected p)
    (hstep : exchangeStep cfg (p, x) event = some (p', x')) :
    Exchange.Stepped cfg answer p x p' x' := by
  have hplace := h.place
  unfold Exchange.At at hplace
  cases event with
  | begin image =>
      simp only [exchangeStep] at hstep
      split at hstep
      · rename_i hloc
        rw [hloc] at hplace
        cases hstep
        exact stepped_begin hplace.left hloc image
      · cases hstep
  | allocate =>
      simp only [exchangeStep] at hstep
      split at hstep
      · rename_i hloc
        rw [hloc] at hplace
        split at hstep
        · rename_i hlock
          cases hstep
          exact stepped_allocate h hloc hplace hexpected hlock
        · cases hstep
      · cases hstep
  | scan =>
      simp only [exchangeStep] at hstep
      split at hstep
      · rename_i hloc
        rw [hloc] at hplace
        cases hstep
        exact stepped_scan h hloc hplace.left hplace.right
      · cases hstep
  | take =>
      simp only [exchangeStep] at hstep
      split at hstep
      · rename_i hloc
        rw [hloc] at hplace
        cases hstep
        exact stepped_take h hloc hplace.left hplace.right
      · cases hstep
  | transmit ok =>
      have hok : ok = true := hexpected
      subst hok
      simp only [exchangeStep] at hstep
      split at hstep
      · rename_i hloc
        rw [hloc] at hplace
        cases hstep
        exact stepped_transmit h hloc hplace.left hplace.right htransfers rfl
      · cases hstep
  | receive =>
      simp only [exchangeStep] at hstep
      split at hstep
      · rename_i hloc
        rw [hloc] at hplace
        cases hstep
        exact stepped_receive h hloc hplace
      · cases hstep
  | pull =>
      simp only [exchangeStep] at hstep
      split at hstep
      · rename_i hloc hstack
        rw [hloc] at hplace
        cases hstep
        exact stepped_pull h hloc hplace hstack
      · cases hstep
  | poll packet =>
      simp only [exchangeStep] at hstep
      split at hstep
      · rename_i hloc
        rw [hloc] at hplace htimely
        split at hstep
        · rename_i hnext
          cases hstep
          exact stepped_poll h hloc hplace.left hplace.right htimely hnext
        · cases hstep
      · cases hstep
  | timer expired =>
      simp only [exchangeStep] at hstep
      split at hstep
      · rename_i e wkc2 hloc
        rw [hloc] at hplace
        have hpolled : Polled answer e.idx e.frame p wkc2 := hplace.right.place
        split at hstep
        · cases hstep
          exact stepped_timer h hloc ⟨hplace.left.at_loc _, hpolled⟩ rfl rfl rfl
        · rename_i hagain
          cases hstep
          have hmissed := hpolled.missed
            (not_lt.mp fun hlt => hagain (Or.inl hlt))
          exact stepped_timer h hloc ⟨hplace.left.at_loc _, hmissed,
            nofun⟩ rfl rfl rfl
      · cases hstep
  | settle =>
      simp only [exchangeStep] at hstep
      split at hstep
      · rename_i hloc
        rw [hloc] at hplace
        cases hstep
        exact stepped_settle h hloc hplace.left hplace.right hkeeps htransfers
      · cases hstep
  | release =>
      simp only [exchangeStep] at hstep
      split at hstep
      · rename_i hloc
        rw [hloc] at hplace htimely
        cases hstep
        exact stepped_release h hloc hplace.left hplace.right.right htimely
      · cases hstep
  | finish =>
      simp only [exchangeStep] at hstep
      split at hstep
      · rename_i hloc hstack
        rw [hloc] at hplace
        cases hstep
        exact stepped_finish h hloc hplace hstack htransfers
      · cases hstep

end Steps

end Soem
end FrankaKistar
