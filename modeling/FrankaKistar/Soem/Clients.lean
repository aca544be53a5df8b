import FrankaKistar.Foundation.Threads
import FrankaKistar.Soem.Access
import FrankaKistar.Soem.Outstanding
import Mathlib.Algebra.Order.BigOperators.Group.Finset
import Mathlib.Data.Fintype.BigOperators
import Mathlib.Tactic.FinCases

/-!
# The threads of the master

The thread of the process data and the threads that access registers share the
port, and their steps come in any order.  A buffer that is in use belongs to one
thread, and each thread gets the answers to its own frames.

`ecx_setbufstat` takes no mutex.  A thread whose time is up can release its
buffer while another one, which has found it waiting, is putting an answer into
it; the buffer would be marked as received with nobody to release it, or another
thread would get that answer.  The runs are those in which this does not happen.
-/

namespace FrankaKistar
namespace Soem

open Foundation Machine Ranges

inductive Client where
  | exchange (cfg : BusConfig) (x : Exchange)
  | access (a : Access)

inductive ClientEvent where
  | exchange (e : ExchangeEvent)
  | access (e : AccessEvent)

def clientStep : Machine (Port × Client) ClientEvent
  | (p, .exchange cfg x), .exchange e =>
      match exchangeStep cfg (p, x) e with
      | some (p', x') => some (p', .exchange cfg x')
      | none => none
  | (p, .access a), .access e =>
      match accessStep (p, a) e with
      | some (p', a') => some (p', .access a')
      | none => none
  | _, _ => none

abbrev Master (thread : Type) : Type := Threads thread Port Client

def masterStep {thread : Type} [DecidableEq thread] :
    Machine (Master thread) (thread × ClientEvent) :=
  interleave clientStep

def Client.held : Client -> Holding
  | .exchange _ x => x.held
  | .access a => a.held

def Client.config : Client -> Option BusConfig
  | .exchange cfg _ => some cfg
  | .access _ => none

/-- The most buffers that the thread holds at a time. -/
def Client.demand : Client -> Nat
  | .exchange cfg _ => (processDataChunks cfg.group).length
  | .access _ => 1

/-- A thread before its first step. -/
def Client.Ready : Client -> Prop
  | .exchange cfg x => Transfers cfg.group ∧
      exists image clock, x = Exchange.start cfg image clock
  | .access a => exists request : Request, request.Fits ∧ a = .start request

def ClientEvent.Takes : ClientEvent -> Prop
  | .exchange .allocate => True
  | .access .allocate => True
  | _ => False

def Client.Timely (answer : AnswerRel) (p : Port) : Client -> Prop
  | .exchange _ x => x.loc.Timely answer p
  | .access a => a.loc.Timely answer p

/-- Requests fit a buffer, and the socket takes the frames. -/
def ClientEvent.accepted : ClientEvent -> Bool
  | .exchange (.transmit ok) => ok
  | .access (.begin request) => decide request.Fits
  | .access (.transmit ok) => ok
  | _ => true

/-- A frame is put away only for the frame that it answers, and a buffer is not
released while an answer is being put into it. -/
structure Regular (answer : AnswerRel) (p : Port) (c : Client)
    (e : ClientEvent) : Prop where
  timely : c.Timely answer p
  accepted : e.accepted = true

section Decidable

variable (answer : AnswerRel)
  [forall frame packet, Decidable (answer frame packet)] (p : Port)

instance (loc : ExchangeLoc) : Decidable (loc.Timely answer p) :=
  match loc with
  | .polling e q => inferInstanceAs (Decidable (q.Genuine answer e.idx p))
  | .releasing idx => inferInstanceAs (Decidable (p.putting ≠ some idx))
  | .sending _ _ => isTrue True.intro
  | .indexing _ _ _ _ => isTrue True.intro
  | .allocated _ _ _ _ => isTrue True.intro
  | .waiting => isTrue True.intro
  | .arrived _ _ => isTrue True.intro
  | .finished _ => isTrue True.intro

instance (loc : AccessLoc) : Decidable (loc.Timely answer p) :=
  match loc with
  | .polling idx _ q => inferInstanceAs (Decidable (q.Genuine answer idx p))
  | .releasing idx _ _ => inferInstanceAs (Decidable (p.putting ≠ some idx))
  | .requested => isTrue True.intro
  | .indexing _ => isTrue True.intro
  | .allocated _ => isTrue True.intro
  | .sending _ _ => isTrue True.intro
  | .confirmed _ _ _ => isTrue True.intro
  | .finished _ _ => isTrue True.intro

instance (c : Client) : Decidable (c.Timely answer p) :=
  match c with
  | .exchange _ x => inferInstanceAs (Decidable (x.loc.Timely answer p))
  | .access a => inferInstanceAs (Decidable (a.loc.Timely answer p))

instance (c : Client) (e : ClientEvent) : Decidable (Regular answer p c e) :=
  decidable_of_iff (c.Timely answer p ∧ e.accepted = true)
    ⟨fun h => ⟨h.left, h.right⟩, fun h => ⟨h.timely, h.accepted⟩⟩

end Decidable

/-!
## One step
-/

def ClientEvent.Expected (p : Port) : ClientEvent -> Prop
  | .exchange e => e.Expected p
  | .access e => e.Expected p

def Client.Inv (answer : AnswerRel) (p : Port) : Client -> Prop
  | .exchange cfg x => Transfers cfg.group ∧ x.Inv cfg answer p
  | .access a => a.Inv answer p

def Client.Apart (c c' : Client) : Prop := c.held.Apart c'.held

section Clients

variable {answer : AnswerRel} {p p' : Port} {c c' : Client} {e : ClientEvent}

theorem clientEvent_expected (haccepted : e.accepted = true)
    (hempty : e.Takes -> exists i, p.rxbufstat i = .empty) : e.Expected p := by
  cases e with
  | exchange e =>
      cases e with
      | allocate => exact hempty True.intro
      | transmit ok => exact haccepted
      | _ => exact True.intro
  | access e =>
      cases e with
      | begin request =>
          have hfits : request.Fits := of_decide_eq_true haccepted
          exact hfits
      | allocate => exact hempty True.intro
      | transmit ok => exact haccepted
      | _ => exact True.intro

theorem Client.Inv.kept (h : c.Inv answer p)
    (hrely : Rely answer p p' c.held) : c.Inv answer p' := by
  cases c with
  | exchange cfg x => exact ⟨h.left, h.right.kept hrely⟩
  | access a => exact Access.Inv.kept h hrely

theorem Client.Inv.marked (h : c.Inv answer p) : c.held.Marked p := by
  cases c with
  | exchange cfg x => exact h.right.marked
  | access a => exact Access.Inv.marked h

structure Client.Stepped (answer : AnswerRel) (p : Port) (c : Client) (p' : Port)
    (c' : Client) : Prop where
  inv : c'.Inv answer p'
  guarantee : Guarantee answer p p' c.held c'.held

theorem clientStep_stepped (hkeeps : Keeps answer) (h : c.Inv answer p)
    (htimely : c.Timely answer p) (hexpected : e.Expected p)
    (hstep : clientStep (p, c) e = some (p', c')) :
    Client.Stepped answer p c p' c' := by
  cases c with
  | exchange cfg x =>
      cases e with
      | exchange e =>
          simp only [clientStep] at hstep
          split at hstep
          · rename_i hnext
            cases hstep
            have hstepped :=
              exchangeStep_stepped hkeeps h.left h.right htimely hexpected hnext
            exact ⟨⟨h.left, hstepped.inv⟩, hstepped.guarantee⟩
          · cases hstep
      | access e =>
          simp only [clientStep] at hstep
          cases hstep
  | access a =>
      cases e with
      | exchange e =>
          simp only [clientStep] at hstep
          cases hstep
      | access e =>
          simp only [clientStep] at hstep
          split at hstep
          · rename_i hnext
            cases hstep
            have hstepped := accessStep_stepped hkeeps h htimely hexpected hnext
            exact ⟨hstepped.inv, hstepped.guarantee⟩
          · cases hstep

theorem config_clientStep (hstep : clientStep (p, c) e = some (p', c')) :
    c'.config = c.config := by
  cases c with
  | exchange cfg x =>
      cases e with
      | exchange e =>
          simp only [clientStep] at hstep
          split at hstep
          · cases hstep
            rfl
          · cases hstep
      | access e => cases hstep
  | access a =>
      cases e with
      | exchange e => cases hstep
      | access e =>
          simp only [clientStep] at hstep
          split at hstep
          · cases hstep
            rfl
          · cases hstep

theorem demand_of_config (h : c'.config = c.config) : c'.demand = c.demand := by
  cases c with
  | exchange cfg x =>
      cases c' with
      | exchange cfg' x' =>
          cases h
          rfl
      | access a' => cases h
  | access a =>
      cases c' with
      | exchange cfg' x' => cases h
      | access a' => rfl

theorem keptBeside_clientStep (hkeeps : Keeps answer) :
    KeptBeside clientStep
      (fun p c e => c.Timely answer p ∧ e.Expected p)
      (Client.Inv answer) Client.Apart where
  own := fun h hcond hstep =>
    (clientStep_stepped hkeeps h hcond.left hcond.right hstep).inv
  beside := by
    intro p p' c c' d e hc hd _ hdc hcond hstep
    have hguarantee :=
      (clientStep_stepped hkeeps hc hcond.left hcond.right hstep).guarantee
    have hapart : d.held.Apart c'.held := hguarantee.apart hdc hd.marked
    exact ⟨hd.kept (hguarantee.rely hdc hd.marked), hapart.symm, hapart⟩

theorem Client.Inv.length_held (h : c.Inv answer p) :
    c.held.buffers.length ≤ c.demand := by
  cases c with
  | exchange cfg x => exact h.right.length_held
  | access a =>
      show a.loc.buffer.length ≤ 1
      unfold AccessLoc.buffer
      split <;> simp

theorem Client.Inv.length_lt (h : c.Inv answer p) (htakes : e.Takes)
    (hstep : clientStep (p, c) e = some (p', c')) :
    c.held.buffers.length < c.demand := by
  cases c with
  | exchange cfg x =>
      cases e with
      | exchange e =>
          cases e with
          | allocate =>
              simp only [clientStep] at hstep
              split at hstep
              · rename_i hnext
                exact h.right.length_lt hnext
              · cases hstep
          | _ => cases htakes
      | access e =>
          simp only [clientStep] at hstep
          cases hstep
  | access a =>
      cases e with
      | exchange e =>
          simp only [clientStep] at hstep
          cases hstep
      | access e =>
          cases e with
          | allocate =>
              simp only [clientStep, accessStep] at hstep
              cases hloc : a.loc with
              | requested =>
                  show a.loc.buffer.length < 1
                  rw [hloc]
                  exact Nat.one_pos
              | _ =>
                  rw [hloc] at hstep
                  cases hstep
          | _ => cases htakes

theorem Client.Inv.taken (h : c.Inv answer p)
    (hstep : clientStep (p, c) e = some (p', c')) {idx : Fin ecMaxBuf}
    (hidx : idx ∈ c'.held.buffers) :
    idx ∈ c.held.buffers ∨ p.rxbufstat idx = .empty := by
  cases c with
  | exchange cfg x =>
      cases e with
      | exchange e =>
          simp only [clientStep] at hstep
          split at hstep
          · rename_i hnext
            cases hstep
            rcases mem_held_exchangeStep hnext hidx with
              hheld | ⟨first, c, rest, hloc⟩
            · exact Or.inl hheld
            · have hplace := h.right.place
              unfold Exchange.At at hplace
              rw [hloc] at hplace
              exact Or.inr hplace.right
          · cases hstep
      | access e => cases hstep
  | access a =>
      cases e with
      | exchange e => cases hstep
      | access e =>
          simp only [clientStep] at hstep
          split at hstep
          · rename_i hnext
            cases hstep
            rcases mem_held_accessStep hnext hidx with hheld | hloc
            · exact Or.inl hheld
            · have hplace := Access.Inv.place h
              unfold Access.At at hplace
              rw [hloc] at hplace
              exact Or.inr hplace
          · cases hstep

end Clients

/-!
## Every run
-/

section Runs

variable {thread : Type} [DecidableEq thread] [Fintype thread]
  {answer : AnswerRel} {s s' : Master thread}

/-- The port is used by these threads only, and has buffers for all of them. -/
structure Safe (answer : AnswerRel) (s : Master thread) : Prop where
  beside : EachBeside (Client.Inv answer) Client.Apart s
  owned : forall idx, s.common.rxbufstat idx ≠ .empty ->
    exists t, idx ∈ (s.part t).held.buffers
  demand : ∑ t, (s.part t).demand ≤ ecMaxBuf

omit [DecidableEq thread] in
/-- While a thread does not hold all that it needs there is an empty buffer. -/
theorem Safe.spare (h : Safe answer s) {t : thread}
    (hlt : (s.part t).held.buffers.length < (s.part t).demand) :
    exists idx, s.common.rxbufstat idx = .empty := by
  by_contra hnone
  have hbusy : forall idx, s.common.rxbufstat idx ≠ .empty :=
    fun idx hempty => hnone ⟨idx, hempty⟩
  have hcover : (Finset.univ : Finset (Fin ecMaxBuf)) ⊆
      Finset.univ.biUnion fun t => (s.part t).held.buffers.toFinset := by
    intro idx _
    rcases h.owned idx (hbusy idx) with ⟨u, hu⟩
    exact Finset.mem_biUnion.mpr
      ⟨u, Finset.mem_univ u, List.mem_toFinset.mpr hu⟩
  have hcard := Finset.card_le_card hcover
  rw [Finset.card_univ, Fintype.card_fin] at hcard
  have hlengths : ∑ t, (s.part t).held.buffers.toFinset.card ≤
      ∑ t, (s.part t).held.buffers.length :=
    Finset.sum_le_sum fun u _ => List.toFinset_card_le _
  have hdemands : ∑ t, (s.part t).held.buffers.length <
      ∑ t, (s.part t).demand :=
    Finset.sum_lt_sum (fun u _ => (h.beside.each u).length_held)
      ⟨t, Finset.mem_univ t, hlt⟩
  exact absurd (Nat.lt_of_le_of_lt
    (hcard.trans (Finset.card_biUnion_le.trans hlengths))
    (Nat.lt_of_lt_of_le hdemands h.demand)) (Nat.lt_irrefl _)

theorem Safe.step (hkeeps : Keeps answer) (h : Safe answer s)
    {event : thread × ClientEvent}
    (hregular : Regular answer s.common (s.part event.1) event.2)
    (hstep : masterStep s event = some s') : Safe answer s' := by
  rcases event with ⟨t, e⟩
  rcases interleave_cases hstep with ⟨p', c', hnext, hs'⟩
  have hexpected : e.Expected s.common :=
    clientEvent_expected hregular.accepted fun htakes =>
      h.spare ((h.beside.each t).length_lt htakes hnext)
  have hstepped := clientStep_stepped hkeeps (h.beside.each t) hregular.timely
    hexpected hnext
  constructor
  · exact h.beside.step (keptBeside_clientStep hkeeps)
      ⟨hregular.timely, hexpected⟩ hstep
  · rw [hs']
    intro idx hbusy
    by_cases hheld : idx ∈ c'.held.buffers
    · refine ⟨t, ?_⟩
      dsimp only
      rw [Function.update_self]
      exact hheld
    · by_cases hempty : s.common.rxbufstat idx = .empty
      · exact absurd (hstepped.guarantee.unused idx hheld hempty) hbusy
      · rcases h.owned idx hempty with ⟨u, hu⟩
        have hne : u ≠ t := by
          intro heq
          rw [heq] at hu
          exact hbusy (hstepped.guarantee.released idx hu hheld)
        refine ⟨u, ?_⟩
        dsimp only
        rw [Function.update_of_ne hne]
        exact hu
  · have hdemand : (fun u => (Function.update s.part t c' u).demand) =
        fun u => (s.part u).demand := by
      funext u
      by_cases heq : u = t
      · rw [heq, Function.update_self]
        exact demand_of_config (config_clientStep hnext)
      · rw [Function.update_of_ne heq]
    rw [hs']
    dsimp only
    rw [hdemand]
    exact h.demand

omit [Fintype thread] in
theorem config_masterStep {event : thread × ClientEvent}
    (hstep : masterStep s event = some s') (t : thread) :
    (s'.part t).config = (s.part t).config := by
  rcases event with ⟨u, e⟩
  rcases interleave_cases hstep with ⟨p', c', hnext, hs'⟩
  rw [hs']
  dsimp only
  by_cases heq : t = u
  · rw [heq, Function.update_self]
    exact config_clientStep hnext
  · rw [Function.update_of_ne heq]

theorem Client.Ready.inv {c : Client} (h : c.Ready) (answer : AnswerRel)
    (p : Port) : c.Inv answer p ∧ c.held = ⟨[], false, false⟩ := by
  cases c with
  | exchange cfg x =>
      rcases h with ⟨htransfers, image, clock, rfl⟩
      refine ⟨⟨htransfers, sending_start cfg image clock, ?_, ?_, ?_⟩, rfl⟩
      · exact ⟨fun _ he => absurd he List.not_mem_nil, List.nodup_nil⟩
      · exact fun _ hidx => absurd hidx List.not_mem_nil
      · exact nofun
  | access a =>
      rcases h with ⟨request, hfits, rfl⟩
      exact ⟨⟨hfits, True.intro, nofun⟩, rfl⟩

variable {p : Port} {clients : thread -> Client}
  {history : List (thread × ClientEvent)}

omit [Fintype thread] in
theorem config_of_run {cond : Master thread -> thread × ClientEvent -> Prop}
    (h : RunWhere masterStep cond ⟨p, clients⟩ history s) (t : thread) :
    (s.part t).config = (clients t).config := by
  induction h with
  | nil => rfl
  | snoc _ _ hstep ih => exact (config_masterStep hstep t).trans ih

theorem safe_of_run (hkeeps : Keeps answer)
    (hport : forall idx, p.rxbufstat idx = .empty)
    (hready : forall t, (clients t).Ready)
    (hdemand : ∑ t, (clients t).demand ≤ ecMaxBuf)
    (h : RunWhere masterStep
      (fun s e => Regular answer s.common (s.part e.1) e.2)
      ⟨p, clients⟩ history s) : Safe answer s := by
  have hstart : Safe answer ⟨p, clients⟩ := by
    constructor
    · constructor
      · exact fun t => ((hready t).inv answer p).left
      · intro t t' _
        unfold Client.Apart
        dsimp only
        rw [((hready t).inv answer p).right]
        exact ⟨fun _ hidx => absurd hidx List.not_mem_nil, nofun, nofun⟩
    · intro idx hbusy
      exact absurd (hport idx) hbusy
    · exact hdemand
  exact invariant_of_step (fun _ _ _ hsafe hregular hstep =>
    hsafe.step hkeeps hregular hstep) hstart h

omit [DecidableEq thread] in
theorem Safe.finished (h : Safe answer s) {t : thread} {cfg : BusConfig}
    {x : Exchange} {result : Int} (hpart : s.part t = .exchange cfg x)
    (hloc : x.loc = .finished result) :
    Transfers cfg.group ∧ Exchanged cfg answer x result := by
  have hinv := h.beside.each t
  rw [hpart] at hinv
  have hx := hinv.right.place
  unfold Exchange.At at hx
  rw [hloc] at hx
  exact ⟨hinv.left, hx.right⟩

end Runs

/-!
## Two threads

An exchange beside a register access: it reads the answer to the other one from
the socket and puts it away, and then its own.
-/

def oneSlave : Group := configMapGroup false 0 [⟨8, 16, false⟩] fun _ => 0

def dcConfig : BusConfig := ⟨oneSlave, true, 0x1001⟩

def emptyPort : Port where
  tx := fun _ => emptyBuffer
  rx := fun _ _ => 0
  rxbufstat := fun _ => .empty
  lastidx := ⟨15, by decide⟩
  getindexMutex := false
  rxMutex := false
  putting := none

def twoThreads : Fin 2 -> Client
  | 0 => .exchange dcConfig (.start dcConfig UInt8.ofNat fun _ => 0)
  | 1 => .access (.start (brd 0 0x0130 [0, 0]))

/-- Every byte of the answer behind the header of the first datagram is one. -/
def answered (elength command index : UInt8) : Packet
  | 12 => 0x88
  | 13 => 0xA4
  | 14 => elength
  | 15 => 0x10
  | 16 => command
  | 17 => index
  | _ => 1

def keepsHeader : AnswerRel := fun frame packet =>
  load packet ethHeaderSize 3 = load frame.bytes ethHeaderSize 3

instance (frame : TxBuffer) (packet : Packet) :
    Decidable (keepsHeader frame packet) :=
  inferInstanceAs (Decidable (load packet _ 3 = load frame.bytes _ 3))

def twoThreadsRun : List (Fin 2 × ClientEvent) :=
  [(0, .exchange .allocate), (0, .exchange .scan), (0, .exchange .take),
    (1, .access .allocate), (0, .exchange (.transmit true)),
    (1, .access .scan), (1, .access .take), (1, .access .setup),
    (1, .access (.transmit true)), (0, .exchange .receive),
    (0, .exchange .pull), (0, .exchange (.poll none)),
    (0, .exchange (.poll none)),
    (0, .exchange (.poll (some (answered 14 0x07 1)))),
    (1, .access (.poll none)), (0, .exchange (.poll none)),
    (0, .exchange (.poll none)), (0, .exchange (.poll none)),
    (0, .exchange (.poll none)), (0, .exchange (.timer false)),
    (1, .access (.poll none)), (1, .access (.poll none)),
    (1, .access (.poll none)), (1, .access (.timer false false)),
    (0, .exchange (.poll none)), (0, .exchange (.poll none)),
    (0, .exchange (.poll (some (answered 35 0x0c 0)))),
    (0, .exchange (.poll none)), (1, .access (.poll none)),
    (1, .access (.poll none)), (0, .exchange (.poll none)),
    (0, .exchange (.timer false)), (1, .access (.timer false false)),
    (0, .exchange .settle), (1, .access .copy), (1, .access .release),
    (0, .exchange .release), (0, .exchange .finish)]

def bothFinished (s : Master (Fin 2)) : Bool :=
  match s.part 0, s.part 1 with
  | .exchange _ x, .access a =>
      match x.loc, a.loc with
      | .finished result, .finished wkc _ =>
          decide (result = 257) && decide (wkc = 257)
      | _, _ => false
  | _, _ => false

theorem bothFinished_cases {s : Master (Fin 2)} (h : bothFinished s = true) :
    (exists cfg x, s.part 0 = .exchange cfg x ∧ x.loc = .finished 257) ∧
      exists a data, s.part 1 = .access a ∧ a.loc = .finished 257 data := by
  unfold bothFinished at h
  split at h
  · rename_i x a hx ha
    split at h
    · rename_i hxloc haloc
      rw [Bool.and_eq_true, decide_eq_true_iff, decide_eq_true_iff] at h
      rw [h.left] at hxloc
      rw [h.right] at haloc
      exact ⟨⟨_, x, hx, hxloc⟩, a, _, ha, haloc⟩
    · cases h
  · cases h

theorem run_twoThreads : exists s,
    RunWhere masterStep
      (fun s e => Regular keepsHeader s.common (s.part e.1) e.2)
      ⟨emptyPort, twoThreads⟩ twoThreadsRun s ∧ bothFinished s = true := by
  have hrun : ((Machine.guarded masterStep fun s e =>
      Regular keepsHeader s.common (s.part e.1) e.2).runFrom
      ⟨emptyPort, twoThreads⟩ twoThreadsRun).any bothFinished = true := by
    decide +kernel
  exact exists_runWhere_of_any hrun

theorem ready_twoThreads (t : Fin 2) : (twoThreads t).Ready := by
  fin_cases t
  · refine ⟨transfers_configMapGroup _ _ _ _ ?_ (by decide), _, _, rfl⟩
    intro slave hslave
    rw [List.mem_singleton.mp hslave]
    exact ⟨by decide, by decide⟩
  · exact ⟨_, by decide, rfl⟩

/-!
## What each thread gets
-/

section Runs

variable {thread : Type} [DecidableEq thread] [Fintype thread]
  {answer : AnswerRel} {s : Master thread} {p : Port}
  {clients : thread -> Client} {history : List (thread × ClientEvent)}

/-- Every buffer in use belongs to one thread, and a step takes unused buffers
only. -/
structure Allotted (s : Master thread) : Prop where
  single : forall idx t t', idx ∈ (s.part t).held.buffers ->
    idx ∈ (s.part t').held.buffers -> t = t'
  busy : forall idx, s.common.rxbufstat idx ≠ .empty ↔
    exists t, idx ∈ (s.part t).held.buffers
  unused : forall t e p' c',
    clientStep (s.common, s.part t) e = some (p', c') ->
    forall idx, idx ∈ c'.held.buffers -> idx ∉ (s.part t).held.buffers ->
      s.common.rxbufstat idx = .empty

def lateRelease : List (Fin 2 × AccessEvent) :=
  [(0, .allocate), (0, .scan), (0, .take), (0, .setup), (0, .transmit true),
    (0, .poll none), (0, .poll none), (0, .poll none), (0, .poll none),
    (0, .timer true true), (0, .copy), (1, .allocate), (1, .scan), (1, .take),
    (1, .setup), (1, .transmit true), (1, .poll none), (1, .poll none),
    (1, .poll (some (answered 14 0x07 0))), (1, .poll none), (0, .release),
    (1, .poll none), (1, .poll none), (1, .poll none), (1, .timer true true),
    (1, .copy), (1, .release)]

example : ((masterStep.runFrom
    ⟨emptyPort, fun _ => .access (.start (brd 0 0x0130 [0, 0]))⟩
    (lateRelease.map fun e => (e.1, .access e.2))).any fun s =>
      decide (s.common.rxbufstat 0 = .rcvd) &&
        (s.part 0).held.buffers.isEmpty && (s.part 1).held.buffers.isEmpty) =
    true := by
  decide +kernel

end Runs

end Soem
end FrankaKistar
