import FrankaKistar.Soem.Sharing

/-!
# Polling for an answer

A thread that polls for the answer to its frame reads what another thread has
put into its buffer, or what the socket has: its own answer, or one that it puts
away for another thread.
-/

namespace FrankaKistar
namespace Soem

open Foundation LittleEndian Ranges

variable {answer : AnswerRel} {p p' : Port} {idx : Fin ecMaxBuf}
  {frame : TxBuffer} {wkc : Int}

structure Received (answer : AnswerRel) (idx : Fin ecMaxBuf) (frame : TxBuffer)
    (p : Port) (wkc : Int) : Prop where
  tx : p.tx idx = frame
  status : p.rxbufstat idx = .complete
  answered : exists packet, Answered answer p idx packet
  wkc : wkc = workCounter (p.rx idx) (rxLength (p.rx idx))

structure Taken (answer : AnswerRel) (idx : Fin ecMaxBuf) (frame : TxBuffer)
    (rx : Nat -> UInt8) (packet : Packet) : Prop where
  carries : Carries idx packet
  answer : answer frame packet
  copied : load rx 0 (frame.length - ethHeaderSize) =
    load packet ethHeaderSize (frame.length - ethHeaderSize)

/-- The stations leave the length and the first command of a frame alone. -/
def Keeps (answer : AnswerRel) : Prop :=
  forall frame packet, answer frame packet ->
    load packet ethHeaderSize 3 = load frame.bytes ethHeaderSize 3

theorem Received.taken (h : Received answer idx frame p wkc) :
    exists packet, Taken answer idx frame (p.rx idx) packet := by
  rcases h.answered with ⟨packet, hanswered⟩
  refine ⟨packet, hanswered.carries, ?_, ?_⟩
  · rw [<- h.tx]
    exact hanswered.answer
  · rw [<- h.tx]
    exact hanswered.copied

theorem Received.header (h : Received answer idx frame p wkc)
    (hkeeps : Keeps answer) (hlength : ethHeaderSize + 3 ≤ frame.length) :
    load (p.rx idx) 0 3 = load frame.bytes ethHeaderSize 3 := by
  rcases h.taken with ⟨packet, htaken⟩
  have hroom : 3 ≤ frame.length - ethHeaderSize := by omega
  rw [<- hkeeps _ _ htaken.answer, <- take_load _ hroom, htaken.copied,
    take_load _ hroom]

theorem Received.elength (h : Received answer idx frame p wkc)
    (hkeeps : Keeps answer) (hlength : ethHeaderSize + 3 ≤ frame.length) :
    load (p.rx idx) 0 2 = load frame.bytes ethHeaderSize 2 := by
  rw [<- take_load _ (Nat.le_succ 2), h.header hkeeps hlength,
    take_load _ (Nat.le_succ 2)]

theorem Received.kept (h : Received answer idx frame p wkc)
    (hkept : Undisturbed answer p p' idx) :
    Received answer idx frame p' wkc := by
  have hsame := hkept.same h.status nofun
  rcases h.answered with ⟨packet, hanswered⟩
  constructor
  · exact hkept.tx.trans h.tx
  · exact hsame.left
  · exact ⟨packet, hanswered.congr hkept.tx hsame.right⟩
  · rw [hsame.right]
    exact h.wkc

/-- What a poll has found: an answer, or none so far. -/
structure Polled (answer : AnswerRel) (idx : Fin ecMaxBuf) (frame : TxBuffer)
    (p : Port) (wkc : Int) : Prop where
  found : noFrame < wkc -> Received answer idx frame p wkc
  missed : wkc ≤ noFrame -> InFlight answer p idx frame

theorem Polled.kept (h : Polled answer idx frame p wkc)
    (hkept : Undisturbed answer p p' idx) : Polled answer idx frame p' wkc where
  found := fun hfound => (h.found hfound).kept hkept
  missed := fun hmissed => (h.missed hmissed).kept hkept

theorem Polled.busy (h : Polled answer idx frame p wkc) :
    p.rxbufstat idx ≠ .empty := by
  rcases lt_or_ge noFrame wkc with hfound | hmissed
  · rw [(h.found hfound).status]
    exact nofun
  · exact (h.missed hmissed).busy

theorem InFlight.polled (h : InFlight answer p idx frame)
    (hmissed : wkc ≤ noFrame) : Polled answer idx frame p wkc where
  found := fun hfound => absurd hmissed (not_le.mpr hfound)
  missed := fun _ => h

theorem Received.polled (h : Received answer idx frame p wkc) :
    Polled answer idx frame p wkc where
  found := fun _ => h
  missed := fun hmissed => by
    rw [h.wkc] at hmissed
    exact absurd (noFrame_lt_workCounter _ _) (not_lt.mpr hmissed)

/-!
## The statements of `ecx_inframe`
-/

/-- The answer in the temporary buffer belongs to the frame of another buffer,
which waits for it until it is marked. -/
structure Putting (answer : AnswerRel) (p : Port) (other : Fin ecMaxBuf)
    (packet : Packet) : Prop where
  putting : p.putting = some other
  waits : p.rxbufstat other = .tx
  carries : Carries other packet
  answer : answer (p.tx other) packet

/-- What is known of the buffer and of the temporary one. -/
def Inframe.At (answer : AnswerRel) (idx : Fin ecMaxBuf) (frame : TxBuffer)
    (p : Port) : Inframe -> Prop
  | .take => InFlight answer p idx frame ∧ p.rxbufstat idx = .rcvd
  | .copy other packet =>
      InFlight answer p idx frame ∧ Putting answer p other packet
  | .mark other packet =>
      InFlight answer p idx frame ∧ Putting answer p other packet ∧
        Answered answer p other packet
  | .unlock rval => Polled answer idx frame p rval
  | .returned rval => Polled answer idx frame p rval
  | _ => InFlight answer p idx frame

structure Inframe.Inv (answer : AnswerRel) (idx : Fin ecMaxBuf)
    (frame : TxBuffer) (p : Port) (q : Inframe) : Prop where
  place : q.At answer idx frame p
  rxMutex : q.locked = true -> p.rxMutex = true

def Inframe.Genuine (answer : AnswerRel) (idx : Fin ecMaxBuf) (p : Port) :
    Inframe -> Prop
  | .sort packet => Soem.Genuine answer idx p packet
  | _ => True

instance (answer : AnswerRel)
    [forall frame packet, Decidable (answer frame packet)] (idx : Fin ecMaxBuf)
    (p : Port) (q : Inframe) : Decidable (q.Genuine answer idx p) :=
  match q with
  | .sort packet =>
      inferInstanceAs (Decidable (Soem.Genuine answer idx p packet))
  | .check => isTrue True.intro
  | .take => isTrue True.intro
  | .lock => isTrue True.intro
  | .recv => isTrue True.intro
  | .copy _ _ => isTrue True.intro
  | .mark _ _ => isTrue True.intro
  | .unlock _ => isTrue True.intro
  | .returned _ => isTrue True.intro

section Kept

variable {q q' : Inframe}

theorem Putting.kept {other : Fin ecMaxBuf} {packet : Packet}
    (h : Putting answer p other packet) (hkept : RxKept p p') :
    Putting answer p' other packet := by
  have hwaiting := hkept.waiting other h.putting h.waits
  constructor
  · exact hkept.putting.trans h.putting
  · exact hwaiting.left
  · exact h.carries
  · rw [hwaiting.right]
    exact h.answer

theorem Inframe.Inv.kept (h : q.Inv answer idx frame p)
    (hkept : Undisturbed answer p p' idx)
    (hrx : q.locked = true -> RxKept p p') : q.Inv answer idx frame p' := by
  constructor
  · have hplace := h.place
    cases q with
    | take =>
        exact ⟨hplace.left.kept hkept, (hkept.same hplace.right nofun).left⟩
    | copy other packet =>
        exact ⟨hplace.left.kept hkept, hplace.right.kept (hrx rfl)⟩
    | mark other packet =>
        have hputting := hplace.right.left
        refine ⟨hplace.left.kept hkept, hputting.kept (hrx rfl), ?_⟩
        exact hplace.right.right.congr
          ((hrx rfl).waiting other hputting.putting hputting.waits).right
          (congrFun (hrx rfl).rx other)
    | unlock rval => exact Polled.kept hplace hkept
    | returned rval => exact Polled.kept hplace hkept
    | check => exact InFlight.kept hplace hkept
    | lock => exact InFlight.kept hplace hkept
    | recv => exact InFlight.kept hplace hkept
    | sort packet => exact InFlight.kept hplace hkept
  · intro hlocked
    rw [(hrx hlocked).locked]
    exact h.rxMutex hlocked

theorem Inframe.Inv.busy (h : q.Inv answer idx frame p) :
    p.rxbufstat idx ≠ .empty := by
  have hplace := h.place
  cases q with
  | take => exact hplace.left.busy
  | copy other packet => exact hplace.left.busy
  | mark other packet => exact hplace.left.busy
  | unlock rval => exact Polled.busy hplace
  | returned rval => exact Polled.busy hplace
  | check => exact InFlight.busy hplace
  | lock => exact InFlight.busy hplace
  | recv => exact InFlight.busy hplace
  | sort packet => exact InFlight.busy hplace

end Kept

/-!
## Every statement
-/

structure Inframe.Stepped (answer : AnswerRel) (idx : Fin ecMaxBuf)
    (frame : TxBuffer) (p : Port) (q : Inframe) (p' : Port) (q' : Inframe) :
    Prop where
  inv : q'.Inv answer idx frame p'
  touches : Touches answer idx p p'
  rxMutex : q.locked = false -> p.rxMutex = true ->
    q'.locked = false ∧ RxKept p p'
  getindexMutex : p'.getindexMutex = p.getindexMutex

theorem stepped_locked {q q' : Inframe} (hlocked : q.locked = true)
    (hplace : q'.At answer idx frame p')
    (hrxMutex : q'.locked = true -> p'.rxMutex = true)
    (hundisturbed : Touches answer idx p p')
    (hmutex : p'.getindexMutex = p.getindexMutex) :
    Inframe.Stepped answer idx frame p q p' q' := by
  refine ⟨⟨hplace, hrxMutex⟩, hundisturbed, fun hfree => ?_, hmutex⟩
  rw [hlocked] at hfree
  cases hfree

theorem touches_same (answer : AnswerRel) (idx : Fin ecMaxBuf)
    (htx : p'.tx = p.tx) (hrx : p'.rx = p.rx)
    (hstatus : p'.rxbufstat = p.rxbufstat) : Touches answer idx p p' :=
  fun other _ => .of_eq (congrFun htx other) (congrFun hrx other)
    (congrFun hstatus other)

theorem InFlight.same (h : InFlight answer p idx frame) (htx : p'.tx = p.tx)
    (hrx : p'.rx = p.rx) (hstatus : p'.rxbufstat = p.rxbufstat) :
    InFlight answer p' idx frame :=
  h.kept (.of_eq (congrFun htx idx) (congrFun hrx idx) (congrFun hstatus idx))

theorem answered_copyFrame {packet : Packet} (hcarries : Carries idx packet)
    (hanswer : answer (p.tx idx) packet) :
    Answered answer (p.copyFrame idx packet) idx packet := by
  refine ⟨hcarries, hanswer, ?_⟩
  have hload := load_store (p.rx idx) 0
    (load packet ethHeaderSize ((p.tx idx).length - ethHeaderSize))
  rw [length_load] at hload
  rw [Port.copyFrame]
  dsimp only
  rw [Function.update_self]
  exact hload

theorem undisturbed_copyFrame {other : Fin ecMaxBuf}
    (hwaits : p.rxbufstat other = .tx) (packet : Packet) (i : Fin ecMaxBuf) :
    Undisturbed answer p (p.copyFrame other packet) i := by
  refine ⟨rfl, Or.inl ⟨rfl, fun hnot => ?_⟩⟩
  refine Function.update_of_ne (fun heq => hnot ?_) _ _
  rw [heq]
  exact hwaits

theorem undisturbed_mark {other : Fin ecMaxBuf} {packet : Packet}
    (hwaits : p.rxbufstat other = .tx)
    (hanswered : Answered answer p other packet) (i : Fin ecMaxBuf) :
    Undisturbed answer p
      { p.setBufStat other .rcvd with putting := none } i := by
  refine ⟨rfl, ?_⟩
  by_cases heq : i = other
  · subst heq
    exact Or.inr ⟨hwaits, Function.update_self _ _ _, packet,
      hanswered.congr rfl rfl⟩
  · exact Or.inl ⟨Function.update_of_ne heq _ _, fun _ => rfl⟩

theorem received_take (h : InFlight answer p idx frame)
    (hrcvd : p.rxbufstat idx = .rcvd) :
    Received answer idx frame (p.setBufStat idx .complete)
      (workCounter (p.rx idx) (rxLength (p.rx idx))) := by
  rcases h.status with htx | ⟨_, packet, hanswered⟩
  · rw [htx] at hrcvd
    cases hrcvd
  · exact ⟨h.tx, Function.update_self _ _ _, ⟨packet, hanswered.congr rfl rfl⟩,
      rfl⟩

theorem received_own {packet : Packet} (htx : p.tx idx = frame)
    (hlength : ethHeaderSize + 2 ≤ frame.length) (hcarries : Carries idx packet)
    (hanswer : answer (p.tx idx) packet) :
    Received answer idx frame ((p.copyFrame idx packet).setBufStat idx .complete)
      (workCounter ((p.copyFrame idx packet).rx idx)
        (rxLength fun k => packet (ethHeaderSize + k))) := by
  have hanswered : Answered answer (p.copyFrame idx packet) idx packet :=
    answered_copyFrame hcarries hanswer
  have hbyte : forall k, k < 2 ->
      (p.copyFrame idx packet).rx idx k = packet (ethHeaderSize + k) := by
    intro k hk
    refine hanswered.byte (Nat.lt_sub_of_add_lt ?_)
    show k + ethHeaderSize < (p.tx idx).length
    rw [htx]
    omega
  refine ⟨htx, Function.update_self _ _ _, ⟨packet, hanswered.congr rfl rfl⟩, ?_⟩
  show _ = workCounter ((p.copyFrame idx packet).rx idx)
    (rxLength ((p.copyFrame idx packet).rx idx))
  unfold rxLength
  rw [hbyte 0 (by decide), hbyte 1 (by decide)]

theorem otherFrame_le : otherFrame ≤ noFrame := by decide

theorem stepped_sort {packet : Packet}
    (h : (Inframe.sort packet).Inv answer idx frame p)
    (hlength : ethHeaderSize + 2 ≤ frame.length)
    (hgenuine : Genuine answer idx p packet) :
    Inframe.Stepped answer idx frame p (.sort packet) (p.sortPacket idx packet).1
      (p.sortPacket idx packet).2 := by
  have hflying : InFlight answer p idx frame := h.place
  have hrx : p.rxMutex = true := h.rxMutex rfl
  have hdropped : Inframe.Stepped answer idx frame p (.sort packet) p
      (.unlock otherFrame) :=
    stepped_locked rfl (hflying.polled otherFrame_le) (fun _ => hrx)
      (touches_same answer idx rfl rfl rfl) rfl
  unfold Port.sortPacket
  split
  · rename_i hecat
    split
    · rename_i hindex
      have hcarries : Carries idx packet := ⟨hecat, hindex⟩
      have hreceived := received_own hflying.tx hlength hcarries
        (hgenuine idx hcarries (Or.inl rfl))
      refine stepped_locked rfl hreceived.polled (fun _ => hrx) ?_ rfl
      exact fun other hne => .of_eq rfl (Function.update_of_ne hne _ _)
        (Function.update_of_ne hne _ _)
    · split
      · rename_i hlt
        unfold Port.sortOther
        split
        · rename_i hwaits
          have hcarries : Carries ⟨(packetIndex packet).toNat, hlt⟩ packet :=
            ⟨hecat, UInt8.ofNat_toNat.symm⟩
          refine stepped_locked rfl ⟨hflying.same rfl rfl rfl, rfl, hwaits,
            hcarries, hgenuine _ hcarries (Or.inr hwaits)⟩ (fun _ => hrx)
            (touches_same answer idx rfl rfl rfl) rfl
        · exact hdropped
      · exact hdropped
  · exact hdropped

theorem inframeStep_stepped {q q' : Inframe} {recv : Option Packet}
    (h : q.Inv answer idx frame p) (hlength : ethHeaderSize + 2 ≤ frame.length)
    (hgenuine : q.Genuine answer idx p)
    (hstep : inframeStep idx (p, q) recv = some (p', q')) :
    Inframe.Stepped answer idx frame p q p' q' := by
  cases q with
  | check =>
      have hflying : InFlight answer p idx frame := h.place
      cases hstep
      constructor
      · split
        · rename_i hrcvd
          exact ⟨⟨hflying, hrcvd⟩, nofun⟩
        · exact ⟨hflying, nofun⟩
      · exact touches_same answer idx rfl rfl rfl
      · intro _ _
        split
        · exact ⟨rfl, RxKept.refl p⟩
        · exact ⟨rfl, RxKept.refl p⟩
      · rfl
  | take =>
      rcases h.place with ⟨hflying, hrcvd⟩
      cases hstep
      constructor
      · exact ⟨(received_take hflying hrcvd).polled, nofun⟩
      · exact touches_setBufStat answer idx .complete p
      · refine fun _ _ => ⟨rfl, rxKept_setBufStat fun _ htx => ?_⟩
        rw [hrcvd] at htx
        cases htx
      · rfl
  | lock =>
      have hflying : InFlight answer p idx frame := h.place
      simp only [inframeStep] at hstep
      split at hstep
      · cases hstep
      · rename_i hfree
        cases hstep
        constructor
        · exact ⟨hflying.same rfl rfl rfl, fun _ => rfl⟩
        · exact touches_same answer idx rfl rfl rfl
        · exact fun _ hlocked => absurd hlocked hfree
        · rfl
  | recv =>
      have hflying : InFlight answer p idx frame := h.place
      have hrx : p.rxMutex = true := h.rxMutex rfl
      cases recv with
      | none =>
          cases hstep
          exact stepped_locked rfl (hflying.polled (le_refl _)) (fun _ => hrx)
            (touches_same answer idx rfl rfl rfl) rfl
      | some packet =>
          cases hstep
          exact stepped_locked rfl hflying (fun _ => hrx)
            (touches_same answer idx rfl rfl rfl) rfl
  | sort packet =>
      have hsorted : p.sortPacket idx packet = (p', q') := Option.some.inj hstep
      have hstepped := stepped_sort h hlength hgenuine
      rw [hsorted] at hstepped
      exact hstepped
  | copy other packet =>
      rcases h.place with ⟨hflying, hputting⟩
      have hrx : p.rxMutex = true := h.rxMutex rfl
      cases hstep
      have hkept : forall i,
          Undisturbed answer p (p.copyFrame other packet) i :=
        undisturbed_copyFrame hputting.waits packet
      refine stepped_locked rfl ⟨hflying.kept (hkept idx), ?_, ?_⟩ (fun _ => hrx)
        (fun i _ => hkept i) rfl
      · exact ⟨hputting.putting, hputting.waits, hputting.carries,
          hputting.answer⟩
      · exact answered_copyFrame hputting.carries hputting.answer
  | mark other packet =>
      rcases h.place with ⟨hflying, hputting, hanswered⟩
      have hrx : p.rxMutex = true := h.rxMutex rfl
      cases hstep
      have hkept := undisturbed_mark hputting.waits hanswered
      exact stepped_locked rfl ((hflying.kept (hkept idx)).polled otherFrame_le)
        (fun _ => hrx) (fun i _ => hkept i) rfl
  | unlock rval =>
      have hpolled : Polled answer idx frame p rval := h.place
      cases hstep
      refine stepped_locked rfl (hpolled.kept (.of_eq rfl rfl rfl))
        (nofun) (touches_same answer idx rfl rfl rfl) rfl
  | returned rval => cases hstep

theorem Inframe.Stepped.guarantee {q q' : Inframe}
    {buffers : List (Fin ecMaxBuf)}
    (h : Inframe.Stepped answer idx frame p q p' q')
    (hbusy : p.rxbufstat idx ≠ .empty) (hidx : idx ∈ buffers) :
    Guarantee answer p p' ⟨buffers, q.locked, false⟩
      ⟨buffers, q'.locked, false⟩ :=
  h.touches.guarantee hidx hbusy (fun _ => Iff.rfl) h.rxMutex rfl
    h.getindexMutex

end Soem
end FrankaKistar
