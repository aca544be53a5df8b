import FrankaKistar.Soem.Driver

/-!
# What threads leave to each other

A thread holds buffers and mutexes.  What it holds is left alone by the others,
but for the answer that one of them may put into a buffer that waits for it.
-/

namespace FrankaKistar
namespace Soem

open Foundation LittleEndian Ranges

/-- What the stations and the wire may make of a frame. -/
abbrev AnswerRel : Type := TxBuffer -> Packet -> Prop

/-- An EtherCAT frame that carries the index. -/
structure Carries (idx : Fin ecMaxBuf) (packet : Packet) : Prop where
  ecat : isEcat packet = true
  index : packetIndex packet = UInt8.ofNat idx.val

structure Answered (answer : AnswerRel) (p : Port) (idx : Fin ecMaxBuf)
    (packet : Packet) : Prop where
  carries : Carries idx packet
  answer : answer (p.tx idx) packet
  copied : load (p.rx idx) 0 ((p.tx idx).length - ethHeaderSize) =
    load packet ethHeaderSize ((p.tx idx).length - ethHeaderSize)

/-- The frame has been sent; its answer is out or has been put away. -/
structure InFlight (answer : AnswerRel) (p : Port) (idx : Fin ecMaxBuf)
    (frame : TxBuffer) : Prop where
  tx : p.tx idx = frame
  status : p.rxbufstat idx = .tx ∨
    (p.rxbufstat idx = .rcvd ∧ exists packet, Answered answer p idx packet)

/-- What another thread may do to a buffer that is not its own: write to it
while it waits, and mark it when an answer has been copied. -/
structure Undisturbed (answer : AnswerRel) (p p' : Port) (idx : Fin ecMaxBuf) :
    Prop where
  tx : p'.tx idx = p.tx idx
  status : (p'.rxbufstat idx = p.rxbufstat idx ∧
      (p.rxbufstat idx ≠ .tx -> p'.rx idx = p.rx idx)) ∨
    (p.rxbufstat idx = .tx ∧ p'.rxbufstat idx = .rcvd ∧
      exists packet, Answered answer p' idx packet)

/-- A frame in the temporary buffer of a thread that polls for one buffer is an
answer to the frame of that buffer, or of another one that waits. -/
def Genuine (answer : AnswerRel) (idx : Fin ecMaxBuf) (p : Port)
    (packet : Packet) : Prop :=
  forall other, Carries other packet ->
    other = idx ∨ p.rxbufstat other = .tx -> answer (p.tx other) packet

instance (idx : Fin ecMaxBuf) (packet : Packet) :
    Decidable (Carries idx packet) :=
  decidable_of_iff
    (isEcat packet = true ∧ packetIndex packet = UInt8.ofNat idx.val)
    ⟨fun h => ⟨h.left, h.right⟩, fun h => ⟨h.ecat, h.index⟩⟩

instance (answer : AnswerRel)
    [forall frame packet, Decidable (answer frame packet)] (idx : Fin ecMaxBuf)
    (p : Port) (packet : Packet) : Decidable (Genuine answer idx p packet) :=
  inferInstanceAs (Decidable (forall other, Carries other packet ->
    other = idx ∨ p.rxbufstat other = .tx -> answer (p.tx other) packet))

def Touches (answer : AnswerRel) (idx : Fin ecMaxBuf) (p p' : Port) : Prop :=
  forall other, other ≠ idx -> Undisturbed answer p p' other

section Buffers

variable {answer : AnswerRel} {p p' : Port} {idx : Fin ecMaxBuf}

theorem Undisturbed.of_eq (htx : p'.tx idx = p.tx idx)
    (hrx : p'.rx idx = p.rx idx)
    (hstatus : p'.rxbufstat idx = p.rxbufstat idx) :
    Undisturbed answer p p' idx :=
  ⟨htx, Or.inl ⟨hstatus, fun _ => hrx⟩⟩

theorem Answered.congr {packet : Packet} (h : Answered answer p idx packet)
    (htx : p'.tx idx = p.tx idx) (hrx : p'.rx idx = p.rx idx) :
    Answered answer p' idx packet := by
  constructor
  · exact h.carries
  · rw [htx]
    exact h.answer
  · rw [htx, hrx]
    exact h.copied

theorem Undisturbed.same (h : Undisturbed answer p p' idx) {bufstat : BufStat}
    (hstatus : p.rxbufstat idx = bufstat) (hne : bufstat ≠ .tx) :
    p'.rxbufstat idx = bufstat ∧ p'.rx idx = p.rx idx := by
  rcases h.status with hsame | ⟨htx, _, _⟩
  · rw [hstatus] at hsame
    exact ⟨hsame.left, hsame.right hne⟩
  · exact absurd (hstatus.symm.trans htx) hne

theorem Undisturbed.empty_iff (h : Undisturbed answer p p' idx) :
    p'.rxbufstat idx = .empty ↔ p.rxbufstat idx = .empty := by
  rcases h.status with hsame | ⟨htx, hrcvd, _⟩
  · rw [hsame.left]
  · rw [htx, hrcvd]
    constructor
    · intro hempty
      cases hempty
    · intro hempty
      cases hempty

theorem InFlight.kept {frame : TxBuffer} (h : InFlight answer p idx frame)
    (hkept : Undisturbed answer p p' idx) : InFlight answer p' idx frame := by
  refine ⟨hkept.tx.trans h.tx, ?_⟩
  rcases h.status with htx | ⟨hrcvd, packet, hanswered⟩
  · rcases hkept.status with hsame | ⟨_, hrcvd, hanswered⟩
    · exact Or.inl (hsame.left.trans htx)
    · exact Or.inr ⟨hrcvd, hanswered⟩
  · have hsame := hkept.same hrcvd nofun
    exact Or.inr ⟨hsame.left, packet, hanswered.congr hkept.tx hsame.right⟩

theorem InFlight.busy {frame : TxBuffer} (h : InFlight answer p idx frame) :
    p.rxbufstat idx ≠ .empty := by
  intro hempty
  rcases h.status with htx | ⟨hrcvd, _⟩
  · rw [hempty] at htx
    cases htx
  · rw [hempty] at hrcvd
    cases hrcvd

theorem Answered.byte {packet : Packet} (h : Answered answer p idx packet)
    {k : Nat} (hk : k < (p.tx idx).length - ethHeaderSize) :
    p.rx idx k = packet (ethHeaderSize + k) := by
  have hbytes := congrArg (fun xs => xs[k]?) h.copied
  rw [getElem?_load hk, getElem?_load hk, Nat.zero_add] at hbytes
  exact Option.some.inj hbytes

theorem touches_setBufStat (answer : AnswerRel) (idx : Fin ecMaxBuf)
    (bufstat : BufStat) (p : Port) :
    Touches answer idx p (p.setBufStat idx bufstat) :=
  fun _ hne => .of_eq rfl rfl (Function.update_of_ne hne _ _)

theorem touches_setFrame (answer : AnswerRel) (idx : Fin ecMaxBuf)
    (frame : TxBuffer) (p : Port) :
    Touches answer idx p (p.setFrame idx frame) :=
  fun _ hne => .of_eq (Function.update_of_ne hne _ _) rfl rfl

theorem inFlight_outframe (answer : AnswerRel) (idx : Fin ecMaxBuf) (p : Port) :
    InFlight answer (outframe idx true p) idx (p.tx idx) :=
  ⟨rfl, Or.inl (Function.update_self _ _ _)⟩

end Buffers

/-!
## Mutexes
-/

/-- What is left alone for the thread that holds `rx_mutex`. -/
structure RxKept (p p' : Port) : Prop where
  locked : p'.rxMutex = p.rxMutex
  putting : p'.putting = p.putting
  rx : p'.rx = p.rx
  waiting : forall idx, p.putting = some idx -> p.rxbufstat idx = .tx ->
    p'.rxbufstat idx = .tx ∧ p'.tx idx = p.tx idx

/-- What is left alone for the thread that holds `getindex_mutex`. -/
structure IndexKept (p p' : Port) : Prop where
  locked : p'.getindexMutex = p.getindexMutex
  unused : forall idx, p.rxbufstat idx = .empty -> p'.rxbufstat idx = .empty

theorem RxKept.refl (p : Port) : RxKept p p :=
  ⟨rfl, rfl, rfl, fun _ _ htx => ⟨htx, rfl⟩⟩

/-- A status is stored that is not the one of a buffer that an answer is being
put into, or that leaves it waiting. -/
theorem rxKept_setBufStat {p : Port} {idx : Fin ecMaxBuf} {bufstat : BufStat}
    (h : p.putting = some idx -> p.rxbufstat idx = .tx -> bufstat = .tx) :
    RxKept p (p.setBufStat idx bufstat) := by
  refine ⟨rfl, rfl, rfl, fun other hother htx => ⟨?_, rfl⟩⟩
  by_cases heq : other = idx
  · rw [heq] at hother htx ⊢
    rw [<- h hother htx]
    exact Function.update_self _ _ _
  · rw [<- htx]
    exact Function.update_of_ne heq _ _

theorem rxKept_setFrame {p : Port} {idx : Fin ecMaxBuf} {frame : TxBuffer}
    (h : p.rxbufstat idx ≠ .tx) : RxKept p (p.setFrame idx frame) := by
  refine ⟨rfl, rfl, rfl, fun other _ htx => ⟨htx, ?_⟩⟩
  refine Function.update_of_ne (fun heq => ?_) _ _
  rw [heq] at htx
  exact h htx

theorem RxKept.trans {p p' p'' : Port} (h : RxKept p p') (h' : RxKept p' p'') :
    RxKept p p'' := by
  constructor
  · exact h'.locked.trans h.locked
  · exact h'.putting.trans h.putting
  · exact h'.rx.trans h.rx
  · intro idx hidx htx
    have hfirst := h.waiting idx hidx htx
    have hsecond := h'.waiting idx (h.putting.trans hidx) hfirst.left
    exact ⟨hsecond.left, hsecond.right.trans hfirst.right⟩

/-!
## Steps of one thread

A thread touches the buffers that it holds; it takes empty ones and releases
what it held.
-/

structure Holding where
  buffers : List (Fin ecMaxBuf)
  rxMutex : Bool
  getindexMutex : Bool

structure Holding.Marked (h : Holding) (p : Port) : Prop where
  busy : forall idx, idx ∈ h.buffers -> p.rxbufstat idx ≠ .empty
  rxMutex : h.rxMutex = true -> p.rxMutex = true
  getindexMutex : h.getindexMutex = true -> p.getindexMutex = true

structure Holding.Apart (h h' : Holding) : Prop where
  buffers : forall idx, idx ∈ h.buffers -> idx ∉ h'.buffers
  rxMutex : h.rxMutex = true -> h'.rxMutex = false
  getindexMutex : h.getindexMutex = true -> h'.getindexMutex = false

/-- What a step leaves alone, with what is held before and after. -/
structure Guarantee (answer : AnswerRel) (p p' : Port) (h h' : Holding) :
    Prop where
  taken : forall idx, idx ∈ h'.buffers ->
    idx ∈ h.buffers ∨ p.rxbufstat idx = .empty
  released : forall idx, idx ∈ h.buffers -> idx ∉ h'.buffers ->
    p'.rxbufstat idx = .empty
  others : forall idx, idx ∉ h.buffers -> p.rxbufstat idx ≠ .empty ->
    Undisturbed answer p p' idx
  unused : forall idx, idx ∉ h'.buffers -> p.rxbufstat idx = .empty ->
    p'.rxbufstat idx = .empty
  rxMutex : h.rxMutex = false -> p.rxMutex = true ->
    h'.rxMutex = false ∧ RxKept p p'
  getindexMutex : h.getindexMutex = false -> p.getindexMutex = true ->
    h'.getindexMutex = false ∧ IndexKept p p'

structure Rely (answer : AnswerRel) (p p' : Port) (h : Holding) : Prop where
  buffers : forall idx, idx ∈ h.buffers -> Undisturbed answer p p' idx
  rxMutex : h.rxMutex = true -> RxKept p p'
  getindexMutex : h.getindexMutex = true -> IndexKept p p'

section Steps

variable {answer : AnswerRel} {p p' : Port} {idx : Fin ecMaxBuf}
  {h h' other : Holding}

theorem Holding.Apart.symm (hapart : h.Apart other) : other.Apart h where
  buffers := fun idx hother hidx => hapart.buffers idx hidx hother
  rxMutex := fun hother => Bool.eq_false_iff.mpr fun hrx => by
    rw [hapart.rxMutex hrx] at hother
    cases hother
  getindexMutex := fun hother => Bool.eq_false_iff.mpr fun hindex => by
    rw [hapart.getindexMutex hindex] at hother
    cases hother

/-- What one thread guarantees is what another one relies on. -/
theorem Guarantee.rely (hstep : Guarantee answer p p' h h')
    (hapart : other.Apart h) (hother : other.Marked p) :
    Rely answer p p' other where
  buffers := fun idx hidx =>
    hstep.others idx (hapart.buffers idx hidx) (hother.busy idx hidx)
  rxMutex := fun hrx =>
    (hstep.rxMutex (hapart.rxMutex hrx) (hother.rxMutex hrx)).right
  getindexMutex := fun hindex => (hstep.getindexMutex
    (hapart.getindexMutex hindex) (hother.getindexMutex hindex)).right

theorem Guarantee.apart (hstep : Guarantee answer p p' h h')
    (hapart : other.Apart h) (hother : other.Marked p) : other.Apart h' where
  buffers := by
    intro idx hidx hmem
    rcases hstep.taken idx hmem with hheld | hempty
    · exact hapart.buffers idx hidx hheld
    · exact hother.busy idx hidx hempty
  rxMutex := fun hrx =>
    (hstep.rxMutex (hapart.rxMutex hrx) (hother.rxMutex hrx)).left
  getindexMutex := fun hindex => (hstep.getindexMutex
    (hapart.getindexMutex hindex) (hother.getindexMutex hindex)).left

theorem Guarantee.refl (answer : AnswerRel) (p : Port) (h : Holding) :
    Guarantee answer p p h h where
  taken := fun _ hidx => Or.inl hidx
  released := fun _ hidx hnot => absurd hidx hnot
  others := fun _ _ _ => .of_eq rfl rfl rfl
  unused := fun _ _ hempty => hempty
  rxMutex := fun hrx _ => ⟨hrx, RxKept.refl p⟩
  getindexMutex := fun hindex _ => ⟨hindex, rfl, fun _ hempty => hempty⟩

theorem Guarantee.of_eq (answer : AnswerRel) (p : Port) (heq : h = h') :
    Guarantee answer p p h h' := by
  rw [heq]
  exact Guarantee.refl answer p h'

theorem Touches.guarantee (htouches : Touches answer idx p p')
    (hidx : idx ∈ h.buffers) (hbusy : p.rxbufstat idx ≠ .empty)
    (hsame : forall i, i ∈ h'.buffers ↔ i ∈ h.buffers)
    (hrx : h.rxMutex = false -> p.rxMutex = true ->
      h'.rxMutex = false ∧ RxKept p p')
    (hindex : h'.getindexMutex = h.getindexMutex)
    (hmutex : p'.getindexMutex = p.getindexMutex) :
    Guarantee answer p p' h h' where
  taken := fun i hi => Or.inl ((hsame i).mp hi)
  released := fun i hi hnot => absurd ((hsame i).mpr hi) hnot
  others := fun i hi _ => htouches i fun heq => hi (heq ▸ hidx)
  unused := fun i hi hempty =>
    (htouches i fun heq => hi ((hsame i).mpr (heq ▸ hidx))).empty_iff.mpr hempty
  rxMutex := hrx
  getindexMutex := fun hnone _ =>
    ⟨hindex.trans hnone, hmutex, fun i hempty =>
      (htouches i fun heq => hbusy (heq ▸ hempty)).empty_iff.mpr hempty⟩

theorem guarantee_release {buffers : List (Fin ecMaxBuf)}
    (hputting : p.putting ≠ some idx) (hbusy : p.rxbufstat idx ≠ .empty) :
    Guarantee answer p (p.setBufStat idx .empty) ⟨idx :: buffers, false, false⟩
      ⟨buffers, false, false⟩ where
  taken := fun _ hi => Or.inl (List.mem_cons_of_mem _ hi)
  released := by
    intro i hi hnot
    rcases List.mem_cons.mp hi with rfl | hheld
    · exact Function.update_self _ _ _
    · exact absurd hheld hnot
  others := fun i hi _ => touches_setBufStat answer idx .empty p i fun heq =>
    hi (heq ▸ List.mem_cons_self)
  unused := fun i _ hempty => (touches_setBufStat answer idx .empty p i fun heq =>
    hbusy (heq ▸ hempty)).empty_iff.mpr hempty
  rxMutex := fun _ _ =>
    ⟨rfl, rxKept_setBufStat fun hidx _ => absurd hidx hputting⟩
  getindexMutex := fun _ _ => ⟨rfl, rfl, fun i hempty =>
    (touches_setBufStat answer idx .empty p i fun heq =>
      hbusy (heq ▸ hempty)).empty_iff.mpr hempty⟩

/-!
## Taking a buffer
-/

theorem guarantee_lockIndex {buffers : List (Fin ecMaxBuf)} {g : Getindex}
    (hlock : p.lockIndex = some (p', g)) :
    Guarantee answer p p' ⟨buffers, false, false⟩ ⟨buffers, false, true⟩ := by
  unfold Port.lockIndex at hlock
  split at hlock
  · cases hlock
  · rename_i hfree
    cases hlock
    constructor
    · exact fun _ hi => Or.inl hi
    · exact fun _ hi hnot => absurd hi hnot
    · exact fun _ _ _ => .of_eq rfl rfl rfl
    · exact fun _ _ hempty => hempty
    · exact fun _ _ => ⟨rfl, rfl, rfl, rfl, fun _ _ htx => ⟨htx, rfl⟩⟩
    · exact fun _ hlocked => absurd hlocked hfree

theorem guarantee_takeIndex {buffers : List (Fin ecMaxBuf)}
    (hempty : p.rxbufstat idx = .empty) :
    Guarantee answer p (p.takeIndex idx) ⟨buffers, false, true⟩
      ⟨idx :: buffers, false, false⟩ := by
  have hothers : forall i, i ≠ idx ->
      (p.takeIndex idx).rxbufstat i = p.rxbufstat i :=
    fun i hne => Function.update_of_ne hne _ _
  have hne : forall i, p.rxbufstat i ≠ .empty -> i ≠ idx :=
    fun i hbusy heq => hbusy (heq ▸ hempty)
  constructor
  · intro i hi
    rcases List.mem_cons.mp hi with rfl | hheld
    · exact Or.inr hempty
    · exact Or.inl hheld
  · exact fun i hi hnot => absurd (List.mem_cons_of_mem _ hi) hnot
  · exact fun i _ hbusy => .of_eq rfl rfl (hothers i (hne i hbusy))
  · intro i hi hunused
    rw [hothers i fun heq => hi (heq ▸ List.mem_cons_self)]
    exact hunused
  · refine fun _ _ => ⟨rfl, rfl, rfl, rfl, fun i _ htx => ⟨?_, rfl⟩⟩
    rw [hothers i (hne i (by
      rw [htx]
      exact nofun))]
    exact htx
  · exact nofun

end Steps

end Soem
end FrankaKistar
