import Mathlib.Data.List.Range
import Mathlib.Logic.Function.Basic

/-!
# The supervision of the slaves

One pass of `ecatcheck`.  The calls of SOEM are results from outside:
`ec_readstate` may set all states, `ec_statecheck` and `ec_reconfig_slave` the
state of their own slave, and `ec_recover_slave` and `ec_writestate` set none.
The group flag is that of the current group; the printing is left out.
-/

namespace FrankaKistar
namespace EtherCat

/-!
## States
-/

def ecStateNone : UInt16 := 0x00
def ecStateSafeOp : UInt16 := 0x04
def ecStateOperational : UInt16 := 0x08
def ecStateAck : UInt16 := 0x10
def ecStateError : UInt16 := 0x10

/-- The fields of `ec_slave` that the supervision works on. -/
structure Slave where
  group : UInt8
  state : UInt16
  islost : Bool
deriving DecidableEq

/-- What the calls in the turn of a slave return, and the states that they
leave. -/
structure SlaveCalls where
  reconfig : Int
  reconfigState : UInt16
  statecheckState : UInt16
  recover : Int

structure CheckState where
  slaves : Nat -> Slave
  docheckstate : Bool
  needlf : Bool
  /-- The states that `ec_writestate` has requested. -/
  written : List (Nat × UInt16)

/-!
## The turn of a slave
-/

/-- The slave is of the current group and not `OPERATIONAL`. -/
def Slave.NeedsCheck (currentgroup : UInt8) (s : Slave) : Prop :=
  s.group = currentgroup ∧ s.state ≠ ecStateOperational

instance (currentgroup : UInt8) (s : Slave) :
    Decidable (s.NeedsCheck currentgroup) :=
  inferInstanceAs (Decidable (_ ∧ _))

/-- The branches on the state: the slave, and the state that is requested. -/
def checkState (calls : SlaveCalls) (s : Slave) : Slave × Option UInt16 :=
  if s.state = ecStateSafeOp + ecStateError then
    ({ s with state := ecStateSafeOp + ecStateAck },
      some (ecStateSafeOp + ecStateAck))
  else if s.state = ecStateSafeOp then
    ({ s with state := ecStateOperational }, some ecStateOperational)
  else if ecStateNone < s.state then
    let s := { s with state := calls.reconfigState }
    (if calls.reconfig ≠ 0 then { s with islost := false } else s, none)
  else if s.islost = false then
    let s := { s with state := calls.statecheckState }
    (if s.state = ecStateNone then { s with islost := true } else s, none)
  else
    (s, none)

/-- The branch on a lost slave. -/
def checkLost (calls : SlaveCalls) (s : Slave) : Slave :=
  if s.islost then
    if s.state = ecStateNone then
      if calls.recover ≠ 0 then { s with islost := false } else s
    else
      { s with islost := false }
  else
    s

def turn (currentgroup : UInt8) (calls : Nat -> SlaveCalls) (s : CheckState)
    (slave : Nat) : CheckState :=
  if (s.slaves slave).NeedsCheck currentgroup then
    let (checked, request) := checkState (calls slave) (s.slaves slave)
    { s with
      docheckstate := true
      slaves := Function.update s.slaves slave
        (checkLost (calls slave) checked)
      written := s.written ++ (request.map fun state => (slave, state)).toList }
  else
    { s with
      slaves := Function.update s.slaves slave
        (checkLost (calls slave) (s.slaves slave)) }

/-!
## One pass
-/

/-- The flags are cleared, and `ec_readstate` sets the states. -/
def readState (states : Nat -> UInt16) (s : CheckState) : CheckState :=
  { s with
    needlf := false
    docheckstate := false
    slaves := fun slave => { s.slaves slave with state := states slave } }

def turns (currentgroup : UInt8) (calls : Nat -> SlaveCalls) (s : CheckState)
    (count : Nat) : CheckState :=
  (List.range' 1 count).foldl (turn currentgroup calls) s

structure PassInput where
  wkc : Int
  states : Nat -> UInt16
  calls : Nat -> SlaveCalls

structure CheckConfig where
  currentgroup : UInt8
  slavecount : Nat
  expectedWKC : Int

def Triggered (cfg : CheckConfig) (input : PassInput) (s : CheckState) : Prop :=
  input.wkc < cfg.expectedWKC ∨ s.docheckstate = true

instance (cfg : CheckConfig) (input : PassInput) (s : CheckState) :
    Decidable (Triggered cfg input s) :=
  inferInstanceAs (Decidable (_ ∨ _))

/-- One iteration of `ecatcheck`. -/
def ecatcheck (cfg : CheckConfig) (input : PassInput) (s : CheckState) :
    CheckState :=
  if Triggered cfg input s then
    turns cfg.currentgroup input.calls (readState input.states s)
      cfg.slavecount
  else
    s

def beforeTurn (cfg : CheckConfig) (input : PassInput) (s : CheckState)
    (slave : Nat) : CheckState :=
  turns cfg.currentgroup input.calls (readState input.states s) (slave - 1)

/-!
## One slave
-/

def checked (currentgroup : UInt8) (calls : SlaveCalls) (s : Slave) : Slave :=
  if s.NeedsCheck currentgroup then (checkState calls s).1 else s

def afterTurn (currentgroup : UInt8) (calls : SlaveCalls) (s : Slave) : Slave :=
  checkLost calls (checked currentgroup calls s)

theorem checkLost_cases (calls : SlaveCalls) (s : Slave) :
    (checkLost calls s = s ∧ (s.islost = true -> s.state = ecStateNone)) ∨
      checkLost calls s = { s with islost := false } := by
  unfold checkLost
  split
  · split
    · rename_i hstate
      split
      · exact Or.inr rfl
      · exact Or.inl ⟨rfl, fun _ => hstate⟩
    · exact Or.inr rfl
  · rename_i hlost
    exact Or.inl ⟨rfl, fun h => absurd h hlost⟩

theorem checkLost_state {calls : SlaveCalls} {s : Slave}
    (h : (checkLost calls s).islost = true) :
    (checkLost calls s).state = ecStateNone := by
  rcases checkLost_cases calls s with ⟨hkept, hstate⟩ | hfound
  · rw [hkept] at h ⊢
    exact hstate h
  · rw [hfound] at h
    cases h

theorem checkLost_keeps_state (calls : SlaveCalls) (s : Slave) :
    (checkLost calls s).state = s.state := by
  rcases checkLost_cases calls s with ⟨hkept, _⟩ | hfound
  · rw [hkept]
  · rw [hfound]

theorem checkLost_keeps_group (calls : SlaveCalls) (s : Slave) :
    (checkLost calls s).group = s.group := by
  rcases checkLost_cases calls s with ⟨hkept, _⟩ | hfound
  · rw [hkept]
  · rw [hfound]

theorem checkState_cases (calls : SlaveCalls) (s : Slave) :
    exists state islost,
      (checkState calls s).1 = { s with state := state, islost := islost } ∧
        (islost = true -> s.islost = true ∨ state = ecStateNone) := by
  unfold checkState
  split
  · exact ⟨_, _, rfl, Or.inl⟩
  · split
    · exact ⟨_, _, rfl, Or.inl⟩
    · split
      · simp only
        split
        · exact ⟨_, _, rfl, fun h => absurd h Bool.false_ne_true⟩
        · exact ⟨_, _, rfl, Or.inl⟩
      · split
        · simp only
          split
          · rename_i hnone
            exact ⟨_, _, rfl, fun _ => Or.inr hnone⟩
          · exact ⟨_, _, rfl, Or.inl⟩
        · exact ⟨_, _, rfl, Or.inl⟩

theorem checkState_lost {calls : SlaveCalls} {s : Slave}
    (hbefore : s.islost = false) (hafter : (checkState calls s).1.islost = true) :
    (checkState calls s).1.state = ecStateNone := by
  obtain ⟨state, islost, hchecked, hlost⟩ := checkState_cases calls s
  rw [hchecked] at hafter ⊢
  rcases hlost hafter with hwas | hnone
  · rw [hbefore] at hwas
    cases hwas
  · exact hnone

theorem checkState_keeps_group (calls : SlaveCalls) (s : Slave) :
    (checkState calls s).1.group = s.group := by
  obtain ⟨state, islost, hchecked, _⟩ := checkState_cases calls s
  rw [hchecked]

theorem checked_lost {currentgroup : UInt8} {calls : SlaveCalls} {s : Slave}
    (hbefore : s.islost = false)
    (hafter : (checked currentgroup calls s).islost = true) :
    (checked currentgroup calls s).state = ecStateNone := by
  unfold checked at hafter ⊢
  split
  · rename_i hneeds
    rw [if_pos hneeds] at hafter
    exact checkState_lost hbefore hafter
  · rename_i hneeds
    rw [if_neg hneeds, hbefore] at hafter
    cases hafter

theorem afterTurn_keeps_group (currentgroup : UInt8) (calls : SlaveCalls)
    (s : Slave) : (afterTurn currentgroup calls s).group = s.group := by
  unfold afterTurn checked
  rw [checkLost_keeps_group]
  split
  · exact checkState_keeps_group calls s
  · rfl

theorem afterTurn_of_not_needsCheck {currentgroup : UInt8} {s : Slave}
    (calls : SlaveCalls) (h : ¬ s.NeedsCheck currentgroup) :
    afterTurn currentgroup calls s = checkLost calls s := by
  unfold afterTurn checked
  rw [if_neg h]

theorem afterTurn_operational {currentgroup : UInt8} {s : Slave}
    (calls : SlaveCalls) (hgroup : s.group = currentgroup)
    (h : ¬ s.NeedsCheck currentgroup) :
    (afterTurn currentgroup calls s).state = ecStateOperational ∧
      (afterTurn currentgroup calls s).islost = false := by
  have hstate : s.state = ecStateOperational := by
    by_contra hne
    exact h ⟨hgroup, hne⟩
  rw [afterTurn_of_not_needsCheck calls h]
  constructor
  · rw [checkLost_keeps_state, hstate]
  · rw [Bool.eq_false_iff]
    intro hlost
    have hnone := checkLost_state hlost
    rw [checkLost_keeps_state, hstate] at hnone
    exact absurd hnone (by decide)

/-!
## All slaves
-/

section Turns

variable (currentgroup : UInt8) (calls : Nat -> SlaveCalls) (s : CheckState)

theorem turn_slaves (slave : Nat) :
    (turn currentgroup calls s slave).slaves =
      Function.update s.slaves slave
        (afterTurn currentgroup (calls slave) (s.slaves slave)) := by
  unfold turn afterTurn checked
  split <;> rfl

theorem turn_docheckstate (slave : Nat) :
    (turn currentgroup calls s slave).docheckstate = true <->
      s.docheckstate = true ∨ (s.slaves slave).NeedsCheck currentgroup := by
  unfold turn
  split
  · rename_i hneeds
    exact iff_of_true rfl (Or.inr hneeds)
  · rename_i hneeds
    exact (or_iff_left hneeds).symm

theorem turns_succ (count : Nat) :
    turns currentgroup calls s (count + 1) =
      turn currentgroup calls (turns currentgroup calls s count)
        (count + 1) := by
  rw [turns, List.range'_1_concat, List.foldl_append, Nat.add_comm 1 count]
  rfl

theorem turns_slaves_of_gt {count slave : Nat} (h : count < slave) :
    (turns currentgroup calls s count).slaves slave = s.slaves slave := by
  induction count with
  | zero => rfl
  | succ count ih =>
      have hne : slave ≠ count + 1 := Nat.ne_of_gt h
      rw [turns_succ, turn_slaves, Function.update_of_ne hne,
        ih (Nat.lt_of_succ_lt h)]

theorem turns_slaves_of_le {count slave : Nat} (hpos : 1 ≤ slave)
    (h : slave ≤ count) :
    (turns currentgroup calls s count).slaves slave =
      afterTurn currentgroup (calls slave) (s.slaves slave) := by
  induction count with
  | zero => exact absurd (Nat.le_trans hpos h) (by decide)
  | succ count ih =>
      rw [turns_succ, turn_slaves]
      rcases Nat.lt_or_eq_of_le h with hlt | rfl
      · rw [Function.update_of_ne (Nat.ne_of_lt hlt), ih (Nat.le_of_lt_succ hlt)]
      · rw [Function.update_self,
          turns_slaves_of_gt currentgroup calls s (Nat.lt_succ_self count)]

theorem turns_docheckstate (count : Nat) :
    (turns currentgroup calls s count).docheckstate = true <->
      s.docheckstate = true ∨ exists slave, 1 ≤ slave ∧ slave ≤ count ∧
        ((turns currentgroup calls s (slave - 1)).slaves slave).NeedsCheck
          currentgroup := by
  induction count with
  | zero =>
      constructor
      · exact Or.inl
      · rintro (h | ⟨slave, hpos, hle, _⟩)
        · exact h
        · exact absurd (Nat.le_trans hpos hle) (by decide)
  | succ count ih =>
      rw [turns_succ, turn_docheckstate, ih]
      constructor
      · rintro ((h | ⟨slave, hpos, hle, hneeds⟩) | hneeds)
        · exact Or.inl h
        · exact Or.inr ⟨slave, hpos, Nat.le_succ_of_le hle, hneeds⟩
        · exact Or.inr ⟨count + 1, Nat.succ_pos count, Nat.le_refl _, hneeds⟩
      · rintro (h | ⟨slave, hpos, hle, hneeds⟩)
        · exact Or.inl (Or.inl h)
        · rcases Nat.lt_or_eq_of_le hle with hlt | rfl
          · exact Or.inl
              (Or.inr ⟨slave, hpos, Nat.le_of_lt_succ hlt, hneeds⟩)
          · exact Or.inr hneeds

end Turns

theorem beforeTurn_slaves (cfg : CheckConfig) (input : PassInput)
    (s : CheckState) {slave : Nat} (hpos : 1 ≤ slave) :
    (beforeTurn cfg input s slave).slaves slave =
      { s.slaves slave with state := input.states slave } :=
  turns_slaves_of_gt _ _ _ (Nat.sub_lt hpos Nat.one_pos)

theorem ecatcheck_slaves {cfg : CheckConfig} {input : PassInput}
    {s : CheckState} (htriggered : Triggered cfg input s) {slave : Nat}
    (hpos : 1 ≤ slave) (hle : slave ≤ cfg.slavecount) :
    (ecatcheck cfg input s).slaves slave =
      afterTurn cfg.currentgroup (input.calls slave)
        ((beforeTurn cfg input s slave).slaves slave) := by
  rw [beforeTurn_slaves cfg input s hpos, ecatcheck, if_pos htriggered,
    turns_slaves_of_le _ _ _ hpos hle]
  rfl

theorem ecatcheck_docheckstate {cfg : CheckConfig} {input : PassInput}
    {s : CheckState} (htriggered : Triggered cfg input s) :
    (ecatcheck cfg input s).docheckstate = true <->
      exists slave, 1 ≤ slave ∧ slave ≤ cfg.slavecount ∧
        ((beforeTurn cfg input s slave).slaves slave).NeedsCheck
          cfg.currentgroup := by
  rw [ecatcheck, if_pos htriggered, turns_docheckstate]
  exact or_iff_right Bool.false_ne_true

/--
What a pass that was triggered leaves: the flag of the group says whether a
slave needed a check, a lost slave has no state, a slave becomes lost only
without a state, and without the flag the group is `OPERATIONAL`.
-/
theorem ecatcheck_supervises {cfg : CheckConfig} {input : PassInput}
    {s : CheckState} (htriggered : Triggered cfg input s) :
    ((ecatcheck cfg input s).docheckstate = true <->
      exists slave, 1 ≤ slave ∧ slave ≤ cfg.slavecount ∧
        ((beforeTurn cfg input s slave).slaves slave).NeedsCheck
          cfg.currentgroup) ∧
    (forall slave, 1 ≤ slave -> slave ≤ cfg.slavecount ->
      (((ecatcheck cfg input s).slaves slave).islost = true ->
        ((ecatcheck cfg input s).slaves slave).state = ecStateNone) ∧
      (((beforeTurn cfg input s slave).slaves slave).islost = false ->
        (checked cfg.currentgroup (input.calls slave)
          ((beforeTurn cfg input s slave).slaves slave)).islost = true ->
        (checked cfg.currentgroup (input.calls slave)
          ((beforeTurn cfg input s slave).slaves slave)).state =
            ecStateNone)) ∧
    ((ecatcheck cfg input s).docheckstate = false ->
      forall slave, 1 ≤ slave -> slave ≤ cfg.slavecount ->
        ((ecatcheck cfg input s).slaves slave).group = cfg.currentgroup ->
        ((ecatcheck cfg input s).slaves slave).state = ecStateOperational ∧
          ((ecatcheck cfg input s).slaves slave).islost = false) := by
  have hflag := ecatcheck_docheckstate htriggered
  refine ⟨hflag, ?_, ?_⟩
  · intro slave hpos hle
    constructor
    · rw [ecatcheck_slaves htriggered hpos hle]
      exact checkLost_state
    · exact checked_lost
  · intro hclear slave hpos hle hgroup
    have hnot : ¬ ((beforeTurn cfg input s slave).slaves slave).NeedsCheck
        cfg.currentgroup := by
      intro hneeds
      have hset := hflag.mpr ⟨slave, hpos, hle, hneeds⟩
      rw [hclear] at hset
      cases hset
    rw [ecatcheck_slaves htriggered hpos hle] at hgroup ⊢
    rw [afterTurn_keeps_group] at hgroup
    exact afterTurn_operational _ hgroup hnot

/-- Two slaves, the first `OPERATIONAL` and the second unplugged. -/
def unplugged : CheckState where
  slaves := fun _ => { group := 0, state := ecStateOperational, islost := false }
  docheckstate := false
  needlf := true
  written := []

def unpluggedInput : PassInput where
  wkc := 3
  states := fun slave => if slave = 1 then ecStateOperational else ecStateNone
  calls := fun _ =>
    { reconfig := 0
      reconfigState := ecStateNone
      statecheckState := ecStateNone
      recover := 0 }

def twoSlaves : CheckConfig where
  currentgroup := 0
  slavecount := 2
  expectedWKC := 6

theorem ecatcheck_unplugged :
    (ecatcheck twoSlaves unpluggedInput unplugged).docheckstate = true ∧
      ((ecatcheck twoSlaves unpluggedInput unplugged).slaves 2).islost = true ∧
      ((ecatcheck twoSlaves unpluggedInput unplugged).slaves 2).state =
        ecStateNone := by
  have htriggered : Triggered twoSlaves unpluggedInput unplugged := by
    decide
  have hsupervises := ecatcheck_supervises htriggered
  have hlost :
      ((ecatcheck twoSlaves unpluggedInput unplugged).slaves 2).islost =
        true := by
    decide
  refine ⟨hsupervises.1.mpr ⟨2, by decide, by decide, by decide⟩, hlost, ?_⟩
  exact (hsupervises.2.1 2 (by decide) (by decide)).1 hlost

end EtherCat
end FrankaKistar
