import FrankaKistar.Orchestrator.Exclusivity

/-!
# Terminal transitions of a goal

Two threads end a goal: the execute callback calls `succeed`, `abort` or
`canceled` in front of each of its returns, and `goal_abort_from_user` calls
`abort` on the active handle.  The keyboard thread looks at `is_active` first,
the callback does not, so after an abort from the keyboard the callback ends the
goal once more.  When the keyboard thread only ends goals whose callback was
left by an exception, every goal is ended exactly once.
-/

namespace FrankaKistar
namespace Orchestrator

open Foundation

/-!
## The calls on a handle
-/

structure TerminalCall where
  goal : Nat
  ending : Ending
  before : GoalStatus

/-- The call is a terminal event; otherwise it raises. -/
def TerminalCall.succeeds (c : TerminalCall) : Bool :=
  (GoalStatus.finish c.ending c.before).isSome

def Goal.callbackCall (i : Nat) (g : Goal GoalStatus) : List TerminalCall :=
  match g.loc with
  | .ending e => [⟨i, e, g.status⟩]
  | _ => []

def callsOf (s : Orch GoalStatus) : NodeEvent -> List TerminalCall
  | .step (.execute i _) => ((s.goals[i]?).map (Goal.callbackCall i)).getD []
  | .step .user =>
      match s.user with
      | .mustAbort i =>
          ((s.goals[i]?).map fun g => ⟨i, .abort, g.status⟩).toList
      | _ => []
  | _ => []

/-- A step of the callback is an exception when it leads into the `finally`
block other than by a return, and a return follows a terminal event. -/
def Goal.raisesInto (g g' : Goal GoalStatus) : Bool :=
  match g'.loc, g.loc with
  | .resetBusy, .ending e => (GoalStatus.finish e g.status).isNone
  | .resetBusy, _ => true
  | _, _ => false

def raisedBy (s s' : Orch GoalStatus) : NodeEvent -> List Nat
  | .raise i => [i]
  | .step (.execute i _) =>
      if (s.goals[i]?).any fun g => (s'.goals[i]?).any g.raisesInto then [i]
      else []
  | _ => []

/-- The node, all terminal calls so far, and the goals whose callback was left
by an exception. -/
structure Ended where
  orch : Orch GoalStatus
  calls : List TerminalCall
  raised : List Nat

def Ended.start (view : View) : Ended := ⟨Orch.start GoalStatus view, [], []⟩

def endedStep (cfg : OrchestratorConfig) : Machine Ended NodeEvent :=
  fun s e =>
    (nodeStep GoalStatus.server cfg s.orch e).map fun orch =>
      ⟨orch, callsOf s.orch e ++ s.calls, raisedBy s.orch orch e ++ s.raised⟩

/-!
## What is promised
-/

def endings (i : Nat) (calls : List TerminalCall) : Nat :=
  calls.countP fun c => c.goal == i && c.succeeds

def ExecLoc.isLeft : ExecLoc -> Bool
  | .conclude => true
  | .done => true
  | _ => false

/-- No call finds a terminal handle, no goal has two terminal events, and one
whose callback has returned has one. -/
structure EndedOnce (s : Ended) : Prop where
  onActive : forall c, c ∈ s.calls -> c.before.isActive = true
  atMostOnce : forall i, endings i s.calls ≤ 1
  exactlyOnce : forall (i : Nat) (g : Goal GoalStatus),
    s.orch.goals[i]? = some g -> g.loc.isLeft = true -> i ∉ s.raised ->
      endings i s.calls = 1

/-- In front of the `finally` block. -/
def ExecLoc.inBody : ExecLoc -> Bool
  | .resetBusy => false
  | .resetActive => false
  | .conclude => false
  | .done => false
  | _ => true

def UserLoc.aborts : UserLoc -> Option Nat
  | .mustAbort i => some i
  | _ => none

/-- The keyboard thread ends a goal only when it is still active and its
callback makes no terminal call any more. -/
def KeyboardEndsLeft (s : Ended) : NodeEvent -> Prop
  | .step .user =>
      forall i, i ∈ s.orch.user.aborts ->
        forall g, g ∈ s.orch.goals[i]? ->
          g.status.isActive = true ∧ g.loc.inBody = false
  | _ => True

instance (s : Ended) (e : NodeEvent) : Decidable (KeyboardEndsLeft s e) := by
  unfold KeyboardEndsLeft
  refine NodeEvent.casesOn e (fun e => ?_) (fun _ => inferInstance)
  refine OrchEvent.casesOn e ?_ ?_ ?_ ?_ ?_ ?_ ?_ ?_ ?_ ?_ <;> intros <;>
    infer_instance

/-!
## One goal
-/

/-- With the number of its terminal events, and whether its callback was left by
an exception. -/
structure TermInv (g : Goal GoalStatus) (n : Nat) (raised : Prop) : Prop where
  body : g.loc.inBody = true -> g.status.isActive = true
  canceled : g.loc = .ending .canceled -> g.status = .canceling
  active : g.status.isActive = true -> n = 0
  le : n ≤ 1
  ended : g.loc.inBody = false -> ¬ raised -> n = 1

theorem termInv_of_same {g g' : Goal GoalStatus} {n : Nat} {raised : Prop}
    (h : TermInv g n raised) (hloc : g'.loc = g.loc)
    (hstatus : g'.status = g.status) : TermInv g' n raised := by
  constructor
  · rw [hloc, hstatus]
    exact h.body
  · rw [hloc, hstatus]
    exact h.canceled
  · rw [hstatus]
    exact h.active
  · exact h.le
  · rw [hloc]
    exact h.ended

theorem termInv_cancelGoal {g g' : Goal GoalStatus} {n : Nat} {raised : Prop}
    (h : TermInv g n raised) (hloc : g'.loc = g.loc)
    (hstatus : g'.status = (GoalStatus.cancelGoal g.status).getD g.status) :
    TermInv g' n raised := by
  have hactive : g'.status.isActive = g.status.isActive := by
    rw [hstatus]
    cases g.status <;> rfl
  constructor
  · rw [hloc, hactive]
    exact h.body
  · intro hend
    rw [hloc] at hend
    rw [hstatus, h.canceled hend]
    rfl
  · rw [hactive]
    exact h.active
  · exact h.le
  · rw [hloc]
    exact h.ended

theorem termInv_goto {g : Goal GoalStatus} {n : Nat} {raised : Prop}
    {loc : ExecLoc} (h : TermInv g n raised) (hbody : g.loc.inBody = true)
    (hnext : loc.inBody = true)
    (hcanceled : loc = .ending .canceled -> g.status = .canceling) :
    TermInv (g.goto loc) n raised where
  body := fun _ => h.body hbody
  canceled := hcanceled
  active := h.active
  le := h.le
  ended := by
    intro hout
    rw [show (g.goto loc).loc = loc from rfl, hnext] at hout
    cases hout

theorem termInv_raise {g g' : Goal GoalStatus} {n : Nat} {raised raised' : Prop}
    (h : TermInv g n raised) (hloc : g'.loc = .resetBusy)
    (hstatus : g'.status = g.status) (hraised : raised') :
    TermInv g' n raised' := by
  constructor
  · rw [hloc]
    nofun
  · rw [hloc]
    nofun
  · rw [hstatus]
    exact h.active
  · exact h.le
  · intro _ hnot
    exact absurd hraised hnot

theorem termInv_leave {g : Goal GoalStatus} {n : Nat} {raised : Prop}
    {loc : ExecLoc} (h : TermInv g n raised) (hbody : g.loc.inBody = false)
    (hnext : loc.inBody = false) : TermInv (g.goto loc) n raised where
  body := by
    intro hin
    rw [show (g.goto loc).loc = loc from rfl, hnext] at hin
    cases hin
  canceled := by
    intro hend
    rw [show loc = .ending .canceled from hend] at hnext
    cases hnext
  active := h.active
  le := h.le
  ended := fun _ => h.ended hbody

theorem termInv_finish {g g' : Goal GoalStatus} {n : Nat} {raised : Prop}
    {e : Ending} {st : GoalStatus} (h : TermInv g n raised)
    (hactive : g.status.isActive = true)
    (hfinish : GoalStatus.finish e g.status = some st)
    (hstatus : g'.status = st) (hloc : g'.loc.inBody = false) :
    TermInv g' (n + 1) raised := by
  have hn : n = 0 := h.active hactive
  have hterminal : g'.status.isActive = false := by
    rw [hstatus]
    cases hst : g.status <;> rw [hst] at hfinish <;> cases e <;>
      cases hfinish <;> rfl
  constructor
  · rw [hloc]
    nofun
  · intro hend
    rw [hend] at hloc
    cases hloc
  · rw [hterminal]
    nofun
  · rw [hn]
  · intro _ _
    rw [hn]

theorem termInv_accepted {g : Goal GoalStatus} {raised : Prop}
    (hloc : g.loc = .firstClear) (hstatus : g.status = .executing) :
    TermInv g 0 raised := by
  constructor
  · intro _
    rw [hstatus]
    rfl
  · rw [hloc]
    nofun
  · intro _
    rfl
  · exact Nat.zero_le 1
  · rw [hloc]
    nofun

theorem termInv_mono {g : Goal GoalStatus} {n : Nat} {raised raised' : Prop}
    (h : TermInv g n raised) (himp : raised -> raised') :
    TermInv g n raised' where
  body := h.body
  canceled := h.canceled
  active := h.active
  le := h.le
  ended := fun hout hnot => h.ended hout fun hraised => hnot (himp hraised)

/-!
## Steps of the callback
-/

/-- What the step of the callback leaves for its goal, and that its terminal
call, if it makes one, finds an active handle. -/
structure TermStep (i n : Nat) (raised : Prop) (g g' : Goal GoalStatus) :
    Prop where
  inv : TermInv g' (n + endings i (g.callbackCall i))
    (g.raisesInto g' = true ∨ raised)
  onActive : forall c, c ∈ g.callbackCall i -> c.before.isActive = true

theorem termStep_of_silent {i n : Nat} {raised : Prop}
    {g g' : Goal GoalStatus} (hsilent : g.callbackCall i = [])
    (h : TermInv g' n (g.raisesInto g' = true ∨ raised)) :
    TermStep i n raised g g' := by
  constructor
  · rw [hsilent]
    exact h
  · rw [hsilent]
    nofun

/-- In its body the callback only makes calls that the handle accepts. -/
theorem finish_of_body {g : Goal GoalStatus} {n : Nat} {raised : Prop}
    {e : Ending} (h : TermInv g n raised) (hloc : g.loc = .ending e) :
    exists st, GoalStatus.finish e g.status = some st := by
  have hactive : g.status.isActive = true := by
    apply h.body
    rw [hloc]
    rfl
  cases e with
  | canceled =>
      rw [h.canceled hloc]
      exact ⟨_, rfl⟩
  | abort =>
      cases hst : g.status <;> rw [hst] at hactive <;>
        first | exact ⟨_, rfl⟩ | cases hactive
  | succeed =>
      cases hst : g.status <;> rw [hst] at hactive <;>
        first | exact ⟨_, rfl⟩ | cases hactive

theorem termStep_ending {i n : Nat} {raised : Prop} {g g' : Goal GoalStatus}
    {e : Ending} (h : TermInv g n raised) (hloc : g.loc = .ending e)
    (hloc' : g'.loc = .resetBusy)
    (hstatus : g'.status = (GoalStatus.finish e g.status).getD g.status) :
    TermStep i n raised g g' := by
  have hactive : g.status.isActive = true := by
    apply h.body
    rw [hloc]
    rfl
  have hcall : g.callbackCall i = [⟨i, e, g.status⟩] := by
    unfold Goal.callbackCall
    rw [hloc]
  rcases finish_of_body h hloc with ⟨st, hst⟩
  have hone : endings i (g.callbackCall i) = 1 := by
    rw [hcall]
    simp [endings, TerminalCall.succeeds, hst]
  constructor
  · rw [hone]
    rw [hst] at hstatus
    refine termInv_mono (termInv_finish h hactive hst hstatus ?_) Or.inr
    rw [hloc']
    rfl
  · intro c hc
    rw [hcall] at hc
    cases List.mem_singleton.mp hc
    exact hactive

theorem canceling_of_requested {α : Type} {st : GoalStatus} {a b x : α}
    (h : (if GoalStatus.server.isCancelRequested st then a else b) = x)
    (hb : b ≠ x) : st = .canceling := by
  split at h
  · rename_i hrequested
    exact beq_iff_eq.mp hrequested
  · exact absurd h hb

theorem termStep_running {cfg : OrchestratorConfig} {i n : Nat} {choice : Bool}
    {raised : Prop} {sh : Shared} {g : Goal GoalStatus} {loc : SeqLoc}
    (h : TermInv g n raised) (hloc : g.loc = .running loc) :
    TermStep i n raised g (runningStep cfg choice sh g loc).2 := by
  have hbody : g.loc.inBody = true := by
    rw [hloc]
    rfl
  have hraise : forall g' : Goal GoalStatus, g'.loc = .resetBusy ->
      g.raisesInto g' = true := by
    intro g' hg'
    unfold Goal.raisesInto
    rw [hloc, hg']
  apply termStep_of_silent
  · unfold Goal.callbackCall
    rw [hloc]
  · unfold runningStep
    split
    · cases loc with
      | returned ok =>
          exact termInv_mono (termInv_goto h hbody rfl nofun) Or.inr
      | _ => exact termInv_raise h rfl rfl (Or.inl (hraise _ rfl))
    · rename_i next _
      have hinv : TermInv (g.goto (.running next.1)) n raised :=
        termInv_goto h hbody rfl nofun
      exact termInv_mono (termInv_of_same hinv rfl rfl) Or.inr

theorem termStep_normalize {cfg : OrchestratorConfig} {i n : Nat}
    {raised : Prop} {g : Goal GoalStatus}
    (h : TermInv g n raised) (hloc : g.loc = .normalize) :
    TermStep i n raised g (normalizeStep cfg g) := by
  have hbody : g.loc.inBody = true := by
    rw [hloc]
    rfl
  have hspec := normalizeStep_spec cfg g
  have hnext : forall loc : ExecLoc, loc.inBody = true ->
      loc ≠ .ending .canceled -> (normalizeStep cfg g).loc = loc ->
        TermInv (normalizeStep cfg g) n raised := by
    intro loc hin hne heq
    exact termInv_of_same
      (termInv_goto h hbody hin fun hend => absurd hend hne) heq hspec.2.1
  apply termStep_of_silent
  · unfold Goal.callbackCall
    rw [hloc]
  · rcases hspec.2.2 with heq | heq | heq
    · refine termInv_raise h heq hspec.2.1 (Or.inl ?_)
      unfold Goal.raisesInto
      rw [hloc, heq]
    · exact termInv_mono (hnext .clearStart rfl nofun heq) Or.inr
    · exact termInv_mono (hnext .secondClear rfl nofun heq) Or.inr

theorem termInv_conclude {g g' : Goal GoalStatus} {n : Nat} {raised : Prop}
    (h : TermInv g n raised) (hloc : g.loc = .conclude)
    (hloc' : g'.loc = .done)
    (hstatus : g'.status = GoalStatus.server.conclude g.status) :
    TermInv g' n raised := by
  have hterminal : g'.status.isActive = false := by
    rw [hstatus]
    cases g.status <;> rfl
  constructor
  · rw [hloc']
    nofun
  · rw [hloc']
    nofun
  · rw [hterminal]
    nofun
  · exact h.le
  · intro _
    apply h.ended
    rw [hloc]
    rfl

theorem termStep_execStep {cfg : OrchestratorConfig} {i n : Nat}
    {choice : Bool} {raised : Prop} {sh sh' : Shared}
    {g g' : Goal GoalStatus} (h : TermInv g n raised)
    (hexec : execStep GoalStatus.server cfg i choice sh g = some (sh', g')) :
    TermStep i n raised g g' := by
  unfold execStep at hexec
  cases hloc : g.loc with
  | ending e =>
      simp only [hloc, Option.some.injEq] at hexec
      cases hexec
      exact termStep_ending h hloc rfl rfl
  | running loc =>
      simp only [hloc, Option.some.injEq] at hexec
      have hrunning : TermStep i n raised g
          (runningStep cfg choice sh g loc).2 := termStep_running h hloc
      rw [hexec] at hrunning
      exact hrunning
  | normalize =>
      simp only [hloc, Option.some.injEq] at hexec
      cases hexec
      exact termStep_normalize h hloc
  | resetBusy =>
      simp only [hloc, Option.some.injEq] at hexec
      cases hexec
      refine termStep_of_silent (by rw [Goal.callbackCall, hloc]) ?_
      exact termInv_mono (termInv_leave h (by rw [hloc]; rfl) rfl) Or.inr
  | resetActive =>
      simp only [hloc, Option.some.injEq] at hexec
      cases hexec
      refine termStep_of_silent (by rw [Goal.callbackCall, hloc]) ?_
      exact termInv_mono (termInv_leave h (by rw [hloc]; rfl) rfl) Or.inr
  | conclude =>
      simp only [hloc, Option.some.injEq] at hexec
      cases hexec
      refine termStep_of_silent (by rw [Goal.callbackCall, hloc]) ?_
      exact termInv_mono (termInv_conclude h hloc rfl rfl) Or.inr
  | done =>
      simp only [hloc] at hexec
      cases hexec
  | loopCancel | afterLoop =>
      simp only [hloc, Option.some.injEq] at hexec
      cases hexec
      refine termStep_of_silent (by rw [Goal.callbackCall, hloc]) ?_
      refine termInv_mono (termInv_goto h (by rw [hloc]; rfl) ?_ ?_) Or.inr
      · split_ifs <;> rfl
      · exact fun hend => canceling_of_requested hend nofun
  | finish ok =>
      simp only [hloc, Option.some.injEq] at hexec
      cases hexec
      refine termStep_of_silent (by rw [Goal.callbackCall, hloc]) ?_
      refine termInv_mono (termInv_goto h (by rw [hloc]; rfl) rfl ?_) Or.inr
      intro hend
      refine canceling_of_requested (ExecLoc.ending.inj hend) ?_
      cases ok <;> nofun
  | _ =>
      simp only [hloc, Option.some.injEq] at hexec
      cases hexec
      refine termStep_of_silent (by rw [Goal.callbackCall, hloc]) ?_
      refine termInv_mono (termInv_goto h (by rw [hloc]; rfl) ?_ ?_) Or.inr
      · try split_ifs
        all_goals rfl
      · try split_ifs
        all_goals nofun

/-!
## The invariant of the node
-/

structure EndedInv (s : Ended) : Prop where
  onActive : forall c, c ∈ s.calls -> c.before.isActive = true
  known : forall c, c ∈ s.calls -> c.goal < s.orch.goals.length
  goal : forall (i : Nat) (g : Goal GoalStatus), s.orch.goals[i]? = some g ->
    TermInv g (endings i s.calls) (i ∈ s.raised)

theorem endings_append (i : Nat) (first second : List TerminalCall) :
    endings i (first ++ second) = endings i first + endings i second :=
  List.countP_append

theorem endings_eq_zero {i : Nat} {calls : List TerminalCall}
    (h : forall c, c ∈ calls -> c.goal ≠ i) : endings i calls = 0 := by
  apply List.countP_eq_zero.mpr
  intro c hc hcount
  exact h c hc (beq_iff_eq.mp (Bool.and_eq_true_iff.mp hcount).1)

theorem endedOnce_of_endedInv {s : Ended} (h : EndedInv s) : EndedOnce s where
  onActive := h.onActive
  atMostOnce := by
    intro i
    cases hi : s.orch.goals[i]? with
    | some g => exact (h.goal i g hi).le
    | none =>
        have hlength := List.getElem?_eq_none_iff.mp hi
        rw [endings_eq_zero]
        · exact Nat.zero_le 1
        · intro c hc heq
          have hlt := h.known c hc
          omega
  exactlyOnce := by
    intro i g hi hleft hraised
    refine (h.goal i g hi).ended ?_ hraised
    cases hloc : g.loc <;> rw [hloc] at hleft <;> first | rfl | cases hleft

theorem endedInv_set {s : Ended} {i : Nat} {g g' : Goal GoalStatus}
    {sh : Shared} {user : UserLoc} {new : List TerminalCall}
    {raised : List Nat} (hs : EndedInv s) (hi : s.orch.goals[i]? = some g)
    (hgoal : forall c, c ∈ new -> c.goal = i)
    (hactive : forall c, c ∈ new -> c.before.isActive = true)
    (hself : TermInv g' (endings i s.calls + endings i new)
      (i ∈ raised ++ s.raised)) :
    EndedInv ⟨⟨sh, user, s.orch.goals.set i g'⟩, new ++ s.calls,
      raised ++ s.raised⟩ := by
  have hlength : i < s.orch.goals.length := (List.getElem?_eq_some_iff.mp hi).1
  constructor
  · intro c hc
    rcases List.mem_append.mp hc with hnew | hold
    · exact hactive c hnew
    · exact hs.onActive c hold
  · intro c hc
    rw [List.length_set]
    rcases List.mem_append.mp hc with hnew | hold
    · rw [hgoal c hnew]
      exact hlength
    · exact hs.known c hold
  · intro j k hj
    rcases getElem?_set_cases hj with ⟨hji, heq⟩ | ⟨hji, hold⟩
    · rw [hji, heq, endings_append, Nat.add_comm]
      exact hself
    · have hnone : endings j new = 0 :=
        endings_eq_zero fun c hc heq => hji (heq.symm.trans (hgoal c hc))
      rw [endings_append, hnone, Nat.zero_add]
      refine termInv_mono (hs.goal j k hold) ?_
      exact fun hmem => List.mem_append_right raised hmem

theorem endedInv_silent {s : Ended} {i : Nat} {g g' : Goal GoalStatus}
    {sh : Shared} {user : UserLoc} (hs : EndedInv s)
    (hi : s.orch.goals[i]? = some g)
    (hself : TermInv g' (endings i s.calls) (i ∈ s.raised)) :
    EndedInv ⟨⟨sh, user, s.orch.goals.set i g'⟩, s.calls, s.raised⟩ :=
  @endedInv_set s i g g' sh user [] [] hs hi nofun nofun hself

/-!
## Steps of the node
-/

theorem raisedBy_execute {s s' : Orch GoalStatus} {i : Nat} {choice : Bool}
    {g g' : Goal GoalStatus} (hi : s.goals[i]? = some g)
    (hi' : s'.goals[i]? = some g') :
    raisedBy s s' (.step (.execute i choice)) =
      if g.raisesInto g' then [i] else [] := by
  show (if (s.goals[i]?).any fun g => (s'.goals[i]?).any g.raisesInto then [i]
    else []) = _
  rw [hi, hi']
  rfl

theorem endedInv_execute {cfg : OrchestratorConfig} {s : Ended} {i : Nat}
    {choice : Bool} {orch : Orch GoalStatus} (hs : EndedInv s)
    (hstep : orchStep GoalStatus.server cfg s.orch (.execute i choice) =
      some orch) :
    EndedInv ⟨orch, callsOf s.orch (.step (.execute i choice)) ++ s.calls,
      raisedBy s.orch orch (.step (.execute i choice)) ++ s.raised⟩ := by
  rcases Option.bind_eq_some_iff.mp hstep with ⟨g, hi, hnext⟩
  rcases Option.map_eq_some_iff.mp hnext with ⟨⟨sh, g'⟩, hexec, heq⟩
  have hterm := termStep_execStep (hs.goal i g hi) hexec
  have hcalls : callsOf s.orch (.step (.execute i choice)) =
      g.callbackCall i := by
    show ((s.orch.goals[i]?).map (Goal.callbackCall i)).getD [] = _
    rw [hi]
    rfl
  have hi' : orch.goals[i]? = some g' := by
    rw [← heq]
    exact List.getElem?_set_self (List.getElem?_eq_some_iff.mp hi).1
  rw [hcalls, raisedBy_execute hi hi', ← heq]
  refine endedInv_set hs hi ?_ hterm.onActive ?_
  · intro c hc
    unfold Goal.callbackCall at hc
    split at hc
    · cases List.mem_singleton.mp hc
      rfl
    · cases hc
  · refine termInv_mono hterm.inv ?_
    intro hraised
    rcases hraised with hnew | hold
    · rw [hnew]
      exact List.mem_cons_self
    · exact List.mem_append_right _ hold

theorem endedInv_request {cfg : OrchestratorConfig} {s : Ended}
    (traj : JointTrajectory) (hs : EndedInv s) :
    EndedInv ⟨requestStep GoalStatus.server cfg traj s.orch, s.calls,
      s.raised⟩ := by
  unfold requestStep
  split
  · constructor
    · exact hs.onActive
    · intro c hc
      rw [List.length_append]
      exact Nat.lt_add_right _ (hs.known c hc)
    · intro i g hi
      rcases getElem?_concat_cases hi with ⟨hlast, hnew⟩ | hold
      · have hnone : endings i s.calls = 0 := by
          apply endings_eq_zero
          intro c hc heq
          have hlt := hs.known c hc
          rw [heq, hlast] at hlt
          exact Nat.lt_irrefl _ hlt
        rw [hnone, hnew]
        exact termInv_accepted rfl rfl
      · exact hs.goal i g hold
  · exact hs

theorem endedInv_mustAbort {s : Ended} {i : Nat} {g : Goal GoalStatus}
    (hs : EndedInv s) (hi : s.orch.goals[i]? = some g)
    (hactive : g.status.isActive = true) (hout : g.loc.inBody = false) :
    EndedInv ⟨
      { s.orch with
        user := .idle
        goals := s.orch.goals.set i
          { g with
            status := (GoalStatus.finish .abort g.status).getD g.status } },
      [⟨i, .abort, g.status⟩] ++ s.calls, [] ++ s.raised⟩ := by
  have hfinish : GoalStatus.finish .abort g.status = some .aborted := by
    cases hst : g.status <;> rw [hst] at hactive <;>
      first | rfl | cases hactive
  refine endedInv_set hs hi ?_ ?_ ?_
  · intro c hc
    cases List.mem_singleton.mp hc
    rfl
  · intro c hc
    cases List.mem_singleton.mp hc
    exact hactive
  · have hone : endings i [⟨i, .abort, g.status⟩] = 1 := by
      simp [endings, TerminalCall.succeeds, hfinish]
    rw [hone, hfinish]
    exact termInv_finish (hs.goal i g hi) hactive hfinish rfl hout

theorem endedInv_user {s : Ended} {orch : Orch GoalStatus} (hs : EndedInv s)
    (hcond : KeyboardEndsLeft s (.step .user))
    (hstep : userStep GoalStatus.server s.orch = some orch) :
    EndedInv ⟨orch, callsOf s.orch (.step .user) ++ s.calls, s.raised⟩ := by
  unfold userStep at hstep
  cases huser : s.orch.user with
  | idle =>
      rw [huser] at hstep
      cases hstep
  | mustHold =>
      rw [huser] at hstep
      cases hstep
      rw [callsOf, huser]
      exact ⟨hs.onActive, hs.known, hs.goal⟩
  | mustRead =>
      rw [huser] at hstep
      cases hstep
      rw [callsOf, huser]
      exact ⟨hs.onActive, hs.known, hs.goal⟩
  | mustCheck i =>
      rw [huser] at hstep
      rcases Option.map_eq_some_iff.mp hstep with ⟨g, _, heq⟩
      rw [← heq, callsOf, huser]
      exact ⟨hs.onActive, hs.known, hs.goal⟩
  | mustAbort i =>
      rw [huser] at hstep
      rcases Option.map_eq_some_iff.mp hstep with ⟨g, hi, heq⟩
      have hleft := hcond i (by rw [huser]; rfl) g hi
      rw [← heq, callsOf, huser]
      simp only [hi]
      exact endedInv_mustAbort hs hi hleft.1 hleft.2

theorem endedInv_pressT {s : Ended} {sh : Shared} {user : UserLoc}
    (hs : EndedInv s) :
    EndedInv ⟨⟨sh, user, s.orch.goals.map Goal.markStop⟩, s.calls,
      s.raised⟩ := by
  constructor
  · exact hs.onActive
  · intro c hc
    rw [List.length_map]
    exact hs.known c hc
  · intro i g hi
    rw [List.getElem?_map] at hi
    rcases Option.map_eq_some_iff.mp hi with ⟨old, hold, heq⟩
    rw [← heq]
    exact termInv_of_same (hs.goal i old hold) rfl rfl

theorem endedInv_orchStep {cfg : OrchestratorConfig} {s : Ended}
    {orch : Orch GoalStatus} {e : OrchEvent} (hs : EndedInv s)
    (hcond : KeyboardEndsLeft s (.step e))
    (hstep : orchStep GoalStatus.server cfg s.orch e = some orch) :
    EndedInv ⟨orch, callsOf s.orch (.step e) ++ s.calls,
      raisedBy s.orch orch (.step e) ++ s.raised⟩ := by
  cases e with
  | request traj =>
      cases hstep
      exact endedInv_request traj hs
  | execute i choice => exact endedInv_execute hs hstep
  | cancel i =>
      rcases Option.map_eq_some_iff.mp hstep with ⟨g, hi, heq⟩
      rw [← heq]
      exact endedInv_silent hs hi (termInv_of_same (hs.goal i g hi) rfl rfl)
  | cancelHold i =>
      rcases Option.bind_eq_some_iff.mp hstep with ⟨g, hi, hnext⟩
      split at hnext
      · cases hnext
      · cases hnext
        exact endedInv_silent hs hi (termInv_of_same (hs.goal i g hi) rfl rfl)
  | cancelAccept i =>
      rcases Option.bind_eq_some_iff.mp hstep with ⟨g, hi, hnext⟩
      split at hnext
      · cases hnext
      · cases hnext
        exact endedInv_silent hs hi
          (termInv_cancelGoal (hs.goal i g hi) rfl rfl)
  | pressT =>
      simp only [orchStep] at hstep
      split at hstep
      · cases hstep
        exact endedInv_pressT hs
      · cases hstep
  | user => exact endedInv_user hs hcond hstep
  | pressS | armState | handState =>
      cases hstep
      exact ⟨hs.onActive, hs.known, hs.goal⟩

theorem endedInv_step {cfg : OrchestratorConfig} {s s' : Ended}
    {e : NodeEvent} (hs : EndedInv s) (hcond : KeyboardEndsLeft s e)
    (hstep : endedStep cfg s e = some s') : EndedInv s' := by
  rcases Option.map_eq_some_iff.mp hstep with ⟨orch, hnode, heq⟩
  rw [← heq]
  cases e with
  | step e => exact endedInv_orchStep hs hcond hnode
  | raise i =>
      rcases Option.bind_eq_some_iff.mp hnode with ⟨g, hi, hnext⟩
      split at hnext
      · cases hnext
        refine @endedInv_set s i g _ _ _ [] [i] hs hi nofun nofun ?_
        exact termInv_raise (hs.goal i g hi) rfl rfl List.mem_cons_self
      · cases hnext

theorem endedInv_start (view : View) : EndedInv (.start view) where
  onActive := nofun
  known := nofun
  goal := by
    intro i g hi
    rw [Ended.start, Orch.start, List.getElem?_nil] at hi
    cases hi

def pressTAndAbort : List NodeEvent :=
  .step .pressT :: List.replicate 4 (.step .user)

def abortedTwice (goal : JointTrajectory) : List NodeEvent :=
  .step (.request goal) :: (executeSteps 6).map .step ++ pressTAndAbort ++
    (executeSteps 5).map .step

def abortedAfterRaise (goal : JointTrajectory) : List NodeEvent :=
  .step (.request goal) :: (executeSteps 6).map .step ++ [.raise 0] ++
    pressTAndAbort ++ (executeSteps 2).map .step

def callsOnTerminal (s : Ended) : Bool :=
  s.calls.any fun c => !c.before.isActive

def endedByKeyboard (s : Ended) : Bool :=
  s.calls.length == 1 && s.raised.length == 1

end Orchestrator
end FrankaKistar
