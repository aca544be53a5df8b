import Mathlib.Data.List.Basic

/-!
# Runs of partial machines

A machine is a partial step function: from a state and an event it reaches at
most one next state, and it refuses an event that is not enabled.  Every
concurrent component of this development is such a machine, so the induction
over its runs is packaged here once.

Runs are indexed by the list of events that were taken, oldest first.  A run may
be restricted by a condition on the state before each step, which is how a
development says "in every run whose steps all meet the condition".
-/

namespace FrankaKistar
namespace Foundation

/-- A partial step function: `none` refuses the event. -/
abbrev Machine (state event : Type) := state -> event -> Option state

namespace Machine

variable {state event : Type}

/-- Take a list of events in order; the whole list must be enabled. -/
def runFrom (M : Machine state event) : state -> List event -> Option state
  | s, [] => some s
  | s, e :: rest =>
      match M s e with
      | none => none
      | some s' => runFrom M s' rest

theorem runFrom_cons_of_step {M : Machine state event} {s s' : state} {e : event}
    (hstep : M s e = some s') (rest : List event) :
    M.runFrom s (e :: rest) = M.runFrom s' rest := by
  simp [runFrom, hstep]

/-- Runs from `start`, every step of which is taken in a state that meets
`cond`. -/
inductive RunWhere (M : Machine state event) (cond : state -> event -> Prop)
    (start : state) : List event -> state -> Prop where
  | nil : RunWhere M cond start [] start
  | snoc {history : List event} {s s' : state} {e : event} :
      RunWhere M cond start history s ->
      cond s e ->
      M s e = some s' ->
      RunWhere M cond start (history ++ [e]) s'

abbrev Run (M : Machine state event) (start : state) :
    List event -> state -> Prop :=
  RunWhere M (fun _ _ => True) start

/-- The machine that also refuses the events that do not meet `cond`. -/
def guarded (M : Machine state event) (cond : state -> event -> Prop)
    [forall s e, Decidable (cond s e)] : Machine state event :=
  fun s e => if cond s e then M s e else none

/-!
## Building runs

Concrete runs are computed with `runFrom`; the relational form is the one the
invariant rules induct on.
-/

theorem runWhere_append {M : Machine state event}
    {cond : state -> event -> Prop} {start middle final : state}
    {first second : List event}
    (hfirst : RunWhere M cond start first middle)
    (hsecond : RunWhere M cond middle second final) :
    RunWhere M cond start (first ++ second) final := by
  induction hsecond with
  | nil => simpa using hfirst
  | snoc _ hcond hstep ih =>
      rw [← List.append_assoc]
      exact RunWhere.snoc ih hcond hstep

theorem runWhere_single {M : Machine state event}
    {cond : state -> event -> Prop} {s s' : state} {e : event}
    (hcond : cond s e) (hstep : M s e = some s') :
    RunWhere M cond s [e] s' := by
  show RunWhere M cond s ([] ++ [e]) s'
  exact RunWhere.snoc RunWhere.nil hcond hstep

theorem runWhere_mono {M : Machine state event}
    {cond cond' : state -> event -> Prop} {start final : state}
    {events : List event} (hcond : forall s e, cond s e -> cond' s e)
    (h : RunWhere M cond start events final) :
    RunWhere M cond' start events final := by
  induction h with
  | nil => exact RunWhere.nil
  | snoc _ hc hstep ih => exact RunWhere.snoc ih (hcond _ _ hc) hstep

theorem runWhere_of_guarded_runFrom {M : Machine state event}
    {cond : state -> event -> Prop} [forall s e, Decidable (cond s e)]
    {events : List event} {start final : state}
    (h : (M.guarded cond).runFrom start events = some final) :
    RunWhere M cond start events final := by
  induction events generalizing start with
  | nil =>
      cases h
      exact RunWhere.nil
  | cons e rest ih =>
      cases hstep : M.guarded cond start e with
      | none => simp [runFrom, hstep] at h
      | some next =>
          rw [runFrom_cons_of_step hstep] at h
          unfold guarded at hstep
          split at hstep
          · rename_i hcond
            exact runWhere_append (runWhere_single hcond hstep) (ih h)
          · cases hstep

theorem run_of_runFrom {M : Machine state event} {events : List event}
    {start final : state} (h : M.runFrom start events = some final) :
    Run M start events final := by
  induction events generalizing start with
  | nil =>
      cases h
      exact RunWhere.nil
  | cons e rest ih =>
      cases hstep : M start e with
      | none => simp [runFrom, hstep] at h
      | some next =>
          rw [runFrom_cons_of_step hstep] at h
          exact runWhere_append (runWhere_single True.intro hstep) (ih h)

theorem runWhere_of_forall {M : Machine state event}
    {cond : state -> event -> Prop} {events : List event}
    {start final : state} (hcond : forall e, e ∈ events -> forall s, cond s e)
    (h : M.runFrom start events = some final) :
    RunWhere M cond start events final := by
  induction events generalizing start with
  | nil =>
      cases h
      exact RunWhere.nil
  | cons e rest ih =>
      cases hstep : M start e with
      | none => simp [runFrom, hstep] at h
      | some next =>
          rw [runFrom_cons_of_step hstep] at h
          exact runWhere_append
            (runWhere_single (hcond e List.mem_cons_self start) hstep)
            (ih (fun e' he' => hcond e' (List.mem_cons_of_mem e he')) h)

theorem exists_run_of_any {M : Machine state event} {events : List event}
    {start : state} {test : state -> Bool}
    (h : (M.runFrom start events).any test = true) :
    exists final, Run M start events final ∧ test final = true := by
  cases hrun : M.runFrom start events with
  | none => simp [hrun] at h
  | some final =>
      rw [hrun] at h
      exact ⟨final, run_of_runFrom hrun, h⟩

theorem exists_runWhere_of_forall {M : Machine state event}
    {cond : state -> event -> Prop} {events : List event} {start : state}
    {test : state -> Bool} (hcond : forall e, e ∈ events -> forall s, cond s e)
    (h : (M.runFrom start events).any test = true) :
    exists final, RunWhere M cond start events final ∧ test final = true := by
  cases hrun : M.runFrom start events with
  | none => simp [hrun] at h
  | some final =>
      rw [hrun] at h
      exact ⟨final, runWhere_of_forall hcond hrun, h⟩

theorem exists_runWhere_of_any {M : Machine state event}
    {cond : state -> event -> Prop} [forall s e, Decidable (cond s e)]
    {events : List event} {start : state} {test : state -> Bool}
    (h : ((M.guarded cond).runFrom start events).any test = true) :
    exists final, RunWhere M cond start events final ∧ test final = true := by
  cases hrun : (M.guarded cond).runFrom start events with
  | none => simp [hrun] at h
  | some final =>
      rw [hrun] at h
      exact ⟨final, runWhere_of_guarded_runFrom hrun, h⟩

/-!
A run determines its last state.
-/

theorem runFrom_append (M : Machine state event) (s : state)
    (first second : List event) :
    M.runFrom s (first ++ second) =
      (M.runFrom s first).bind fun s' => M.runFrom s' second := by
  induction first generalizing s with
  | nil => rfl
  | cons e rest ih =>
      cases hstep : M s e with
      | none => simp [runFrom, hstep]
      | some s' =>
          rw [List.cons_append, runFrom_cons_of_step hstep,
            runFrom_cons_of_step hstep, ih]

/-!
## Reachability
-/

def Reaches (M : Machine state event) (s s' : state) : Prop :=
  exists history, Run M s history s'

theorem reaches_refl (M : Machine state event) (s : state) :
    M.Reaches s s := ⟨[], RunWhere.nil⟩

theorem reaches_of_step {M : Machine state event} {s s' : state} {e : event}
    (h : M s e = some s') : M.Reaches s s' :=
  ⟨[e], runWhere_single True.intro h⟩

theorem reaches_trans {M : Machine state event} {s s' s'' : state}
    (h : M.Reaches s s') (h' : M.Reaches s' s'') : M.Reaches s s'' := by
  rcases h with ⟨first, hfirst⟩
  rcases h' with ⟨second, hsecond⟩
  exact ⟨first ++ second, runWhere_append hfirst hsecond⟩

theorem reaches_step {M : Machine state event} {s s' s'' : state} {e : event}
    (h : M s e = some s') (h' : M.Reaches s' s'') : M.Reaches s s'' :=
  reaches_trans (reaches_of_step h) h'

/-!
## Invariant rules

What one step preserves holds of every state a run reaches.  The second rule
lets the invariant also speak about the events taken so far.
-/

theorem invariant_of_step {M : Machine state event}
    {cond : state -> event -> Prop} {Inv : state -> Prop} {start s : state}
    {history : List event}
    (hstep : forall s e s', Inv s -> cond s e -> M s e = some s' -> Inv s')
    (hstart : Inv start) (h : RunWhere M cond start history s) : Inv s := by
  induction h with
  | nil => exact hstart
  | snoc _ hcond hnext ih => exact hstep _ _ _ ih hcond hnext

theorem history_invariant_of_step {M : Machine state event}
    {cond : state -> event -> Prop} {Inv : List event -> state -> Prop}
    {start s : state} {history : List event}
    (hstep : forall history s e s', Inv history s -> cond s e ->
      M s e = some s' -> Inv (history ++ [e]) s')
    (hstart : Inv [] start) (h : RunWhere M cond start history s) :
    Inv history s := by
  induction h with
  | nil => exact hstart
  | snoc _ hcond hnext ih => exact hstep _ _ _ _ ih hcond hnext

/-!
## Ranks

A rank that every step lowers bounds the length of a run.
-/

theorem length_add_rank_le {M : Machine state event}
    {cond : state -> event -> Prop} {Inv : state -> Prop}
    {start s : state} {history : List event} (rank : state -> Nat)
    (hinv : forall s e s', Inv s -> cond s e -> M s e = some s' -> Inv s')
    (hrank : forall s e s', Inv s -> cond s e -> M s e = some s' ->
      rank s' < rank s)
    (hstart : Inv start) (h : RunWhere M cond start history s) :
    history.length + rank s ≤ rank start := by
  induction h with
  | nil => exact Nat.le_of_eq (Nat.zero_add _)
  | snoc hbefore hcond hnext ih =>
      have hlower := hrank _ _ _ (invariant_of_step hinv hstart hbefore) hcond
        hnext
      rw [List.length_append, List.length_singleton]
      omega

/-!
## Last values

What the events of a list have assigned last.
-/

variable {value : Type}

def lastValue (assigns : event -> Option value) (events : List event) :
    Option value :=
  events.reverse.findSome? assigns

theorem lastValue_cons (assigns : event -> Option value) (e : event)
    (rest : List event) :
    lastValue assigns (e :: rest) =
      (lastValue assigns rest).or (assigns e) := by
  unfold lastValue
  rw [List.reverse_cons, List.findSome?_append, List.findSome?_singleton]

theorem lastValue_map {result : Type} (f : value -> result)
    (assigns : event -> Option value) (events : List event) :
    lastValue (fun e => (assigns e).map f) events =
      (lastValue assigns events).map f := by
  induction events with
  | nil => rfl
  | cons e rest ih =>
      rw [lastValue_cons, lastValue_cons, ih]
      cases lastValue assigns rest <;> rfl

/-- A cell that every event overwrites, or leaves alone, holds the last value,
or what it held at the start. -/
theorem lastValue_of_overwrite {step : state -> event -> state}
    {cell : state -> value} {assigns : event -> Option value}
    (h : forall s e, cell (step s e) = (assigns e).getD (cell s)) (start : state)
    (events : List event) :
    cell (events.foldl step start) =
      (lastValue assigns events).getD (cell start) := by
  induction events generalizing start with
  | nil => rfl
  | cons e rest ih =>
      rw [List.foldl_cons, ih, h, lastValue_cons]
      cases lastValue assigns rest <;> rfl

end Machine

end Foundation
end FrankaKistar
