import FrankaKistar.Foundation.Runs
import Mathlib.Logic.Function.Basic

/-!
# Threads beside each other

Threads that share a state take their steps in any order, and a step of one
thread changes its own part of the state and the shared one.  A fact about each
thread and a relation between every two of them hold in every run when a step
keeps them for its own thread and for each thread beside it.
-/

namespace FrankaKistar
namespace Foundation

structure Threads (thread shared part : Type) where
  common : shared
  part : thread -> part

variable {thread shared part event : Type} [DecidableEq thread]

def interleave (M : Machine (shared × part) event) :
    Machine (Threads thread shared part) (thread × event)
  | s, (t, e) =>
      match M (s.common, s.part t) e with
      | none => none
      | some next => some ⟨next.1, Function.update s.part t next.2⟩

theorem interleave_cases {M : Machine (shared × part) event}
    {s s' : Threads thread shared part} {t : thread} {e : event}
    (h : interleave M s (t, e) = some s') :
    exists common' part', M (s.common, s.part t) e = some (common', part') ∧
      s' = ⟨common', Function.update s.part t part'⟩ := by
  cases hstep : M (s.common, s.part t) e with
  | none =>
      simp only [interleave, hstep] at h
      cases h
  | some next =>
      simp only [interleave, hstep] at h
      exact ⟨next.1, next.2, rfl, (Option.some.inj h).symm⟩

/-- A fact about each thread and a relation between every two. -/
structure EachBeside (Inv : shared -> part -> Prop)
    (Apart : part -> part -> Prop) (s : Threads thread shared part) : Prop where
  each : forall t, Inv s.common (s.part t)
  apart : forall t t', t ≠ t' -> Apart (s.part t) (s.part t')

/-- What a step keeps for its own thread and for a thread beside it. -/
structure KeptBeside (M : Machine (shared × part) event)
    (cond : shared -> part -> event -> Prop) (Inv : shared -> part -> Prop)
    (Apart : part -> part -> Prop) : Prop where
  own : forall {common common' : shared} {x x' : part} {e : event},
    Inv common x -> cond common x e ->
      M (common, x) e = some (common', x') -> Inv common' x'
  beside : forall {common common' : shared} {x x' y : part} {e : event},
    Inv common x -> Inv common y -> Apart x y -> Apart y x ->
      cond common x e -> M (common, x) e = some (common', x') ->
      Inv common' y ∧ Apart x' y ∧ Apart y x'

theorem EachBeside.step {M : Machine (shared × part) event}
    {cond : shared -> part -> event -> Prop} {Inv : shared -> part -> Prop}
    {Apart : part -> part -> Prop} {s s' : Threads thread shared part}
    {t : thread} {e : event} (hkept : KeptBeside M cond Inv Apart)
    (h : EachBeside Inv Apart s) (hcond : cond s.common (s.part t) e)
    (hstep : interleave M s (t, e) = some s') : EachBeside Inv Apart s' := by
  rcases interleave_cases hstep with ⟨common', part', hnext, rfl⟩
  have hbeside : forall t', t' ≠ t ->
      Inv common' (s.part t') ∧ Apart part' (s.part t') ∧
        Apart (s.part t') part' := by
    intro t' hne
    exact hkept.beside (h.each t) (h.each t') (h.apart t t' (Ne.symm hne))
      (h.apart t' t hne) hcond hnext
  constructor
  · intro t'
    dsimp only
    by_cases heq : t' = t
    · rw [heq, Function.update_self]
      exact hkept.own (h.each t) hcond hnext
    · rw [Function.update_of_ne heq]
      exact (hbeside t' heq).left
  · intro t' u hne
    dsimp only
    by_cases heq : t' = t
    · rw [heq] at hne ⊢
      rw [Function.update_self, Function.update_of_ne (Ne.symm hne)]
      exact (hbeside u (Ne.symm hne)).right.left
    · rw [Function.update_of_ne heq]
      by_cases hu : u = t
      · rw [hu, Function.update_self]
        exact (hbeside t' heq).right.right
      · rw [Function.update_of_ne hu]
        exact h.apart t' u hne

end Foundation
end FrankaKistar
