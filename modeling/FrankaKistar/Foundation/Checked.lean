import Mathlib.Data.List.FinRange
import Mathlib.Data.List.GetD
import Mathlib.Data.Rat.Defs

/-!
# Expressions that can raise

The exceptions of a function in a language with checked list accesses and
divisions: those that the function raises itself, and those of the expressions
it evaluates.  A checked list comprehension whose accesses are in range is the
map of the plain accesses.
-/

namespace FrankaKistar
namespace Foundation

/-- An exception of a function whose own exceptions are `ε`. -/
inductive PyError (ε : Type) where
  | raised (e : ε)
  | indexError
  | zeroDivisionError
deriving DecidableEq

/-- `values[i]` -/
def elementAt {ε α : Type} (values : List α) (i : Nat) :
    Except (PyError ε) α :=
  match values[i]? with
  | some value => .ok value
  | none => .error .indexError

/-- `x / y` -/
def divide {ε : Type} (x y : ℚ) : Except (PyError ε) ℚ :=
  if y = 0 then .error .zeroDivisionError else .ok (x / y)

/-- The result of a part of the function that has no access and no division. -/
def raising {ε α : Type} : Except ε α -> Except (PyError ε) α
  | .ok value => .ok value
  | .error e => .error (.raised e)

section

variable {ε α β : Type}

theorem elementAt_eq_ok {values : List α} {i : Nat} {value : α}
    (h : values[i]? = some value) :
    elementAt values i = (.ok value : Except (PyError ε) α) := by
  unfold elementAt
  rw [h]

theorem elementAt_of_lt {values : List α} {i : Nat} (h : i < values.length)
    (default : α) :
    elementAt values i =
      (.ok (values.getD i default) : Except (PyError ε) α) := by
  apply elementAt_eq_ok
  rw [List.getD_eq_getElem values default h]
  exact List.getElem?_eq_getElem h

theorem divide_of_ne {x y : ℚ} (h : y ≠ 0) :
    divide x y = (.ok (x / y) : Except (PyError ε) ℚ) := by
  unfold divide
  rw [if_neg h]

/-!
## Comprehensions
-/

theorem mapM_eq_ok {f : α -> Except ε β} {g : α -> β} {xs : List α}
    (h : forall x, x ∈ xs -> f x = .ok (g x)) :
    xs.mapM f = .ok (xs.map g) := by
  induction xs with
  | nil => rfl
  | cons x rest ih =>
      rw [List.mapM_cons, h x List.mem_cons_self,
        ih fun y hy => h y (List.mem_cons_of_mem x hy)]
      rfl

theorem mapM_eq_error {f : α -> Except ε β} {e : ε} {xs : List α}
    (h : forall x, x ∈ xs -> (exists y, f x = .ok y) ∨ f x = .error e)
    (hex : exists x, x ∈ xs ∧ f x = .error e) :
    xs.mapM f = .error e := by
  induction xs with
  | nil =>
      rcases hex with ⟨x, hx, _⟩
      cases hx
  | cons x rest ih =>
      rw [List.mapM_cons]
      rcases h x List.mem_cons_self with ⟨y, hy⟩ | hraise
      · have hrest : exists z, z ∈ rest ∧ f z = .error e := by
          rcases hex with ⟨z, hz, hfz⟩
          rcases List.mem_cons.mp hz with heq | hmem
          · rw [heq, hy] at hfz
            cases hfz
          · exact ⟨z, hmem, hfz⟩
        rw [hy, ih (fun z hz => h z (List.mem_cons_of_mem x hz)) hrest]
        rfl
      · rw [hraise]
        rfl

theorem length_of_mapM {f : α -> Except ε β} {xs : List α} {ys : List β}
    (h : xs.mapM f = .ok ys) : ys.length = xs.length := by
  induction xs generalizing ys with
  | nil =>
      cases h
      rfl
  | cons x rest ih =>
      rw [List.mapM_cons] at h
      cases hx : f x with
      | error e =>
          rw [hx] at h
          cases h
      | ok y =>
          rw [hx] at h
          cases hrest : rest.mapM f with
          | error e =>
              rw [hrest] at h
              cases h
          | ok zs =>
              rw [hrest] at h
              cases h
              rw [List.length_cons, List.length_cons, ih hrest]

theorem mapM_elementAt {values : List α} {indices : List Nat}
    (h : forall i, i ∈ indices -> i < values.length) (default : α) :
    indices.mapM (elementAt values) =
      (.ok (indices.map fun i => values.getD i default) :
        Except (PyError ε) (List α)) :=
  mapM_eq_ok fun i hi => elementAt_of_lt (h i hi) default

theorem mapM_range {n : Nat} {f : Nat -> Except ε β} {g : Fin n -> β}
    (h : forall i : Fin n, f i.val = .ok (g i)) :
    (List.range n).mapM f = .ok (List.ofFn g) := by
  rw [<- List.map_coe_finRange_eq_range, List.mapM_map, List.ofFn_eq_map]
  exact mapM_eq_ok fun i _ => h i

end

end Foundation
end FrankaKistar
