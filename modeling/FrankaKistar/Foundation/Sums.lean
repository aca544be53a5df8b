import Mathlib.Algebra.Order.BigOperators.Group.List
import Mathlib.Algebra.Order.Group.Nat
import Mathlib.Algebra.GroupWithZero.Nat

/-!
# Sums of weights along a list

When each element of a list carries a weight, replacing one element changes the
sum by the difference of the two weights.
-/

namespace FrankaKistar
namespace Foundation

variable {element : Type}

def weight (f : element -> Nat) (elements : List element) : Nat :=
  (elements.map f).sum

theorem weight_set (f : element -> Nat) {elements : List element} {i : Nat}
    {x : element} (hx : elements[i]? = some x) (y : element) :
    weight f (elements.set i y) + f x = weight f elements + f y := by
  induction elements generalizing i with
  | nil => cases hx
  | cons head rest ih =>
      cases i with
      | zero =>
          cases hx
          simp only [weight, List.set_cons_zero, List.map_cons, List.sum_cons]
          omega
      | succ i =>
          have hrest := ih hx
          simp only [weight, List.set_cons_succ, List.map_cons,
            List.sum_cons] at hrest ⊢
          omega

theorem weight_le (f : element -> Nat) {bound : Nat} (hbound : forall x, f x ≤ bound)
    (elements : List element) : weight f elements ≤ elements.length * bound := by
  induction elements with
  | nil => exact Nat.zero_le _
  | cons head rest ih =>
      have hhead := hbound head
      simp only [weight, List.map_cons, List.sum_cons, List.length_cons,
        Nat.succ_mul] at ih ⊢
      omega

theorem weight_eq_zero (f : element -> Nat) {elements : List element}
    (h : forall x, x ∈ elements -> f x = 0) : weight f elements = 0 := by
  induction elements with
  | nil => rfl
  | cons head rest ih =>
      have hhead := h head List.mem_cons_self
      have hrest := ih fun x hx => h x (List.mem_cons_of_mem head hx)
      simp only [weight, List.map_cons, List.sum_cons] at hrest ⊢
      omega

end Foundation
end FrankaKistar
