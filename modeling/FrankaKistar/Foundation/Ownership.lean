import Mathlib.Data.List.Basic

/-!
# A flag and its one owner

A list of parties shares a flag.  A party takes the flag when it joins and gives
it up later, and between the two it owns it.  The rules below keep two facts
together: at most one party owns the flag, and the flag is set exactly when one
does.
-/

namespace FrankaKistar
namespace Foundation

variable {α : Type}

/-!
## Updates of one party
-/

theorem getElem?_set_cases {xs : List α} {x y : α} {i j : Nat}
    (h : (xs.set i x)[j]? = some y) :
    (j = i ∧ y = x) ∨ (j ≠ i ∧ xs[j]? = some y) := by
  rw [List.getElem?_set] at h
  split at h
  · rename_i heq
    split at h
    · cases h
      exact Or.inl ⟨heq.symm, rfl⟩
    · cases h
  · rename_i hne
    exact Or.inr ⟨fun heq => hne heq.symm, h⟩

theorem getElem?_concat_cases {xs : List α} {x y : α} {i : Nat}
    (h : (xs ++ [x])[i]? = some y) :
    (i = xs.length ∧ y = x) ∨ xs[i]? = some y := by
  rw [List.getElem?_append] at h
  split at h
  · exact Or.inr h
  · rename_i hge
    rcases List.getElem?_eq_some_iff.mp h with ⟨hlt, heq⟩
    rw [List.length_singleton] at hlt
    rw [List.getElem_singleton] at heq
    exact Or.inl ⟨by omega, heq.symm⟩

/-!
## Ownership
-/

/-- At most one party owns the flag, which is set exactly when one does. -/
structure Owned (owns : α -> Bool) (flag : Bool) (parties : List α) : Prop where
  single : forall (i j : Nat) (x y : α),
    parties[i]? = some x -> parties[j]? = some y ->
      owns x = true -> owns y = true -> i = j
  flagged : flag = true ↔
    exists (i : Nat) (x : α), parties[i]? = some x ∧ owns x = true

variable {owns : α -> Bool} {flag : Bool} {parties : List α}

theorem owned_nil (owns : α -> Bool) : Owned owns false ([] : List α) where
  single := nofun
  flagged := ⟨nofun, fun ⟨_, _, h, _⟩ => nomatch h⟩

theorem Owned.owns_of_clear (h : Owned owns false parties) {i : Nat} {x : α}
    (hi : parties[i]? = some x) : owns x = false := by
  cases hx : owns x with
  | false => rfl
  | true => exact nomatch h.flagged.mpr ⟨i, x, hi, hx⟩

theorem Owned.other (h : Owned owns flag parties) {i j : Nat} {x y : α}
    (hi : parties[i]? = some x) (hx : owns x = true)
    (hj : parties[j]? = some y) (hne : j ≠ i) : owns y = false := by
  cases hy : owns y with
  | false => rfl
  | true => exact absurd (h.single j i y x hj hi hy hx) hne

theorem Owned.congr {parties' : List α} (h : Owned owns flag parties)
    (hsame : parties'.map owns = parties.map owns) :
    Owned owns flag parties' := by
  have hget : forall (i : Nat),
      (parties'[i]?).map owns = (parties[i]?).map owns := by
    intro i
    rw [← List.getElem?_map, ← List.getElem?_map, hsame]
  have hold : forall (i : Nat) (x : α), parties'[i]? = some x ->
      exists x', parties[i]? = some x' ∧ owns x' = owns x := by
    intro i x hi
    have hmap := hget i
    rw [hi] at hmap
    exact Option.map_eq_some_iff.mp hmap.symm
  constructor
  · intro i j x y hi hj hx hy
    rcases hold i x hi with ⟨x', hi', hx'⟩
    rcases hold j y hj with ⟨y', hj', hy'⟩
    exact h.single i j x' y' hi' hj' (hx'.trans hx) (hy'.trans hy)
  · rw [h.flagged]
    constructor
    · intro howner
      rcases howner with ⟨i, x, hi, hx⟩
      have hmap := hget i
      rw [hi] at hmap
      rcases Option.map_eq_some_iff.mp hmap with ⟨x', hi', hx'⟩
      exact ⟨i, x', hi', hx'.trans hx⟩
    · intro howner
      rcases howner with ⟨i, x, hi, hx⟩
      rcases hold i x hi with ⟨x', hi', hx'⟩
      exact ⟨i, x', hi', hx'.trans hx⟩

theorem map_set_of_same {β : Type} {xs : List α} {f : α -> β} {x y : α}
    {i : Nat} (hi : xs[i]? = some x) (hsame : f y = f x) :
    (xs.set i y).map f = xs.map f := by
  apply List.ext_getElem?
  intro j
  rw [List.getElem?_map, List.getElem?_map]
  by_cases heq : j = i
  · rw [heq, hi, List.getElem?_set_self (List.getElem?_eq_some_iff.mp hi).1]
    exact congrArg some hsame
  · rw [List.getElem?_set_ne fun hij => heq hij.symm]

theorem Owned.release (h : Owned owns flag parties) {i : Nat} {x y : α}
    (hi : parties[i]? = some x) (hx : owns x = true) (hy : owns y = false) :
    Owned owns false (parties.set i y) := by
  have hnone : forall (j : Nat) (z : α), (parties.set i y)[j]? = some z ->
      owns z = false := by
    intro j z hj
    rcases getElem?_set_cases hj with ⟨_, hnew⟩ | ⟨hne, hkept⟩
    · rw [hnew]
      exact hy
    · exact h.other hi hx hkept hne
  constructor
  · intro j k z w hj _ hz _
    rw [hnone j z hj] at hz
    cases hz
  · constructor
    · nofun
    · intro howner
      rcases howner with ⟨j, z, hj, hz⟩
      rw [hnone j z hj] at hz
      cases hz

theorem Owned.join (h : Owned owns false parties) {x : α}
    (hx : owns x = true) : Owned owns true (parties ++ [x]) := by
  have hlast : forall (j : Nat) (z : α), (parties ++ [x])[j]? = some z ->
      owns z = true -> j = parties.length := by
    intro j z hj hz
    rcases getElem?_concat_cases hj with ⟨heq, _⟩ | hkept
    · exact heq
    · rw [h.owns_of_clear hkept] at hz
      cases hz
  constructor
  · intro j k z w hj hk hz hw
    rw [hlast j z hj hz, hlast k w hk hw]
  · refine ⟨fun _ => ⟨parties.length, x, ?_, hx⟩, fun _ => rfl⟩
    exact List.getElem?_concat_length

end Foundation
end FrankaKistar
