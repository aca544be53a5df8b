import Mathlib.Logic.Function.Basic

/-!
# Ranges of a memory

Copies of consecutive values from and to a memory, as `memcpy` makes them.  A
load sees the last store to each of its addresses, so a load of a range that
contains the stored one is the old range with its middle replaced.
-/

namespace FrankaKistar
namespace Foundation
namespace Ranges

variable {value : Type}

/-- The values at `n` addresses from `a` on. -/
def load (mem : Nat -> value) (a : Nat) : Nat -> List value
  | 0 => []
  | n + 1 => mem a :: load mem (a + 1) n

/-- Store values from address `a` on. -/
def store (mem : Nat -> value) (a : Nat) : List value -> Nat -> value
  | [] => mem
  | x :: xs => store (Function.update mem a x) (a + 1) xs

/-!
## Loads
-/

@[simp] theorem length_load (mem : Nat -> value) (a n : Nat) :
    (load mem a n).length = n := by
  induction n generalizing a with
  | zero => rfl
  | succ n ih => rw [load, List.length_cons, ih]

theorem load_congr {mem mem' : Nat -> value} {a n : Nat}
    (h : forall k, a ≤ k -> k < a + n -> mem k = mem' k) :
    load mem a n = load mem' a n := by
  induction n generalizing a with
  | zero => rfl
  | succ n ih =>
      rw [load, load, h a (Nat.le_refl a) (by omega)]
      rw [ih fun k hlow hhigh => h k (by omega) (by omega)]

theorem load_add (mem : Nat -> value) (a m n : Nat) :
    load mem a (m + n) = load mem a m ++ load mem (a + m) n := by
  induction m generalizing a with
  | zero => rw [Nat.zero_add, Nat.add_zero, load, List.nil_append]
  | succ m ih =>
      have haddress : a + 1 + m = a + (m + 1) := by omega
      rw [Nat.succ_add, load, load, ih, haddress, List.cons_append]

theorem getElem?_load {mem : Nat -> value} {a n k : Nat} (h : k < n) :
    (load mem a n)[k]? = some (mem (a + k)) := by
  induction n generalizing a k with
  | zero => exact absurd h (Nat.not_lt_zero k)
  | succ n ih =>
      cases k with
      | zero => rfl
      | succ k =>
          have haddress : a + 1 + k = a + (k + 1) := by omega
          rw [load, List.getElem?_cons_succ, ih (Nat.lt_of_succ_lt_succ h),
            haddress]

theorem load_split (mem : Nat -> value) {a n : Nat} (i m : Nat)
    (h : i + m ≤ n) :
    load mem a n = load mem a i ++ load mem (a + i) m ++
      load mem (a + i + m) (n - (i + m)) := by
  have hparts : n = i + m + (n - (i + m)) := by omega
  have haddress : a + (i + m) = a + i + m := by omega
  rw [<- haddress, <- load_add, <- load_add, <- hparts]

theorem take_load (mem : Nat -> value) {a n i : Nat} (h : i ≤ n) :
    (load mem a n).take i = load mem a i := by
  have hparts : n = i + (n - i) := by omega
  rw [hparts, load_add]
  exact List.take_left' (length_load mem a i)

theorem drop_load (mem : Nat -> value) {a n i : Nat} (h : i ≤ n) :
    (load mem a n).drop i = load mem (a + i) (n - i) := by
  have hparts : n = i + (n - i) := by omega
  rw [hparts, load_add, Nat.add_sub_cancel_left]
  exact List.drop_left' (length_load mem a i)

theorem load_middle {mem : Nat -> value} {a n : Nat} {xs ys zs : List value}
    (h : load mem a n = xs ++ ys ++ zs) :
    load mem (a + xs.length) ys.length = ys := by
  have hlength : n = xs.length + ys.length + zs.length := by
    rw [<- length_load mem a n, h, List.length_append, List.length_append]
  rw [load_split mem xs.length ys.length (by omega)] at h
  have houter := List.append_inj_left h (by
    rw [List.length_append, List.length_append, length_load, length_load])
  exact List.append_inj_right houter (length_load _ _ _)

theorem load_part {mem mem' : Nat -> value} {a b m : Nat} (i n : Nat)
    (hroom : i + n ≤ m) (h : load mem a m = load mem' b m) :
    load mem (a + i) n = load mem' (b + i) n := by
  rw [load_split mem i n hroom, load_split mem' i n hroom] at h
  have houter := List.append_inj_left h (by
    rw [List.length_append, List.length_append, length_load, length_load,
      length_load, length_load])
  exact List.append_inj_right houter (by rw [length_load, length_load])

/-!
## Stores
-/

theorem store_of_lt (mem : Nat -> value) {a k : Nat} (xs : List value)
    (h : k < a) : store mem a xs k = mem k := by
  induction xs generalizing mem a with
  | nil => rfl
  | cons x xs ih =>
      rw [store, ih (Function.update mem a x) (by omega)]
      exact Function.update_of_ne (Nat.ne_of_lt h) _ _

theorem store_of_ge (mem : Nat -> value) {a k : Nat} (xs : List value)
    (h : a + xs.length ≤ k) : store mem a xs k = mem k := by
  induction xs generalizing mem a with
  | nil => rfl
  | cons x xs ih =>
      rw [List.length_cons] at h
      rw [store, ih (Function.update mem a x) (by omega)]
      exact Function.update_of_ne (by omega) _ _

theorem load_store (mem : Nat -> value) (a : Nat) (xs : List value) :
    load (store mem a xs) a xs.length = xs := by
  induction xs generalizing mem a with
  | nil => rfl
  | cons x xs ih =>
      have hhead : store (Function.update mem a x) (a + 1) xs a = x :=
        (store_of_lt _ xs (Nat.lt_succ_self a)).trans
          (Function.update_self a x mem)
      rw [List.length_cons, load, store, hhead, ih]

theorem load_store_before (mem : Nat -> value) {a n b : Nat}
    (xs : List value) (h : a + n ≤ b) :
    load (store mem b xs) a n = load mem a n :=
  load_congr fun _ _ hk => store_of_lt mem xs (by omega)

theorem load_store_after (mem : Nat -> value) {a n b : Nat}
    (xs : List value) (h : b + xs.length ≤ a) :
    load (store mem b xs) a n = load mem a n :=
  load_congr fun _ hk _ => store_of_ge mem xs (by omega)

theorem load_store_inside (mem : Nat -> value) {a n i : Nat}
    (xs : List value) (h : i + xs.length ≤ n) :
    load (store mem (a + i) xs) a n =
      (load mem a n).take i ++ xs ++ (load mem a n).drop (i + xs.length) := by
  rw [load_split _ i xs.length h, load_store_before mem xs (Nat.le_refl _),
    load_store, load_store_after mem xs (Nat.le_refl _),
    take_load mem (by omega), drop_load mem h, Nat.add_assoc]

/-!
## Several stores
-/

def Clear (a m b n : Nat) : Prop := a + m ≤ b ∨ b + n ≤ a

theorem Clear.symm {a m b n : Nat} (h : Clear a m b n) : Clear b n a m :=
  Or.symm h

theorem load_store_clear (mem : Nat -> value) {a n b : Nat} {xs : List value}
    (h : Clear a n b xs.length) :
    load (store mem b xs) a n = load mem a n := by
  rcases h with hbefore | hafter
  · exact load_store_before mem xs hbefore
  · exact load_store_after mem xs hafter

/-- Stores one after the other, each at its own address. -/
def stores (mem : Nat -> value) (writes : List (Nat × List value)) :
    Nat -> value :=
  writes.foldl (fun mem w => store mem w.1 w.2) mem

theorem load_stores_clear (mem : Nat -> value) {a n : Nat}
    {writes : List (Nat × List value)}
    (h : forall w, w ∈ writes -> Clear a n w.1 w.2.length) :
    load (stores mem writes) a n = load mem a n := by
  induction writes generalizing mem with
  | nil => rfl
  | cons w rest ih =>
      have hrest := ih (store mem w.1 w.2)
        fun w' hw' => h w' (List.mem_cons_of_mem w hw')
      exact hrest.trans (load_store_clear mem (h w List.mem_cons_self))

theorem load_stores_mem (mem : Nat -> value) {writes : List (Nat × List value)}
    (hclear : writes.Pairwise fun w w' => Clear w.1 w.2.length w'.1 w'.2.length)
    {w : Nat × List value} (hw : w ∈ writes) :
    load (stores mem writes) w.1 w.2.length = w.2 := by
  induction writes generalizing mem with
  | nil => cases hw
  | cons first rest ih =>
      rw [List.pairwise_cons] at hclear
      rcases List.mem_cons.mp hw with rfl | hrest
      · exact (load_stores_clear _ hclear.left).trans (load_store mem w.1 w.2)
      · exact ih (store mem first.1 first.2) hclear.right hrest

theorem stores_of_ge (mem : Nat -> value) {writes : List (Nat × List value)}
    {k : Nat} (h : forall w, w ∈ writes -> w.1 + w.2.length ≤ k) :
    stores mem writes k = mem k := by
  induction writes generalizing mem with
  | nil => rfl
  | cons w rest ih =>
      have hrest := ih (store mem w.1 w.2)
        fun w' hw' => h w' (List.mem_cons_of_mem w hw')
      exact hrest.trans (store_of_ge mem w.2 (h w List.mem_cons_self))

end Ranges
end Foundation
end FrankaKistar
