import Mathlib.Data.List.FinRange
import Mathlib.Logic.Function.Basic

/-!
# Consecutive blocks of a memory

A memory is divided into blocks of one width, and a loop copies one block after
another.  The index of a cell determines its block and its place in it, so that
blocks never overlap; a block fits when the blocks up to it do.
-/

namespace FrankaKistar
namespace Foundation
namespace Blocks

/-- The index of cell `i` of block `k`, for blocks of width `w`. -/
def index (w k : Nat) (i : Fin w) : Nat := k * w + i.val

variable {w : Nat}

theorem index_zero (i : Fin w) : index w 0 i = i.val := by
  rw [index, Nat.zero_mul, Nat.zero_add]

theorem index_div (k : Nat) (i : Fin w) : index w k i / w = k := by
  have hw : 0 < w := Nat.lt_of_le_of_lt (Nat.zero_le _) i.isLt
  rw [index, Nat.mul_comm, Nat.mul_add_div hw, Nat.div_eq_of_lt i.isLt]
  exact Nat.add_zero k

theorem index_mod (k : Nat) (i : Fin w) : index w k i % w = i.val := by
  rw [index, Nat.mul_comm, Nat.mul_add_mod, Nat.mod_eq_of_lt i.isLt]

theorem index_inj {k k' : Nat} {i i' : Fin w}
    (h : index w k i = index w k' i') : k = k' ∧ i = i' := by
  refine ⟨?_, Fin.ext ?_⟩
  · rw [<- index_div k i, h, index_div]
  · rw [<- index_mod k i, h, index_mod]

theorem index_lt {k m : Nat} (hk : k < m) (i : Fin w) :
    index w k i < m * w := by
  have hi := i.isLt
  calc
    index w k i < k * w + w := Nat.add_lt_add_left hi _
    _ = (k + 1) * w := (Nat.succ_mul k w).symm
    _ ≤ m * w := Nat.mul_le_mul_right w hk

/-!
## Storing blocks
-/

variable {value : Type}

def storeAll (mem : Nat -> value) (stores : List (Nat × value)) :
    Nat -> value :=
  stores.foldl (fun mem store => Function.update mem store.1 store.2) mem

/-- The stores of the loop that writes block `k`. -/
def blockStores (k : Nat) (block : Fin w -> value) : List (Nat × value) :=
  (List.finRange w).map fun i => (index w k i, block i)

def storeBlock (mem : Nat -> value) (k : Nat) (block : Fin w -> value) :
    Nat -> value :=
  storeAll mem (blockStores k block)

def loadBlock (w : Nat) (mem : Nat -> value) (k : Nat) : Fin w -> value :=
  fun i => mem (index w k i)

theorem storeAll_of_notMem (mem : Nat -> value) {stores : List (Nat × value)}
    {a : Nat} (h : a ∉ stores.map Prod.fst) : storeAll mem stores a = mem a := by
  induction stores generalizing mem with
  | nil => rfl
  | cons store rest ih =>
      rw [List.map_cons, List.mem_cons, not_or] at h
      have hrest := ih (Function.update mem store.1 store.2) h.right
      exact hrest.trans (Function.update_of_ne h.left _ _)

theorem storeAll_of_mem (mem : Nat -> value) {stores : List (Nat × value)}
    (hnodup : (stores.map Prod.fst).Nodup) {a : Nat} {x : value}
    (h : (a, x) ∈ stores) : storeAll mem stores a = x := by
  induction stores generalizing mem with
  | nil => cases h
  | cons store rest ih =>
      rw [List.map_cons, List.nodup_cons] at hnodup
      rcases List.mem_cons.mp h with hhead | htail
      · subst hhead
        exact (storeAll_of_notMem _ hnodup.left).trans
          (Function.update_self _ _ _)
      · exact ih _ hnodup.right htail

theorem mem_blockStores_fst {k a : Nat} {block : Fin w -> value} :
    a ∈ (blockStores k block).map Prod.fst <-> exists i, index w k i = a := by
  simp [blockStores]

theorem blockStores_nodup (k : Nat) (block : Fin w -> value) :
    ((blockStores k block).map Prod.fst).Nodup := by
  rw [blockStores, List.map_map]
  apply (List.nodup_finRange w).map
  intro i i' h
  exact (index_inj h).right

theorem storeBlock_same (mem : Nat -> value) (k : Nat) (block : Fin w -> value)
    (i : Fin w) : storeBlock mem k block (index w k i) = block i := by
  apply storeAll_of_mem mem (blockStores_nodup k block)
  exact List.mem_map.mpr ⟨i, List.mem_finRange i, rfl⟩

theorem storeBlock_of_ne (mem : Nat -> value) {k k' : Nat} (h : k' ≠ k)
    (block : Fin w -> value) (i : Fin w) :
    storeBlock mem k block (index w k' i) = mem (index w k' i) := by
  apply storeAll_of_notMem
  intro hmem
  rcases mem_blockStores_fst.mp hmem with ⟨i', hi'⟩
  exact h (index_inj hi').left.symm

theorem loadBlock_storeBlock_same (mem : Nat -> value) (k : Nat)
    (block : Fin w -> value) : loadBlock w (storeBlock mem k block) k = block := by
  funext i
  exact storeBlock_same mem k block i

theorem loadBlock_storeBlock_of_ne (mem : Nat -> value) {k k' : Nat}
    (h : k' ≠ k) (block : Fin w -> value) :
    loadBlock w (storeBlock mem k block) k' = loadBlock w mem k' := by
  funext i
  exact storeBlock_of_ne mem h block i

end Blocks
end Foundation
end FrankaKistar
