import Mathlib.Data.List.Infix

/-!
# Rows beside samples

A column that gets one row for each sample, where a failed append leaves the
row out and a later one makes up for it with fill values.  Row `k` then belongs
to sample `k` or to none.
-/

namespace FrankaKistar
namespace Foundation

variable {α : Type*}

/-- The rows with the fill value up to row `n`. -/
def padTo (fill : α) (n : Nat) (rows : List α) : List α :=
  rows ++ List.replicate (n - rows.length) fill

/-- What the append of row `n` may make of a column. -/
inductive AppendAt (fill row : α) (n : Nat) (rows : List α) : List α -> Prop
  | refused : AppendAt fill row n rows rows
  | filled : AppendAt fill row n rows (padTo fill n rows ++ [fill])
  | written : AppendAt fill row n rows (padTo fill n rows ++ [row])

/-- Row `k` is the fill value or sample `k`. -/
structure Aligned (fill : α) (samples rows : List α) : Prop where
  length_le : rows.length ≤ samples.length
  row_of : forall {k : Nat} {row : α}, rows[k]? = some row ->
    row = fill ∨ samples[k]? = some row

theorem padTo_length (fill : α) {n : Nat} {rows : List α}
    (h : rows.length ≤ n) : (padTo fill n rows).length = n := by
  unfold padTo
  rw [List.length_append, List.length_replicate]
  exact Nat.add_sub_cancel' h

theorem prefix_padTo (fill : α) (n : Nat) (rows : List α) :
    rows <+: padTo fill n rows :=
  List.prefix_append _ _

theorem padTo_row {fill : α} {n : Nat} {rows : List α} {k : Nat} {row : α}
    (h : (padTo fill n rows)[k]? = some row) :
    row = fill ∨ rows[k]? = some row := by
  unfold padTo at h
  rcases Nat.lt_or_ge k rows.length with hlt | hge
  · rw [List.getElem?_append_left hlt] at h
    exact Or.inr h
  · rw [List.getElem?_append_right hge] at h
    have hmem := List.mem_of_getElem? h
    exact Or.inl (List.eq_of_mem_replicate hmem)

theorem AppendAt.keeps_rows {fill row : α} {n : Nat} {rows rows' : List α}
    (h : AppendAt fill row n rows rows') : rows <+: rows' := by
  cases h with
  | refused => exact List.prefix_rfl
  | filled =>
      exact (prefix_padTo fill n rows).trans (List.prefix_append _ _)
  | written =>
      exact (prefix_padTo fill n rows).trans (List.prefix_append _ _)

section Alignment

variable {fill row : α} {samples rows : List α}

theorem Aligned.nil : Aligned fill samples [] where
  length_le := Nat.zero_le _
  row_of := by
    intro k row h
    cases h

theorem Aligned.skip (haligned : Aligned fill samples rows) :
    Aligned fill (samples ++ [row]) rows where
  length_le := by
    rw [List.length_append]
    exact Nat.le_add_right_of_le haligned.length_le
  row_of := by
    intro k value h
    rcases haligned.row_of h with hfill | hsample
    · exact Or.inl hfill
    · have hlt := (List.getElem?_eq_some_iff.mp hsample).1
      rw [List.getElem?_append_left hlt]
      exact Or.inr hsample

theorem Aligned.padTo (haligned : Aligned fill samples rows) :
    Aligned fill samples (padTo fill samples.length rows) where
  length_le := (padTo_length fill haligned.length_le).le
  row_of := by
    intro k value h
    rcases padTo_row h with hfill | hrow
    · exact Or.inl hfill
    · exact haligned.row_of hrow

theorem Aligned.concat {last : α} (haligned : Aligned fill samples rows)
    (hlength : rows.length = samples.length) (hlast : last = fill ∨ last = row) :
    Aligned fill (samples ++ [row]) (rows ++ [last]) where
  length_le := by
    rw [List.length_append, List.length_append, hlength]
    exact Nat.le_refl _
  row_of := by
    intro k value h
    rcases Nat.lt_or_ge k rows.length with hlt | hge
    · rw [List.getElem?_append_left hlt] at h
      exact (Aligned.skip haligned).row_of h
    · rw [List.getElem?_append_right hge] at h
      obtain ⟨hzero, rfl⟩ : k - rows.length = 0 ∧ last = value := by
        simpa [List.getElem?_singleton] using h
      rcases hlast with rfl | rfl
      · exact Or.inl rfl
      · have hk : k = samples.length := by omega
        rw [hk, List.getElem?_concat_length]
        exact Or.inr rfl

theorem AppendAt.aligned {rows' : List α}
    (h : AppendAt fill row samples.length rows rows')
    (haligned : Aligned fill samples rows) :
    Aligned fill (samples ++ [row]) rows' := by
  have hlength := padTo_length fill haligned.length_le
  cases h with
  | refused => exact haligned.skip
  | filled => exact haligned.padTo.concat hlength (Or.inl rfl)
  | written => exact haligned.padTo.concat hlength (Or.inr rfl)

end Alignment

end Foundation
end FrankaKistar
