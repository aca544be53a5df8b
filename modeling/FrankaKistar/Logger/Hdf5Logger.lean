import FrankaKistar.Foundation.PaddedRows
import FrankaKistar.SharedMemory.Layout
import Mathlib.Data.UInt
import Mathlib.Logic.Function.Basic

/-!
# The HDF5 logger of the hand

`Hdf5HandLogger` keeps one dataset for each logged field, and every `append`
extends and writes all of them in turn.  A dataset is a row array; the tail
dimensions are in the type of a row.  Any call of HDF5 may refuse, and a call
that refuses changes nothing.
-/

namespace FrankaKistar
namespace Logger

open Foundation

abbrev fingerNum : Nat := 4
abbrev cartesianDOF : Nat := 3
abbrev quaternionDOF : Nat := 4

/-!
## Datasets
-/

structure Dataset (Row : Type) where
  fill : Row
  rows : List Row

/-- The rows of the file space that a write goes to. -/
inductive Selection where
  | all
  | hyperslab (start : UInt64)

/-- What the calls of one `append_dataset_c` do: each succeeds or refuses. -/
structure DatasetCalls where
  isValid : Bool
  setExtent : Bool
  getSpace : Bool
  selectHyperslab : Bool
  createSimple : Bool
  write : Bool

namespace Dataset

variable {Row : Type}

/-- `H5Dset_extent` cuts the rows off or adds fill values. -/
def setExtent (rows : UInt64) (d : Dataset Row) : Dataset Row :=
  { d with
    rows := d.rows.take rows.toNat ++
      List.replicate (rows.toNat - d.rows.length) d.fill }

def selected (d : Dataset Row) : Selection -> List Nat
  | .all => List.range d.rows.length
  | .hyperslab start => [start.toNat]

/-- `H5Dwrite` of one row; the selection has to be one row as well. -/
def write (selection : Selection) (data : Row) (d : Dataset Row) :
    Dataset Row :=
  match d.selected selection with
  | [row] => { d with rows := d.rows.set row data }
  | _ => d

/-- `append_dataset_c` -/
def append (calls : DatasetCalls) (data : Row) (row : UInt64)
    (d : Dataset Row) : Dataset Row :=
  if calls.isValid = false then d
  else if calls.setExtent = false then d
  else
    let d := d.setExtent (row + 1)
    let fileSpace := if calls.getSpace then some Selection.all else none
    let fileSpace := fileSpace.map fun space =>
      if calls.selectHyperslab then .hyperslab row else space
    let memSpace := calls.createSimple
    match fileSpace, memSpace, calls.write with
    | some selection, true, true => d.write selection data
    | _, _, _ => d

@[simp]
theorem setExtent_fill (rows : UInt64) (d : Dataset Row) :
    (d.setExtent rows).fill = d.fill := rfl

@[simp]
theorem write_fill (selection : Selection) (data : Row) (d : Dataset Row) :
    (d.write selection data).fill = d.fill := by
  unfold write
  split <;> rfl

theorem append_fill (calls : DatasetCalls) (data : Row) (row : UInt64)
    (d : Dataset Row) : (d.append calls data row).fill = d.fill := by
  unfold append
  split
  · rfl
  · split
    · rfl
    · simp only
      split
      · rw [write_fill, setExtent_fill]
      · rfl

section OneAppend

variable {d : Dataset Row} {row : UInt64}

theorem setExtent_rows (hlength : d.rows.length ≤ row.toNat)
    (hrow : row.toNat + 1 < 2 ^ 64) :
    (d.setExtent (row + 1)).rows = padTo d.fill row.toNat d.rows ++ [d.fill] := by
  have hextent : (row + 1).toNat = row.toNat + 1 := by
    rw [UInt64.toNat_add]
    exact Nat.mod_eq_of_lt hrow
  unfold setExtent padTo
  rw [hextent, List.take_of_length_le (Nat.le_succ_of_le hlength),
    Nat.sub_add_comm hlength, List.replicate_succ', List.append_assoc]

theorem write_hyperslab (data : Row) {rows : List Row}
    (hrows : d.rows = rows ++ [d.fill]) (hlength : rows.length = row.toNat) :
    (d.write (.hyperslab row) data).rows = rows ++ [data] := by
  show d.rows.set row.toNat data = rows ++ [data]
  rw [hrows, ← hlength, List.set_append_right _ _ (Nat.le_refl _), Nat.sub_self]
  rfl

theorem write_all (data : Row) {rows : List Row}
    (hrows : d.rows = rows ++ [d.fill]) :
    (d.write .all data).rows = rows ++ [d.fill] ∨
      (d.write .all data).rows = rows ++ [data] := by
  cases rows with
  | nil =>
      right
      simp [write, selected, hrows, List.range_succ]
  | cons first rest =>
      left
      have hlength : d.rows.length = rest.length + 2 := by
        simp [hrows]
      simp only [write, selected, hlength]
      split
      · rename_i only hrange
        have hone := congrArg List.length hrange
        simp at hone
      · exact hrows

theorem append_appendAt (calls : DatasetCalls) (data : Row)
    (hlength : d.rows.length ≤ row.toNat) (hrow : row.toNat + 1 < 2 ^ 64) :
    AppendAt d.fill data row.toNat d.rows (d.append calls data row).rows := by
  have hextended := setExtent_rows hlength hrow
  unfold append
  split
  · exact AppendAt.refused
  · split
    · exact AppendAt.refused
    · simp only
      split
      · rename_i selection hspace _ _
        cases hget : calls.getSpace with
        | false => simp [hget] at hspace
        | true =>
            cases hselect : calls.selectHyperslab with
            | false =>
                simp only [hget, hselect, if_true, Option.map_some,
                  Bool.false_eq_true, if_false, Option.some.injEq] at hspace
                rw [← hspace]
                rcases write_all data hextended with hfilled | hwritten
                · rw [hfilled]
                  exact AppendAt.filled
                · rw [hwritten]
                  exact AppendAt.written
            | true =>
                simp only [hget, hselect, if_true, Option.map_some,
                  Option.some.injEq] at hspace
                rw [← hspace,
                  write_hyperslab data hextended (padTo_length _ hlength)]
                exact AppendAt.written
      · rw [hextended]
        exact AppendAt.filled

end OneAppend

end Dataset

/-!
## Columns
-/

/-- The fields of `SHMmsgs` that are logged. -/
structure Sample extends SHMmsgs where
  tipPos : Fin handNum -> Fin fingerNum -> Fin cartesianDOF -> ExactDouble
  tipQuat : Fin handNum -> Fin fingerNum -> Fin quaternionDOF -> ExactDouble

structure Timeval where
  tvSec : Int64
  tvUsec : Int64

def Timeval.nowNs (tv : Timeval) : UInt64 :=
  tv.tvSec.toUInt64 * 1000000000 + tv.tvUsec.toUInt64 * 1000

inductive Column where
  | timestampNs
  | jPos
  | jTar
  | jCur
  | jKin
  | jTac
  | tipPos
  | tipQuat
  | armJPos
  | armJTar
  | armJVel
  | armCPos
  | armJTq
deriving DecidableEq

namespace Column

/-- One row of a dataset, of the element type and the tail dimensions that it
is created with. -/
def Row : Column -> Type
  | timestampNs => UInt64
  | jPos | jTar | jCur => Fin handNum -> Fin handDOF -> Int16
  | jKin => Fin handNum -> Fin kinestheticSensorNum ->
      Fin kinestheticSensorDOF -> Int16
  | jTac => Fin handNum -> Fin tactileSensorNum -> Int16
  | tipPos => Fin handNum -> Fin fingerNum -> Fin cartesianDOF -> ExactDouble
  | tipQuat => Fin handNum -> Fin fingerNum -> Fin quaternionDOF -> ExactDouble
  | armJPos | armJTar | armJVel | armJTq => Joints ExactDouble
  | armCPos => Fin 16 -> ExactDouble

/-- The fill value of HDF5 is zero. -/
def fill : (c : Column) -> c.Row
  | timestampNs => (0 : UInt64)
  | jPos | jTar | jCur => fun _ _ => (0 : Int16)
  | jKin => fun _ _ _ => (0 : Int16)
  | jTac => fun _ _ => (0 : Int16)
  | tipPos => fun _ _ _ => ExactDouble.finite 0
  | tipQuat => fun _ _ _ => ExactDouble.finite 0
  | armJPos | armJTar | armJVel | armJTq => zeroJoints
  | armCPos => fun _ => ExactDouble.finite 0

/-- The field that an `append` writes to a dataset. -/
def data (sample : Sample) (nowNs : UInt64) : (c : Column) -> c.Row
  | timestampNs => nowNs
  | jPos => sample.jPos
  | jTar => sample.jTar
  | jCur => sample.jCur
  | jKin => sample.jKin
  | jTac => sample.jTac
  | tipPos => sample.tipPos
  | tipQuat => sample.tipQuat
  | armJPos => sample.armJPos
  | armJTar => sample.armJTar
  | armJVel => sample.armJVel
  | armCPos => sample.armCPos
  | armJTq => sample.armJTq

def created : List Column :=
  [timestampNs, jPos, jTar, jCur, jKin, jTac, tipPos, tipQuat, armJPos,
    armJTar, armJVel, armCPos, armJTq]

/-- The datasets in the order in which an `append` goes through them. -/
def appended : List Column :=
  [jPos, jTar, jCur, jKin, jTac, tipPos, tipQuat, armJPos, armJTar, armJVel,
    armCPos, armJTq, timestampNs]

theorem mem_appended (c : Column) : c ∈ appended := by
  cases c <;> decide

theorem nodup_appended : appended.Nodup := by
  decide

end Column

/-!
## The logger
-/

/-- `Hdf5HandLogger::Impl` -/
structure Impl where
  datasets : (c : Column) -> Dataset c.Row
  rowCount : UInt64
  valid : Bool

/-- What one `append` gets: the sample, the time, and what HDF5 does. -/
structure AppendInput where
  sample : Sample
  tv : Timeval
  calls : Column -> DatasetCalls

/-- The field of the sample of an `append`. -/
def AppendInput.row (input : AppendInput) (c : Column) : c.Row :=
  c.data input.sample input.tv.nowNs

namespace Impl

def create (fileValid : Bool) (created : Column -> Bool) : Impl where
  datasets := fun c => { fill := c.fill, rows := [] }
  rowCount := 0
  valid := fileValid && Column.created.all created

def appendColumn (input : AppendInput) (impl : Impl) (c : Column) : Impl :=
  { impl with
    datasets := Function.update impl.datasets c
      ((impl.datasets c).append (input.calls c) (input.row c) impl.rowCount) }

def append (impl : Impl) (input : AppendInput) : Impl :=
  if impl.valid = false then impl
  else
    let impl := Column.appended.foldl (appendColumn input) impl
    { impl with rowCount := impl.rowCount + 1 }

def appends (impl : Impl) (inputs : List AppendInput) : Impl :=
  inputs.foldl append impl

theorem appends_concat (impl : Impl) (inputs : List AppendInput)
    (input : AppendInput) :
    impl.appends (inputs ++ [input]) = (impl.appends inputs).append input := by
  unfold appends
  rw [List.foldl_append]
  rfl

/-!
## One append
-/

section OneAppend

variable (input : AppendInput) (impl : Impl)

theorem foldl_appendColumn_rowCount (columns : List Column) :
    (columns.foldl (appendColumn input) impl).rowCount = impl.rowCount := by
  induction columns generalizing impl with
  | nil => rfl
  | cons c columns ih => exact ih (appendColumn input impl c)

theorem foldl_appendColumn_valid (columns : List Column) :
    (columns.foldl (appendColumn input) impl).valid = impl.valid := by
  induction columns generalizing impl with
  | nil => rfl
  | cons c columns ih => exact ih (appendColumn input impl c)

theorem foldl_appendColumn_of_not_mem {columns : List Column} {c : Column}
    (h : c ∉ columns) :
    (columns.foldl (appendColumn input) impl).datasets c = impl.datasets c := by
  induction columns generalizing impl with
  | nil => rfl
  | cons first columns ih =>
      rw [List.foldl_cons, ih _ (List.not_mem_of_not_mem_cons h)]
      exact Function.update_of_ne (List.ne_of_not_mem_cons h) _ _

theorem foldl_appendColumn_of_mem {columns : List Column} {c : Column}
    (hnodup : columns.Nodup) (h : c ∈ columns) :
    (columns.foldl (appendColumn input) impl).datasets c =
      (impl.datasets c).append (input.calls c) (input.row c) impl.rowCount := by
  induction columns generalizing impl with
  | nil => cases h
  | cons first columns ih =>
      obtain ⟨hfirst, hnodup⟩ := List.nodup_cons.mp hnodup
      rw [List.foldl_cons]
      rcases List.mem_cons.mp h with rfl | hrest
      · rw [foldl_appendColumn_of_not_mem _ _ hfirst]
        exact Function.update_self _ _ _
      · have hne : c ≠ first := by
          rintro rfl
          exact hfirst hrest
        have hkept : (appendColumn input impl first).datasets c =
            impl.datasets c := Function.update_of_ne hne _ _
        rw [ih _ hnodup hrest, hkept]
        rfl

theorem append_of_not_valid (h : impl.valid = false) :
    impl.append input = impl := by
  unfold append
  exact if_pos h

theorem append_valid : (impl.append input).valid = impl.valid := by
  unfold append
  split
  · rfl
  · exact foldl_appendColumn_valid input impl _

theorem append_rowCount (h : impl.valid = true) :
    (impl.append input).rowCount = impl.rowCount + 1 := by
  unfold append
  rw [if_neg (by rw [h]; exact Bool.noConfusion)]
  exact congrArg (· + 1) (foldl_appendColumn_rowCount input impl _)

theorem append_datasets (h : impl.valid = true) (c : Column) :
    (impl.append input).datasets c =
      (impl.datasets c).append (input.calls c) (input.row c) impl.rowCount := by
  unfold append
  rw [if_neg (by rw [h]; exact Bool.noConfusion)]
  exact foldl_appendColumn_of_mem input impl Column.nodup_appended
    (Column.mem_appended c)

end OneAppend

end Impl

end Logger
end FrankaKistar
