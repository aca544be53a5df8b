import FrankaKistar.Logger.Hdf5Logger

/-!
# Alignment of the log

The datasets share one row count and fail one by one.  Whatever fails in a run
of appends, the rows of each dataset stand beside the samples, and a row that
is there is kept.
-/

namespace FrankaKistar
namespace Logger
namespace Impl

open Foundation

/-!
## What a run keeps
-/

/-- The logger after some appends: the row count is their number, and the rows
of each dataset stand beside their samples. -/
structure Logged (inputs : List AppendInput) (impl : Impl) : Prop where
  rowCount : impl.valid = true -> impl.rowCount.toNat = inputs.length
  fill : forall c, (impl.datasets c).fill = c.fill
  aligned : forall c,
    Aligned c.fill (inputs.map fun input => input.row c) (impl.datasets c).rows

theorem logged_create (fileValid : Bool) (created : Column -> Bool) :
    Logged [] (create fileValid created) where
  rowCount := fun _ => rfl
  fill := fun _ => rfl
  aligned := fun _ => Aligned.nil

section Step

variable {inputs : List AppendInput} {impl : Impl}

theorem Logged.appendAt (hlogged : Logged inputs impl)
    (hlength : inputs.length + 1 < 2 ^ 64) (input : AppendInput) (c : Column) :
    AppendAt c.fill (input.row c) inputs.length (impl.datasets c).rows
      ((impl.append input).datasets c).rows := by
  cases hvalid : impl.valid with
  | false =>
      rw [append_of_not_valid input impl hvalid]
      exact AppendAt.refused
  | true =>
      have hcount := hlogged.rowCount hvalid
      have hrows : (impl.datasets c).rows.length ≤ impl.rowCount.toNat := by
        rw [hcount]
        simpa using (hlogged.aligned c).length_le
      rw [append_datasets input impl hvalid, ← hlogged.fill c, ← hcount]
      refine Dataset.append_appendAt _ _ hrows ?_
      rw [hcount]
      exact hlength

theorem Logged.append (hlogged : Logged inputs impl)
    (hlength : inputs.length + 1 < 2 ^ 64) (input : AppendInput) :
    Logged (inputs ++ [input]) (impl.append input) where
  rowCount := by
    intro hvalid
    rw [append_valid] at hvalid
    rw [append_rowCount input impl hvalid, UInt64.toNat_add,
      hlogged.rowCount hvalid, List.length_append]
    exact Nat.mod_eq_of_lt hlength
  fill := by
    intro c
    cases hvalid : impl.valid with
    | false =>
        rw [append_of_not_valid input impl hvalid]
        exact hlogged.fill c
    | true =>
        rw [append_datasets input impl hvalid, Dataset.append_fill]
        exact hlogged.fill c
  aligned := by
    intro c
    have happend := hlogged.appendAt hlength input c
    rw [List.map_append]
    refine AppendAt.aligned ?_ (hlogged.aligned c)
    rw [List.length_map]
    exact happend

end Step

theorem logged_appends (fileValid : Bool) (created : Column -> Bool)
    {inputs : List AppendInput} (hlength : inputs.length < 2 ^ 64) :
    Logged inputs ((create fileValid created).appends inputs) := by
  induction inputs using List.reverseRecOn with
  | nil => exact logged_create fileValid created
  | append_singleton inputs input ih =>
      rw [List.length_append] at hlength
      rw [appends_concat]
      exact (ih (Nat.lt_of_succ_lt hlength)).append hlength input

/-- Row `k` of each dataset is the fill value or the field of sample `k`. -/
def RowsOfSamples (inputs : List AppendInput) (impl : Impl) : Prop :=
  forall (c : Column) (k : Nat) (row : c.Row),
    (impl.datasets c).rows[k]? = some row ->
      row = c.fill ∨ exists input, inputs[k]? = some input ∧
        row = c.data input.sample input.tv.nowNs

/-- No append of the run shrinks a dataset or changes a row. -/
def AppendOnly (start : Impl) (inputs : List AppendInput) : Prop :=
  forall (earlier : List AppendInput) (input : AppendInput),
    earlier ++ [input] <+: inputs -> forall c : Column,
      ((start.appends earlier).datasets c).rows <+:
        ((start.appends (earlier ++ [input])).datasets c).rows

/-- The log is aligned until the row count is at its end. -/
theorem appends_aligned (fileValid : Bool) (created : Column -> Bool)
    {inputs : List AppendInput} (hlength : inputs.length < 2 ^ 64) :
    RowsOfSamples inputs ((create fileValid created).appends inputs) ∧
      AppendOnly (create fileValid created) inputs := by
  constructor
  · intro c k row hrow
    have hlogged := logged_appends fileValid created hlength
    rcases (hlogged.aligned c).row_of hrow with hfill | hsample
    · exact Or.inl hfill
    · rw [List.getElem?_map, Option.map_eq_some_iff] at hsample
      obtain ⟨input, hinput, rfl⟩ := hsample
      exact Or.inr ⟨input, hinput, rfl⟩
  · intro earlier input hprefix c
    have hnext : earlier.length + 1 < 2 ^ 64 := by
      have hle := hprefix.length_le
      rw [List.length_append] at hle
      exact Nat.lt_of_le_of_lt hle hlength
    have hlogged := logged_appends fileValid created
      (Nat.lt_of_succ_lt hnext)
    rw [appends_concat]
    exact (hlogged.appendAt hnext input c).keeps_rows

def succeed : DatasetCalls where
  isValid := true
  setExtent := true
  getSpace := true
  selectHyperslab := true
  createSimple := true
  write := true

/-- The samples are zero and one second apart; `calls` is the same for all
datasets. -/
def inputAt (second : Int64) (calls : DatasetCalls) : AppendInput where
  sample := { SHMmsgs.zero with
    tipPos := fun _ _ _ => .finite 0
    tipQuat := fun _ _ _ => .finite 0 }
  tv := { tvSec := second, tvUsec := 0 }
  calls := fun _ => calls

/-- The extent of the second row is refused, and the third fills it in. -/
def gap : List AppendInput :=
  [inputAt 1 succeed, inputAt 2 { succeed with setExtent := false },
    inputAt 3 succeed]

theorem appends_aligned_gap :
    (((create true fun _ => true).appends gap).datasets .timestampNs).rows =
        [(1000000000 : UInt64), (0 : UInt64), (3000000000 : UInt64)] ∧
      RowsOfSamples gap ((create true fun _ => true).appends gap) ∧
      AppendOnly (create true fun _ => true) gap :=
  ⟨rfl, appends_aligned true (fun _ => true) (by decide)⟩

/-!
## The end of the row count

The append of row `2 ^ 64 - 1` asks for the extent 0.
-/

def refuse : DatasetCalls where
  isValid := false
  setExtent := false
  getSpace := false
  selectHyperslab := false
  createSimple := false
  write := false

theorem appends_refuse (second : Int64) (n : Nat) {impl : Impl}
    (hvalid : impl.valid = true) (c : Column) :
    (impl.appends (List.replicate n (inputAt second refuse))).valid = true ∧
      (impl.appends (List.replicate n (inputAt second refuse))).rowCount =
        impl.rowCount + UInt64.ofNat n ∧
      (impl.appends (List.replicate n (inputAt second refuse))).datasets c =
        impl.datasets c := by
  induction n with
  | zero => exact ⟨hvalid, (UInt64.add_zero _).symm, rfl⟩
  | succ n ih =>
      obtain ⟨hafter, hcount, hdataset⟩ := ih
      rw [List.replicate_succ', appends_concat]
      refine ⟨?_, ?_, ?_⟩
      · rw [append_valid]
        exact hafter
      · rw [append_rowCount _ _ hafter, hcount, UInt64.ofNat_add,
          UInt64.add_assoc]
        rfl
      · rw [append_datasets _ _ hafter, ← hdataset]
        rfl

theorem append_last_rows {Row : Type} (data : Row) {row : UInt64}
    (hrow : row + 1 = 0) (d : Dataset Row) :
    (d.append succeed data row).rows = [] := by
  have hempty : (d.setExtent (row + 1)).rows = [] := by
    simp [hrow, Dataset.setExtent]
  show ((d.setExtent (row + 1)).rows.set row.toNat data) = []
  rw [hempty]
  rfl

/-- One row, and `n` appends that are refused. -/
def oneRow (n : Nat) : List AppendInput :=
  inputAt 1 succeed :: List.replicate n (inputAt 2 refuse)

theorem appends_oneRow (n : Nat) :
    ((create true fun _ => true).appends (oneRow n)).valid = true ∧
      ((create true fun _ => true).appends (oneRow n)).rowCount =
        1 + UInt64.ofNat n ∧
      (((create true fun _ => true).appends (oneRow n)).datasets
        .timestampNs).rows = [(1000000000 : UInt64)] := by
  have hfirst : ((create true fun _ => true).append (inputAt 1 succeed)).valid =
      true := rfl
  obtain ⟨hvalid, hcount, hdataset⟩ :=
    appends_refuse 2 n hfirst .timestampNs
  exact ⟨hvalid, hcount, congrArg Dataset.rows hdataset⟩

/-- The next append after `2 ^ 64 - 1` others takes the row away. -/
theorem appends_oneRow_last {n : Nat} (hn : n + 2 = 2 ^ 64) :
    (((create true fun _ => true).appends
      (oneRow n ++ [inputAt 3 succeed])).datasets .timestampNs).rows = [] := by
  obtain ⟨hvalid, hcount, _⟩ := appends_oneRow n
  have hlast : (1 + UInt64.ofNat n) + 1 = 0 := by
    have hsum : (1 + UInt64.ofNat n) + 1 = UInt64.ofNat (n + 2) := by
      rw [UInt64.ofNat_add, UInt64.add_comm 1, UInt64.add_assoc]
      rfl
    rw [hsum, hn]
    rfl
  rw [appends_concat, append_datasets _ _ hvalid, hcount]
  exact append_last_rows _ hlast _

theorem not_all_aligned :
    ¬ forall (fileValid : Bool) (created : Column -> Bool)
        (inputs : List AppendInput),
      RowsOfSamples inputs ((create fileValid created).appends inputs) ∧
        AppendOnly (create fileValid created) inputs := by
  intro hall
  obtain ⟨n, hn⟩ : exists n, n + 2 = 2 ^ 64 :=
    ⟨2 ^ 64 - 2, Nat.sub_add_cancel (by decide)⟩
  have honly := (hall true (fun _ => true) (oneRow n ++ [inputAt 3 succeed])).2
  have hprefix := honly (oneRow n) (inputAt 3 succeed) List.prefix_rfl
    .timestampNs
  obtain ⟨_, _, hbefore⟩ := appends_oneRow n
  rw [hbefore, appends_oneRow_last hn] at hprefix
  cases List.prefix_nil.mp hprefix

end Impl
end Logger
end FrankaKistar
