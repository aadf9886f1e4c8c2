import MatrixProgram.Proofs.Kernel.Bounds
import MatrixProgram.Proofs.Kernel.Slices

/-!
# Primitives on slices of the storage

Dense values are read by position, and a position outside of them reads as zero, so a primitive
on dense values cannot index out of range.  `Primitive.sliced` is each primitive once more, on the
list of all elements of its destination: rows of sources and of the window are slices, tables are
indexed by row, factors of a product are first copied to lists of their own, and whatever is out
of range has no result.

If the window fits, no primitive is ever out of range, and it answers and changes the same as on
dense values, `Primitive.sliced_eq`.  Its conditions are what this takes: they make the sources as
wide as the window, and the rows that are asked for rows of the sources.  With the frame of a
primitive and with `Primitive.eq_of_run_eq_error` this is `Primitive.safe_on_buffers`, for windows
whose ends are exact as machine words.  Where sums wrap, the check lets other windows through, and
their rows are out of range, `bigWindow_out_of_range`.
-/

namespace MatrixProgram

namespace Kernel

open Slices

variable {rows cols : Nat}

/-! ## Rows of sources -/

/-- Rows of a source added to a row, one after the other. -/
def addRowsFrom (src : View) (first past : Nat) : Edit := fun old =>
  (List.range' first (past - first)).foldlM (fun total row => do
    zipInto (· + ·) (← src.rowSlice? row) total) old

theorem addRowsFrom_tabulate {src : View} {first past : Nat} (hPast : past ≤ src.numRows)
    (old : Nat → Float32) :
    addRowsFrom src first past (tabulate src.numCols old) =
      some (tabulate src.numCols fun col => addRange src col first past (old col)) := by
  -- After each row the totals are those of the rows so far.
  refine foldlM_range' (fun count => tabulate src.numCols fun col =>
    (List.range' first count).foldl (fun total row => total + src.get row col) (old col)) ?_
  intro i hLt
  rw [src.rowSlice?_eq (by omega)]
  refine (zipInto_tabulate _ _ _).trans (congrArg some (tabulate_congr fun col _ => ?_))
  rw [List.range'_1_concat, List.foldl_append]
  rfl

/-- The sums of the columns of a view. -/
def columnSums? (src : View) : Option (List Float32) :=
  addRowsFrom src 0 src.numRows (List.replicate src.numCols 0)

theorem columnSums?_eq (src : View) :
    columnSums? src = some (tabulate src.numCols (columnSum src)) := by
  have hStart : List.replicate src.numCols (0 : Float32) = tabulate src.numCols fun _ => 0 :=
    eq_tabulate (by simp) fun i hLt => by simp [hLt]
  rw [columnSums?, hStart, addRowsFrom_tabulate (Nat.le_refl _)]
  refine congrArg some (tabulate_congr fun col _ => ?_)
  rw [addRange, columnSum, Nat.sub_zero, List.range_eq_range']

/-! ## Factors of products -/

/-- Replace the element at an index, which must be in range. -/
def set? (data : List Float32) (i : Nat) (x : Float32) : Option (List Float32) :=
  if i < data.length then some (data.set i x) else none

theorem set?_rowMajor (f : Nat → Nat → Float32) {row col : Nat} (hRow : row < rows)
    (hCol : col < cols) (x : Float32) :
    set? (rowMajor rows cols f) (row * cols + col) x =
      some (rowMajor rows cols fun r c => if r = row ∧ c = col then x else f r c) := by
  have hLength : (rowMajor rows cols f).length = rows * cols := length_tabulate _ _
  have hLt := Dense.offset_lt hRow hCol
  rw [set?, if_pos (hLength ▸ hLt)]
  refine congrArg some (eq_rowMajor (by rw [List.length_set, hLength]) fun r c hr hc => ?_)
  rw [List.getElem?_set, getElem?_rowMajor f hr hc, hLength, if_pos hLt]
  by_cases hSame : r = row ∧ c = col
  · rw [if_pos hSame, hSame.1, hSame.2, if_pos rfl]
  · have hOther : row * cols + col ≠ r * cols + c := by
      intro hEq
      refine hSame ⟨?_, ?_⟩
      · exact (offset_div hc).symm.trans ((congrArg (· / cols) hEq).symm.trans (offset_div hCol))
      · exact (offset_mod hc).symm.trans ((congrArg (· % cols) hEq).symm.trans (offset_mod hCol))
    rw [if_neg hSame, if_neg hOther]

/-- The elements of a view, row by row. -/
def rowsOf? (v : View) : Option (List Float32) :=
  (List.range v.numRows).foldlM (fun out row => do return out ++ (← v.rowSlice? row)) []

/-- One row of a view becomes a column of its transpose. -/
def setColumn? (v : View) (row : Nat) (out : List Float32) : Option (List Float32) := do
  let slice ← v.rowSlice? row
  slice.zipIdx.foldlM (fun out (x, col) => set? out (col * v.numRows + row) x) out

/-- The elements of the transpose of a view, row by row. -/
def columnsOf? (v : View) : Option (List Float32) :=
  (List.range v.numRows).foldlM (fun out row => setColumn? v row out)
    (List.replicate (v.numCols * v.numRows) 0)

/-- The elements of a factor, row by row after transposition. -/
def Factor.elements? (a : Factor) : Option (List Float32) :=
  if a.transposed then columnsOf? a.view else rowsOf? a.view

theorem rowsOf?_eq (v : View) : rowsOf? v = some (rowMajor v.numRows v.numCols v.get) := by
  have hStart : rowMajor 0 v.numCols v.get = [] := by simp [rowMajor, tabulate]
  rw [rowsOf?, ← hStart]
  refine foldlM_range (fun count => rowMajor count v.numCols v.get) fun row hRow => ?_
  rw [v.rowSlice?_eq hRow, rowMajor_succ]
  rfl

/-- The transpose of a view when its columns in front of `row` have been set, and the first
`count` elements of this column. -/
def partlySet (v : View) (row count : Nat) : List Float32 :=
  rowMajor v.numCols v.numRows fun r c =>
    if c < row ∨ c = row ∧ r < count then v.get c r else 0

theorem partlySet_zero (v : View) :
    partlySet v 0 0 = List.replicate (v.numCols * v.numRows) 0 :=
  (eq_tabulate (by simp) fun i hLt => by simp [hLt]).symm

theorem partlySet_numCols (v : View) (row : Nat) :
    partlySet v row v.numCols = partlySet v (row + 1) 0 :=
  rowMajor_congr fun _ _ _ _ => ite_congr (propext (by omega)) (fun _ => rfl) fun _ => rfl

theorem set?_partlySet (v : View) {row count : Nat} (hRow : row < v.numRows)
    (hCount : count < v.numCols) :
    set? (partlySet v row count) (count * v.numRows + row) (v.get row count) =
      some (partlySet v row (count + 1)) := by
  refine (set?_rowMajor _ hCount hRow _).trans (congrArg some (rowMajor_congr fun r c _ _ => ?_))
  grind

theorem setColumn?_eq (v : View) {row : Nat} (hRow : row < v.numRows) :
    setColumn? v row (partlySet v row 0) = some (partlySet v (row + 1) 0) := by
  rw [setColumn?, v.rowSlice?_eq hRow, Option.bind_eq_bind, Option.bind_some, zipIdx_tabulate,
    ← partlySet_numCols]
  exact foldlM_tabulate (partlySet v row) fun _ hCol => set?_partlySet v hRow hCol

theorem columnsOf?_eq (v : View) :
    columnsOf? v = some (rowMajor v.numCols v.numRows fun row col => v.get col row) := by
  rw [columnsOf?, ← partlySet_zero]
  refine (foldlM_range (partlySet v · 0) fun _ hRow => setColumn?_eq v hRow).trans ?_
  exact congrArg some (rowMajor_congr fun _ _ _ hCol => if_pos (.inl hCol))

theorem Factor.elements?_eq (a : Factor) :
    a.elements? = some (rowMajor a.shape.numRows a.shape.numCols a.get) := by
  obtain ⟨v, transposed⟩ := a
  cases transposed with
  | false => exact rowsOf?_eq v
  | true => exact columnsOf?_eq v

/-- One row of a product, from the elements of both factors. -/
def productRow (left right : List Float32) (inner width row : Nat) (alpha beta : Float32) :
    Edit := fun old => do
  let leftRow ← slice? left (row * inner) ((row + 1) * inner)
  old.zipIdx.mapM fun (x, col) => do
    let total ← leftRow.zipIdx.foldlM (fun total (y, i) => do
      return total + y * (← right[i * width + col]?)) 0
    return if beta == 0 then alpha * total else beta * x + alpha * total

theorem productRow_tabulate {a b : Factor} (hInner : a.shape.numCols = b.shape.numRows)
    (alpha beta : Float32) {row : Nat} (hRow : row < a.shape.numRows) (old : Nat → Float32) :
    productRow (rowMajor a.shape.numRows a.shape.numCols a.get)
        (rowMajor b.shape.numRows b.shape.numCols b.get) a.shape.numCols b.shape.numCols row
        alpha beta (tabulate b.shape.numCols old) =
      some (tabulate b.shape.numCols fun col =>
        if beta == 0 then alpha * dot a b row col
        else beta * old col + alpha * dot a b row col) := by
  have hSlice := slice?_rowMajor a.get hRow (Nat.le_of_eq (Nat.zero_add a.shape.numCols))
  rw [Nat.add_zero, ← Nat.succ_mul] at hSlice
  simp only [productRow, hSlice, Option.bind_eq_bind, Option.bind_some, zipIdx_tabulate,
    Nat.zero_add]
  refine mapM_tabulate fun col hCol => ?_
  -- After each term the total is that of the terms so far.
  have hTotal : (tabulate a.shape.numCols fun i => (a.get row i, i)).foldlM
      (fun total (y, i) => do
        return total + y * (← (rowMajor b.shape.numRows b.shape.numCols b.get)[
          i * b.shape.numCols + col]?)) 0 = some (dot a b row col) :=
    foldlM_tabulate (fun count => (List.range count).foldl
      (fun total i => total + a.get row i * b.get i col) 0) fun i hLt => by
        dsimp only
        rw [getElem?_rowMajor b.get (hInner ▸ hLt) hCol, List.range_succ, List.foldl_append]
        rfl
  exact congrArg (Option.bind · _) hTotal

/-! ## The primitives -/

/-- Try the conditions, then change the storage.  A primitive whose conditions fail answers with
the storage as it is; one that indexes out of range has no answer. -/
def guardedEdit (conditions : Except Error Unit) (edit : Edit) (data : List Float32) :
    Option (EStateM.Result Error (List Float32) Unit) :=
  match conditions with
  | .ok () => (edit data).map (.ok ())
  | .error err => some (.error err data)

/-- What a primitive does to the storage of its destination, on slices. -/
def Primitive.sliced (stride : Nat) (g : Region) (data : List Float32) :
    Primitive → Option (EStateM.Result Error (List Float32) Unit)
  | .copy src =>
      guardedEdit (requireShape g.shape src.shape) (editRows stride g fun row old => do
        copyFrom (← src.rowSlice? row) old) data
  | .add src alpha =>
      guardedEdit (requireShape g.shape src.shape) (editRows stride g fun row old => do
        zipInto (fun x y => x + alpha * y) (← src.rowSlice? row) old) data
  | .clear => guardedEdit (.ok ()) (editRows stride g fun _ => fill) data
  | .gatherCopy src indexes =>
      guardedEdit (do
          requireTable g indexes.length src
          requireRows indexes src.numRows)
        (editRows stride g fun row old => do
          match ← indexes[row]? with
          | some srcRow => copyFrom (← src.rowSlice? srcRow) old
          | none => fill old) data
  | .gatherAdd src alpha indexes =>
      guardedEdit (do
          requireTable g indexes.length src
          requireRows indexes src.numRows)
        (editRows stride g fun row old => do
          match ← indexes[row]? with
          | some srcRow => zipInto (fun x y => x + alpha * y) (← src.rowSlice? srcRow) old
          | none => return old) data
  | .copyRow row src srcRow =>
      guardedEdit (requireSingleRows g row src srcRow) (editRow stride g row fun old => do
        copyFrom (← src.rowSlice? srcRow) old) data
  | .addRow row src srcRow alpha =>
      guardedEdit (requireSingleRows g row src srcRow) (editRow stride g row fun old => do
        zipInto (fun x y => x + alpha * y) (← src.rowSlice? srcRow) old) data
  | .clearRow row => guardedEdit (requireRow row g.numRows) (editRow stride g row fill) data
  | .addRanges src ranges =>
      guardedEdit (do
          requireTable g ranges.length src
          requireRanges ranges src.numRows)
        (editRows stride g fun row old => do
          let (first, past) ← ranges[row]?
          addRowsFrom src first past old) data
  | .accumulateProduct a b alpha beta => do
      let left ← a.elements?
      let right ← b.elements?
      guardedEdit (do
          requireProduct a b
          requireShape g.shape ⟨a.shape.numRows, b.shape.numCols⟩)
        (editRows stride g fun row =>
          productRow left right a.shape.numCols b.shape.numCols row alpha beta) data
  | .addToEachRow vec alpha =>
      guardedEdit (requireShape ⟨1, g.numCols⟩ vec.shape) (fun data => do
        let slice ← vec.rowSlice? 0
        editRows stride g (fun _ => zipInto (fun x y => x + alpha * y) slice) data) data
  | .accumulateRowSum src alpha beta =>
      guardedEdit (requireShape ⟨1, src.numCols⟩ g.shape) (fun data => do
        let sums ← columnSums? src
        editRow stride g 0 (zipInto (fun x y => beta * x + alpha * y) sums) data) data
  | .applyActivation op src =>
      guardedEdit (requireShape g.shape src.shape) (editRows stride g fun row old => do
        zipInto (fun _ y => op.apply y) (← src.rowSlice? row) old) data
  | .activationGradient op outValue outDeriv beta =>
      guardedEdit (do
          requireShape g.shape outValue.shape
          requireShape g.shape outDeriv.shape)
        (editRows stride g fun row old => do
          let values ← outValue.rowSlice? row
          let derivs ← outDeriv.rowSlice? row
          zipInto (fun x (y, deriv) =>
            let gradient := op.derivativeFromOutput y * deriv
            if beta == 0 then gradient else beta * x + gradient) (values.zip derivs) old) data

/-! ## What they do to dense values -/

section Sliced

variable {g : Region} {m : Dense rows cols}

theorem guardedEdit_eq {conditions : Except Error Unit} {edit : Edit} {window : Region}
    {f : Nat → Nat → Float32 → Float32}
    (h : conditions = .ok () → edit m.elements = some (m.mapWindow window f).elements) :
    guardedEdit conditions edit m.elements =
      some (Action.mapState Dense.elements (guardedMap conditions window f m)) := by
  cases conditions with
  | error err => rfl
  | ok u =>
      rw [guardedEdit, h rfl]
      rfl

/-- A row of a source that is as wide as the window. -/
theorem rowSlice?_of_width {src : View} {row : Nat} (hRow : row < src.numRows)
    (hWidth : g.numCols = src.numCols) :
    src.rowSlice? row = some (tabulate g.numCols (src.get row)) := by
  rw [src.rowSlice?_eq hRow, hWidth]

/-- A row of a source of the shape of the window. -/
theorem rowSlice?_of_shape {src : View} {row : Nat}
    (hShape : requireShape g.shape src.shape = .ok ()) (hRow : row < g.numRows) :
    src.rowSlice? row = some (tabulate g.numCols (src.get row)) :=
  rowSlice?_of_width (numRows_of_requireShape hShape ▸ hRow) (numCols_of_requireShape hShape)

/-- A table with one entry for each row of the window has one for a row of it. -/
theorem exists_tableEntry {α : Type} {table : List α} {src : View} {row : Nat}
    (hTable : requireTable g table.length src = .ok ()) (hRow : row < g.numRows) :
    ∃ found, table[row]? = some found ∧ g.numCols = src.numCols := by
  obtain ⟨hLength, hWidth⟩ := Action.require_eq_ok_iff.mp hTable
  exact ⟨_, List.getElem?_eq_getElem (hLength ▸ hRow), hWidth⟩

variable (hFits : g.FitsIn rows cols)

include hFits

theorem copy_sliced (src : View) :
    (Primitive.copy src).sliced cols g m.elements =
      some (Action.mapState Dense.elements (copy src g m)) := by
  refine guardedEdit_eq fun hShape => editRows_eq_some hFits fun row hRow old => ?_
  rw [rowSlice?_of_shape hShape hRow]
  exact copyFrom_tabulate _ _

theorem add_sliced (src : View) (alpha : Float32) :
    (Primitive.add src alpha).sliced cols g m.elements =
      some (Action.mapState Dense.elements (add src alpha g m)) := by
  refine guardedEdit_eq fun hShape => editRows_eq_some hFits fun row hRow old => ?_
  rw [rowSlice?_of_shape hShape hRow]
  exact zipInto_tabulate _ _ _

theorem clear_sliced :
    Primitive.clear.sliced cols g m.elements =
      some (Action.mapState Dense.elements (clear g m)) := by
  rw [Primitive.sliced, clear]
  exact guardedEdit_eq fun _ => editRows_eq_some hFits fun _ _ old => fill_tabulate old

theorem gatherCopy_sliced (src : View) (indexes : List (Option Nat)) :
    (Primitive.gatherCopy src indexes).sliced cols g m.elements =
      some (Action.mapState Dense.elements (gatherCopy src indexes g m)) := by
  refine guardedEdit_eq fun hConditions => editRows_eq_some hFits fun row hRow old => ?_
  obtain ⟨⟨⟩, hTable, hRows⟩ := Action.check_bind_eq_ok_iff.mp hConditions
  obtain ⟨found, hFound, hWidth⟩ := exists_tableEntry hTable hRow
  have hEntry : entry indexes row = found := by rw [entry, hFound, Option.join_some]
  rw [hFound, Option.bind_eq_bind, Option.bind_some, hEntry]
  cases found with
  | none => exact fill_tabulate old
  | some srcRow =>
      simp only [rowSlice?_of_width (entry_lt_of_requireRows hRows hEntry) hWidth,
        Option.bind_eq_bind, Option.bind_some]
      exact copyFrom_tabulate _ _

theorem gatherAdd_sliced (src : View) (alpha : Float32) (indexes : List (Option Nat)) :
    (Primitive.gatherAdd src alpha indexes).sliced cols g m.elements =
      some (Action.mapState Dense.elements (gatherAdd src alpha indexes g m)) := by
  refine guardedEdit_eq fun hConditions => editRows_eq_some hFits fun row hRow old => ?_
  obtain ⟨⟨⟩, hTable, hRows⟩ := Action.check_bind_eq_ok_iff.mp hConditions
  obtain ⟨found, hFound, hWidth⟩ := exists_tableEntry hTable hRow
  have hEntry : entry indexes row = found := by rw [entry, hFound, Option.join_some]
  rw [hFound, Option.bind_eq_bind, Option.bind_some, hEntry]
  cases found with
  | none => rfl
  | some srcRow =>
      simp only [rowSlice?_of_width (entry_lt_of_requireRows hRows hEntry) hWidth,
        Option.bind_eq_bind, Option.bind_some]
      exact zipInto_tabulate _ _ _

theorem copyRow_sliced (row : Nat) (src : View) (srcRow : Nat) :
    (Primitive.copyRow row src srcRow).sliced cols g m.elements =
      some (Action.mapState Dense.elements (copyRow row src srcRow g m)) := by
  refine guardedEdit_eq fun hConditions => ?_
  obtain ⟨hSrcRow, hWidth⟩ := of_requireSingleRows hConditions
  refine editRow_eq_some hFits (lt_of_requireSingleRows hConditions) fun old => ?_
  rw [rowSlice?_of_width hSrcRow hWidth]
  exact copyFrom_tabulate _ _

theorem addRow_sliced (row : Nat) (src : View) (srcRow : Nat) (alpha : Float32) :
    (Primitive.addRow row src srcRow alpha).sliced cols g m.elements =
      some (Action.mapState Dense.elements (addRow row src srcRow alpha g m)) := by
  refine guardedEdit_eq fun hConditions => ?_
  obtain ⟨hSrcRow, hWidth⟩ := of_requireSingleRows hConditions
  refine editRow_eq_some hFits (lt_of_requireSingleRows hConditions) fun old => ?_
  rw [rowSlice?_of_width hSrcRow hWidth]
  exact zipInto_tabulate _ _ _

theorem clearRow_sliced (row : Nat) :
    (Primitive.clearRow row).sliced cols g m.elements =
      some (Action.mapState Dense.elements (clearRow row g m)) := by
  refine guardedEdit_eq fun hRow => editRow_eq_some hFits (lt_of_requireRow hRow) fun old => ?_
  exact fill_tabulate old

theorem addRanges_sliced (src : View) (ranges : List (Nat × Nat)) :
    (Primitive.addRanges src ranges).sliced cols g m.elements =
      some (Action.mapState Dense.elements (addRanges src ranges g m)) := by
  refine guardedEdit_eq fun hConditions => editRows_eq_some hFits fun row hRow old => ?_
  obtain ⟨⟨⟩, hTable, hRanges⟩ := Action.check_bind_eq_ok_iff.mp hConditions
  obtain ⟨⟨first, past⟩, hFound, hWidth⟩ := exists_tableEntry hTable hRow
  obtain ⟨-, hPast⟩ := Action.require_eq_ok_iff.mp (Action.check_forM_eq_ok_iff.mp hRanges
    (first, past) (List.mem_of_getElem? hFound))
  simp only [hFound, Option.bind_eq_bind, Option.bind_some, hWidth]
  exact addRowsFrom_tabulate hPast old

theorem accumulateProduct_sliced (a b : Factor) (alpha beta : Float32) :
    (Primitive.accumulateProduct a b alpha beta).sliced cols g m.elements =
      some (Action.mapState Dense.elements (accumulateProduct a b alpha beta g m)) := by
  simp only [Primitive.sliced, a.elements?_eq, b.elements?_eq, Option.bind_eq_bind,
    Option.bind_some]
  refine guardedEdit_eq fun hConditions => editRows_eq_some hFits fun row hRow old => ?_
  obtain ⟨⟨⟩, hProduct, hShape⟩ := Action.check_bind_eq_ok_iff.mp hConditions
  have hOuter : g.shape = ⟨a.shape.numRows, b.shape.numCols⟩ :=
    Action.require_eq_ok_iff.mp hShape
  have hRows : g.numRows = a.shape.numRows := congrArg Shape.numRows hOuter
  have hCols : g.numCols = b.shape.numCols := congrArg Shape.numCols hOuter
  rw [hCols]
  exact productRow_tabulate (Action.require_eq_ok_iff.mp hProduct) alpha beta (hRows ▸ hRow) old

theorem addToEachRow_sliced (vec : View) (alpha : Float32) :
    (Primitive.addToEachRow vec alpha).sliced cols g m.elements =
      some (Action.mapState Dense.elements (addToEachRow vec alpha g m)) := by
  rw [Primitive.sliced, addToEachRow]
  refine guardedEdit_eq fun hShape => ?_
  have hSame : (⟨1, g.numCols⟩ : Shape) = vec.shape := Action.require_eq_ok_iff.mp hShape
  have hRows : 1 = vec.numRows := congrArg Shape.numRows hSame
  have hCols : g.numCols = vec.numCols := congrArg Shape.numCols hSame
  simp only [rowSlice?_of_width (hRows ▸ Nat.zero_lt_one) hCols, Option.bind_eq_bind,
    Option.bind_some]
  exact editRows_eq_some hFits fun _ _ old => zipInto_tabulate _ _ _

theorem accumulateRowSum_sliced (src : View) (alpha beta : Float32) :
    (Primitive.accumulateRowSum src alpha beta).sliced cols g m.elements =
      some (Action.mapState Dense.elements (accumulateRowSum src alpha beta g m)) := by
  rw [Primitive.sliced, accumulateRowSum]
  refine guardedEdit_eq fun hShape => ?_
  have hSame : (⟨1, src.numCols⟩ : Shape) = g.shape := Action.require_eq_ok_iff.mp hShape
  have hRows : 1 = g.numRows := congrArg Shape.numRows hSame
  have hCols : src.numCols = g.numCols := congrArg Shape.numCols hSame
  -- The window is its own first row.
  have hWindow : g.rowWindow 0 = g := by
    rw [Region.rowWindow, Nat.add_zero, hRows]
  simp only [columnSums?_eq, Option.bind_eq_bind, Option.bind_some, hCols]
  refine (editRow_eq_some (f := fun col x => beta * x + alpha * columnSum src col) hFits
    (hRows ▸ Nat.zero_lt_one) fun old => zipInto_tabulate _ _ old).trans ?_
  rw [hWindow]

theorem applyActivation_sliced (op : Activation) (src : View) :
    (Primitive.applyActivation op src).sliced cols g m.elements =
      some (Action.mapState Dense.elements (applyActivation op src g m)) := by
  refine guardedEdit_eq fun hShape => editRows_eq_some hFits fun row hRow old => ?_
  rw [rowSlice?_of_shape hShape hRow]
  exact zipInto_tabulate _ _ _

theorem activationGradient_sliced (op : Activation) (outValue outDeriv : View)
    (beta : Float32) :
    (Primitive.activationGradient op outValue outDeriv beta).sliced cols g m.elements =
      some (Action.mapState Dense.elements
        (activationGradient op outValue outDeriv beta g m)) := by
  refine guardedEdit_eq fun hConditions => editRows_eq_some hFits fun row hRow old => ?_
  obtain ⟨⟨⟩, hValue, hDeriv⟩ := Action.check_bind_eq_ok_iff.mp hConditions
  rw [rowSlice?_of_shape hValue hRow, rowSlice?_of_shape hDeriv hRow]
  simp only [Option.bind_eq_bind, Option.bind_some, zip_tabulate]
  exact zipInto_tabulate _ _ _

/-- On slices every primitive answers and does the same to the storage as it does to the dense
values. -/
theorem Primitive.sliced_eq (prim : Primitive) :
    prim.sliced cols g m.elements =
      some (Action.mapState Dense.elements (prim.run g m)) := by
  cases prim with
  | copy src => exact copy_sliced hFits src
  | add src alpha => exact add_sliced hFits src alpha
  | clear => exact clear_sliced hFits
  | gatherCopy src indexes => exact gatherCopy_sliced hFits src indexes
  | gatherAdd src alpha indexes => exact gatherAdd_sliced hFits src alpha indexes
  | copyRow row src srcRow => exact copyRow_sliced hFits row src srcRow
  | addRow row src srcRow alpha => exact addRow_sliced hFits row src srcRow alpha
  | clearRow row => exact clearRow_sliced hFits row
  | addRanges src ranges => exact addRanges_sliced hFits src ranges
  | accumulateProduct a b alpha beta => exact accumulateProduct_sliced hFits a b alpha beta
  | addToEachRow vec alpha => exact addToEachRow_sliced hFits vec alpha
  | accumulateRowSum src alpha beta => exact accumulateRowSum_sliced hFits src alpha beta
  | applyActivation op src => exact applyActivation_sliced hFits op src
  | activationGradient op outValue outDeriv beta =>
      exact activationGradient_sliced hFits op outValue outDeriv beta

/-- A window that does not fit leads out of range. -/
example : Primitive.clear.sliced 2 ⟨0, 2, 0, 1⟩ [1, 2] = none := rfl

end Sliced

/-! ## Primitives on buffers -/

/-- Every primitive tries conditions and then maps a window. -/
theorem Primitive.exists_run_eq (prim : Primitive) (g : Region) :
    ∃ conditions window f, (prim.run g : Write rows cols) = guardedMap conditions window f := by
  cases prim with
  | clear => exact ⟨.ok (), g, fun _ _ _ => 0, rfl⟩
  | _ => exact ⟨_, _, _, rfl⟩

/-- A primitive that fails leaves the dense values as they are. -/
theorem Primitive.eq_of_run_eq_error (prim : Primitive) {g : Region} {m t : Dense rows cols}
    {err : Error} (h : prim.run g m = .error err t) : t = m := by
  have hMaps : ∃ conditions window f,
      (prim.run g : Write rows cols) = guardedMap conditions window f := prim.exists_run_eq g
  obtain ⟨conditions, window, f, hRun⟩ := hMaps
  rw [hRun] at h
  cases conditions with
  | error err' =>
      cases h
      rfl
  | ok u => cases h

section Buffers

variable {prim : Primitive} {o : Overflow} {g : Region} {b t : Buffer} {err : Error}

/-- A primitive on a window of a buffer that fits. -/
theorem Primitive.inWindow_of_fitsIn (prim : Primitive) (hFits : g.FitsIn b.numRows b.numCols) :
    Write.inWindow g prim.run b =
      Action.mapState (fun values => ⟨b.numRows, b.numCols, values⟩) (prim.run g b.values) :=
  if_pos hFits

/-- A primitive on a window of a buffer that does not fit. -/
theorem Primitive.inWindow_of_not_fitsIn (prim : Primitive)
    (hFits : ¬g.FitsIn b.numRows b.numCols) :
    Write.inWindow g prim.run b = .error (.regionOutOfBounds g b.numRows b.numCols) b :=
  if_neg hFits

/-- A primitive that fails leaves the buffer as it is. -/
theorem Primitive.eq_of_inWindow_eq_error (h : Write.inWindow g prim.run b = .error err t) :
    t = b := by
  by_cases hFits : g.FitsIn b.numRows b.numCols
  · rw [prim.inWindow_of_fitsIn hFits] at h
    cases hRun : prim.run g b.values with
    | ok u values =>
        rw [hRun] at h
        cases h
    | error err' values =>
        rw [hRun, prim.eq_of_run_eq_error hRun] at h
        cases h
        rfl
  · rw [prim.inWindow_of_not_fitsIn hFits] at h
    cases h
    rfl

/-- A primitive leaves the elements outside its window as they are. -/
theorem Primitive.get_of_inWindow_eq_ok (h : Write.inWindow g prim.run b = .ok () t)
    {row col : Nat} (hOutside : ¬g.Contains row col) : t.get row col = b.get row col := by
  by_cases hFits : g.FitsIn b.numRows b.numCols
  · have hKept := prim.get_run b.values hOutside
    rw [prim.inWindow_of_fitsIn hFits] at h
    cases hRun : prim.run g b.values with
    | ok u values =>
        rw [hRun] at h hKept
        cases h
        exact hKept
    | error err values =>
        rw [hRun] at h
        cases h
  · rw [prim.inWindow_of_not_fitsIn hFits] at h
    cases h

/-- A primitive is safe on a window of a buffer.  If the window is found to fit, the primitive
indexes no buffer out of range, its sources included: the offsets of all positions and of the ends
of rows are exact, and on slices of the storage the primitive answers and changes the same as on
the buffer.  If it fails, the buffer is as before.  If it succeeds, the elements outside the window
are as before, and so are the shape and the number of elements. -/
structure Primitive.Safe (o : Overflow) (prim : Primitive) (g : Region) (b : Buffer) : Prop where
  source : ∀ b' g', o.ExactEnds g' → o.checkFits g' b'.numRows b'.numCols = some (.ok ()) →
    ∃ v, View.of b' g' = .ok v
  sourceOffset : ∀ v : View, v.buffer.shape.WordSized → ∀ row col, row < v.numRows →
    col ≤ v.numCols → o.storageOffset v.region v.buffer.numCols row col =
      some (v.region.storageOffset v.buffer.numCols row col)
  offset : o.checkFits g b.numRows b.numCols = some (.ok ()) → ∀ row col, row < g.numRows →
    col ≤ g.numCols → o.storageOffset g b.numCols row col = some (g.storageOffset b.numCols row col)
  inRange : o.checkFits g b.numRows b.numCols = some (.ok ()) →
    ∃ r, o.inWindow g prim.run b = some r ∧
      prim.sliced b.numCols g b.elements = some (Action.mapState Buffer.elements r)
  unchanged : ∀ err t, o.inWindow g prim.run b = some (.error err t) → t = b
  framed : ∀ t, o.inWindow g prim.run b = some (.ok () t) →
    ∀ row col, ¬g.Contains row col → t.get row col = b.get row col
  kept : ∀ t, o.inWindow g prim.run b = some (.ok () t) →
    t.shape = b.shape ∧ t.elements.length = b.elements.length

/-- Every primitive is safe on every window with exact ends of every buffer, whatever its sources,
tables, ranges and scalars are. -/
theorem Primitive.safe_on_buffers (prim : Primitive) (hExact : o.ExactEnds g)
    (hSize : b.shape.WordSized) : prim.Safe o g b where
  source := fun b' g' hEnds hCheck => ⟨_, dif_pos (hEnds.fitsIn_of_checkFits hCheck)⟩
  sourceOffset := fun v hWords _ _ hRow hCol => o.storageOffset_eq hWords v.fits hRow hCol
  offset := fun hCheck _ _ hRow hCol =>
    o.storageOffset_eq hSize (hExact.fitsIn_of_checkFits hCheck) hRow hCol
  inRange := by
    intro hCheck
    have hFits := hExact.fitsIn_of_checkFits hCheck
    obtain ⟨r, hRun⟩ : ∃ r, o.inWindow g prim.run b = some r :=
      ⟨_, by rw [Overflow.inWindow, hCheck, Option.map_some]⟩
    refine ⟨r, hRun, ?_⟩
    rw [← hExact.of_inWindow hRun, prim.inWindow_of_fitsIn hFits]
    refine (prim.sliced_eq hFits).trans (congrArg some ?_)
    cases prim.run g b.values <;> rfl
  unchanged := fun _ _ h => eq_of_inWindow_eq_error (hExact.of_inWindow h)
  framed := fun _ h _ _ hOutside => get_of_inWindow_eq_ok (hExact.of_inWindow h) hOutside
  kept := by
    intro t h
    have hShape := Write.shape_inWindow g prim.run b
    rw [hExact.of_inWindow h] at hShape
    refine ⟨hShape, ?_⟩
    rw [Buffer.length_elements, Buffer.length_elements]
    exact congrArg (fun shape => shape.numRows * shape.numCols) hShape

end Buffers

/-- Clearing a row of a window in the middle of a buffer. -/
theorem clearRow_safe_on_buffers :
    Overflow.wraps.ExactEnds ⟨1, 1, 1, 2⟩ ∧ (Buffer.zeros 3 4).shape.WordSized ∧
      (Primitive.clearRow 0).Safe .wraps ⟨1, 1, 1, 2⟩ (.zeros 3 4) :=
  have hExact : Overflow.wraps.ExactEnds ⟨1, 1, 1, 2⟩ := ⟨by decide, by decide⟩
  have hSize : (Buffer.zeros 3 4).shape.WordSized := ⟨by decide, by decide, by decide⟩
  ⟨hExact, hSize, (Primitive.clearRow 0).safe_on_buffers hExact hSize⟩

/-- Where sums wrap, a window that begins past all rows is found to fit, and clearing its row is
out of range. -/
theorem bigWindow_out_of_range :
    Overflow.wraps.checkFits ⟨UInt64.size - 1, 1, 0, 1⟩ 1 1 = some (.ok ()) ∧
      Overflow.wraps.storageOffset ⟨UInt64.size - 1, 1, 0, 1⟩ 1 0 0 = some (UInt64.size - 1) ∧
        (Primitive.clearRow 0).sliced 1 ⟨UInt64.size - 1, 1, 0, 1⟩ [7] = none :=
  ⟨rfl, rfl, rfl⟩

end Kernel

end MatrixProgram
