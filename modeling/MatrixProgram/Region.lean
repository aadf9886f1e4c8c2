/-!
# Regions of a matrix

A region is a rectangular window: a range of rows and a range of columns.  It
owns no storage.  Storage is dense and row-major, so the element `(row, col)` of
a region lies at `(rowOffset + row) * stride + colOffset + col`, where the
stride is the number of columns of the matrix.  Narrowing a region changes its
offsets and extents and never the stride.

Offsets and extents are numbers here, and sums of them are never too large.  What
becomes of a sum that is no machine word is said in `MatrixProgram.Overflow`.
-/

namespace MatrixProgram

/-- The number of rows and columns of a matrix or of a window into one. -/
structure Shape where
  numRows : Nat
  numCols : Nat
deriving DecidableEq, Repr, Inhabited

/-- A window of rows `rowOffset, ..., rowOffset + numRows - 1` and columns
`colOffset, ..., colOffset + numCols - 1`. -/
structure Region where
  rowOffset : Nat
  numRows : Nat
  colOffset : Nat
  numCols : Nat
deriving DecidableEq, Repr, Inhabited

namespace Region

/-- The region that covers all of a `rows` by `cols` matrix. -/
def whole (rows cols : Nat) : Region :=
  ⟨0, rows, 0, cols⟩

/-- The region without rows and columns. -/
def empty : Region :=
  ⟨0, 0, 0, 0⟩

/-- The extents of a region, without its position. -/
def shape (g : Region) : Shape :=
  ⟨g.numRows, g.numCols⟩

/-- A region is empty when it lacks rows or columns. -/
def isEmpty (g : Region) : Bool :=
  g.numRows == 0 || g.numCols == 0

/-- The first row past the region. -/
def rowEnd (g : Region) : Nat :=
  g.rowOffset + g.numRows

/-- The first column past the region. -/
def colEnd (g : Region) : Nat :=
  g.colOffset + g.numCols

/-- The region lies inside a `rows` by `cols` matrix. -/
def FitsIn (g : Region) (rows cols : Nat) : Prop :=
  g.rowEnd ≤ rows ∧ g.colEnd ≤ cols

instance (g : Region) (rows cols : Nat) : Decidable (g.FitsIn rows cols) :=
  inferInstanceAs (Decidable (_ ∧ _))

/-- The region covers every element of a `rows` by `cols` matrix. -/
def IsWhole (g : Region) (rows cols : Nat) : Prop :=
  g = whole rows cols

instance (g : Region) (rows cols : Nat) : Decidable (g.IsWhole rows cols) :=
  inferInstanceAs (Decidable (_ = _))

/-- The region spans every row of a matrix with `rows` rows. -/
def SpansRows (g : Region) (rows : Nat) : Prop :=
  g.rowOffset = 0 ∧ g.numRows = rows

instance (g : Region) (rows : Nat) : Decidable (g.SpansRows rows) :=
  inferInstanceAs (Decidable (_ ∧ _))

/-- The matrix position `(row, col)` belongs to the region. -/
def Contains (g : Region) (row col : Nat) : Prop :=
  (g.rowOffset ≤ row ∧ row < g.rowEnd) ∧ g.colOffset ≤ col ∧ col < g.colEnd

instance (g : Region) (row col : Nat) : Decidable (g.Contains row col) :=
  inferInstanceAs (Decidable (_ ∧ _))

/-- The flat storage offset of element `(row, col)` of the region. -/
def storageOffset (g : Region) (stride row col : Nat) : Nat :=
  (g.rowOffset + row) * stride + g.colOffset + col

/-- The single row `row` of the region, as a region of its own. -/
def rowWindow (g : Region) (row : Nat) : Region :=
  { g with rowOffset := g.rowOffset + row, numRows := 1 }

@[simp]
theorem fitsIn_whole (rows cols : Nat) : (whole rows cols).FitsIn rows cols := by
  simp [FitsIn, whole, rowEnd, colEnd]

@[simp]
theorem shape_whole (rows cols : Nat) : (whole rows cols).shape = ⟨rows, cols⟩ :=
  rfl

@[simp]
theorem contains_whole_iff {rows cols row col : Nat} :
    (whole rows cols).Contains row col ↔ row < rows ∧ col < cols := by
  simp [Contains, whole, rowEnd, colEnd]

/-- Membership in the window of one row: that row, and a column of the region. -/
theorem contains_rowWindow_iff {g : Region} {r row col : Nat} :
    (g.rowWindow r).Contains row col ↔
      row = g.rowOffset + r ∧ g.colOffset ≤ col ∧ col < g.colEnd := by
  simp only [Contains, rowWindow, rowEnd, colEnd]
  omega

end Region

end MatrixProgram
