import MatrixProgram.Region

/-!
# Dense values of a fixed shape

`Dense rows cols` holds one 32-bit float per position of a `rows` by `cols` matrix,
row by row.  The shape is part of the type, so no operation can change it.  All
reading goes through `get`, and all writing through `mapWindow`, which maps the
elements of one region and keeps every other element.
-/

namespace MatrixProgram

/-- One float for each position of a `rows` by `cols` matrix, in row-major order. -/
structure Dense (rows cols : Nat) where
  data : Vector Float32 (rows * cols)

namespace Dense

variable {rows cols : Nat}

/-- A position inside the matrix has an offset inside the data. -/
theorem offset_lt {row col : Nat} (hRow : row < rows) (hCol : col < cols) :
    row * cols + col < rows * cols :=
  calc
    row * cols + col < row * cols + cols := Nat.add_lt_add_left hCol _
    _ = (row + 1) * cols := (Nat.succ_mul row cols).symm
    _ ≤ rows * cols := Nat.mul_le_mul_right cols hRow

/-- The element at `(row, col)`; positions outside the matrix read as zero. -/
def get (m : Dense rows cols) (row col : Nat) : Float32 :=
  if h : row < rows ∧ col < cols then
    have hOffset := offset_lt h.1 h.2
    m.data[row * cols + col]
  else
    0

/-- The dense values whose element at `(row, col)` is `f row col`. -/
def ofFn (f : Nat → Nat → Float32) : Dense rows cols :=
  ⟨Vector.ofFn fun offset => f (offset / cols) (offset % cols)⟩

/-- Map the elements of region `g`: the element at position `(row, col)` of the
region becomes `f row col` of its old value.  Elements outside `g` are kept. -/
def mapWindow (m : Dense rows cols) (g : Region)
    (f : Nat → Nat → Float32 → Float32) : Dense rows cols :=
  ⟨m.data.mapIdx fun offset old =>
    let row := offset / cols
    let col := offset % cols
    if g.Contains row col then f (row - g.rowOffset) (col - g.colOffset) old else old⟩

private theorem offset_div {row col : Nat} (hCol : col < cols) :
    (row * cols + col) / cols = row := by
  rw [Nat.mul_comm, Nat.mul_add_div (Nat.zero_lt_of_lt hCol), Nat.div_eq_of_lt hCol,
    Nat.add_zero]

/-- Positions outside the matrix read as zero. -/
theorem get_of_not {m : Dense rows cols} {row col : Nat} (h : ¬(row < rows ∧ col < cols)) :
    m.get row col = 0 := by
  simp [get, h]

/-- Reading back a tabulated function inside the matrix. -/
theorem get_ofFn {f : Nat → Nat → Float32} {row col : Nat}
    (hRow : row < rows) (hCol : col < cols) :
    (ofFn f : Dense rows cols).get row col = f row col := by
  simp [get, ofFn, hRow, hCol, offset_div, Nat.mod_eq_of_lt hCol]

/-- Reading back a mapped window inside the matrix. -/
theorem get_mapWindow {m : Dense rows cols} {g : Region}
    {f : Nat → Nat → Float32 → Float32} {row col : Nat}
    (hRow : row < rows) (hCol : col < cols) :
    (m.mapWindow g f).get row col =
      if g.Contains row col then
        f (row - g.rowOffset) (col - g.colOffset) (m.get row col)
      else
        m.get row col := by
  simp [get, mapWindow, hRow, hCol, offset_div, Nat.mod_eq_of_lt hCol]

/-- Mapping a window keeps every element outside of it. -/
theorem get_mapWindow_of_not_contains {m : Dense rows cols} {g : Region}
    {f : Nat → Nat → Float32 → Float32} {row col : Nat} (h : ¬g.Contains row col) :
    (m.mapWindow g f).get row col = m.get row col := by
  by_cases hIn : row < rows ∧ col < cols
  · rw [get_mapWindow hIn.1 hIn.2, if_neg h]
  · rw [get_of_not hIn, get_of_not hIn]

/-- Dense values are determined by their elements. -/
theorem ext_get {m n : Dense rows cols}
    (h : ∀ row col, row < rows → col < cols → m.get row col = n.get row col) : m = n := by
  obtain ⟨a⟩ := m
  obtain ⟨b⟩ := n
  congr 1
  apply Vector.ext
  intro offset hOffset
  have hCols : 0 < cols := by
    apply Nat.pos_of_ne_zero
    rintro rfl
    simp at hOffset
  have hRow : offset / cols < rows := Nat.div_lt_of_lt_mul (by rwa [Nat.mul_comm])
  have hCol : offset % cols < cols := Nat.mod_lt offset hCols
  have hGet := h (offset / cols) (offset % cols) hRow hCol
  simp only [get, hRow, hCol, and_self, dite_true] at hGet
  have hSplit : offset / cols * cols + offset % cols = offset := by
    rw [Nat.mul_comm]
    exact Nat.div_add_mod offset cols
  simpa only [hSplit] using hGet

end Dense

end MatrixProgram
