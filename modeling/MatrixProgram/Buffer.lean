import MatrixProgram.Action
import MatrixProgram.Dense

/-!
# Buffers and views

A buffer is dense storage together with its shape.  A view is a buffer and a region
that fits in it; it is built by `View.of`, which is the one place where the bounds of
a region are tried against a buffer.  A `Write` changes dense values of any shape, and
`Write.inWindow` runs one on a window of a buffer after the same test.  The test is one
of numbers; `Overflow.checkFits` is the test with machine words.
-/

namespace MatrixProgram

/-- Dense storage of some shape. -/
structure Buffer where
  numRows : Nat
  numCols : Nat
  values : Dense numRows numCols

namespace Buffer

/-- The device on which all buffers live. -/
def deviceName : String :=
  "cpu"

/-- The shape of a buffer. -/
def shape (b : Buffer) : Shape :=
  ⟨b.numRows, b.numCols⟩

/-- A buffer is empty when it lacks rows or columns. -/
def isEmpty (b : Buffer) : Bool :=
  b.numRows == 0 || b.numCols == 0

/-- The element at `(row, col)`; positions outside the buffer read as zero. -/
def get (b : Buffer) (row col : Nat) : Float32 :=
  b.values.get row col

/-- The `rows` by `cols` buffer whose element at `(row, col)` is `f row col`. -/
def ofFn (rows cols : Nat) (f : Nat → Nat → Float32) : Buffer :=
  ⟨rows, cols, Dense.ofFn f⟩

/-- A `rows` by `cols` buffer of zeros. -/
def zeros (rows cols : Nat) : Buffer :=
  ofFn rows cols fun _ _ => 0

/-- The `rows` by `cols` buffer with the given elements in row-major order; there must
be one element for each position. -/
def ofArray (rows cols : Nat) (data : Array Float32) : Except Error Buffer :=
  if h : data.size = rows * cols then
    .ok ⟨rows, cols, ⟨⟨data, h⟩⟩⟩
  else
    .error (.failed (.elementCount rows cols data.size))

/-- The elements of a buffer in row-major order. -/
def toArray (b : Buffer) : Array Float32 :=
  b.values.data.toArray

/-- Buffers are determined by their shape and elements. -/
theorem ext_get {a b : Buffer} (hShape : a.shape = b.shape)
    (h : ∀ row col, row < a.numRows → col < a.numCols → a.get row col = b.get row col) :
    a = b := by
  obtain ⟨rows, cols, v⟩ := a
  obtain ⟨rows', cols', w⟩ := b
  simp only [shape, Shape.mk.injEq] at hShape
  obtain ⟨rfl, rfl⟩ := hShape
  have hValues : v = w := Dense.ext_get h
  rw [hValues]

@[simp]
theorem shape_ofFn (rows cols : Nat) (f : Nat → Nat → Float32) :
    (ofFn rows cols f).shape = ⟨rows, cols⟩ :=
  rfl

end Buffer

namespace Region

/-- Fail unless the region lies inside a `rows` by `cols` matrix. -/
def checkFits (g : Region) (rows cols : Nat) : Except Error Unit :=
  Action.require (g.FitsIn rows cols) (.regionOutOfBounds g rows cols)

/-- Rows `start, ..., start + len - 1` of a region, counted from its first row. -/
def narrowRows (g : Region) (start len : Nat) : Except Error Region :=
  if start + len ≤ g.numRows then
    .ok { g with rowOffset := g.rowOffset + start, numRows := len }
  else
    .error (.failed (.narrowRows start len g.numRows))

/-- Columns `start, ..., start + len - 1` of a region, counted from its first column. -/
def narrowCols (g : Region) (start len : Nat) : Except Error Region :=
  if start + len ≤ g.numCols then
    .ok { g with colOffset := g.colOffset + start, numCols := len }
  else
    .error (.failed (.narrowCols start len g.numCols))

/-- Narrowing the rows of a region that fits gives a region that fits. -/
theorem FitsIn.narrowRows {g g' : Region} {rows cols start len : Nat}
    (hFits : g.FitsIn rows cols) (h : g.narrowRows start len = .ok g') :
    g'.FitsIn rows cols := by
  simp only [Region.narrowRows] at h
  split at h
  · cases h
    simp only [FitsIn, rowEnd, colEnd] at hFits ⊢
    omega
  · cases h

/-- Narrowing the columns of a region that fits gives a region that fits. -/
theorem FitsIn.narrowCols {g g' : Region} {rows cols start len : Nat}
    (hFits : g.FitsIn rows cols) (h : g.narrowCols start len = .ok g') :
    g'.FitsIn rows cols := by
  simp only [Region.narrowCols] at h
  split at h
  · cases h
    simp only [FitsIn, rowEnd, colEnd] at hFits ⊢
    omega
  · cases h

end Region

/-- A buffer seen through a region that fits in it. -/
structure View where
  buffer : Buffer
  region : Region
  fits : region.FitsIn buffer.numRows buffer.numCols

namespace View

/-- View a region of a buffer; the region must fit. -/
def of (b : Buffer) (g : Region) : Except Error View :=
  if h : g.FitsIn b.numRows b.numCols then
    .ok ⟨b, g, h⟩
  else
    .error (.regionOutOfBounds g b.numRows b.numCols)

/-- View all of a buffer. -/
def whole (b : Buffer) : View :=
  ⟨b, .whole b.numRows b.numCols, Region.fitsIn_whole _ _⟩

/-- View all of some dense values. -/
def ofDense {rows cols : Nat} (m : Dense rows cols) : View :=
  whole ⟨rows, cols, m⟩

/-- The number of rows seen. -/
def numRows (v : View) : Nat :=
  v.region.numRows

/-- The number of columns seen. -/
def numCols (v : View) : Nat :=
  v.region.numCols

/-- The shape of what is seen. -/
def shape (v : View) : Shape :=
  v.region.shape

/-- The element at position `(row, col)` of the view. -/
def get (v : View) (row col : Nat) : Float32 :=
  v.buffer.get (v.region.rowOffset + row) (v.region.colOffset + col)

/-- A copy of what is seen, as a buffer of its own. -/
def toBuffer (v : View) : Buffer :=
  .ofFn v.numRows v.numCols v.get

/-- What is seen, in row-major order. -/
def toArray (v : View) : Array Float32 :=
  v.toBuffer.toArray

/-- The sum of what is seen, taken in double precision and in row-major order. -/
def sum (v : View) : Float :=
  v.toArray.foldl (fun total x => total + x.toFloat) 0

/-- Rows `start, ..., start + len - 1` of a view. -/
def rows (v : View) (start len : Nat) : Except Error View :=
  match h : v.region.narrowRows start len with
  | .ok g => .ok ⟨v.buffer, g, v.fits.narrowRows h⟩
  | .error err => .error err

/-- A copy has the elements of the view. -/
theorem get_toBuffer {v : View} {row col : Nat}
    (hRow : row < v.numRows) (hCol : col < v.numCols) :
    v.toBuffer.get row col = v.get row col :=
  Dense.get_ofFn hRow hCol

@[simp]
theorem shape_toBuffer (v : View) : v.toBuffer.shape = v.shape :=
  rfl

@[simp]
theorem get_ofDense {rows cols : Nat} (m : Dense rows cols) (row col : Nat) :
    (ofDense m).get row col = m.get row col := by
  simp [ofDense, whole, get, Buffer.get, Region.whole]

@[simp]
theorem shape_ofDense {rows cols : Nat} (m : Dense rows cols) :
    (ofDense m).shape = ⟨rows, cols⟩ :=
  rfl

end View

/-- A change of dense values of one shape, which may fail. -/
abbrev Write (rows cols : Nat) : Type :=
  Action (Dense rows cols) Unit

/-- Run a change of a window on a buffer, after testing that the window fits. -/
def Write.inWindow (g : Region) (w : {rows cols : Nat} → Region → Write rows cols) :
    Action Buffer Unit := fun b =>
  if g.FitsIn b.numRows b.numCols then
    Action.mapState (fun values => ⟨b.numRows, b.numCols, values⟩) (w g b.values)
  else
    .error (.regionOutOfBounds g b.numRows b.numCols) b

/-- Running a change on a buffer never changes its shape. -/
theorem Write.shape_inWindow (g : Region)
    (w : {rows cols : Nat} → Region → Write rows cols) (b : Buffer) :
    (Action.finalState (Write.inWindow g w b)).shape = b.shape := by
  unfold Write.inWindow
  split
  · rw [Action.finalState_mapState]
    rfl
  · rfl

end MatrixProgram
