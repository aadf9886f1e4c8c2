import Mathlib.Logic.Basic
import MatrixProgram.Proofs.Kernel.Bounds

/-!
# The addresses of a region

The positions of a region that fits in a buffer are taken to different offsets inside the
storage.  Both follow from one fact on row-major offsets: below the stride, an offset
determines its row and its column, `eq_of_offset_eq`.  It also says when two regions share
storage, namely when they have a row and a column of the matrix in common,
`not_apart_iff`.

Narrowing a region changes where its positions are counted from and not where they lie.  The
offsets of a region that fits are exact, but the end of the range it is narrowed to need not be:
`narrowed_past_all_rows`.
-/

namespace MatrixProgram

namespace Region

variable {o : Overflow} {g g' h : Region} {rows cols : Nat}

/-! ## Offsets -/

/-- A row-major offset determines its row and its column, if the column is below the
stride. -/
theorem eq_of_offset_eq {row col row' col' : Nat} (hCol : col < cols) (hCol' : col' < cols)
    (hEq : row * cols + col = row' * cols + col') : row = row' ∧ col = col' := by
  have hPos : 0 < cols := by omega
  -- The quotient by the stride is the row, and what remains is the column.
  have hRow : row = row' := by
    have hDiv := congrArg (· / cols) hEq
    simpa only [Nat.add_comm (_ * cols), Nat.add_mul_div_right _ _ hPos,
      Nat.div_eq_of_lt hCol, Nat.div_eq_of_lt hCol', Nat.zero_add] using hDiv
  subst hRow
  exact ⟨rfl, Nat.add_left_cancel hEq⟩

/-- Positions of two regions at the same offset are at the same place of the matrix. -/
theorem same_place_of_storageOffset_eq (hG : g.FitsIn rows cols) (hH : h.FitsIn rows cols)
    {row col row' col' : Nat} (hCol : col < g.numCols) (hCol' : col' < h.numCols)
    (hEq : g.storageOffset cols row col = h.storageOffset cols row' col') :
    g.rowOffset + row = h.rowOffset + row' ∧ g.colOffset + col = h.colOffset + col' := by
  simp only [FitsIn, colEnd] at hG hH
  simp only [storageOffset, Nat.add_assoc] at hEq
  exact eq_of_offset_eq (by omega) (by omega) hEq

/-- Different positions of a region have different offsets. -/
theorem storageOffset_inj (hG : g.FitsIn rows cols) {row col row' col' : Nat}
    (hCol : col < g.numCols) (hCol' : col' < g.numCols)
    (hEq : g.storageOffset cols row col = g.storageOffset cols row' col') :
    row = row' ∧ col = col' := by
  obtain ⟨hRows, hCols⟩ := same_place_of_storageOffset_eq hG hG hCol hCol' hEq
  exact ⟨Nat.add_left_cancel hRows, Nat.add_left_cancel hCols⟩

/-! ## Regions that share storage -/

/-- Some position of the region lies at an offset. -/
def Occupies (o : Overflow) (g : Region) (stride offset : Nat) : Prop :=
  ∃ row col, row < g.numRows ∧ col < g.numCols ∧ o.storageOffset g stride row col = some offset

/-- No position of one region lies at the offset of a position of the other. -/
def Apart (o : Overflow) (g h : Region) (stride : Nat) : Prop :=
  ∀ offset, ¬(g.Occupies o stride offset ∧ h.Occupies o stride offset)

/-- The row ranges of two regions intersect. -/
def RowsMeet (g h : Region) : Prop :=
  ∃ row, (g.rowOffset ≤ row ∧ row < g.rowEnd) ∧ h.rowOffset ≤ row ∧ row < h.rowEnd

/-- The column ranges of two regions intersect. -/
def ColsMeet (g h : Region) : Prop :=
  ∃ col, (g.colOffset ≤ col ∧ col < g.colEnd) ∧ h.colOffset ≤ col ∧ col < h.colEnd

variable {shape : Shape} (hSize : shape.WordSized)

include hSize

/-- The offsets of a region are those of its positions on numbers. -/
theorem occupies_iff (hG : g.FitsIn shape.numRows shape.numCols) {offset : Nat} :
    g.Occupies o shape.numCols offset ↔
      ∃ row col, row < g.numRows ∧ col < g.numCols ∧
        g.storageOffset shape.numCols row col = offset := by
  refine exists₂_congr fun row col => and_congr_right fun hRow => and_congr_right fun hCol => ?_
  rw [o.storageOffset_eq hSize hG hRow (Nat.le_of_lt hCol), Option.some.injEq]

/-- A place of the matrix inside a region is one of the positions of the region. -/
theorem occupies_of_place (hG : g.FitsIn shape.numRows shape.numCols) {row col : Nat}
    (hRow : g.rowOffset ≤ row ∧ row < g.rowEnd) (hCol : g.colOffset ≤ col ∧ col < g.colEnd) :
    g.Occupies o shape.numCols (row * shape.numCols + col) := by
  simp only [rowEnd, colEnd] at hRow hCol
  refine (occupies_iff hSize hG).mpr
    ⟨row - g.rowOffset, col - g.colOffset, by omega, by omega, ?_⟩
  rw [storageOffset, Nat.add_assoc, Nat.add_sub_cancel' hRow.1, Nat.add_sub_cancel' hCol.1]

/-- Two regions share an offset exactly when they have a row and a column in common. -/
theorem not_apart_iff (hG : g.FitsIn shape.numRows shape.numCols)
    (hH : h.FitsIn shape.numRows shape.numCols) :
    ¬g.Apart o h shape.numCols ↔ g.RowsMeet h ∧ g.ColsMeet h := by
  simp only [Apart, not_forall, not_not]
  constructor
  · rintro ⟨offset, hInG, hInH⟩
    obtain ⟨row, col, hRow, hCol, rfl⟩ := (occupies_iff hSize hG).mp hInG
    obtain ⟨row', col', hRow', hCol', hEq⟩ := (occupies_iff hSize hH).mp hInH
    obtain ⟨hRows, hCols⟩ := same_place_of_storageOffset_eq hH hG hCol' hCol hEq
    refine ⟨⟨g.rowOffset + row, ?_⟩, g.colOffset + col, ?_⟩
    · simp only [rowEnd]
      omega
    · simp only [colEnd]
      omega
  · rintro ⟨⟨row, hInG, hInH⟩, col, hColG, hColH⟩
    exact ⟨row * shape.numCols + col, occupies_of_place hSize hG hInG hColG,
      occupies_of_place hSize hH hInH hColH⟩

omit hSize

/-! ## Narrowing -/

theorem narrowRows_eq_ok_iff {start len : Nat} :
    o.narrowRows g start len = some (.ok g') ↔
      ∃ first, o.narrowed g.rowOffset g.numRows start len = some (some first) ∧
        g' = { g with rowOffset := first, numRows := len } := by
  unfold Overflow.narrowRows
  rcases o.narrowed g.rowOffset g.numRows start len with _ | _ | first <;> simp [eq_comm]

theorem narrowCols_eq_ok_iff {start len : Nat} :
    o.narrowCols g start len = some (.ok g') ↔
      ∃ first, o.narrowed g.colOffset g.numCols start len = some (some first) ∧
        g' = { g with colOffset := first, numCols := len } := by
  unfold Overflow.narrowCols
  rcases o.narrowed g.colOffset g.numCols start len with _ | _ | first <;> simp [eq_comm]

/-- Where the end is exact, a range that is narrowed begins that many members later. -/
theorem first_of_narrowed {first extent start len first' : Nat} (hExact : o.Exact (start + len))
    (hEnd : first + extent < UInt64.size)
    (hNarrow : o.narrowed first extent start len = some (some first')) :
    start + len ≤ extent ∧ first' = first + start := by
  have hIf := hExact.of_narrowed hEnd hNarrow
  split at hIf
  · rename_i hInside
    exact ⟨hInside, Option.some.inj hIf⟩
  · cases hIf

/-- Rows and columns can be narrowed in either order. -/
theorem narrowRows_narrowCols_comm {start len start' len' : Nat} :
    (∃ f, o.narrowRows g start len = some (.ok f) ∧ o.narrowCols f start' len' = some (.ok g')) ↔
      ∃ f, o.narrowCols g start' len' = some (.ok f) ∧
        o.narrowRows f start len = some (.ok g') := by
  simp only [narrowRows_eq_ok_iff, narrowCols_eq_ok_iff]
  constructor
  · rintro ⟨_, ⟨first, hRows, rfl⟩, first', hCols, rfl⟩
    exact ⟨_, ⟨first', hCols, rfl⟩, first, hRows, rfl⟩
  · rintro ⟨_, ⟨first', hCols, rfl⟩, first, hRows, rfl⟩
    exact ⟨_, ⟨first, hRows, rfl⟩, first', hCols, rfl⟩

/-- Narrowing the rows twice is narrowing them once by the sum of the starts. -/
theorem narrowRows_narrowRows {start len start' len' : Nat} {f : Region}
    (hEnd : g.rowEnd < UInt64.size) (hExact : o.Exact (start + len))
    (hExact' : o.Exact (start' + len')) (hFirst : o.narrowRows g start len = some (.ok f))
    (hSecond : o.narrowRows f start' len' = some (.ok g')) :
    o.narrowRows g (start + start') len' = some (.ok g') := by
  obtain ⟨first, hNarrow, rfl⟩ := narrowRows_eq_ok_iff.mp hFirst
  obtain ⟨first', hNarrow', rfl⟩ := narrowRows_eq_ok_iff.mp hSecond
  obtain ⟨hInside, rfl⟩ := first_of_narrowed hExact hEnd hNarrow
  simp only [rowEnd] at hEnd
  obtain ⟨hInside', rfl⟩ := first_of_narrowed hExact' (by dsimp only; omega) hNarrow'
  dsimp only at hInside'
  refine narrowRows_eq_ok_iff.mpr ⟨_, o.narrowed_of_lt (by omega) hEnd, ?_⟩
  rw [Nat.add_assoc]

/-! ## All regions of a buffer -/

/-- How two regions of a buffer are addressed, and what narrowing the first one does to its
addresses. -/
structure Addressed (o : Overflow) (g h : Region) (shape : Shape) : Prop where
  tested : o.fitsIn g shape.numRows shape.numCols = some true
  inBounds : ∀ row col, row < g.numRows → col < g.numCols →
    ∃ offset, o.storageOffset g shape.numCols row col = some offset ∧
      offset < shape.numRows * shape.numCols
  injective : ∀ row col row' col', row < g.numRows → col < g.numCols → row' < g.numRows →
    col' < g.numCols →
      o.storageOffset g shape.numCols row col = o.storageOffset g shape.numCols row' col' →
        row = row' ∧ col = col'
  apart : g.Apart o h shape.numCols ↔ ¬g.RowsMeet h ∨ ¬g.ColsMeet h
  narrowedRows : ∀ start len g', o.Exact (start + len) →
    o.narrowRows g start len = some (.ok g') → g'.FitsIn shape.numRows shape.numCols ∧
      ∀ row col, row < g'.numRows → col < g'.numCols →
        o.storageOffset g' shape.numCols row col =
          o.storageOffset g shape.numCols (row + start) col
  narrowedCols : ∀ start len g', o.Exact (start + len) →
    o.narrowCols g start len = some (.ok g') → g'.FitsIn shape.numRows shape.numCols ∧
      ∀ row col, row < g'.numRows → col < g'.numCols →
        o.storageOffset g' shape.numCols row col =
          o.storageOffset g shape.numCols row (col + start)
  commute : ∀ start len start' len' g',
    (∃ f, o.narrowRows g start len = some (.ok f) ∧ o.narrowCols f start' len' = some (.ok g')) ↔
      ∃ f, o.narrowCols g start' len' = some (.ok f) ∧ o.narrowRows f start len = some (.ok g')
  narrowedTwice : ∀ start len start' len' f g', o.Exact (start + len) → o.Exact (start' + len') →
    o.narrowRows g start len = some (.ok f) → o.narrowRows f start' len' = some (.ok g') →
      o.narrowRows g (start + start') len' = some (.ok g')

/-- Regions that fit in a buffer are addressed in bounds, injectively, and stably under
narrowing to a range whose end is exact. -/
theorem addressed_of_fitsIn (o : Overflow) (hSize : shape.WordSized)
    (hG : g.FitsIn shape.numRows shape.numCols) (hH : h.FitsIn shape.numRows shape.numCols) :
    g.Addressed o h shape where
  tested := by
    rw [o.fitsIn_of_lt (Nat.lt_of_le_of_lt hG.1 hSize.rows) (Nat.lt_of_le_of_lt hG.2 hSize.cols),
      decide_eq_true hG]
  inBounds := fun _ _ hRow hCol =>
    ⟨_, o.storageOffset_eq hSize hG hRow (Nat.le_of_lt hCol), storageOffset_lt hG hRow hCol⟩
  injective := by
    intro row col row' col' hRow hCol hRow' hCol' hEq
    rw [o.storageOffset_eq hSize hG hRow (Nat.le_of_lt hCol),
      o.storageOffset_eq hSize hG hRow' (Nat.le_of_lt hCol'), Option.some.injEq] at hEq
    exact storageOffset_inj hG hCol hCol' hEq
  apart := by rw [← not_and_or, ← not_apart_iff hSize hG hH, not_not]
  narrowedRows := by
    intro start len g' hExact hNarrow
    have hEnd : g.rowEnd < UInt64.size := Nat.lt_of_le_of_lt hG.1 hSize.rows
    have hFits := hG.narrowRows (hExact.of_narrowRows hEnd hNarrow)
    obtain ⟨first, hFirst, rfl⟩ := narrowRows_eq_ok_iff.mp hNarrow
    obtain ⟨hInside, rfl⟩ := first_of_narrowed hExact hEnd hFirst
    refine ⟨hFits, fun row col hRow hCol => ?_⟩
    dsimp only at hRow hCol
    rw [o.storageOffset_eq hSize hFits hRow (Nat.le_of_lt hCol),
      o.storageOffset_eq hSize hG (by omega) (Nat.le_of_lt hCol)]
    simp only [storageOffset, Nat.add_assoc, Nat.add_comm start row]
  narrowedCols := by
    intro start len g' hExact hNarrow
    have hEnd : g.colEnd < UInt64.size := Nat.lt_of_le_of_lt hG.2 hSize.cols
    have hFits := hG.narrowCols (hExact.of_narrowCols hEnd hNarrow)
    obtain ⟨first, hFirst, rfl⟩ := narrowCols_eq_ok_iff.mp hNarrow
    obtain ⟨hInside, rfl⟩ := first_of_narrowed hExact hEnd hFirst
    refine ⟨hFits, fun row col hRow hCol => ?_⟩
    dsimp only at hRow hCol
    rw [o.storageOffset_eq hSize hFits hRow (Nat.le_of_lt hCol),
      o.storageOffset_eq hSize hG hRow (by omega)]
    simp only [storageOffset, Nat.add_assoc, Nat.add_comm start col]
  commute := fun _ _ _ _ _ => narrowRows_narrowCols_comm
  narrowedTwice := fun _ _ _ _ _ _ hExact hExact' hFirst hSecond =>
    narrowRows_narrowRows (Nat.lt_of_le_of_lt hG.1 hSize.rows) hExact hExact' hFirst hSecond

/-- The left columns of a matrix and, next to them, the lower rows of the right ones. -/
theorem addressed_left_right :
    Shape.WordSized ⟨3, 5⟩ ∧ (Region.mk 0 3 0 2).FitsIn 3 5 ∧ (Region.mk 1 2 2 3).FitsIn 3 5 ∧
      (Region.mk 0 3 0 2).Addressed .wraps (.mk 1 2 2 3) ⟨3, 5⟩ :=
  have hSize : Shape.WordSized ⟨3, 5⟩ := ⟨by decide, by decide, by decide⟩
  ⟨hSize, by decide, by decide, addressed_of_fitsIn .wraps hSize (by decide) (by decide)⟩

/-- Where sums wrap, a region is narrowed to rows past all others, which do not fit and whose
offset lies outside of the storage. -/
theorem narrowed_past_all_rows :
    (Region.mk 0 1 0 1).FitsIn 1 1 ∧
      Overflow.wraps.narrowRows ⟨0, 1, 0, 1⟩ (UInt64.size - 1) 1 =
        some (.ok ⟨UInt64.size - 1, 1, 0, 1⟩) ∧
      ¬(Region.mk (UInt64.size - 1) 1 0 1).FitsIn 1 1 ∧
      Overflow.wraps.storageOffset ⟨UInt64.size - 1, 1, 0, 1⟩ 1 0 0 = some (UInt64.size - 1) :=
  ⟨by decide, rfl, by decide, rfl⟩

end Region

end MatrixProgram
