import MatrixProgram.Proofs.Kernel.Windows

/-!
# Rows as slices of the storage

The elements of a buffer lie in one list, row by row.  A row of a region is a slice of this list,
from the offset of its first element up to the offset after its last one; to slice out of range
has no result.  Here are the changes of slices and the loops over rows from which primitives can
be made, and what they do to the storage of dense values.

Every list that occurs is `tabulate n f` for some `f`: a row of a view is the tabulation of its
elements, `View.rowSlice?_eq`, storage is the tabulation of all elements in row-major order, and
the loops take tabulations to tabulations, `foldlM_tabulate`.  So what a loop over the rows
of a window leaves behind is again the storage of dense values, those with the window mapped:
`editRows_eq_some`.
-/

namespace MatrixProgram

namespace Slices

variable {α β : Type} {n rows cols : Nat}

/-! ## Tabulated lists -/

/-- The list `f 0, ..., f (n - 1)`. -/
def tabulate (n : Nat) (f : Nat → α) : List α :=
  (List.range n).map f

@[simp]
theorem length_tabulate (n : Nat) (f : Nat → α) : (tabulate n f).length = n := by
  simp [tabulate]

theorem getElem?_tabulate (f : Nat → α) {i : Nat} (hLt : i < n) :
    (tabulate n f)[i]? = some (f i) := by
  simp [tabulate, hLt]

theorem tabulate_congr {f f' : Nat → α} (h : ∀ i < n, f i = f' i) :
    tabulate n f = tabulate n f' :=
  List.map_congr_left fun i hMem => h i (List.mem_range.mp hMem)

theorem eq_tabulate {xs : List α} {f : Nat → α} (hLength : xs.length = n)
    (h : ∀ i < n, xs[i]? = some (f i)) : xs = tabulate n f := by
  refine List.ext_getElem? fun i => ?_
  by_cases hLt : i < n
  · rw [h i hLt, getElem?_tabulate f hLt]
  · rw [List.getElem?_eq_none (by omega), List.getElem?_eq_none (by simpa using hLt)]

theorem tabulate_add (m n : Nat) (f : Nat → α) :
    tabulate (m + n) f = tabulate m f ++ tabulate n fun i => f (m + i) := by
  simp [tabulate, List.range_add]

theorem zip_tabulate (f : Nat → α) (f' : Nat → β) :
    (tabulate n f).zip (tabulate n f') = tabulate n fun i => (f i, f' i) :=
  List.zip_map'

theorem zipIdx_tabulate (f : Nat → α) :
    (tabulate n f).zipIdx = tabulate n fun i => (f i, i) := by
  refine eq_tabulate (by simp) fun i hLt => ?_
  simp [List.getElem?_zipIdx, getElem?_tabulate f hLt]

/-- A loop over a tabulated list, by what holds after each of its members. -/
theorem foldlM_tabulate {f : Nat → α} {step : β → α → Option β} (state : Nat → β)
    (h : ∀ i < n, step (state i) (f i) = some (state (i + 1))) :
    (tabulate n f).foldlM step (state 0) = some (state n) := by
  induction n with
  | zero => rfl
  | succ n ih =>
      rw [tabulate_add, List.foldlM_append, ih fun i hLt => h i (by omega)]
      simp [tabulate, h n (Nat.lt_succ_self n)]

theorem foldlM_range' {first : Nat} {step : β → Nat → Option β} (state : Nat → β)
    (h : ∀ i < n, step (state i) (first + i) = some (state (i + 1))) :
    (List.range' first n).foldlM step (state 0) = some (state n) := by
  rw [List.range'_eq_map_range]
  exact foldlM_tabulate state h

theorem foldlM_range {step : β → Nat → Option β} (state : Nat → β)
    (h : ∀ i < n, step (state i) i = some (state (i + 1))) :
    (List.range n).foldlM step (state 0) = some (state n) := by
  rw [List.range_eq_range']
  exact foldlM_range' state fun i hLt => by rw [Nat.zero_add, h i hLt]

theorem mapM_tabulate {f : Nat → α} {f' : Nat → β} {step : α → Option β}
    (h : ∀ i < n, step (f i) = some (f' i)) :
    (tabulate n f).mapM step = some (tabulate n f') := by
  induction n with
  | zero => rfl
  | succ n ih =>
      rw [tabulate_add n 1, tabulate_add n 1, List.mapM_append, ih fun i hLt => h i (by omega)]
      simp [tabulate, h n (Nat.lt_succ_self n)]

/-! ## Row-major order -/

theorem offset_div {row col : Nat} (hCol : col < cols) : (row * cols + col) / cols = row := by
  rw [Nat.mul_comm, Nat.mul_add_div (Nat.zero_lt_of_lt hCol), Nat.div_eq_of_lt hCol, Nat.add_zero]

theorem offset_mod {row col : Nat} (hCol : col < cols) : (row * cols + col) % cols = col := by
  rw [Nat.mul_comm, Nat.mul_add_mod, Nat.mod_eq_of_lt hCol]

/-- Every offset into the elements of a matrix is that of a position. -/
theorem exists_position {offset : Nat} (hLt : offset < rows * cols) :
    ∃ row col, row < rows ∧ col < cols ∧ offset = row * cols + col := by
  have hCols : 0 < cols := by
    apply Nat.pos_of_ne_zero
    rintro rfl
    simp at hLt
  exact ⟨offset / cols, offset % cols, Nat.div_lt_of_lt_mul (by rwa [Nat.mul_comm]),
    Nat.mod_lt offset hCols, (Nat.div_add_mod' offset cols).symm⟩

/-- A part of a row ends inside the elements. -/
theorem part_le {row first len : Nat} (hRow : row < rows) (hInside : first + len ≤ cols) :
    row * cols + first + len ≤ rows * cols :=
  calc
    row * cols + first + len ≤ row * cols + cols := by omega
    _ = (row + 1) * cols := (Nat.succ_mul row cols).symm
    _ ≤ rows * cols := Nat.mul_le_mul_right cols hRow

/-- The offsets of a part of a row are those of its positions. -/
theorem offset_mem_iff {row row' first len col : Nat} (hInside : first + len ≤ cols)
    (hCol : col < cols) :
    row * cols + first ≤ row' * cols + col ∧ row' * cols + col < row * cols + first + len ↔
      row' = row ∧ first ≤ col ∧ col < first + len := by
  rcases Nat.lt_trichotomy row' row with hLt | rfl | hGt
  · have hBefore : row' * cols + cols ≤ row * cols := by
      rw [← Nat.succ_mul]
      exact Nat.mul_le_mul_right cols hLt
    omega
  · omega
  · have hBehind : row * cols + cols ≤ row' * cols := by
      rw [← Nat.succ_mul]
      exact Nat.mul_le_mul_right cols hGt
    omega

/-- The elements `f row col` of a `rows` by `cols` matrix, row by row. -/
def rowMajor (rows cols : Nat) (f : Nat → Nat → α) : List α :=
  tabulate (rows * cols) fun offset => f (offset / cols) (offset % cols)

theorem rowMajor_congr {f f' : Nat → Nat → α}
    (h : ∀ row col, row < rows → col < cols → f row col = f' row col) :
    rowMajor rows cols f = rowMajor rows cols f' := by
  refine tabulate_congr fun offset hLt => ?_
  obtain ⟨row, col, hRow, hCol, rfl⟩ := exists_position hLt
  rw [offset_div hCol, offset_mod hCol, h row col hRow hCol]

theorem getElem?_rowMajor (f : Nat → Nat → α) {row col : Nat} (hRow : row < rows)
    (hCol : col < cols) : (rowMajor rows cols f)[row * cols + col]? = some (f row col) := by
  rw [rowMajor, getElem?_tabulate _ (Dense.offset_lt hRow hCol), offset_div hCol, offset_mod hCol]

/-- Elements at their positions are all elements. -/
theorem eq_rowMajor {xs : List α} {f : Nat → Nat → α} (hLength : xs.length = rows * cols)
    (h : ∀ row col, row < rows → col < cols → xs[row * cols + col]? = some (f row col)) :
    xs = rowMajor rows cols f := by
  refine eq_tabulate hLength fun offset hLt => ?_
  obtain ⟨row, col, hRow, hCol, rfl⟩ := exists_position hLt
  rw [h row col hRow hCol, offset_div hCol, offset_mod hCol]

/-- The elements with one more row. -/
theorem rowMajor_succ (f : Nat → Nat → α) :
    rowMajor (rows + 1) cols f = rowMajor rows cols f ++ tabulate cols (f rows) := by
  rw [rowMajor, Nat.succ_mul, tabulate_add]
  refine congrArg _ (tabulate_congr fun col hCol => ?_)
  rw [offset_div hCol, offset_mod hCol]

end Slices

/-- The elements of dense values, row by row. -/
def Dense.elements {rows cols : Nat} (m : Dense rows cols) : List Float32 :=
  m.data.toList

/-- The elements of a buffer, row by row. -/
def Buffer.elements (b : Buffer) : List Float32 :=
  b.values.elements

@[simp]
theorem Dense.length_elements {rows cols : Nat} (m : Dense rows cols) :
    m.elements.length = rows * cols := by
  simp [elements]

@[simp]
theorem Buffer.length_elements (b : Buffer) : b.elements.length = b.numRows * b.numCols :=
  b.values.length_elements

theorem Dense.elements_eq {rows cols : Nat} (m : Dense rows cols) :
    m.elements = Slices.rowMajor rows cols m.get := by
  refine Slices.eq_rowMajor m.length_elements fun row col hRow hCol => ?_
  simp [elements, get, hRow, hCol, offset_lt hRow hCol]

namespace Slices

variable {rows cols : Nat}

/-! ## Slices -/

/-- The elements from the index `first` up to the index `past`, which is not included; there is
no such slice if it is out of range. -/
def slice? (data : List Float32) (first past : Nat) : Option (List Float32) :=
  if first ≤ past ∧ past ≤ data.length then
    some ((data.drop first).take (past - first))
  else
    none

/-- A part of a row of a matrix is a slice of its elements. -/
theorem slice?_rowMajor (f : Nat → Nat → Float32) {row first len : Nat} (hRow : row < rows)
    (hInside : first + len ≤ cols) :
    slice? (rowMajor rows cols f) (row * cols + first) (row * cols + first + len) =
      some (tabulate len fun col => f row (first + col)) := by
  have hEnd := part_le hRow hInside
  have hLength : (rowMajor rows cols f).length = rows * cols := length_tabulate _ _
  rw [slice?, if_pos ⟨Nat.le_add_right _ _, hLength ▸ hEnd⟩]
  refine congrArg some (eq_tabulate ?_ fun col hCol => ?_)
  · simp only [List.length_take, List.length_drop]
    omega
  · rw [List.getElem?_take_of_lt (by omega), List.getElem?_drop, Nat.add_assoc,
      getElem?_rowMajor f hRow (by omega)]

end Slices

/-- The slice of the storage of a buffer for one row of a region. -/
def Buffer.rowSlice? (b : Buffer) (g : Region) (row : Nat) : Option (List Float32) :=
  let start := g.storageOffset b.numCols row 0
  Slices.slice? b.elements start (start + g.numCols)

/-- The slice for one row of a view. -/
def View.rowSlice? (v : View) (row : Nat) : Option (List Float32) :=
  v.buffer.rowSlice? v.region row

/-- A row of a view is in range, and shows the elements of the row. -/
theorem View.rowSlice?_eq (v : View) {row : Nat} (hRow : row < v.numRows) :
    v.rowSlice? row = some (Slices.tabulate v.numCols (v.get row)) := by
  have hFits := v.fits
  simp only [Region.FitsIn, Region.rowEnd, Region.colEnd] at hFits
  have hRow : row < v.region.numRows := hRow
  rw [rowSlice?, Buffer.rowSlice?, Buffer.elements, Dense.elements_eq, Region.storageOffset,
    Nat.add_zero]
  exact Slices.slice?_rowMajor _ (by omega) hFits.2

namespace Slices

variable {rows cols : Nat}

/-! ## Changes of slices -/

/-- A change of a list of elements in place; it has no result if it indexes out of range. -/
abbrev Edit : Type :=
  List Float32 → Option (List Float32)

/-- Copy a slice over another one, which must be as long. -/
def copyFrom (src : List Float32) : Edit := fun old =>
  if src.length = old.length then some src else none

/-- Zeros everywhere. -/
def fill : Edit := fun old =>
  some (old.map fun _ => 0)

/-- Change each element by its partner; those without a partner stay. -/
def zipInto {α : Type} (f : Float32 → α → Float32) (src : List α) : Edit := fun old =>
  some (old.mapIdx fun i x => (src[i]?).elim x (f x))

/-- Change a slice of a longer list. -/
def within (first past : Nat) (edit : Edit) : Edit := fun data => do
  let old ← slice? data first past
  let new ← edit old
  return data.take first ++ new ++ data.drop past

theorem getElem?_replaced {data new : List Float32} {first past : Nat}
    (hRange : first ≤ past ∧ past ≤ data.length) (hLength : new.length = past - first) (i : Nat) :
    (data.take first ++ new ++ data.drop past)[i]? =
      if first ≤ i ∧ i < past then new[i - first]? else data[i]? := by
  have hTake : (data.take first).length = first := by
    rw [List.length_take]
    omega
  rw [List.append_assoc, List.getElem?_append, hTake, List.getElem?_append, hLength]
  by_cases hBefore : i < first
  · rw [if_pos hBefore, if_neg (by omega), List.getElem?_take_of_lt hBefore]
  · by_cases hIn : i < past
    · rw [if_neg hBefore, if_pos (by omega), if_pos (by omega)]
    · rw [if_neg hBefore, if_neg (by omega), if_neg (by omega), List.getElem?_drop]
      congr 1
      omega

theorem copyFrom_tabulate {n : Nat} (f old : Nat → Float32) :
    copyFrom (tabulate n f) (tabulate n old) = some (tabulate n f) := by
  simp [copyFrom]

theorem fill_tabulate {n : Nat} (old : Nat → Float32) :
    fill (tabulate n old) = some (tabulate n fun _ => 0) :=
  congrArg some List.map_map

theorem zipInto_tabulate {α : Type} {n : Nat} (op : Float32 → α → Float32) (f : Nat → α)
    (old : Nat → Float32) :
    zipInto op (tabulate n f) (tabulate n old) = some (tabulate n fun i => op (old i) (f i)) := by
  refine congrArg some (eq_tabulate (by simp) fun i hLt => ?_)
  simp [List.getElem?_mapIdx, getElem?_tabulate _ hLt]

/-- To change a slice of a slice is to change a slice. -/
theorem within_within {data : List Float32} {first past start stop : Nat} (edit : Edit)
    (hOuter : first ≤ past ∧ past ≤ data.length) (hInner : start ≤ stop ∧ stop ≤ past - first) :
    within first past (within start stop edit) data =
      within (first + start) (first + stop) edit data := by
  have hChunk : slice? data first past = some ((data.drop first).take (past - first)) :=
    if_pos hOuter
  have hSlice : slice? ((data.drop first).take (past - first)) start stop =
      slice? data (first + start) (first + stop) := by
    have hLength : ((data.drop first).take (past - first)).length = past - first := by
      simp only [List.length_take, List.length_drop]
      omega
    rw [slice?, if_pos (by omega), slice?, if_pos (by omega), List.drop_take, List.drop_drop,
      List.take_take, Nat.add_sub_add_left, Nat.min_eq_left (by omega)]
  have hBefore : data.take first ++ ((data.drop first).take (past - first)).take start =
      data.take (first + start) := by
    rw [List.take_take, Nat.min_eq_left (by omega), List.take_add]
  have hAfter : ((data.drop first).take (past - first)).drop stop ++ data.drop past =
      data.drop (first + stop) := by
    have hRest : data.drop past = (data.drop (first + stop)).drop (past - first - stop) := by
      rw [List.drop_drop]
      congr 1
      omega
    rw [List.drop_take, List.drop_drop, hRest, List.take_append_drop]
  simp only [within, hChunk, hSlice, Option.bind_eq_bind, Option.bind_some, Option.bind_assoc,
    Option.pure_def]
  refine Option.bind_congr fun old _ => Option.bind_congr fun new _ => ?_
  rw [← hBefore, ← hAfter]
  simp only [List.append_assoc]

/-! ## Rows of a window -/

section Rows

variable {m : Dense rows cols} {g : Region}

/-- Change the slice for one row of a region. -/
def editRow (stride : Nat) (g : Region) (row : Nat) (edit : Edit) : Edit :=
  within (g.storageOffset stride row 0) (g.storageOffset stride row 0 + g.numCols) edit

/-- Change the rows of a region one after the other, each within the row of the storage that it
is a part of, which must be there in full.  A change sees its own row alone, so their order does
not matter. -/
def editRows (stride : Nat) (g : Region) (edit : Nat → Edit) : Edit := fun data =>
  if g.isEmpty then
    some data
  else if stride = 0 then
    none
  else
    (List.range g.numRows).foldlM (fun data row =>
      within ((g.rowOffset + row) * stride) ((g.rowOffset + row + 1) * stride)
        (within g.colOffset g.colEnd (edit row)) data) data

/-- Changing a row of a window that fits maps the window of this row. -/
theorem editRow_eq_some (hFits : g.FitsIn rows cols) {row : Nat} (hRow : row < g.numRows)
    {edit : Edit} {f : Nat → Float32 → Float32}
    (hEdit : ∀ old, edit (tabulate g.numCols old) =
      some (tabulate g.numCols fun col => f col (old col))) :
    editRow cols g row edit m.elements =
      some (m.mapWindow (g.rowWindow row) fun _ => f).elements := by
  simp only [Region.FitsIn, Region.rowEnd, Region.colEnd] at hFits
  have hSlice := slice?_rowMajor m.get (show g.rowOffset + row < rows by omega) hFits.2
  rw [← Dense.elements_eq] at hSlice
  rw [editRow, Region.storageOffset, Nat.add_zero]
  simp only [within, hSlice, hEdit, Option.bind_eq_bind, Option.bind_some, Option.pure_def]
  rw [Dense.elements_eq (m.mapWindow _ _)]
  have hLength : m.elements.length = rows * cols := m.length_elements
  have hEnd := part_le (show g.rowOffset + row < rows by omega) hFits.2
  refine congrArg some (eq_rowMajor ?_ fun row' col hRow' hCol => ?_)
  · simp only [List.length_append, List.length_take, List.length_drop, length_tabulate]
    omega
  · have hRange := And.intro (Nat.le_add_right ((g.rowOffset + row) * cols + g.colOffset)
      g.numCols) (hLength ▸ hEnd)
    rw [getElem?_replaced hRange (by simp), Dense.get_mapWindow hRow' hCol]
    simp only [offset_mem_iff hFits.2 hCol, Region.contains_rowWindow_iff, Region.colEnd]
    split
    · rename_i hIn
      obtain ⟨rfl, hFrom, hTo⟩ := hIn
      rw [Nat.add_sub_add_left, getElem?_tabulate _ (by omega), Nat.add_sub_cancel' hFrom]
      rfl
    · rw [Dense.elements_eq, getElem?_rowMajor _ hRow' hCol]

/-- Within the row of the storage, a row of a window is the slice for it. -/
theorem within_row (hFits : g.FitsIn rows cols) {row : Nat} (hRow : row < g.numRows)
    (edit : Edit) :
    within ((g.rowOffset + row) * cols) ((g.rowOffset + row + 1) * cols)
        (within g.colOffset g.colEnd edit) m.elements =
      editRow cols g row edit m.elements := by
  have hLast : g.rowOffset + row < rows := by
    simp only [Region.FitsIn, Region.rowEnd] at hFits
    omega
  have hEnd := part_le hLast (Nat.le_of_eq (Nat.zero_add cols))
  have hNext : (g.rowOffset + row + 1) * cols = (g.rowOffset + row) * cols + cols :=
    Nat.succ_mul _ _
  have hLength : m.elements.length = rows * cols := m.length_elements
  have hOuter : (g.rowOffset + row) * cols ≤ (g.rowOffset + row + 1) * cols ∧
      (g.rowOffset + row + 1) * cols ≤ m.elements.length := by
    omega
  have hInner : g.colOffset ≤ g.colEnd ∧
      g.colEnd ≤ (g.rowOffset + row + 1) * cols - (g.rowOffset + row) * cols := by
    rw [hNext, Nat.add_sub_cancel_left]
    exact ⟨Nat.le_add_right _ _, hFits.2⟩
  rw [within_within edit hOuter hInner, editRow, Region.storageOffset, Nat.add_zero, Region.colEnd,
    Nat.add_assoc]

/-- Mapping one more row. -/
theorem mapWindow_succ (f : Nat → Nat → Float32 → Float32) (k : Nat) :
    (m.mapWindow { g with numRows := k } f).mapWindow (g.rowWindow k) (fun _ => f k) =
      m.mapWindow { g with numRows := k + 1 } f := by
  apply Dense.ext_get
  intro row col hRow hCol
  rw [Dense.get_mapWindow hRow hCol, Dense.get_mapWindow hRow hCol, Dense.get_mapWindow hRow hCol]
  by_cases hLast : (g.rowWindow k).Contains row col
  · obtain ⟨rfl, hWidth⟩ := Region.contains_rowWindow_iff.mp hLast
    have hNew : ¬Region.Contains { g with numRows := k } (g.rowOffset + k) col := fun hOld =>
      Nat.lt_irrefl _ hOld.1.2
    have hIn : Region.Contains { g with numRows := k + 1 } (g.rowOffset + k) col :=
      ⟨⟨Nat.le_add_right _ _, Nat.lt_succ_self _⟩, hWidth⟩
    rw [if_pos hLast, if_neg hNew, if_pos hIn, Nat.add_sub_cancel_left]
    rfl
  · rw [if_neg hLast]
    rw [Region.contains_rowWindow_iff] at hLast
    refine ite_congr (propext ?_) (fun _ => rfl) fun _ => rfl
    simp only [Region.Contains, Region.rowEnd, Region.colEnd] at hLast ⊢
    omega

/-- Mapping a window without elements changes nothing. -/
theorem mapWindow_of_isEmpty (hEmpty : g.isEmpty = true)
    (f : Nat → Nat → Float32 → Float32) : m.mapWindow g f = m := by
  refine Eq.trans (Dense.mapWindow_congr ?_ m) (Dense.mapWindow_id m)
  intro row col hRow hCol old
  simp only [Region.isEmpty, Bool.or_eq_true, beq_iff_eq] at hEmpty
  omega

/-- Changing the rows of a window that fits maps the window. -/
theorem editRows_eq_some (hFits : g.FitsIn rows cols) {edit : Nat → Edit}
    {f : Nat → Nat → Float32 → Float32}
    (hEdit : ∀ row < g.numRows, ∀ old, edit row (tabulate g.numCols old) =
      some (tabulate g.numCols fun col => f row col (old col))) :
    editRows cols g edit m.elements = some (m.mapWindow g f).elements := by
  by_cases hEmpty : g.isEmpty = true
  · rw [editRows, if_pos hEmpty, mapWindow_of_isEmpty hEmpty]
  have hCols : cols ≠ 0 := by
    simp only [Region.FitsIn, Region.colEnd] at hFits
    simp only [Region.isEmpty, Bool.or_eq_true, beq_iff_eq] at hEmpty
    omega
  rw [editRows, if_neg hEmpty, if_neg hCols]
  -- After each row the storage is that of the values with the rows so far mapped.
  have hStart : m.mapWindow { g with numRows := 0 } f = m := mapWindow_of_isEmpty rfl f
  have hLoop : (List.range g.numRows).foldlM (fun data row =>
      within ((g.rowOffset + row) * cols) ((g.rowOffset + row + 1) * cols)
        (within g.colOffset g.colEnd (edit row)) data)
      (m.mapWindow { g with numRows := 0 } f).elements = some (m.mapWindow g f).elements :=
    foldlM_range (fun count => (m.mapWindow { g with numRows := count } f).elements)
      fun row hRow => by
        rw [within_row hFits hRow, editRow_eq_some hFits hRow (hEdit row hRow), mapWindow_succ]
  rw [hStart] at hLoop
  exact hLoop

end Rows

end Slices

end MatrixProgram
