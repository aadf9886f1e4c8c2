import MatrixProgram.Proofs.Program.Appending

/-!
# The variables tile the columns

The variables of a matrix, taken in the order of their numbers, stand for non-empty
intervals of columns that follow one another from the first column of the matrix to its
last.  The same holds of the variables that a view covers and the columns of the view.
Two views therefore cover a common variable exactly when they view a common column of one
matrix.

`Tiling` says what it is for intervals to follow one another.  `CutExactly` collects what
the partition of a program guarantees, and `exists_partition_cutExactly` states it for
every program of the builder whose views have exact ends.
-/

namespace MatrixProgram

/-! ## Intervals that follow one another -/

/-- Non-empty intervals that lead from `low` to `high`, each of them beginning where the
one before it ends. -/
inductive Tiling : Nat → List Interval → Nat → Prop where
  | nil (low : Nat) : Tiling low [] low
  | cons {low mid high : Nat} {rest : List Interval} (hLt : low < mid)
      (hRest : Tiling mid rest high) : Tiling low (⟨low, mid⟩ :: rest) high

namespace Tiling

variable {low high : Nat} {tiles : List Interval}

theorem le (h : Tiling low tiles high) : low ≤ high := by
  induction h with
  | nil low => exact Nat.le_refl low
  | cons hLt hRest ih => omega

/-- The intervals hold what lies between their two ends, and nothing else. -/
theorem exists_mem_iff {x : Nat} (h : Tiling low tiles high) :
    (∃ tile ∈ tiles, x ∈ tile) ↔ low ≤ x ∧ x < high := by
  induction h with
  | nil low =>
      simp only [List.not_mem_nil, false_and, exists_false, false_iff]
      omega
  | cons hLt hRest ih =>
      have hLe := hRest.le
      simp only [List.mem_cons, or_and_right, exists_or, exists_eq_left, ih]
      simp only [Interval.mem_iff]
      omega

end Tiling

/-- The members of a list of numbers, by their positions. -/
theorem mem_iff_getD {bs : List Nat} {x : Nat} :
    x ∈ bs ↔ ∃ k, k < bs.length ∧ bs.getD k 0 = x := by
  rw [List.mem_iff_getElem]
  constructor
  · rintro ⟨k, hLt, hEq⟩
    exact ⟨k, hLt, by simp [List.getElem?_eq_getElem hLt, hEq]⟩
  · rintro ⟨k, hLt, hEq⟩
    exact ⟨k, hLt, by simpa [List.getElem?_eq_getElem hLt] using hEq⟩

/-- The columns of a region. -/
def Region.columns (g : Region) : Interval :=
  ⟨g.colOffset, g.colEnd⟩

namespace Partition

/-- The variables of a range stand for intervals that follow one another through all of
the given columns. -/
def Tiles (t : Partition) (vars cols : Interval) : Prop :=
  ∃ tiles, vars.toList.mapM t.columnsOf = .ok tiles ∧ Tiling cols.first tiles cols.past

/-- The columns for which the variables of a range stand. -/
theorem Tiles.exists_columnsOf_iff {t : Partition} {vars cols : Interval} {col : Nat}
    (h : t.Tiles vars cols) :
    (∃ var ∈ vars, ∃ own, t.columnsOf var = .ok own ∧ col ∈ own) ↔ col ∈ cols := by
  obtain ⟨tiles, hTiles, hTiling⟩ := h
  rw [Interval.mem_iff, ← hTiling.exists_mem_iff]
  constructor
  · rintro ⟨var, hVar, own, hOwn, hCol⟩
    exact ⟨own, (Action.mem_check_mapM_iff hTiles).mpr
      ⟨var, Interval.mem_toList_iff.mpr hVar, hOwn⟩, hCol⟩
  · rintro ⟨own, hMem, hCol⟩
    obtain ⟨var, hVar, hOwn⟩ := (Action.mem_check_mapM_iff hTiles).mp hMem
    exact ⟨var, Interval.mem_toList_iff.mp hVar, own, hOwn, hCol⟩

/-! ## The numbers of the variables -/

theorem firstVariable_zero (bounds : List (List Nat)) : firstVariable bounds 0 = 0 := by
  simp [firstVariable]

/-- The numbers of all variables end where those of the last matrix end. -/
theorem numVariables_eq (t : Partition) :
    t.numVariables = firstVariable t.boundaries t.boundaries.length := by
  have hFrom : ∀ (bounds : List (List Nat)) (start : Nat),
      ((bounds.zipIdx start).flatMap fun entry =>
        List.replicate (intervalCount entry.1) entry.2).length
          = firstVariable bounds bounds.length := by
    intro bounds
    induction bounds with
    | nil => simp [firstVariable]
    | cons own rest ih =>
        intro start
        rw [List.zipIdx_cons, List.flatMap_cons, List.length_append, ih, List.length_cons,
          firstVariable_cons, List.length_replicate]
  exact hFrom t.boundaries 0

/-- The ranges of some matrices in a row follow one another, if each of them has a
variable. -/
theorem tiling_ofMatrix {t : Partition} {m n : Nat} (hLength : m + n ≤ t.boundaries.length)
    (hOwn : ∀ {k own}, m ≤ k → t.boundaries[k]? = some own → 0 < intervalCount own) :
    Tiling (firstVariable t.boundaries m) ((List.range' m n).map t.ofMatrix)
      (firstVariable t.boundaries (m + n)) := by
  induction n generalizing m with
  | zero => exact Tiling.nil _
  | succ n ih =>
      have hAt : m < t.boundaries.length := by omega
      have hPositive := hOwn (Nat.le_refl m) (List.getElem?_eq_getElem hAt)
      have hNext := firstVariable_succ (List.getElem?_eq_getElem hAt)
      have hRest := ih (m := m + 1) (by omega) fun hLe => hOwn (by omega)
      rw [List.range'_succ, List.map_cons, ofMatrix, if_pos hAt]
      rw [show m + 1 + n = m + (n + 1) by omega] at hRest
      exact Tiling.cons (by omega) hRest

end Partition

namespace Program

variable {p : Program} {t : Partition}

/-! ## Columns from boundaries -/

/-- The columns of the variable at a position among those of a matrix. -/
theorem columnsOf_eq_ok (h : p.partition = .ok t) {m k : Nat} {shape : Shape}
    (hMatrix : p.matrix m = .ok shape) (hLength : k + 1 < (p.boundariesOf m shape).length) :
    t.columnsOf (firstVariable p.allBoundaries m + k) =
      .ok ⟨(p.boundariesOf m shape).getD k 0, (p.boundariesOf m shape).getD (k + 1) 0⟩ := by
  have hBounds := boundaries_of_partition h
  have hAt := getElem?_allBoundaries hMatrix
  have hOwner : t.matrixOf (firstVariable p.allBoundaries m + k) = .ok m := by
    rw [Partition.matrixOf_eq_ok_iff, hBounds, firstVariable_succ hAt, intervalCount]
    exact ⟨(List.getElem?_eq_some_iff.mp hAt).1, by omega, by omega⟩
  simp only [Partition.columnsOf, hOwner, Action.check_ok_bind, hBounds,
    boundariesOf_of_partition h hMatrix, Nat.add_sub_cancel_left]
  rfl

/-- The variables between two boundaries of a matrix tile the columns between them. -/
theorem tiles_between (h : p.partition = .ok t) {m i j : Nat} {shape : Shape}
    (hMatrix : p.matrix m = .ok shape) (hLe : i ≤ j)
    (hLength : j < (p.boundariesOf m shape).length) :
    t.Tiles ⟨firstVariable p.allBoundaries m + i, firstVariable p.allBoundaries m + j⟩
      ⟨(p.boundariesOf m shape).getD i 0, (p.boundariesOf m shape).getD j 0⟩ := by
  obtain ⟨n, rfl⟩ := Nat.exists_eq_add_of_le hLe
  have hCount : firstVariable p.allBoundaries m + (i + n)
      - (firstVariable p.allBoundaries m + i) = n := by omega
  simp only [Partition.Tiles, Interval.toList, hCount]
  clear hCount hLe
  -- One variable after the other, from the boundary at `i` on.
  induction n generalizing i with
  | zero => exact ⟨[], rfl, Tiling.nil _⟩
  | succ n ih =>
      have hOwn := columnsOf_eq_ok h hMatrix (k := i) (by omega)
      have hLt := getD_lt_getD (p.pairwise_boundariesOf m shape) (Nat.lt_succ_self i)
        (by omega)
      have hShift : i + 1 + n = i + (n + 1) := by omega
      obtain ⟨tiles, hTiles, hTiling⟩ := ih (i := i + 1) (by omega)
      rw [hShift] at hTiling
      refine ⟨_ :: tiles, ?_, Tiling.cons hLt hTiling⟩
      rw [List.range'_succ, List.mapM_cons, hOwn, Nat.add_assoc, hTiles]
      rfl

/-- The boundaries of a matrix lead from its first column to its last. -/
theorem WellFormed.boundaries_ends (hWell : p.WellFormed) {m : Nat} {shape : Shape}
    (hMatrix : p.matrix m = .ok shape) :
    ∃ n, 0 < n ∧ (p.boundariesOf m shape).length = n + 1 ∧
      (p.boundariesOf m shape).getD 0 0 = 0 ∧
      (p.boundariesOf m shape).getD n 0 = shape.numCols := by
  have hZero := (matrix_eq_ok_iff.mp hMatrix).1
  have hFirst : 0 ∈ p.boundariesOf m shape :=
    mem_boundariesOf_iff.mpr (.inl ⟨hZero, .inl rfl⟩)
  have hLast : shape.numCols ∈ p.boundariesOf m shape :=
    mem_boundariesOf_iff.mpr (.inl ⟨hZero, .inr rfl⟩)
  have hPositive := (hWell.positive hMatrix).2
  have hSorted := p.pairwise_boundariesOf m shape
  obtain ⟨i, hI, hIAt⟩ := mem_iff_getD.mp hFirst
  obtain ⟨j, hJ, hJAt⟩ := mem_iff_getD.mp hLast
  -- The end of the matrix is a boundary behind its beginning.
  have hOrder : i < j := by
    apply Nat.lt_of_not_le
    intro hLe
    have := getD_le_getD hSorted hLe hI
    omega
  obtain ⟨n, hLength⟩ : ∃ n, (p.boundariesOf m shape).length = n + 1 :=
    Nat.exists_eq_add_one.mpr (by omega)
  have hHead := getD_le_getD hSorted (Nat.zero_le i) hI
  have hPast := getD_le_getD hSorted (i := j) (j := n) (by omega) (by omega)
  have hBelow := hWell.boundary_le hMatrix (mem_iff_getD.mpr ⟨n, by omega, rfl⟩)
  exact ⟨n, by omega, hLength, by omega, by omega⟩

/-! ## What the partition guarantees -/

/-- The variables of a partition are the pieces into which the views of a program cut the
columns of its matrices. -/
structure CutExactly (p : Program) (t : Partition) : Prop where
  /-- The empty matrix has no variables, and nor does an index past the last matrix. -/
  none : ∀ {m}, m = 0 ∨ p.numMatrices ≤ m → t.ofMatrix m = .empty
  /-- The other matrices number theirs one after the other. -/
  consecutive : Tiling 0 ((List.range' 1 (p.numMatrices - 1)).map t.ofMatrix) t.numVariables
  /-- A variable has the matrix among whose variables it is. -/
  owner : ∀ {var m}, t.matrixOf var = .ok m ↔ var ∈ t.ofMatrix m
  /-- Every variable has a matrix and columns. -/
  found : ∀ {var}, var < t.numVariables →
    ∃ m cols, t.matrixOf var = .ok m ∧ t.columnsOf var = .ok cols
  /-- No other number has any. -/
  notFound : ∀ {var}, t.numVariables ≤ var →
    t.matrixOf var = .error (.failed (.variableIndex var)) ∧
      t.columnsOf var = .error (.failed (.variableIndex var))
  /-- The variables of a matrix stand for all of its columns, piece by piece. -/
  whole : ∀ {m shape}, p.matrix m = .ok shape → t.Tiles (t.ofMatrix m) ⟨0, shape.numCols⟩
  /-- A view covers variables of its matrix only, which stand for its own columns. -/
  covered : ∀ {s view}, p.subMatrix s = .ok view →
    (∀ var ∈ t.ofSubMatrix s, t.matrixOf var = .ok view.matrix) ∧
      t.Tiles (t.ofSubMatrix s) view.region.columns ∧
        ∀ col, (∃ var ∈ t.ofSubMatrix s, ∃ own, t.columnsOf var = .ok own ∧ col ∈ own) ↔
          col ∈ view.region.columns
  /-- Two views cover a common variable exactly when they view a common column. -/
  meet : ∀ {s s' view view'}, p.subMatrix s = .ok view → p.subMatrix s' = .ok view' →
    ((∃ var, var ∈ t.ofSubMatrix s ∧ var ∈ t.ofSubMatrix s') ↔
      view.matrix = view'.matrix ∧
        ∃ col, col ∈ view.region.columns ∧ col ∈ view'.region.columns)

/-- A matrix of a well-formed program has a variable. -/
private theorem WellFormed.intervalCount_pos (hWell : p.WellFormed) {m : Nat}
    {own : List Nat} (hZero : 1 ≤ m) (hOwn : p.allBoundaries[m]? = some own) :
    0 < intervalCount own := by
  have hLt : m < p.numMatrices := by
    simpa [allBoundaries, numMatrices] using (List.getElem?_eq_some_iff.mp hOwn).1
  obtain ⟨shape, hMatrix⟩ := exists_matrix (Nat.ne_of_gt hZero) hLt
  obtain ⟨n, hPos, hLength, -⟩ := hWell.boundaries_ends hMatrix
  rw [getElem?_allBoundaries hMatrix, Option.some.injEq] at hOwn
  rw [← hOwn, intervalCount, hLength]
  exact hPos

/-- The empty matrix comes first, without variables. -/
private theorem WellFormed.firstVariable_one (hWell : p.WellFormed) :
    firstVariable p.allBoundaries 1 = 0 := by
  have hNone : p.allBoundaries[0]? = some [] := by
    simp [allBoundaries, hWell.emptyMatrix, hWell.boundariesOf_zero]
  rw [firstVariable_succ hNone, Partition.firstVariable_zero]
  rfl

theorem length_allBoundaries (p : Program) : p.allBoundaries.length = p.numMatrices := by
  simp [allBoundaries, numMatrices]

/-- The ranges of the matrices follow one another from the first variable to the last. -/
theorem WellFormed.tiling_matrices (hWell : p.WellFormed) (h : p.partition = .ok t) :
    Tiling 0 ((List.range' 1 (p.numMatrices - 1)).map t.ofMatrix) t.numVariables := by
  have hBounds := boundaries_of_partition h
  have hCount : 1 + (p.numMatrices - 1) = p.numMatrices := by
    have : 0 < p.numMatrices := (List.getElem?_eq_some_iff.mp hWell.emptyMatrix).1
    omega
  have hLength : 1 + (p.numMatrices - 1) ≤ t.boundaries.length := by
    rw [hBounds, length_allBoundaries]
    omega
  have hTiling := Partition.tiling_ofMatrix hLength fun hLe hOwn =>
    hWell.intervalCount_pos hLe (hBounds ▸ hOwn)
  rw [hBounds, hWell.firstVariable_one, hCount] at hTiling
  rw [Partition.numVariables_eq, hBounds, length_allBoundaries]
  exact hTiling

/-- The variables of a matrix stand for all of its columns. -/
theorem WellFormed.tiles_ofMatrix (hWell : p.WellFormed) (h : p.partition = .ok t) {m : Nat}
    {shape : Shape} (hMatrix : p.matrix m = .ok shape) :
    t.Tiles (t.ofMatrix m) ⟨0, shape.numCols⟩ := by
  obtain ⟨n, -, hLength, hFirst, hLast⟩ := hWell.boundaries_ends hMatrix
  have hTiles := tiles_between h hMatrix (Nat.zero_le n) (by omega)
  rw [hFirst, hLast, Nat.add_zero] at hTiles
  have hLt : m < t.boundaries.length := by
    rw [boundaries_of_partition h, length_allBoundaries]
    exact lt_numMatrices_of_matrix hMatrix
  rw [Partition.ofMatrix, if_pos hLt, boundaries_of_partition h,
    firstVariable_succ (getElem?_allBoundaries hMatrix), intervalCount, hLength]
  exact hTiles

/-- The variables that a view covers stand for its columns. -/
theorem WellFormed.tiles_ofSubMatrix (hWell : p.WellFormed) (h : p.partition = .ok t)
    {s : Nat} {view : SubMatrix} (hView : p.subMatrix s = .ok view) :
    t.Tiles (t.ofSubMatrix s) view.region.columns := by
  obtain ⟨shape, hMatrix, -⟩ := hWell.fits hView
  obtain ⟨first, past, hOrder, hPast, hFirstAt, hPastAt, hCoverage⟩ :=
    hWell.exists_coverageOf hView hMatrix
  have hTiles := tiles_between h hMatrix (Nat.le_of_lt hOrder) hPast
  rw [hFirstAt, hPastAt] at hTiles
  rw [Partition.ofSubMatrix, coverage_of_partition h hView hCoverage]
  exact hTiles

/-- Two views cover a common variable exactly when they view a common column. -/
theorem WellFormed.meet_iff (hWell : p.WellFormed) (h : p.partition = .ok t) {s s' : Nat}
    {view view' : SubMatrix} (hView : p.subMatrix s = .ok view)
    (hView' : p.subMatrix s' = .ok view') :
    (∃ var, var ∈ t.ofSubMatrix s ∧ var ∈ t.ofSubMatrix s') ↔
      view.matrix = view'.matrix ∧
        ∃ col, col ∈ view.region.columns ∧ col ∈ view'.region.columns := by
  constructor
  · rintro ⟨var, hMem, hMem'⟩
    -- Any column of the common variable is a common column.
    obtain ⟨col, hCol⟩ :=
      hWell.exists_column h (hWell.matrixOf_of_mem_ofSubMatrix h hView hMem)
    obtain ⟨-, hIn⟩ := (hWell.mem_ofSubMatrix_iff h hCol hView).mp hMem
    obtain ⟨hSame, hIn'⟩ := (hWell.mem_ofSubMatrix_iff h hCol hView').mp hMem'
    exact ⟨hSame.symm, col, hIn, hIn'⟩
  · rintro ⟨hSame, col, hIn, hIn'⟩
    obtain ⟨shape, hMatrix, -, hFits⟩ := hWell.fits hView
    obtain ⟨var, hCol⟩ :=
      hWell.exists_hasColumn h hMatrix (Nat.lt_of_lt_of_le hIn.2 hFits)
    exact ⟨var, (hWell.mem_ofSubMatrix_iff h hCol hView).mpr ⟨rfl, hIn⟩,
      (hWell.mem_ofSubMatrix_iff h hCol hView').mpr ⟨hSame.symm, hIn'⟩⟩

/-- The variables of a well-formed program are the pieces of its columns. -/
theorem WellFormed.cutExactly (hWell : p.WellFormed) (h : p.partition = .ok t) :
    p.CutExactly t where
  none := by
    intro m hNone
    have hBounds := boundaries_of_partition h
    rw [Partition.ofMatrix, hBounds, length_allBoundaries]
    rcases hNone with rfl | hPast
    · rw [hWell.firstVariable_one, Partition.firstVariable_zero, Interval.empty]
      exact ite_self _
    · exact if_neg (Nat.not_lt.mpr hPast)
  consecutive := hWell.tiling_matrices h
  owner := Partition.mem_ofMatrix_iff.symm
  found := by
    intro var hLt
    obtain ⟨m, hOwner⟩ := Partition.exists_matrixOf_iff.mpr hLt
    obtain ⟨col, -, cols, hCols, -⟩ := hWell.exists_column h hOwner
    exact ⟨m, cols, hOwner, hCols⟩
  notFound := by
    intro var hPast
    have hNone : t.matrixOf var = .error (.failed (.variableIndex var)) := by
      rw [Partition.matrixOf, List.getElem?_eq_none hPast]
    exact ⟨hNone, by rw [Partition.columnsOf, hNone]; rfl⟩
  whole := hWell.tiles_ofMatrix h
  covered := by
    intro s view hView
    have hTiles := hWell.tiles_ofSubMatrix h hView
    exact ⟨fun var hMem => hWell.matrixOf_of_mem_ofSubMatrix h hView hMem, hTiles,
      fun col => hTiles.exists_columnsOf_iff⟩
  meet := hWell.meet_iff h

/-- Every program of the builder whose views have exact ends has a partition, whose variables are
exactly the pieces into which its views cut its columns.  The widths of its matrices are words, as
all numbers given to the builder are. -/
theorem exists_partition_cutExactly {o : Overflow} {steps : List BuildStep}
    (hProgram : p = o.runSteps steps .empty) (hExact : p.ExactViews o)
    (hWidths : ∀ m shape, p.matrix m = .ok shape → shape.numCols < UInt64.size) :
    ∃ t, o.partition p = some (.ok t) ∧ p.CutExactly t := by
  subst hProgram
  have hWell := (built_runSteps steps hExact).wellFormed
  obtain ⟨t, h⟩ := hWell.exists_partition
  have hWords := partition_of_lt o fun s view hView => by
    obtain ⟨shape, hMatrix, -, hCols⟩ := hWell.fits hView
    exact Nat.lt_of_le_of_lt hCols (hWidths _ shape hMatrix)
  exact ⟨t, by rw [hWords, h], hWell.cutExactly h⟩

/-! ## A matrix with two views -/

/-- A matrix of five columns, and a view of the third and the fourth. -/
def slicedSteps : List BuildStep :=
  [.matrix 10 5, .columns 1 2 2]

/-- The five columns are cut into three variables, of which the view covers the second. -/
theorem slicedSteps_cutExactly :
    let p := Overflow.wraps.runSteps slicedSteps .empty
    p.ExactViews .wraps ∧
      ∃ t, Overflow.wraps.partition p = some (.ok t) ∧ p.CutExactly t ∧
        (List.range 3).mapM t.columnsOf = .ok [⟨0, 2⟩, ⟨2, 4⟩, ⟨4, 5⟩] ∧
          t.ofSubMatrix 2 = ⟨1, 2⟩ := by
  intro p
  have hViews : p.subMatrices = [⟨0, .empty⟩, ⟨1, .whole 10 5⟩, ⟨1, ⟨0, 10, 2, 2⟩⟩] := rfl
  have hMatrices : p.matrices = [⟨0, 0⟩, ⟨10, 5⟩] := rfl
  have hExact : p.ExactViews .wraps := by
    intro s view hView
    obtain ⟨-, hGet⟩ := subMatrix_eq_ok_iff.mp hView
    have hMem := List.mem_of_getElem? hGet
    rw [hViews] at hMem
    have hAll : ∀ view ∈ ([⟨0, .empty⟩, ⟨1, .whole 10 5⟩, ⟨1, ⟨0, 10, 2, 2⟩⟩] : List SubMatrix),
        Overflow.wraps.Exact view.region.rowEnd ∧ Overflow.wraps.Exact view.region.colEnd := by
      decide
    exact ⟨(hAll view hMem).1, (hAll view hMem).2⟩
  have hWidths : ∀ m shape, p.matrix m = .ok shape → shape.numCols < UInt64.size := by
    intro m shape hMatrix
    obtain ⟨-, hGet⟩ := matrix_eq_ok_iff.mp hMatrix
    have hMem := List.mem_of_getElem? hGet
    rw [hMatrices] at hMem
    have hAll : ∀ shape ∈ ([⟨0, 0⟩, ⟨10, 5⟩] : List Shape), shape.numCols < UInt64.size := by
      decide
    exact hAll shape hMem
  obtain ⟨t, h, hCut⟩ := exists_partition_cutExactly rfl hExact hWidths
  have hKnown : Overflow.wraps.partition p = some (.ok
      ⟨[[], [0, 2, 4, 5]], [⟨.empty, false⟩, ⟨⟨0, 3⟩, true⟩, ⟨⟨1, 2⟩, true⟩]⟩) := rfl
  rw [hKnown, Option.some.injEq, Except.ok.injEq] at h
  subst h
  exact ⟨hExact, _, hKnown, hCut, rfl, rfl⟩

/-- A view of a column past all others is accepted where sums wrap, and covers no columns. -/
theorem bigColumns_no_partition :
    let p := Overflow.wraps.runSteps bigColumns .empty
    p.subMatrix 2 = .ok ⟨1, ⟨0, 1, UInt64.size - 1, 1⟩⟩ ∧
      Overflow.wraps.partition p = some (.error (.malformed none (.coversNoColumns 2))) :=
  ⟨rfl, rfl⟩

end Program

end MatrixProgram
