import Mathlib.Data.List.Basic
import MatrixProgram.Proofs.Analysis.Cuts
import MatrixProgram.Proofs.Program.WellFormed

/-!
# The columns of variables

The partition of a well-formed program always exists, and its variables are exactly the
pieces into which the views cut the columns of the matrices: every column lies in a variable,
and a view covers a variable exactly when it covers any one of its columns.

`HasColumn` relates a variable to the columns it stands for.  Everything that is proved
later about variables goes through it, so that no later proof speaks of boundaries.
-/

namespace MatrixProgram

/-- Column `col` of matrix `m` lies in a variable. -/
def Partition.HasColumn (t : Partition) (var m col : Nat) : Prop :=
  t.matrixOf var = .ok m ∧ ∃ cols, t.columnsOf var = .ok cols ∧ col ∈ cols

namespace Program

variable {p : Program} {t : Partition}

/-! ## Boundaries -/

/-- All members of a list but the first one, with their positions. -/
theorem mem_drop_zipIdx_iff {α : Type} {xs : List α} {x : α} {i : Nat} :
    (x, i) ∈ xs.zipIdx.drop 1 ↔ i ≠ 0 ∧ xs[i]? = some x := by
  rw [List.mem_iff_getElem?]
  simp only [List.getElem?_drop, List.getElem?_zipIdx, Option.map_eq_some_iff,
    Prod.mk.injEq, Nat.zero_add]
  constructor
  · intro h
    obtain ⟨k, x', hGet, rfl, rfl⟩ := h
    exact ⟨by omega, hGet⟩
  · intro h
    obtain ⟨hZero, hGet⟩ := h
    obtain ⟨k, rfl⟩ := Nat.exists_eq_add_of_lt (Nat.pos_of_ne_zero hZero)
    refine ⟨k, x, ?_, rfl, by omega⟩
    rw [← hGet]
    congr 1
    omega

/-- A view of a program stands behind the empty one. -/
theorem mem_views_iff {view : SubMatrix} {s : Nat} :
    (view, s) ∈ p.views ↔ p.subMatrix s = .ok view := by
  rw [subMatrix_eq_ok_iff, views, mem_drop_zipIdx_iff, noSubMatrix]

/-- The boundaries of a matrix are its two ends and those of its views. -/
theorem mem_boundariesOf_iff {m x : Nat} {shape : Shape} :
    x ∈ p.boundariesOf m shape ↔
      m ≠ 0 ∧ (x = 0 ∨ x = shape.numCols) ∨
        ∃ s view, p.subMatrix s = .ok view ∧ view.matrix = m ∧
          (x = view.region.colOffset ∨ x = view.region.colEnd) := by
  simp only [boundariesOf, boundariesBy, Ascending.mem_ofList_iff, List.mem_append,
    List.mem_flatMap, Prod.exists]
  refine or_congr ?_ ⟨?_, ?_⟩
  · by_cases hZero : m = 0 <;> simp [hZero]
  · intro h
    obtain ⟨view, s, hView, hEnd⟩ := h
    split at hEnd
    · rename_i hMatrix
      exact ⟨s, view, mem_views_iff.mp hView, hMatrix, by simpa using hEnd⟩
    · simp at hEnd
  · intro h
    obtain ⟨s, view, hView, hMatrix, hEnd⟩ := h
    exact ⟨view, s, mem_views_iff.mpr hView, by simpa [hMatrix] using hEnd⟩

/-- The empty matrix has no boundaries. -/
theorem WellFormed.boundariesOf_zero (h : p.WellFormed) (shape : Shape) :
    p.boundariesOf 0 shape = [] := by
  apply List.eq_nil_iff_forall_not_mem.mpr
  intro x hMem
  rcases mem_boundariesOf_iff.mp hMem with ⟨hZero, -⟩ | ⟨s, view, hView, hMatrix, -⟩
  · exact hZero rfl
  · obtain ⟨shape', hFound, -⟩ := h.fits hView
    exact (matrix_eq_ok_iff.mp hFound).1 hMatrix

/-- The boundaries of a matrix ascend strictly. -/
theorem pairwise_boundariesOf (p : Program) (m : Nat) (shape : Shape) :
    (p.boundariesOf m shape).Pairwise (· < ·) :=
  Ascending.pairwise_ofList _

/-- No boundary lies past the last column. -/
theorem WellFormed.boundary_le (h : p.WellFormed) {m x : Nat} {shape : Shape}
    (hMatrix : p.matrix m = .ok shape) (hMem : x ∈ p.boundariesOf m shape) :
    x ≤ shape.numCols := by
  rcases mem_boundariesOf_iff.mp hMem with ⟨-, rfl | rfl⟩ | ⟨s, view, hView, rfl, hEnd⟩
  · exact Nat.zero_le _
  · exact Nat.le_refl _
  · obtain ⟨shape', hMatrix', -, hCols⟩ := h.fits hView
    rw [hMatrix] at hMatrix'
    cases hMatrix'
    simp only [Region.colEnd] at hEnd hCols
    omega

/-! ## The partition exists -/

/-- The boundaries of every matrix, in the order of the matrices. -/
def allBoundaries (p : Program) : List (List Nat) :=
  p.matrices.zipIdx.map fun (shape, m) => p.boundariesOf m shape

/-- The boundaries of one matrix among those of all. -/
theorem getElem?_allBoundaries {m : Nat} {shape : Shape} (h : p.matrix m = .ok shape) :
    p.allBoundaries[m]? = some (p.boundariesOf m shape) := by
  simp [allBoundaries, (matrix_eq_ok_iff.mp h).2]

/-- A value that is in a list is found at the first position that holds it. -/
private theorem exists_position {xs : List Nat} {x : Nat} (h : x ∈ xs) :
    ∃ k, xs.findIdx? (· == x) = some k ∧ k < xs.length ∧ xs.getD k 0 = x := by
  have hSome : (xs.findIdx? (· == x)).isSome = true := by
    rw [List.findIdx?_isSome, List.any_eq_true]
    exact ⟨x, h, by simp⟩
  obtain ⟨k, hFind⟩ := Option.isSome_iff_exists.mp hSome
  obtain ⟨hLength, hEq, -⟩ := List.findIdx?_eq_some_iff_getElem.mp hFind
  refine ⟨k, hFind, hLength, ?_⟩
  rw [List.getD_eq_getElem?_getD, List.getElem?_eq_getElem hLength]
  simpa using hEq

/-- What a view covers: the variables between the positions of its two ends among the
boundaries of its matrix. -/
theorem WellFormed.exists_coverageOf (h : p.WellFormed) {s : Nat} {view : SubMatrix}
    {shape : Shape} (hView : p.subMatrix s = .ok view)
    (hMatrix : p.matrix view.matrix = .ok shape) :
    ∃ first past, first < past ∧ past < (p.boundariesOf view.matrix shape).length ∧
      (p.boundariesOf view.matrix shape).getD first 0 = view.region.colOffset ∧
      (p.boundariesOf view.matrix shape).getD past 0 = view.region.colEnd ∧
      p.coverageBy Region.colEnd p.allBoundaries s view = .ok
        ⟨⟨firstVariable p.allBoundaries view.matrix + first,
            firstVariable p.allBoundaries view.matrix + past⟩,
          decide (view.region.SpansRows shape.numRows)⟩ := by
  have hFirstMem : view.region.colOffset ∈ p.boundariesOf view.matrix shape :=
    mem_boundariesOf_iff.mpr (.inr ⟨s, view, hView, rfl, .inl rfl⟩)
  have hPastMem : view.region.colEnd ∈ p.boundariesOf view.matrix shape :=
    mem_boundariesOf_iff.mpr (.inr ⟨s, view, hView, rfl, .inr rfl⟩)
  obtain ⟨first, hFirst, hFirstLt, hFirstAt⟩ := exists_position hFirstMem
  obtain ⟨past, hPast, hPastLt, hPastAt⟩ := exists_position hPastMem
  have hNonempty := (h.nonempty hView).2
  -- The view has a column, so its left end is the earlier boundary.
  have hOrder : first < past := by
    apply Nat.lt_of_not_le
    intro hLe
    have hEnds := getD_le_getD (p.pairwise_boundariesOf view.matrix shape) hLe hFirstLt
    rw [hFirstAt, hPastAt] at hEnds
    simp only [Region.colEnd] at hEnds
    omega
  refine ⟨first, past, hOrder, hPastLt, hFirstAt, hPastAt, ?_⟩
  simp only [coverageBy, getElem?_allBoundaries hMatrix, Option.getD_some, hFirst, hPast,
    hMatrix, Action.check_ok_bind, if_neg (Nat.not_le.mpr hOrder)]
  rfl

/-- A well-formed program has a partition. -/
theorem WellFormed.exists_partition (h : p.WellFormed) : ∃ t, p.partition = .ok t := by
  have hColumns : p.views.forM
      (fun entry => p.requireColumnsBy Region.colEnd entry.2 entry.1) = .ok () := by
    rw [Action.check_forM_eq_ok_iff]
    intro entry hView
    obtain ⟨shape, hMatrix, -, hCols⟩ := h.fits (mem_views_iff.mp hView)
    simp [requireColumnsBy, hMatrix, hCols]
  have hEach : ∀ entry ∈ p.views, ∃ c,
      p.coverageBy Region.colEnd p.allBoundaries entry.2 entry.1 = .ok c := by
    intro entry hView
    obtain ⟨shape, hMatrix, -⟩ := h.fits (mem_views_iff.mp hView)
    obtain ⟨_, _, -, -, -, -, hCoverage⟩ :=
      h.exists_coverageOf (mem_views_iff.mp hView) hMatrix
    exact ⟨_, hCoverage⟩
  obtain ⟨covered, hCovered⟩ := Action.exists_check_mapM hEach
  refine ⟨⟨p.allBoundaries, ⟨.empty, false⟩ :: covered⟩, ?_⟩
  simp only [partition, partitionBy, Action.check_bind_eq_ok_iff]
  exact ⟨(), hColumns, covered, hCovered, rfl⟩

/-- The boundaries of a partition are those of the matrices. -/
theorem boundaries_of_partition (h : p.partition = .ok t) :
    t.boundaries = p.allBoundaries := by
  simp only [partition, partitionBy, Action.check_bind_eq_ok_iff] at h
  obtain ⟨-, -, covered, -, hEq⟩ := h
  cases hEq
  rfl

/-- A partition covers each view as the boundaries say. -/
theorem coverage_of_partition (h : p.partition = .ok t) {s : Nat} {view : SubMatrix}
    {c : Coverage} (hView : p.subMatrix s = .ok view)
    (hCoverage : p.coverageBy Region.colEnd p.allBoundaries s view = .ok c) :
    t.coverage[s]? = some c := by
  simp only [partition, partitionBy, Action.check_bind_eq_ok_iff] at h
  obtain ⟨-, -, covered, hCovered, hEq⟩ := h
  cases hEq
  obtain ⟨hZero, hGet⟩ := subMatrix_eq_ok_iff.mp hView
  obtain ⟨i, rfl⟩ := Nat.exists_eq_succ_of_ne_zero hZero
  have hAt := congrArg (·[i]?) (Action.check_mapM_eq_ok_iff.mp hCovered)
  have hEntry : p.views[i]? = some (view, i + 1) := by
    simp [views, Nat.add_comm 1 i, hGet]
  simp only [List.getElem?_map, hEntry, Option.map_some] at hAt
  rw [List.getElem?_cons_succ]
  cases hFound : covered[i]? with
  | none => simp [hFound] at hAt
  | some c' =>
      have hSame : p.coverageBy Region.colEnd p.allBoundaries (i + 1) view = .ok c' := by
        simpa [hFound, allBoundaries, boundariesOf] using hAt
      rw [hCoverage] at hSame
      cases hSame
      rfl

/-- A partition covers nothing for an index that is not one of a view. -/
theorem ofSubMatrix_of_no_view (h : p.partition = .ok t) {s : Nat}
    (hView : ∀ view, p.subMatrix s ≠ .ok view) (var : Nat) : var ∉ t.ofSubMatrix s := by
  simp only [partition, partitionBy, Action.check_bind_eq_ok_iff] at h
  obtain ⟨-, -, covered, hCovered, hEq⟩ := h
  cases hEq
  have hLength := congrArg List.length (Action.check_mapM_eq_ok_iff.mp hCovered)
  simp only [List.length_map, views, List.length_drop, List.length_zipIdx] at hLength
  cases s with
  | zero => simp [Partition.ofSubMatrix, Interval.mem_iff, Interval.empty]
  | succ i =>
      have hPast : p.subMatrices.length ≤ i + 1 := by
        apply Nat.le_of_not_lt
        intro hLt
        exact hView p.subMatrices[i + 1] (subMatrix_eq_ok_iff.mpr
          ⟨Nat.succ_ne_zero i, List.getElem?_eq_getElem hLt⟩)
      have hNone : covered[i]? = none := List.getElem?_eq_none (by omega)
      simp [Partition.ofSubMatrix, hNone, Interval.mem_iff, Interval.empty]

/-! ## Ends that are words -/

/-- Only the ends of the views matter to the partition. -/
theorem partitionBy_congr {colEnd colEnd' : Region → Nat}
    (h : ∀ s view, p.subMatrix s = .ok view → colEnd view.region = colEnd' view.region) :
    p.partitionBy colEnd = p.partitionBy colEnd' := by
  have hEnd : ∀ entry ∈ p.views, colEnd entry.1.region = colEnd' entry.1.region :=
    fun entry hView => h entry.2 entry.1 (mem_views_iff.mp hView)
  have hColumns : p.views.forM (fun entry => p.requireColumnsBy colEnd entry.2 entry.1) =
      p.views.forM fun entry => p.requireColumnsBy colEnd' entry.2 entry.1 :=
    Action.check_forM_congr fun entry hView => by
      simp only [requireColumnsBy, hEnd entry hView]
  have hBoundaries : p.boundariesBy colEnd = p.boundariesBy colEnd' := by
    funext m shape
    unfold boundariesBy
    congr 2
    exact List.flatMap_congr fun entry hView => by simp only [hEnd entry hView]
  have hCovered : ∀ boundaries,
      p.views.mapM (fun entry => p.coverageBy colEnd boundaries entry.2 entry.1) =
        p.views.mapM fun entry => p.coverageBy colEnd' boundaries entry.2 entry.1 :=
    fun boundaries => Action.check_mapM_congr fun entry hView => by
      simp only [coverageBy, hEnd entry hView]
  simp only [partitionBy, hColumns, hBoundaries, hCovered]

/-- Where all views end at words, the partition is the one on numbers. -/
theorem partition_of_lt (o : Overflow)
    (h : ∀ s view, p.subMatrix s = .ok view → view.region.colEnd < UInt64.size) :
    o.partition p = some p.partition := by
  have hEnd : ∀ s view, p.subMatrix s = .ok view →
      o.colEnd view.region = some view.region.colEnd :=
    fun s view hView => o.word_of_lt (h s view hView)
  have hAll : p.views.all (fun entry => (o.colEnd entry.1.region).isSome) = true :=
    List.all_eq_true.mpr fun entry hView => by
      rw [hEnd entry.2 entry.1 (mem_views_iff.mp hView)]
      rfl
  have hSame : p.partitionBy (fun g => (o.colEnd g).getD 0) = p.partitionBy Region.colEnd :=
    partitionBy_congr fun s view hView => by rw [hEnd s view hView, Option.getD_some]
  rw [Overflow.partition, if_pos hAll, hSame, partition]

/-! ## Variables and columns -/

/-- The boundaries of a matrix, as the partition keeps them. -/
theorem boundariesOf_of_partition (h : p.partition = .ok t) {m : Nat} {shape : Shape}
    (hMatrix : p.matrix m = .ok shape) : t.boundariesOf m = p.boundariesOf m shape := by
  rw [Partition.boundariesOf, boundaries_of_partition h, getElem?_allBoundaries hMatrix,
    Option.getD_some]

/-- A column lies in a variable exactly when the variable is the interval of the matrix's
boundaries that holds the column. -/
theorem hasColumn_iff (hWell : p.WellFormed) (h : p.partition = .ok t) {var m col : Nat} :
    t.HasColumn var m col ↔
      ∃ shape k, p.matrix m = .ok shape ∧ k + 1 < (p.boundariesOf m shape).length ∧
        var = firstVariable p.allBoundaries m + k ∧
        (p.boundariesOf m shape).getD k 0 ≤ col ∧
        col < (p.boundariesOf m shape).getD (k + 1) 0 := by
  have hBounds := boundaries_of_partition h
  constructor
  · rintro ⟨hOwner, cols, hCols, hMem⟩
    obtain ⟨hLength, hFrom, hTo⟩ := Partition.matrixOf_eq_ok_iff.mp hOwner
    have hLt : m < p.numMatrices := by
      simpa [hBounds, allBoundaries, numMatrices] using hLength
    have hZero : m ≠ 0 := by
      rintro rfl
      have hNone : p.allBoundaries[0]? = some [] := by
        simp [allBoundaries, hWell.emptyMatrix, hWell.boundariesOf_zero]
      rw [hBounds] at hFrom
      rw [hBounds, firstVariable_succ hNone] at hTo
      simp only [intervalCount, List.length_nil] at hTo
      omega
    obtain ⟨shape, hMatrix⟩ := exists_matrix hZero hLt
    have hOwn := boundariesOf_of_partition h hMatrix
    rw [hBounds, firstVariable_succ (getElem?_allBoundaries hMatrix)] at hTo
    rw [hBounds] at hFrom
    simp only [Partition.columnsOf, hOwner, Action.check_ok_bind, hOwn, hBounds] at hCols
    cases hCols
    refine ⟨shape, var - firstVariable p.allBoundaries m, hMatrix, ?_, by omega, hMem.1,
      hMem.2⟩
    simp only [intervalCount] at hTo
    omega
  · rintro ⟨shape, k, hMatrix, hLength, rfl, hFrom, hTo⟩
    have hAt := getElem?_allBoundaries hMatrix
    have hOwner : t.matrixOf (firstVariable p.allBoundaries m + k) = .ok m := by
      rw [Partition.matrixOf_eq_ok_iff, hBounds, firstVariable_succ hAt, intervalCount]
      exact ⟨(List.getElem?_eq_some_iff.mp hAt).1, by omega, by omega⟩
    refine ⟨hOwner, ⟨(p.boundariesOf m shape).getD k 0,
      (p.boundariesOf m shape).getD (k + 1) 0⟩, ?_, hFrom, hTo⟩
    simp only [Partition.columnsOf, hOwner, Action.check_ok_bind, hBounds,
      boundariesOf_of_partition h hMatrix, Nat.add_sub_cancel_left]
    rfl

/-- Every column of a matrix lies in a variable. -/
theorem WellFormed.exists_hasColumn (hWell : p.WellFormed) (h : p.partition = .ok t)
    {m col : Nat} {shape : Shape} (hMatrix : p.matrix m = .ok shape)
    (hCol : col < shape.numCols) : ∃ var, t.HasColumn var m col := by
  have hZero := (matrix_eq_ok_iff.mp hMatrix).1
  have hFirst : 0 ∈ p.boundariesOf m shape := mem_boundariesOf_iff.mpr (.inl ⟨hZero, .inl rfl⟩)
  have hLast : shape.numCols ∈ p.boundariesOf m shape :=
    mem_boundariesOf_iff.mpr (.inl ⟨hZero, .inr rfl⟩)
  -- The first and the last boundary enclose every column.
  obtain ⟨k, hLength, hFrom, hTo⟩ := exists_interval (p.pairwise_boundariesOf m shape)
    hFirst (Nat.zero_le col) hLast hCol
  exact ⟨_, (hasColumn_iff hWell h).mpr ⟨shape, k, hMatrix, hLength, rfl, hFrom, hTo⟩⟩

/-- The columns of a variable are columns of its matrix. -/
theorem WellFormed.lt_of_hasColumn (hWell : p.WellFormed) (h : p.partition = .ok t)
    {var m col : Nat} (hCol : t.HasColumn var m col) :
    ∃ shape, p.matrix m = .ok shape ∧ col < shape.numCols := by
  obtain ⟨shape, k, hMatrix, hLength, -, -, hTo⟩ := (hasColumn_iff hWell h).mp hCol
  refine ⟨shape, hMatrix, Nat.lt_of_lt_of_le hTo (hWell.boundary_le hMatrix ?_)⟩
  rw [List.getD_eq_getElem?_getD, List.getElem?_eq_getElem hLength]
  exact List.getElem_mem hLength

/-- A variable of a matrix has at least one column. -/
theorem WellFormed.exists_column (hWell : p.WellFormed) (h : p.partition = .ok t)
    {var m : Nat} (hOwner : t.matrixOf var = .ok m) : ∃ col, t.HasColumn var m col := by
  have hBounds := boundaries_of_partition h
  obtain ⟨hLength, hFrom, hTo⟩ := Partition.matrixOf_eq_ok_iff.mp hOwner
  rw [hBounds] at hLength hFrom hTo
  have hAt := List.getElem?_eq_getElem hLength
  have hShape : ∃ shape, p.matrices[m]? = some shape ∧
      p.allBoundaries[m] = p.boundariesOf m shape := by
    have hLt : m < p.matrices.length := by simpa [allBoundaries] using hLength
    exact ⟨p.matrices[m], List.getElem?_eq_getElem hLt, by simp [allBoundaries]⟩
  obtain ⟨shape, hGet, hOwn⟩ := hShape
  rw [firstVariable_succ hAt, hOwn, intervalCount] at hTo
  have hZero : m ≠ 0 := by
    rintro rfl
    rw [hWell.boundariesOf_zero] at hTo
    simp only [List.length_nil] at hTo
    omega
  -- The left end of the interval is one of its columns.
  refine ⟨(p.boundariesOf m shape).getD (var - firstVariable p.allBoundaries m) 0,
    (hasColumn_iff hWell h).mpr ⟨shape, var - firstVariable p.allBoundaries m,
      matrix_eq_ok_iff.mpr ⟨hZero, hGet⟩, by omega, by omega, Nat.le_refl _, ?_⟩⟩
  exact getD_lt_getD (p.pairwise_boundariesOf m shape) (Nat.lt_succ_self _) (by omega)

/-- What a view covers are the variables between its two ends. -/
private theorem WellFormed.mem_range_iff (hWell : p.WellFormed) (var : Nat)
    (h : p.partition = .ok t) {s : Nat} {view : SubMatrix} {shape : Shape}
    (hView : p.subMatrix s = .ok view) (hMatrix : p.matrix view.matrix = .ok shape) :
    ∃ first past, first < past ∧ past < (p.boundariesOf view.matrix shape).length ∧
      (p.boundariesOf view.matrix shape).getD first 0 = view.region.colOffset ∧
      (p.boundariesOf view.matrix shape).getD past 0 = view.region.colEnd ∧
      (var ∈ t.ofSubMatrix s ↔
        firstVariable p.allBoundaries view.matrix + first ≤ var ∧
          var < firstVariable p.allBoundaries view.matrix + past) := by
  obtain ⟨first, past, hOrder, hPast, hFirstAt, hPastAt, hCoverage⟩ :=
    hWell.exists_coverageOf hView hMatrix
  refine ⟨first, past, hOrder, hPast, hFirstAt, hPastAt, ?_⟩
  rw [Partition.ofSubMatrix, coverage_of_partition h hView hCoverage]
  exact Interval.mem_iff

/-- The variables that a view covers are variables of its matrix. -/
theorem WellFormed.matrixOf_of_mem_ofSubMatrix (hWell : p.WellFormed)
    (h : p.partition = .ok t) {var s : Nat} {view : SubMatrix}
    (hView : p.subMatrix s = .ok view) (hMem : var ∈ t.ofSubMatrix s) :
    t.matrixOf var = .ok view.matrix := by
  obtain ⟨shape, hMatrix, -⟩ := hWell.fits hView
  obtain ⟨first, past, -, hPast, -, -, hRange⟩ :=
    hWell.mem_range_iff var h hView hMatrix
  obtain ⟨hLow, hHigh⟩ := hRange.mp hMem
  rw [Partition.matrixOf_eq_ok_iff, boundaries_of_partition h,
    firstVariable_succ (getElem?_allBoundaries hMatrix), intervalCount]
  exact ⟨(List.getElem?_eq_some_iff.mp (getElem?_allBoundaries hMatrix)).1, by omega,
    by omega⟩

/-- A view covers a variable exactly when it covers any one column of it, since no
boundary of a view lies inside a variable. -/
theorem WellFormed.mem_ofSubMatrix_iff (hWell : p.WellFormed) (h : p.partition = .ok t)
    {var m col s : Nat} {view : SubMatrix} (hCol : t.HasColumn var m col)
    (hView : p.subMatrix s = .ok view) :
    var ∈ t.ofSubMatrix s ↔
      view.matrix = m ∧ view.region.colOffset ≤ col ∧ col < view.region.colEnd := by
  obtain ⟨shape, k, hMatrix, hLength, hVar, hFrom, hTo⟩ := (hasColumn_iff hWell h).mp hCol
  obtain ⟨shape', hMatrix', -⟩ := hWell.fits hView
  obtain ⟨first, past, hOrder, hPast, hFirstAt, hPastAt, hMem⟩ :=
    hWell.mem_range_iff var h hView hMatrix'
  have hSorted := p.pairwise_boundariesOf view.matrix shape'
  constructor
  · intro hCovers
    have hSame : view.matrix = m := by
      have hOwner := (hWell.matrixOf_of_mem_ofSubMatrix h hView hCovers).symm.trans hCol.1
      cases hOwner
      rfl
    obtain ⟨hLow, hHigh⟩ := hMem.mp hCovers
    subst hSame
    rw [hMatrix] at hMatrix'
    cases hMatrix'
    have hLeft := getD_le_getD hSorted (i := first) (j := k) (by omega) (by omega)
    have hRight := getD_le_getD hSorted (i := k + 1) (j := past) (by omega) hPast
    exact ⟨rfl, by omega, by omega⟩
  · rintro ⟨rfl, hLow, hHigh⟩
    rw [hMatrix] at hMatrix'
    cases hMatrix'
    -- The ends of the view are boundaries, and none lies inside the interval of the column.
    have hAfter : first ≤ k := by
      apply Nat.le_of_not_lt
      intro hLt
      have := getD_le_getD hSorted (i := k + 1) (j := first) hLt (by omega)
      omega
    have hBefore : k < past := by
      apply Nat.lt_of_not_le
      intro hLe
      have := getD_le_getD hSorted (i := past) (j := k) hLe (by omega)
      omega
    rw [hMem]
    omega

/-- The partition knows which views span all rows of their matrix. -/
theorem WellFormed.spansRows_iff (hWell : p.WellFormed) (h : p.partition = .ok t) {s : Nat}
    {view : SubMatrix} {shape : Shape} (hView : p.subMatrix s = .ok view)
    (hMatrix : p.matrix view.matrix = .ok shape) :
    t.spansRows s = true ↔ view.region.SpansRows shape.numRows := by
  obtain ⟨_, _, -, -, -, -, hCoverage⟩ := hWell.exists_coverageOf hView hMatrix
  rw [Partition.spansRows, coverage_of_partition h hView hCoverage]
  simp

end Program

end MatrixProgram
