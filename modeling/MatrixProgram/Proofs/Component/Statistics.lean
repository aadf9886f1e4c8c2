import MatrixProgram.Proofs.Kernel.Sliced

/-!
# Statistics of batches

To store the statistics of an output is to add its rows to running sums, one after the other,
`Nonlinear.toList_stored`.  So a sequence of outputs adds the rows of all of them in order, and how
the rows are cut into outputs does not matter.  Addition is not associative, and no sum of a part
of the rows is ever formed: a column is one fold over its elements in all outputs.

The loop that does this reads a flat copy of what a view shows and cuts it into chunks of the
width of the component.  These chunks are the rows, `Kernel.chunks_rowMajor`.
-/

namespace MatrixProgram

open Kernel Slices

namespace View

/-- The rows that a view shows. -/
def shownRows (v : View) : List (List Float32) :=
  tabulate v.numRows fun row => tabulate v.numCols (v.get row)

/-- One column of what a view shows. -/
def column (v : View) (col : Nat) : List Float32 :=
  tabulate v.numRows fun row => v.get row col

theorem filterMap_shownRows {v : View} {col : Nat} (hCol : col < v.numCols) :
    v.shownRows.filterMap (·[col]?) = v.column col := by
  have hRow : ∀ row, (tabulate v.numCols (v.get row))[col]? = some (v.get row col) :=
    fun row => getElem?_tabulate _ hCol
  rw [shownRows, tabulate, List.filterMap_map]
  simp only [Function.comp_def, hRow]
  exact congrFun List.filterMap_eq_map' _

/-- A range of the rows of a view. -/
theorem exists_rows (v : View) (start len : Nat) (hLe : start + len ≤ v.numRows) :
    ∃ w : View, v.rows start len = .ok w ∧ w.numCols = v.numCols ∧
      w.shownRows = tabulate len fun row => tabulate v.numCols (v.get (start + row)) := by
  have hNarrow : v.region.narrowRows start len =
      .ok { v.region with rowOffset := v.region.rowOffset + start, numRows := len } :=
    if_pos hLe
  refine ⟨⟨v.buffer, _, v.fits.narrowRows hNarrow⟩, ?_, rfl, ?_⟩
  · unfold rows
    split
    · rename_i g hFound
      cases hFound.symm.trans hNarrow
      rfl
    · rename_i err hFound
      cases hFound.symm.trans hNarrow
  · refine tabulate_congr fun row _ => tabulate_congr fun col _ => ?_
    simp only [get, Nat.add_assoc]

/-- The first rows of a view and the rest of them are all its rows. -/
theorem exists_split (v : View) {k : Nat} (hLe : k ≤ v.numRows) :
    ∃ top bottom : View, v.rows 0 k = .ok top ∧ v.rows k (v.numRows - k) = .ok bottom ∧
      top.numCols = v.numCols ∧ bottom.numCols = v.numCols ∧
      v.shownRows = top.shownRows ++ bottom.shownRows := by
  obtain ⟨top, hTop, hTopWidth, hTopRows⟩ := v.exists_rows 0 k (by omega)
  obtain ⟨bottom, hBottom, hBottomWidth, hBottomRows⟩ := v.exists_rows k (v.numRows - k) (by omega)
  refine ⟨top, bottom, hTop, hBottom, hTopWidth, hBottomWidth, ?_⟩
  have hAll : v.numRows = k + (v.numRows - k) := by omega
  simp only [hTopRows, hBottomRows, Nat.zero_add]
  rw [shownRows, hAll, tabulate_add]
  simp

end View

/-! ## Chunks -/

namespace Kernel

variable {α : Type}

/-- A list cut into chunks of a size; the last chunk may be shorter. -/
def chunks (size : Nat) : List α → List (List α)
  | [] => []
  | x :: xs => (x :: xs.take (size - 1)) :: chunks size (xs.drop (size - 1))
termination_by xs => xs.length
decreasing_by
  simp only [List.length_drop, List.length_cons]
  omega

theorem chunks_append {size : Nat} {chunk : List α} (hPos : 0 < size) (hSize : chunk.length = size)
    (rest : List α) : chunks size (chunk ++ rest) = chunk :: chunks size rest := by
  cases chunk with
  | nil => simp at hSize; omega
  | cons x xs =>
      have hLength : xs.length = size - 1 := by
        simp only [List.length_cons] at hSize
        omega
      rw [List.cons_append, chunks, List.take_left' hLength, List.drop_left' hLength]

theorem chunks_flatten {size : Nat} (hPos : 0 < size) {rows : List (List α)}
    (hRows : ∀ row ∈ rows, row.length = size) : chunks size rows.flatten = rows := by
  induction rows with
  | nil => rw [List.flatten_nil, chunks]
  | cons row rest ih =>
      obtain ⟨hRow, hRest⟩ := List.forall_mem_cons.mp hRows
      rw [List.flatten_cons, chunks_append hPos hRow, ih hRest]

theorem rowMajor_eq_flatten (rows cols : Nat) (f : Nat → Nat → α) :
    rowMajor rows cols f = (tabulate rows fun row => tabulate cols (f row)).flatten := by
  induction rows with
  | zero => simp [rowMajor, tabulate]
  | succ rows ih =>
      rw [rowMajor_succ, ih, tabulate_add rows 1, List.flatten_append]
      simp [tabulate]

/-- Elements in row-major order, cut at the width of a row, are the rows. -/
theorem chunks_rowMajor {rows cols : Nat} (hCols : 0 < cols) (f : Nat → Nat → α) :
    chunks cols (rowMajor rows cols f) = tabulate rows fun row => tabulate cols (f row) := by
  rw [rowMajor_eq_flatten]
  refine chunks_flatten hCols fun row hMem => ?_
  obtain ⟨_, -, rfl⟩ := List.mem_map.mp hMem
  exact length_tabulate _ _

end Kernel

/-! ## Running sums -/

namespace Nonlinear

variable {n : Nonlinear} {v : View} {batches : List View}

/-- The elements of a row added to running sums, in double precision and position by position. -/
def addRowTo : List Float → List Float32 → List Float
  | total :: sums, x :: row => (total + x.toFloat) :: addRowTo sums row
  | sums, _ => sums

theorem getElem?_addRowTo (sums : List Float) (row : List Float32) (col : Nat) :
    (addRowTo sums row)[col]? = sums[col]?.map fun total =>
      match row[col]? with
      | some x => total + x.toFloat
      | none => total := by
  induction sums generalizing row col with
  | nil => simp [addRowTo]
  | cons total sums ih =>
      cases row with
      | nil => simp [addRowTo]
      | cons x row =>
          cases col with
          | zero => simp [addRowTo]
          | succ col => simpa [addRowTo] using ih row col

/-- Rows added to running sums are, for one position, its elements added to one sum. -/
theorem getElem?_foldl_addRowTo (rows : List (List Float32)) (sums : List Float) (col : Nat) :
    (rows.foldl addRowTo sums)[col]? = sums[col]?.map fun start =>
      (rows.filterMap (·[col]?)).foldl (fun total x => total + x.toFloat) start := by
  induction rows generalizing sums with
  | nil => simp
  | cons row rest ih =>
      rw [List.foldl_cons, ih, getElem?_addRowTo, Option.map_map]
      cases hAt : row[col]? with
      | none => simp [hAt, Function.comp_def]
      | some x => simp [hAt, Function.comp_def]

/-- The component after the statistics of an output have been stored. -/
def stored (n : Nonlinear) (v : View) : Nonlinear :=
  { n with
    valueSum := n.valueSum.mapIdx (addColumn v)
    count := n.count + Float.ofNat v.numRows }

theorem storeStats_eq_ok (hWidth : v.numCols = n.dim) : storeStats v n = .ok () (n.stored v) := by
  simp [storeStats, Action.bind_run, hWidth, stored]

theorem storeStats_eq_error (hWidth : v.numCols ≠ n.dim) :
    storeStats v n = .error (.shapeMismatch ⟨v.numRows, n.dim⟩ v.shape) n := by
  simp [storeStats, Action.bind_run, hWidth]

theorem addColumn_eq (v : View) (col : Nat) (start : Float) :
    addColumn v col start = (v.column col).foldl (fun total x => total + x.toFloat) start := by
  rw [addColumn, View.column, tabulate, List.foldl_map]

/-- The rows of the output are added to the sums. -/
theorem toList_stored (hWidth : v.numCols = n.dim) :
    (n.stored v).valueSum.toList = v.shownRows.foldl addRowTo n.valueSum.toList := by
  refine List.ext_getElem? fun col => ?_
  rw [getElem?_foldl_addRowTo]
  by_cases hCol : col < n.dim
  · rw [View.filterMap_shownRows (hWidth ▸ hCol)]
    simp [stored, hCol, addColumn_eq]
  · simp [stored, hCol]

/-! ## Sequences of outputs -/

theorem foldl_stored_keeps (batches : List View) (n : Nonlinear) :
    (batches.foldl stored n).op = n.op ∧ (batches.foldl stored n).dim = n.dim := by
  induction batches generalizing n with
  | nil => exact ⟨rfl, rfl⟩
  | cons v rest ih => exact ih (n.stored v)

theorem forM_storeStats_eq_ok (hWidths : ∀ v ∈ batches, v.numCols = n.dim) :
    batches.forM storeStats n = .ok () (batches.foldl stored n) := by
  induction batches generalizing n with
  | nil => rfl
  | cons v rest ih =>
      obtain ⟨hWidth, hRest⟩ := List.forall_mem_cons.mp hWidths
      rw [Action.forM_cons_run, Action.bind_run_ok (storeStats_eq_ok hWidth)]
      exact ih hRest

/-- The rows of all outputs are added to the sums, in order. -/
theorem toList_foldl_stored (hWidths : ∀ v ∈ batches, v.numCols = n.dim) :
    (batches.foldl stored n).valueSum.toList =
      (batches.flatMap View.shownRows).foldl addRowTo n.valueSum.toList := by
  induction batches generalizing n with
  | nil => rfl
  | cons v rest ih =>
      obtain ⟨hWidth, hRest⟩ := List.forall_mem_cons.mp hWidths
      have hNext := ih (n := n.stored v) hRest
      rw [List.foldl_cons, hNext, toList_stored hWidth, List.flatMap_cons, List.foldl_append]

theorem filterMap_flatMap_shownRows {col : Nat} (hCols : ∀ v ∈ batches, col < v.numCols) :
    (batches.flatMap View.shownRows).filterMap (·[col]?) = batches.flatMap (·.column col) := by
  induction batches with
  | nil => rfl
  | cons v rest ih =>
      obtain ⟨hCol, hRest⟩ := List.forall_mem_cons.mp hCols
      rw [List.flatMap_cons, List.filterMap_append, View.filterMap_shownRows hCol, ih hRest,
        List.flatMap_cons]

/-- To the sum of a column its elements in all outputs are added, one after the other. -/
theorem getElem?_foldl_stored (hWidths : ∀ v ∈ batches, v.numCols = n.dim) (col : Nat) :
    (batches.foldl stored n).valueSum[col]? = n.valueSum[col]?.map fun start =>
      (batches.flatMap (·.column col)).foldl (fun total x => total + x.toFloat) start := by
  have hList : (batches.foldl stored n).valueSum[col]? = n.valueSum[col]?.map fun start =>
      ((batches.flatMap View.shownRows).filterMap (·[col]?)).foldl
        (fun total x => total + x.toFloat) start := by
    rw [← Vector.getElem?_toList, toList_foldl_stored hWidths, getElem?_foldl_addRowTo,
      Vector.getElem?_toList]
  by_cases hCol : col < n.dim
  · rw [hList, filterMap_flatMap_shownRows fun v hMem => hWidths v hMem ▸ hCol]
  · rw [hList, Vector.getElem?_eq_none (by omega), Option.map_none, Option.map_none]

theorem exists_regrouped {batches' : List View} (hWidths : ∀ v ∈ batches, v.numCols = n.dim)
    (hWidths' : ∀ v ∈ batches', v.numCols = n.dim)
    (hRows : batches.flatMap View.shownRows = batches'.flatMap View.shownRows) :
    ∃ n₁ n₂, batches.forM storeStats n = .ok () n₁ ∧ batches'.forM storeStats n = .ok () n₂ ∧
      n₁.valueSum.toList = n₂.valueSum.toList := by
  refine ⟨_, _, forM_storeStats_eq_ok hWidths, forM_storeStats_eq_ok hWidths', ?_⟩
  rw [toList_foldl_stored hWidths, toList_foldl_stored hWidths', hRows]

/-- The statistics of a sequence of outputs depend on their rows alone. -/
structure BatchingIndependent (n : Nonlinear) : Prop where
  /-- Outputs of the width of the component are accepted, and to the sum of each column its
  elements are added, output by output and row by row. -/
  summed : ∀ batches : List View, (∀ v ∈ batches, v.numCols = n.dim) →
    ∃ n', batches.forM storeStats n = .ok () n' ∧ n'.op = n.op ∧ n'.dim = n.dim ∧
      ∀ col, n'.valueSum[col]? = n.valueSum[col]?.map fun start =>
        (batches.flatMap (·.column col)).foldl (fun total x => total + x.toFloat) start
  /-- Two sequences of outputs that show the same rows in the same order lead to the same sums. -/
  regrouped : ∀ batches batches' : List View,
    (∀ v ∈ batches, v.numCols = n.dim) → (∀ v ∈ batches', v.numCols = n.dim) →
      batches.flatMap View.shownRows = batches'.flatMap View.shownRows →
        ∃ n₁ n₂, batches.forM storeStats n = .ok () n₁ ∧
          batches'.forM storeStats n = .ok () n₂ ∧ n₁.valueSum.toList = n₂.valueSum.toList
  /-- In particular an output may be split into its first rows and the rest of them. -/
  split : ∀ (before after : List View) (v : View) (k : Nat), k ≤ v.numRows →
    (∀ w ∈ before ++ v :: after, w.numCols = n.dim) →
      ∃ top bottom n₁ n₂, v.rows 0 k = .ok top ∧ v.rows k (v.numRows - k) = .ok bottom ∧
        (before ++ v :: after).forM storeStats n = .ok () n₁ ∧
        (before ++ top :: bottom :: after).forM storeStats n = .ok () n₂ ∧
        n₁.valueSum.toList = n₂.valueSum.toList
  /-- An output of another width is refused, and nothing changes. -/
  refused : ∀ v : View, v.numCols ≠ n.dim →
    storeStats v n = .error (.shapeMismatch ⟨v.numRows, n.dim⟩ v.shape) n
  /-- The loop over the chunks of a flat copy of what a view shows comes to the same sums. -/
  loops : ∀ v n', storeStats v n = .ok () n' → ∃ data, rowsOf? v = some data ∧
    n'.valueSum.toList = (chunks n.dim data).foldl addRowTo n.valueSum.toList

/-- The sums do not depend on how rows are cut into outputs, as long as the component has any
columns to sum. -/
theorem statistics_independent_of_batching (n : Nonlinear) (hDim : 0 < n.dim) :
    n.BatchingIndependent where
  summed := fun batches hWidths => ⟨_, forM_storeStats_eq_ok hWidths,
    (foldl_stored_keeps batches n).1, (foldl_stored_keeps batches n).2,
    getElem?_foldl_stored hWidths⟩
  regrouped := fun _ _ => exists_regrouped
  split := by
    intro before after v k hLe hWidths
    obtain ⟨top, bottom, hTop, hBottom, hTopWidth, hBottomWidth, hRows⟩ := v.exists_split hLe
    have hWidth : v.numCols = n.dim := hWidths v (by simp)
    have hSplitWidths : ∀ w ∈ before ++ top :: bottom :: after, w.numCols = n.dim := by
      simp only [List.mem_append, List.mem_cons] at hWidths ⊢
      rintro w (hBefore | rfl | rfl | hAfter)
      · exact hWidths w (.inl hBefore)
      · exact hTopWidth.trans hWidth
      · exact hBottomWidth.trans hWidth
      · exact hWidths w (.inr (.inr hAfter))
    obtain ⟨n₁, n₂, hWhole, hParts, hSums⟩ :=
      exists_regrouped hWidths hSplitWidths (by simp [hRows])
    exact ⟨top, bottom, n₁, n₂, hTop, hBottom, hWhole, hParts, hSums⟩
  refused := fun _ => storeStats_eq_error
  loops := by
    intro v n' hRun
    by_cases hWidth : v.numCols = n.dim
    · have hChunks : chunks n.dim (rowMajor v.numRows v.numCols v.get) = v.shownRows :=
        hWidth ▸ chunks_rowMajor (hWidth ▸ hDim) v.get
      rw [storeStats_eq_ok hWidth] at hRun
      cases hRun
      exact ⟨_, rowsOf?_eq v, by rw [toList_stored hWidth, hChunks]⟩
    · rw [storeStats_eq_error hWidth] at hRun
      cases hRun

/-- Two columns inside of a larger buffer: 1 and 2, 4 and 5, 7 and 8. -/
def sampleOutput : View :=
  ⟨.ofFn 4 3 fun row col => Float32.ofNat (3 * row + col), ⟨0, 3, 1, 2⟩, by decide⟩

/-- The sums of these columns, from zero and in row order. -/
def sampleSums : List Float :=
  [((0 + Float32.toFloat 1) + Float32.toFloat 4) + Float32.toFloat 7,
    ((0 + Float32.toFloat 2) + Float32.toFloat 5) + Float32.toFloat 8]

/-- The rows lead to these sums in one output, and also in two of them. -/
theorem sample_independent_of_batching :
    0 < (fresh .relu 2).dim ∧ (fresh .relu 2).BatchingIndependent ∧
      ∃ top bottom n₁ n₂, sampleOutput.rows 0 1 = .ok top ∧ sampleOutput.rows 1 2 = .ok bottom ∧
        [sampleOutput].forM storeStats (fresh .relu 2) = .ok () n₁ ∧
        [top, bottom].forM storeStats (fresh .relu 2) = .ok () n₂ ∧
        n₁.valueSum.toList = sampleSums ∧ n₂.valueSum.toList = sampleSums := by
  have hIndependent : (fresh .relu 2).BatchingIndependent :=
    statistics_independent_of_batching (fresh .relu 2) (by decide)
  refine ⟨by decide, hIndependent, ?_⟩
  obtain ⟨top, bottom, n₁, n₂, hTop, hBottom, hWhole, hParts, hSums⟩ :=
    hIndependent.split [] [] sampleOutput 1 (by decide) (List.forall_mem_singleton.mpr rfl)
  have hDone : n₁.valueSum.toList = sampleSums := by
    cases hWhole
    rfl
  exact ⟨top, bottom, n₁, n₂, hTop, hBottom, hWhole, hParts, hDone, hSums ▸ hDone⟩

end Nonlinear

end MatrixProgram
