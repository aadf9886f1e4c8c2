import MatrixProgram.Program.Builder

/-!
# Well-formed programs

Every program that the builder makes is well formed: matrix 0 and sub-matrix 0 are empty,
every other matrix has rows and columns, and every other sub-matrix views a non-empty
region that lies inside a matrix other than the empty one.  Each step of the builder keeps
that, a failing one included, so it holds of every built program.

Nothing is said here about commands, tables or bindings: the builder does not check them.
-/

namespace MatrixProgram

namespace Program

/-- A matrix other than the empty one is found where it stands in the list. -/
theorem matrix_eq_ok_iff {p : Program} {m : Nat} {shape : Shape} :
    p.matrix m = .ok shape ↔ m ≠ 0 ∧ p.matrices[m]? = some shape := by
  unfold matrix
  by_cases hZero : m = 0
  · simp [hZero]
  · cases hGet : p.matrices[m]? <;> simp [hZero]

/-- A sub-matrix other than the empty one is found where it stands in the list. -/
theorem subMatrix_eq_ok_iff {p : Program} {s : Nat} {view : SubMatrix} :
    p.subMatrix s = .ok view ↔ s ≠ noSubMatrix ∧ p.subMatrices[s]? = some view := by
  unfold subMatrix
  by_cases hZero : s = noSubMatrix
  · simp [hZero]
  · cases hGet : p.subMatrices[s]? <;> simp [hZero]

theorem subMatrix?_eq_some_iff {p : Program} {s : Nat} {view : SubMatrix} :
    p.subMatrix? s = some view ↔ p.subMatrix s = .ok view := by
  unfold subMatrix?
  cases p.subMatrix s <;> simp [Except.toOption]

/-- A matrix that is found has a number below the number of matrices. -/
theorem lt_numMatrices_of_matrix {p : Program} {m : Nat} {shape : Shape}
    (h : p.matrix m = .ok shape) : m < p.numMatrices :=
  (List.getElem?_eq_some_iff.mp (matrix_eq_ok_iff.mp h).2).1

/-- Every matrix but the empty one is found. -/
theorem exists_matrix {p : Program} {m : Nat} (hZero : m ≠ 0) (hLt : m < p.numMatrices) :
    ∃ shape, p.matrix m = .ok shape :=
  ⟨p.matrices[m], matrix_eq_ok_iff.mpr ⟨hZero, List.getElem?_eq_getElem hLt⟩⟩

/-- What the builder guarantees of matrices and views. -/
structure WellFormed (p : Program) : Prop where
  emptyMatrix : p.matrices[0]? = some ⟨0, 0⟩
  emptyView : p.subMatrices[0]? = some ⟨0, .empty⟩
  positive : ∀ {m shape}, p.matrix m = .ok shape → 0 < shape.numRows ∧ 0 < shape.numCols
  fits : ∀ {s view}, p.subMatrix s = .ok view →
    ∃ shape, p.matrix view.matrix = .ok shape ∧
      view.region.FitsIn shape.numRows shape.numCols
  nonempty : ∀ {s view}, p.subMatrix s = .ok view →
    0 < view.region.numRows ∧ 0 < view.region.numCols

namespace WellFormed

variable {p : Program}

/-- The program without matrices is well formed. -/
theorem empty : Program.empty.WellFormed where
  emptyMatrix := rfl
  emptyView := rfl
  positive := by
    intro m shape h
    obtain ⟨hZero, hGet⟩ := matrix_eq_ok_iff.mp h
    have hLt := (List.getElem?_eq_some_iff.mp hGet).1
    simp only [Program.empty, List.length_cons, List.length_nil] at hLt
    omega
  fits := by
    intro s view h
    obtain ⟨hZero, hGet⟩ := subMatrix_eq_ok_iff.mp h
    have hLt := (List.getElem?_eq_some_iff.mp hGet).1
    simp only [Program.empty, noSubMatrix, List.length_cons, List.length_nil] at hLt hZero
    omega
  nonempty := by
    intro s view h
    obtain ⟨hZero, hGet⟩ := subMatrix_eq_ok_iff.mp h
    have hLt := (List.getElem?_eq_some_iff.mp hGet).1
    simp only [Program.empty, noSubMatrix, List.length_cons, List.length_nil] at hLt hZero
    omega

/-- Only the matrices and the views matter. -/
theorem congr {q : Program} (h : p.WellFormed) (hMatrices : q.matrices = p.matrices)
    (hViews : q.subMatrices = p.subMatrices) : q.WellFormed := by
  have hMatrix : ∀ m, q.matrix m = p.matrix m := fun m => by
    simp only [matrix, hMatrices]
  have hView : ∀ s, q.subMatrix s = p.subMatrix s := fun s => by
    simp only [subMatrix, hViews]
  refine ⟨?_, ?_, ?_, ?_, ?_⟩
  · rw [hMatrices]
    exact h.emptyMatrix
  · rw [hViews]
    exact h.emptyView
  · intro m shape hGet
    exact h.positive (hMatrix m ▸ hGet)
  · intro s view hGet
    simpa only [hMatrix] using h.fits (hView s ▸ hGet)
  · intro s view hGet
    exact h.nonempty (hView s ▸ hGet)

/-- A matrix of a program is still found after another one has been appended. -/
private theorem matrix_append {q : Program} {shapes : List Shape}
    (hMatrices : q.matrices = p.matrices ++ shapes) {m : Nat} {shape : Shape}
    (h : p.matrix m = .ok shape) : q.matrix m = .ok shape := by
  obtain ⟨hZero, hGet⟩ := matrix_eq_ok_iff.mp h
  refine matrix_eq_ok_iff.mpr ⟨hZero, ?_⟩
  rw [hMatrices, List.getElem?_append_left (List.getElem?_eq_some_iff.mp hGet).1]
  exact hGet

/-- The last element of an extended list, or an element of the list itself. -/
theorem getElem?_concat {α : Type} {xs : List α} {x y : α} {i : Nat}
    (h : (xs ++ [x])[i]? = some y) : xs[i]? = some y ∨ i = xs.length ∧ y = x := by
  rw [List.getElem?_append] at h
  split at h
  · exact .inl h
  · rename_i hNot
    obtain ⟨hLt, hEq⟩ := List.getElem?_eq_some_iff.mp h
    simp only [List.length_cons, List.length_nil] at hLt
    refine .inr ⟨by omega, ?_⟩
    simpa using hEq.symm

/-- A view of a non-empty region that lies inside its matrix may be appended. -/
theorem appendView (h : p.WellFormed) (view : SubMatrix) {shape : Shape}
    (hMatrix : p.matrix view.matrix = .ok shape)
    (hFits : view.region.FitsIn shape.numRows shape.numCols)
    (hNonempty : view.region.isEmpty = false) :
    WellFormed { p with subMatrices := p.subMatrices ++ [view] } := by
  have hLength : 0 < p.subMatrices.length := (List.getElem?_eq_some_iff.mp h.emptyView).1
  have hCases : ∀ {s v},
      Program.subMatrix { p with subMatrices := p.subMatrices ++ [view] } s = .ok v →
        p.subMatrix s = .ok v ∨ v = view := by
    intro s v hGet
    obtain ⟨hZero, hAt⟩ := subMatrix_eq_ok_iff.mp hGet
    rcases getElem?_concat hAt with hOld | ⟨-, hNew⟩
    · exact .inl (subMatrix_eq_ok_iff.mpr ⟨hZero, hOld⟩)
    · exact .inr hNew
  refine ⟨h.emptyMatrix, ?_, h.positive, ?_, ?_⟩
  · rw [List.getElem?_append_left hLength]
    exact h.emptyView
  · intro s v hGet
    rcases hCases hGet with hOld | rfl
    · exact h.fits hOld
    · exact ⟨shape, hMatrix, hFits⟩
  · intro s v hGet
    rcases hCases hGet with hOld | rfl
    · exact h.nonempty hOld
    · simp only [Region.isEmpty, Bool.or_eq_false_iff, beq_eq_false_iff_ne] at hNonempty
      omega

/-- A matrix with rows and columns may be appended. -/
theorem appendMatrix (h : p.WellFormed) {rows cols : Nat} (hRows : rows ≠ 0)
    (hCols : cols ≠ 0) : WellFormed { p with matrices := p.matrices ++ [⟨rows, cols⟩] } := by
  have hLength : 0 < p.matrices.length := (List.getElem?_eq_some_iff.mp h.emptyMatrix).1
  refine ⟨?_, h.emptyView, ?_, ?_, h.nonempty⟩
  · rw [List.getElem?_append_left hLength]
    exact h.emptyMatrix
  · intro m shape hGet
    obtain ⟨hZero, hAt⟩ := matrix_eq_ok_iff.mp hGet
    rcases getElem?_concat hAt with hOld | ⟨-, rfl⟩
    · exact h.positive (matrix_eq_ok_iff.mpr ⟨hZero, hOld⟩)
    · exact ⟨Nat.pos_of_ne_zero hRows, Nat.pos_of_ne_zero hCols⟩
  · intro s view hGet
    obtain ⟨shape, hMatrix, hFits⟩ := h.fits hGet
    exact ⟨shape, matrix_append rfl hMatrix, hFits⟩

/-! ## One step of the builder -/

/-- Appending a matrix keeps a program well formed. -/
theorem addMatrix (h : p.WellFormed) (rows cols : Nat) :
    (Action.finalState (Program.addMatrix rows cols p)).WellFormed := by
  by_cases hEmpty : rows = 0 ∨ cols = 0
  · simpa [Program.addMatrix, hEmpty, Action.bind_run, Action.finalState] using h
  · have hNew : (Program.matrix { p with matrices := p.matrices ++ [⟨rows, cols⟩] }
        p.numMatrices) = .ok ⟨rows, cols⟩ := by
      have hLength : 0 < p.matrices.length :=
        (List.getElem?_eq_some_iff.mp h.emptyMatrix).1
      refine matrix_eq_ok_iff.mpr ⟨Nat.pos_iff_ne_zero.mp hLength, ?_⟩
      simp [numMatrices]
    have hView := (h.appendMatrix (by omega) (by omega)).appendView
      ⟨p.numMatrices, .whole rows cols⟩ hNew (Region.fitsIn_whole rows cols)
      (by simpa [Region.isEmpty, Region.whole] using hEmpty)
    simpa [Program.addMatrix, hEmpty, Action.bind_run, Action.map_run,
      Action.finalState] using hView

/-- Appending a view keeps a program well formed. -/
theorem addSubMatrix (h : p.WellFormed) (m : Nat) (g : Region) :
    (Action.finalState (Program.addSubMatrix m g p)).WellFormed := by
  cases hMatrix : p.matrix m with
  | error err =>
      simpa [Program.addSubMatrix, hMatrix, Action.bind_run, Action.finalState] using h
  | ok shape =>
      by_cases hEmpty : g.isEmpty = true
      · simpa [Program.addSubMatrix, hMatrix, hEmpty, Action.bind_run, Action.finalState]
          using h
      by_cases hFits : g.FitsIn shape.numRows shape.numCols
      · have hView := h.appendView ⟨m, g⟩ hMatrix hFits (by simpa using hEmpty)
        simpa [Program.addSubMatrix, hMatrix, hEmpty, hFits, Action.bind_run, Action.map_run,
          Action.finalState] using hView
      · simpa [Program.addSubMatrix, hMatrix, hEmpty, hFits, Action.bind_run,
          Action.finalState] using h

/-- Appending a view of columns is appending a view, if the matrix exists. -/
theorem addColumns (h : p.WellFormed) (m colOffset numCols : Nat) :
    (Action.finalState (Program.addColumns m colOffset numCols p)).WellFormed := by
  cases hMatrix : p.matrix m with
  | error err =>
      simpa [Program.addColumns, hMatrix, Action.bind_run, Action.finalState] using h
  | ok shape =>
      have hView := h.addSubMatrix m ⟨0, shape.numRows, colOffset, numCols⟩
      simpa [Program.addColumns, hMatrix, Action.bind_run] using hView

/-- Every step of the builder keeps a program well formed, whether or not it fails. -/
theorem run (h : p.WellFormed) (step : BuildStep) :
    (Action.finalState (step.run p)).WellFormed := by
  cases step with
  | matrix rows cols =>
      simpa only [BuildStep.run, Action.finalState_map] using h.addMatrix rows cols
  | subMatrix m g =>
      simpa only [BuildStep.run, Action.finalState_map] using h.addSubMatrix m g
  | columns m colOffset numCols =>
      simpa only [BuildStep.run, Action.finalState_map] using
        h.addColumns m colOffset numCols
  | precomputed rows => exact h.congr rfl rfl
  | indexes rows => exact h.congr rfl rfl
  | rowPairs pairs => exact h.congr rfl rfl
  | rowRanges ranges => exact h.congr rfl rfl
  | command c => exact h.congr rfl rfl
  | recordedMarker => exact h.congr rfl rfl
  | forwardEnd position => exact h.congr rfl rfl
  | bind node value deriv? =>
      by_cases hBound : (p.binding? node).isSome = true
      · simpa [BuildStep.run, Action.finalState_map, Program.bind, hBound, Action.bind_run,
          Action.finalState] using h
      · refine h.congr ?_ ?_ <;>
          simp [BuildStep.run, Program.bind, hBound, Action.bind_run, Action.map_run,
            Action.finalState]

/-- A run of the builder keeps a program well formed. -/
theorem runAll (h : p.WellFormed) (steps : List BuildStep) :
    (BuildStep.runAll steps p).WellFormed := by
  induction steps generalizing p with
  | nil => exact h
  | cons step rest ih => exact ih (h.run step)

end WellFormed

/-- Every built program is well formed. -/
theorem Built.wellFormed {p : Program} (h : p.Built) : p.WellFormed := by
  obtain ⟨steps, rfl⟩ := h
  exact WellFormed.empty.runAll steps

end Program

end MatrixProgram
