import Mathlib.Data.List.Nodup
import Mathlib.Data.List.Perm.Basic
import MatrixProgram.Proofs.Analysis.Partition

/-!
# The builder only appends

A step of the builder that fails or stops changes nothing, and one that succeeds appends to
some parts of the program: `Overflow.runStep_cases` lists what a step can do.  So whatever has
been built stays as it is, `Extends`, every view is of a matrix that exists, and since every
matrix comes with a view of all of it, it keeps one: `FormedWith`.

The views of the matrices, listed matrix by matrix, are all views, each of them once:
`FormedWith.perm_flatten_subMatrixLists`.

Views are tested with sums of machine words.  A view lies inside its matrix if its ends are exact,
and `bigColumns` shows that this is needed.  A program all of whose views have exact ends is one
that the builder makes on numbers, `built_runSteps`, and every program is where such a sum stops
the builder, `built_runSteps_stops`.
-/

namespace MatrixProgram

namespace Program

variable {o : Overflow} {p q r : Program}

/-! ## Programs that extend others -/

/-- Everything in a program stands unchanged in another one.  The recorded position of the
phase marker is the only part that may differ. -/
structure Extends (p q : Program) : Prop where
  matrices : p.matrices <+: q.matrices
  subMatrices : p.subMatrices <+: q.subMatrices
  precomputed : p.precomputed <+: q.precomputed
  indexes : p.indexes <+: q.indexes
  rowPairs : p.rowPairs <+: q.rowPairs
  rowRanges : p.rowRanges <+: q.rowRanges
  bindings : ∀ node b, p.binding? node = some b → q.binding? node = some b
  commands : p.commands <+: q.commands

namespace Extends

theorem refl (p : Program) : p.Extends p where
  matrices := List.prefix_rfl
  subMatrices := List.prefix_rfl
  precomputed := List.prefix_rfl
  indexes := List.prefix_rfl
  rowPairs := List.prefix_rfl
  rowRanges := List.prefix_rfl
  bindings := fun _ _ h => h
  commands := List.prefix_rfl

theorem trans (h : p.Extends q) (h' : q.Extends r) : p.Extends r where
  matrices := h.matrices.trans h'.matrices
  subMatrices := h.subMatrices.trans h'.subMatrices
  precomputed := h.precomputed.trans h'.precomputed
  indexes := h.indexes.trans h'.indexes
  rowPairs := h.rowPairs.trans h'.rowPairs
  rowRanges := h.rowRanges.trans h'.rowRanges
  bindings := fun node b hBound => h'.bindings node b (h.bindings node b hBound)
  commands := h.commands.trans h'.commands

/-- An element of a list stands at the same place of every list that begins with it. -/
theorem getElem?_of_prefix {α : Type} {xs ys : List α} {i : Nat} {a : α}
    (h : xs <+: ys) (hGet : xs[i]? = some a) : ys[i]? = some a := by
  obtain ⟨zs, rfl⟩ := h
  rw [List.getElem?_append_left (List.getElem?_eq_some_iff.mp hGet).1]
  exact hGet

theorem matrix (h : p.Extends q) {m : Nat} {shape : Shape} (hMatrix : p.matrix m = .ok shape) :
    q.matrix m = .ok shape := by
  obtain ⟨hZero, hGet⟩ := matrix_eq_ok_iff.mp hMatrix
  exact matrix_eq_ok_iff.mpr ⟨hZero, getElem?_of_prefix h.matrices hGet⟩

theorem subMatrix (h : p.Extends q) {s : Nat} {view : SubMatrix}
    (hView : p.subMatrix s = .ok view) : q.subMatrix s = .ok view := by
  obtain ⟨hZero, hGet⟩ := subMatrix_eq_ok_iff.mp hView
  exact subMatrix_eq_ok_iff.mpr ⟨hZero, getElem?_of_prefix h.subMatrices hGet⟩

end Extends

/-! ## What a step of the builder does -/

/-- What a step of the builder makes of a program when it succeeds. -/
inductive Appended (o : Overflow) (p : Program) : Program → Prop
  | matrix {rows cols : Nat} (rowsPos : rows ≠ 0) (colsPos : cols ≠ 0) :
      Appended o p
        { p with
          matrices := p.matrices ++ [⟨rows, cols⟩]
          subMatrices := p.subMatrices ++ [⟨p.numMatrices, .whole rows cols⟩] }
  | view {m : Nat} {g : Region} {shape : Shape} (matrix : p.matrix m = .ok shape)
      (nonempty : g.isEmpty = false)
      (fits : o.fitsIn g shape.numRows shape.numCols = some true) :
      Appended o p { p with subMatrices := p.subMatrices ++ [⟨m, g⟩] }
  | precomputed (rows : List Nat) :
      Appended o p { p with precomputed := p.precomputed ++ [rows] }
  | indexes (rows : List (Option Nat)) : Appended o p { p with indexes := p.indexes ++ [rows] }
  | rowPairs (pairs : List (Option (Nat × Nat))) :
      Appended o p { p with rowPairs := p.rowPairs ++ [pairs] }
  | rowRanges (ranges : List (Nat × Nat)) :
      Appended o p { p with rowRanges := p.rowRanges ++ [ranges] }
  | command (c : Command) : Appended o p { p with commands := p.commands ++ [c] }
  | recordedMarker :
      Appended o p
        { p with
          commands := p.commands ++ [.marker]
          forwardEnd := some p.commands.length }
  | forwardEnd (position : Option Nat) : Appended o p { p with forwardEnd := position }
  | binding {node : Nat} (b : Binding) (free : p.binding? node = none) :
      Appended o p { p with bindings := insertBinding node b p.bindings }

/-- What a step of the builder comes to: it stops, it fails and changes nothing, or it appends. -/
inductive Outcome (o : Overflow) (p : Program) :
    Option (EStateM.Result Error Program (Option Nat)) → Prop
  | stopped : Outcome o p none
  | failed (err : Error) : Outcome o p (some (.error err p))
  | appended {q : Program} (answer : Option Nat) (next : p.Appended o q) :
      Outcome o p (some (.ok answer q))

theorem addMatrix_outcome (o : Overflow) (rows cols : Nat) (p : Program) :
    p.Outcome o (some ((some <$> addMatrix rows cols) p)) := by
  by_cases hEmpty : rows = 0 ∨ cols = 0
  · have hRun : addMatrix rows cols p = .error (.failed (.emptyMatrix rows cols)) p := by
      simp [addMatrix, hEmpty, Action.bind_run]
    rw [Action.map_run, hRun]
    exact .failed _
  · have hPos := not_or.mp hEmpty
    have hRun : addMatrix rows cols p = .ok p.numSubMatrices
        { p with
          matrices := p.matrices ++ [⟨rows, cols⟩]
          subMatrices := p.subMatrices ++ [⟨p.numMatrices, .whole rows cols⟩] } := by
      simp [addMatrix, hEmpty, Action.bind_run]
      rfl
    rw [Action.map_run, hRun]
    exact .appended _ (.matrix hPos.1 hPos.2)

theorem addSubMatrix_outcome (o : Overflow) (m : Nat) (g : Region) (p : Program) :
    p.Outcome o (o.addSubMatrix m g p) := by
  unfold Overflow.addSubMatrix
  split
  · exact .failed _
  · rename_i shape hMatrix
    split
    · exact .failed _
    · rename_i hNonempty
      cases hCheck : o.checkFits g shape.numRows shape.numCols with
      | none => exact .stopped
      | some check =>
          cases check with
          | error err => exact .failed err
          | ok u =>
              exact .appended _ (.view hMatrix (eq_false_of_ne_true hNonempty)
                (Overflow.checkFits_eq_ok_iff.mp hCheck))

theorem addColumns_outcome (o : Overflow) (m colOffset numCols : Nat) (p : Program) :
    p.Outcome o (o.addColumns m colOffset numCols p) := by
  unfold Overflow.addColumns
  split
  · exact .failed _
  · exact addSubMatrix_outcome o m _ p

theorem bind_outcome (o : Overflow) (node value : Nat) (deriv? : Option Nat) (p : Program) :
    p.Outcome o (some (((fun _ => none) <$> Program.bind node value deriv?) p)) := by
  cases hBound : p.binding? node with
  | some b =>
      have hRun : Program.bind node value deriv? p = .error (.failed (.boundTwice node)) p := by
        simp [Program.bind, hBound, Action.bind_run]
      rw [Action.map_run, hRun]
      exact .failed _
  | none =>
      have hRun : Program.bind node value deriv? p =
          .ok () { p with bindings := insertBinding node ⟨value, deriv?⟩ p.bindings } := by
        simp [Program.bind, hBound, Action.bind_run]
      rw [Action.map_run, hRun]
      exact .appended _ (.binding ⟨value, deriv?⟩ hBound)

/-- A step of the builder stops, or fails and changes nothing, or appends. -/
theorem runStep_outcome (o : Overflow) (step : BuildStep) (p : Program) :
    p.Outcome o (o.runStep step p) := by
  cases step with
  | matrix rows cols => exact addMatrix_outcome o rows cols p
  | subMatrix m g => exact addSubMatrix_outcome o m g p
  | columns m colOffset numCols => exact addColumns_outcome o m colOffset numCols p
  | precomputed rows => exact .appended _ (.precomputed rows)
  | indexes rows => exact .appended _ (.indexes rows)
  | rowPairs pairs => exact .appended _ (.rowPairs pairs)
  | rowRanges ranges => exact .appended _ (.rowRanges ranges)
  | command c => exact .appended _ (.command c)
  | recordedMarker => exact .appended _ .recordedMarker
  | forwardEnd position => exact .appended _ (.forwardEnd position)
  | bind node value deriv? => exact bind_outcome o node value deriv? p

/-- A step that fails leaves the program as it was. -/
theorem unchanged_of_error {step : BuildStep} {err : Error}
    (h : o.runStep step p = some (.error err q)) : q = p := by
  have hOutcome := runStep_outcome o step p
  rw [h] at hOutcome
  cases hOutcome
  rfl

/-- After a step the program is as it was, or it has been appended to. -/
theorem next_cases (o : Overflow) (step : BuildStep) (p : Program) :
    o.next p step = p ∨ p.Appended o (o.next p step) := by
  have hOutcome := runStep_outcome o step p
  unfold Overflow.next
  generalize o.runStep step p = r at hOutcome ⊢
  cases hOutcome with
  | stopped => exact .inl rfl
  | failed err => exact .inl rfl
  | appended answer hNext => exact .inr hNext

/-- What holds of a program and is kept by appending holds after any steps. -/
theorem runSteps_induction {motive : Program → Prop} (hStart : motive p)
    (hNext : ∀ {p q}, motive p → p.Appended o q → motive q) (steps : List BuildStep) :
    motive (o.runSteps steps p) := by
  induction steps generalizing p with
  | nil => exact hStart
  | cons step rest ih =>
      refine ih ?_
      rcases next_cases o step p with hSame | hAppended
      · exact hSame.symm ▸ hStart
      · exact hNext hStart hAppended

/-! ## What has been built stays -/

/-- A new entry leaves the entries of other nodes where a search finds them. -/
theorem find?_insertBinding {node k : Nat} (b : Binding) (hNe : node ≠ k)
    (entries : List (Nat × Binding)) :
    (insertBinding node b entries).find? (·.1 == k) = entries.find? (·.1 == k) := by
  have hNew : (node == k) = false := beq_eq_false_iff_ne.mpr hNe
  induction entries with
  | nil => simp [insertBinding, hNew]
  | cons entry rest ih =>
      unfold insertBinding
      split
      · rw [List.find?_cons, hNew]
      · rw [List.find?_cons, List.find?_cons, ih]

theorem Appended.extends (h : p.Appended o q) : p.Extends q := by
  have hSame := Extends.refl p
  cases h with
  | matrix =>
      exact { hSame with
        matrices := List.prefix_append _ _
        subMatrices := List.prefix_append _ _ }
  | view => exact { hSame with subMatrices := List.prefix_append _ _ }
  | precomputed rows => exact { hSame with precomputed := List.prefix_append _ _ }
  | indexes rows => exact { hSame with indexes := List.prefix_append _ _ }
  | rowPairs pairs => exact { hSame with rowPairs := List.prefix_append _ _ }
  | rowRanges ranges => exact { hSame with rowRanges := List.prefix_append _ _ }
  | command c => exact { hSame with commands := List.prefix_append _ _ }
  | recordedMarker => exact { hSame with commands := List.prefix_append _ _ }
  | forwardEnd position => exact { hSame with }
  | @binding node b hFree =>
      refine { hSame with bindings := ?_ }
      intro k b' hBound
      have hNe : node ≠ k := by
        rintro rfl
        cases hFree.symm.trans hBound
      rw [binding?, find?_insertBinding b hNe]
      exact hBound

/-- Steps of the builder change nothing that is there. -/
theorem extends_runSteps (o : Overflow) (steps : List BuildStep) (p : Program) :
    p.Extends (o.runSteps steps p) :=
  runSteps_induction (.refl p) (fun hSoFar hNext => hSoFar.trans hNext.extends) steps

/-! ## Matrices and their views -/

/-- What the builder sees to.  A view lies inside its matrix if its ends are exact, and every matrix
has a view of all of it. -/
structure FormedWith (o : Overflow) (p : Program) : Prop where
  emptyMatrix : p.matrices[0]? = some ⟨0, 0⟩
  emptyView : p.subMatrices[0]? = some ⟨0, .empty⟩
  positive : ∀ {m shape}, p.matrix m = .ok shape → 0 < shape.numRows ∧ 0 < shape.numCols
  nonempty : ∀ {s view}, p.subMatrix s = .ok view →
    0 < view.region.numRows ∧ 0 < view.region.numCols
  fits : ∀ {s view}, p.subMatrix s = .ok view →
    ∃ shape, p.matrix view.matrix = .ok shape ∧
      (o.ExactEnds view.region → view.region.FitsIn shape.numRows shape.numCols)
  wholeView : ∀ {m shape}, p.matrix m = .ok shape →
    ∃ s, p.subMatrix s = .ok ⟨m, .whole shape.numRows shape.numCols⟩

/-- A matrix found after a step was there before, or it is the last one and came with the last
view. -/
theorem Appended.matrix_cases (h : p.Appended o q) {m : Nat} {shape : Shape}
    (hMatrix : q.matrix m = .ok shape) :
    p.matrix m = .ok shape ∨
      0 < shape.numRows ∧ 0 < shape.numCols ∧
        q.subMatrices = p.subMatrices ++ [⟨m, .whole shape.numRows shape.numCols⟩] := by
  cases h with
  | @matrix rows cols hRows hCols =>
      obtain ⟨hZero, hGet⟩ := matrix_eq_ok_iff.mp hMatrix
      rcases WellFormed.getElem?_concat hGet with hOld | ⟨rfl, rfl⟩
      · exact .inl (matrix_eq_ok_iff.mpr ⟨hZero, hOld⟩)
      · exact .inr ⟨Nat.pos_of_ne_zero hRows, Nat.pos_of_ne_zero hCols, rfl⟩
  | view => exact .inl hMatrix
  | precomputed => exact .inl hMatrix
  | indexes => exact .inl hMatrix
  | rowPairs => exact .inl hMatrix
  | rowRanges => exact .inl hMatrix
  | command => exact .inl hMatrix
  | recordedMarker => exact .inl hMatrix
  | forwardEnd => exact .inl hMatrix
  | binding => exact .inl hMatrix

/-- A view found after a step was there before, or it is the last one, and is of a matrix in which
it has been found to fit or of all of a matrix. -/
theorem Appended.subMatrix_cases (h : p.Appended o q) (hSome : p.matrices ≠ []) {s : Nat}
    {view : SubMatrix} (hView : q.subMatrix s = .ok view) :
    p.subMatrix s = .ok view ∨
      view.region.isEmpty = false ∧
        ∃ shape, q.matrix view.matrix = .ok shape ∧
          (o.ExactEnds view.region → view.region.FitsIn shape.numRows shape.numCols) := by
  have hCases : ∀ {last}, q.subMatrices = p.subMatrices ++ [last] →
      p.subMatrix s = .ok view ∨ view = last := by
    intro last hLast
    obtain ⟨hZero, hGet⟩ := subMatrix_eq_ok_iff.mp hView
    rw [hLast] at hGet
    rcases WellFormed.getElem?_concat hGet with hOld | ⟨-, hNew⟩
    · exact .inl (subMatrix_eq_ok_iff.mpr ⟨hZero, hOld⟩)
    · exact .inr hNew
  cases h with
  | @matrix rows cols hRows hCols =>
      refine (hCases rfl).imp_right ?_
      rintro rfl
      refine ⟨by simp [Region.isEmpty, Region.whole, hRows, hCols], ⟨rows, cols⟩, ?_,
        fun _ => Region.fitsIn_whole rows cols⟩
      exact matrix_eq_ok_iff.mpr
        ⟨mt List.length_eq_zero_iff.mp hSome, by simp [numMatrices]⟩
  | view hMatrix hNonempty hFits =>
      refine (hCases rfl).imp_right ?_
      rintro rfl
      exact ⟨hNonempty, _, hMatrix, fun hExact => hExact.fitsIn_of_test hFits⟩
  | precomputed => exact .inl hView
  | indexes => exact .inl hView
  | rowPairs => exact .inl hView
  | rowRanges => exact .inl hView
  | command => exact .inl hView
  | recordedMarker => exact .inl hView
  | forwardEnd => exact .inl hView
  | binding => exact .inl hView

namespace FormedWith

theorem empty (o : Overflow) : Program.empty.FormedWith o where
  emptyMatrix := rfl
  emptyView := rfl
  positive := WellFormed.empty.positive
  nonempty := WellFormed.empty.nonempty
  fits := by
    intro s view hView
    obtain ⟨shape, hMatrix, hFits⟩ := WellFormed.empty.fits hView
    exact ⟨shape, hMatrix, fun _ => hFits⟩
  wholeView := by
    intro m shape hMatrix
    obtain ⟨hZero, hGet⟩ := matrix_eq_ok_iff.mp hMatrix
    have hLt := (List.getElem?_eq_some_iff.mp hGet).1
    exact absurd (Nat.lt_one_iff.mp hLt) hZero

theorem matrices_ne_nil (h : p.FormedWith o) : p.matrices ≠ [] := by
  intro hNil
  have hGet := h.emptyMatrix
  rw [hNil] at hGet
  cases hGet

theorem length_subMatrices_pos (h : p.FormedWith o) : 0 < p.subMatrices.length :=
  (List.getElem?_eq_some_iff.mp h.emptyView).1

/-- Appending keeps it.  Only a new matrix needs a new view of all of it, and comes with one. -/
theorem appended (h : p.FormedWith o) (hNext : p.Appended o q) : q.FormedWith o where
  emptyMatrix := Extends.getElem?_of_prefix hNext.extends.matrices h.emptyMatrix
  emptyView := Extends.getElem?_of_prefix hNext.extends.subMatrices h.emptyView
  positive := by
    intro m shape hMatrix
    rcases hNext.matrix_cases hMatrix with hOld | ⟨hRows, hCols, -⟩
    · exact h.positive hOld
    · exact ⟨hRows, hCols⟩
  nonempty := by
    intro s view hView
    rcases hNext.subMatrix_cases h.matrices_ne_nil hView with hOld | ⟨hNonempty, -⟩
    · exact h.nonempty hOld
    · simp only [Region.isEmpty, Bool.or_eq_false_iff, beq_eq_false_iff_ne] at hNonempty
      omega
  fits := by
    intro s view hView
    rcases hNext.subMatrix_cases h.matrices_ne_nil hView with hOld | ⟨-, hNew⟩
    · obtain ⟨shape, hMatrix, hFits⟩ := h.fits hOld
      exact ⟨shape, hNext.extends.matrix hMatrix, hFits⟩
    · exact hNew
  wholeView := by
    intro m shape hMatrix
    rcases hNext.matrix_cases hMatrix with hOld | ⟨-, -, hViews⟩
    · obtain ⟨s, hView⟩ := h.wholeView hOld
      exact ⟨s, hNext.extends.subMatrix hView⟩
    · refine ⟨p.subMatrices.length,
        subMatrix_eq_ok_iff.mpr ⟨Nat.ne_of_gt h.length_subMatrices_pos, ?_⟩⟩
      simp [hViews]

theorem runSteps (h : p.FormedWith o) (steps : List BuildStep) :
    (o.runSteps steps p).FormedWith o :=
  runSteps_induction h (fun hSoFar hNext => hSoFar.appended hNext) steps

end FormedWith

/-- A view of all of a matrix is what it is called. -/
theorem isWholeMatrix_of_whole {s m : Nat} {shape : Shape} (hMatrix : p.matrix m = .ok shape)
    (hView : p.subMatrix s = .ok ⟨m, .whole shape.numRows shape.numCols⟩) :
    p.isWholeMatrix s = true := by
  simp [isWholeMatrix, hView, hMatrix, Region.IsWhole]

/-! ## Programs without wrapped sums -/

/-- The ends of all views are exact. -/
def ExactViews (o : Overflow) (p : Program) : Prop :=
  ∀ s view, p.subMatrix s = .ok view → o.ExactEnds view.region

theorem exactViews_stops (p : Program) : p.ExactViews .stops :=
  fun _ view _ => Overflow.exactEnds_stops view.region

/-- A step that has appended does so on numbers, if the last view has exact ends. -/
theorem Appended.exists_run (h : p.Appended o q) (hFormed : p.FormedWith o)
    (hExact : q.ExactViews o) : ∃ step : BuildStep, Action.finalState (step.run p) = q := by
  cases h with
  | @matrix rows cols hRows hCols =>
      refine ⟨.matrix rows cols, ?_⟩
      simp [BuildStep.run, addMatrix, hRows, hCols, Action.bind_run, Action.map_run,
        Action.finalState]
  | @view m g shape hMatrix hNonempty hFits =>
      refine ⟨.subMatrix m g, ?_⟩
      have hLast : Program.subMatrix { p with subMatrices := p.subMatrices ++ [⟨m, g⟩] }
          p.subMatrices.length = .ok ⟨m, g⟩ :=
        subMatrix_eq_ok_iff.mpr ⟨Nat.ne_of_gt hFormed.length_subMatrices_pos, by simp⟩
      have hInside : g.FitsIn shape.numRows shape.numCols :=
        (hExact _ _ hLast).fitsIn_of_test hFits
      simp [BuildStep.run, addSubMatrix, hMatrix, hNonempty, hInside, Action.bind_run,
        Action.map_run, Action.finalState]
  | precomputed rows => exact ⟨.precomputed rows, rfl⟩
  | indexes rows => exact ⟨.indexes rows, rfl⟩
  | rowPairs pairs => exact ⟨.rowPairs pairs, rfl⟩
  | rowRanges ranges => exact ⟨.rowRanges ranges, rfl⟩
  | command c => exact ⟨.command c, rfl⟩
  | recordedMarker => exact ⟨.recordedMarker, rfl⟩
  | forwardEnd position => exact ⟨.forwardEnd position, rfl⟩
  | @binding node b hFree =>
      refine ⟨.bind node b.value b.deriv?, ?_⟩
      simp [BuildStep.run, Program.bind, hFree, Action.bind_run, Action.map_run,
        Action.finalState]

/-- A program of machine words is one of numbers, if all its views have exact ends. -/
theorem built_runSteps (steps : List BuildStep)
    (hExact : (o.runSteps steps .empty).ExactViews o) : (o.runSteps steps .empty).Built := by
  have hBoth : (o.runSteps steps .empty).FormedWith o ∧
      ((o.runSteps steps .empty).ExactViews o → (o.runSteps steps .empty).Built) := by
    refine runSteps_induction (motive := fun p => p.FormedWith o ∧ (p.ExactViews o → p.Built))
      ⟨.empty o, fun _ => ⟨[], rfl⟩⟩ ?_ steps
    rintro p q ⟨hFormed, hBuilt⟩ hNext
    refine ⟨hFormed.appended hNext, fun hExact => ?_⟩
    obtain ⟨steps, rfl⟩ := hBuilt fun s view hView =>
      hExact s view (hNext.extends.subMatrix hView)
    obtain ⟨step, rfl⟩ := hNext.exists_run hFormed hExact
    exact ⟨steps ++ [step], by rw [BuildStep.runAll, BuildStep.runAll, List.foldl_concat]⟩
  exact hBoth.2 hExact

/-- Where a sum that is no word stops a step, every program is one of numbers. -/
theorem built_runSteps_stops (steps : List BuildStep) :
    (Overflow.stops.runSteps steps .empty).Built :=
  built_runSteps steps (exactViews_stops _)

/-! ## The views of each matrix -/

theorem mem_viewsOf_iff {m s : Nat} :
    s ∈ p.viewsOf m ↔ ∃ view, p.subMatrix s = .ok view ∧ view.matrix = m := by
  change s ∈ p.views.filterMap _ ↔ _
  simp only [List.mem_filterMap, Prod.exists, mem_views_iff]
  constructor
  · rintro ⟨view, k, hView, hSame⟩
    obtain ⟨hMatrix, hIndex⟩ := Option.ite_none_right_eq_some.mp hSame
    cases hIndex
    exact ⟨view, hView, hMatrix⟩
  · rintro ⟨view, hView, hMatrix⟩
    exact ⟨view, s, hView, if_pos hMatrix⟩

/-- The views of a matrix are listed in increasing order. -/
theorem pairwise_viewsOf (p : Program) (m : Nat) : (p.viewsOf m).Pairwise (· < ·) := by
  have hIndexed : p.subMatrices.zipIdx.Pairwise fun a b => a.2 < b.2 := by
    have hSorted : (List.range' 0 p.subMatrices.length).Pairwise (· < ·) :=
      List.pairwise_lt_range'
    rw [← List.zipIdx_map_snd, List.pairwise_map] at hSorted
    exact hSorted
  refine (hIndexed.sublist (List.drop_sublist 1 _)).filterMap _ ?_
  rintro ⟨view, s⟩ ⟨view', s'⟩ hLt k hFirst k' hSecond
  obtain ⟨-, hSame⟩ := Option.ite_none_right_eq_some.mp hFirst
  obtain ⟨-, hSame'⟩ := Option.ite_none_right_eq_some.mp hSecond
  cases hSame
  cases hSame'
  exact hLt

/-- Listed matrix by matrix, the views are all sub-matrices but for the empty one, each of
them once. -/
theorem FormedWith.perm_flatten_subMatrixLists (h : p.FormedWith o) :
    p.subMatrixLists.flatten.Perm (List.range' 1 (p.numSubMatrices - 1)) := by
  have hNodup : p.subMatrixLists.flatten.Nodup := by
    refine List.nodup_flatten.mpr ⟨?_, ?_⟩
    · intro list hList
      obtain ⟨m, -, rfl⟩ := List.mem_map.mp hList
      exact (p.pairwise_viewsOf m).imp Nat.ne_of_lt
    · -- A sub-matrix views one matrix only.
      refine List.pairwise_map.mpr (List.nodup_range.imp ?_)
      intro m k hNe s hIn hIn'
      obtain ⟨view, hView, rfl⟩ := mem_viewsOf_iff.mp hIn
      obtain ⟨view', hView', rfl⟩ := mem_viewsOf_iff.mp hIn'
      cases hView.symm.trans hView'
      exact hNe rfl
  refine (List.perm_ext_iff_of_nodup hNodup List.nodup_range').mpr fun s => ?_
  have hMem : s ∈ p.subMatrixLists.flatten ↔ ∃ view, p.subMatrix s = .ok view := by
    simp only [subMatrixLists, List.mem_flatten, List.mem_map, List.mem_range]
    constructor
    · rintro ⟨_, ⟨m, -, rfl⟩, hIn⟩
      obtain ⟨view, hView, -⟩ := mem_viewsOf_iff.mp hIn
      exact ⟨view, hView⟩
    · rintro ⟨view, hView⟩
      obtain ⟨shape, hMatrix, -⟩ := h.fits hView
      exact ⟨_, ⟨view.matrix, lt_numMatrices_of_matrix hMatrix, rfl⟩,
        mem_viewsOf_iff.mpr ⟨view, hView, rfl⟩⟩
  have hLength := h.length_subMatrices_pos
  rw [hMem, List.mem_range'_1, numSubMatrices]
  simp only [subMatrix_eq_ok_iff, noSubMatrix, exists_and_left]
  constructor
  · rintro ⟨hZero, view, hGet⟩
    have hLt := (List.getElem?_eq_some_iff.mp hGet).1
    omega
  · rintro ⟨hPos, hLt⟩
    exact ⟨Nat.ne_of_gt hPos, _, List.getElem?_eq_getElem (by omega)⟩

/-! ## What the builder guarantees -/

/-- What holds of a program after any steps of the builder, those that fail or stop included. -/
structure BuilderInvariant (o : Overflow) (p : Program) : Prop where
  formed : p.FormedWith o
  wholeView : ∀ m shape, p.matrix m = .ok shape →
    ∃ s view, p.subMatrix s = .ok view ∧ view.matrix = m ∧ p.isWholeMatrix s = true
  failure : ∀ step err q, o.runStep step p = some (.error err q) → q = p
  growth : ∀ steps, p.Extends (o.runSteps steps p)
  lists : p.subMatrixLists.length = p.numMatrices ∧
    ∀ m list, p.subMatrixLists[m]? = some list →
      list.Pairwise (· < ·) ∧
        ∀ s, s ∈ list ↔ ∃ view, p.subMatrix s = .ok view ∧ view.matrix = m
  partition : p.subMatrixLists.flatten.Perm (List.range' 1 (p.numSubMatrices - 1))

/-- Whatever steps the builder takes, no matrix and no view is empty, a view with exact ends lies
inside its matrix, every matrix has a view of all of it, a failing step changes nothing, further
steps change nothing that is there, and the lists of views partition the sub-matrices by their
matrices. -/
theorem builderInvariant_runSteps (o : Overflow) (steps : List BuildStep) :
    (o.runSteps steps .empty).BuilderInvariant o where
  formed := (FormedWith.empty o).runSteps steps
  wholeView := by
    intro m shape hMatrix
    obtain ⟨s, hView⟩ := ((FormedWith.empty o).runSteps steps).wholeView hMatrix
    exact ⟨s, _, hView, rfl, isWholeMatrix_of_whole hMatrix hView⟩
  failure := fun _ _ _ => unchanged_of_error
  growth := fun more => extends_runSteps o more _
  lists := by
    refine ⟨by simp [subMatrixLists], fun m list hList => ?_⟩
    rw [subMatrixLists, List.getElem?_map, Option.map_eq_some_iff] at hList
    obtain ⟨k, hGet, rfl⟩ := hList
    obtain ⟨-, rfl⟩ := List.getElem?_eq_some_iff.mp hGet
    rw [List.getElem_range]
    exact ⟨pairwise_viewsOf _ m, fun s => mem_viewsOf_iff⟩
  partition := ((FormedWith.empty o).runSteps steps).perm_flatten_subMatrixLists

/-- A matrix with a single element, and a view of one of its columns past all others. -/
def bigColumns : List BuildStep :=
  [.matrix 1 1, .columns 1 (UInt64.size - 1) 1]

/-- Where sums wrap, the view is accepted, and it does not lie inside its matrix. -/
theorem bigColumns_accepted :
    let p := Overflow.wraps.runSteps bigColumns .empty
    p.matrix 1 = .ok ⟨1, 1⟩ ∧
      p.subMatrix 2 = .ok ⟨1, ⟨0, 1, UInt64.size - 1, 1⟩⟩ ∧
        ¬(⟨0, 1, UInt64.size - 1, 1⟩ : Region).FitsIn 1 1 :=
  ⟨rfl, rfl, by decide⟩

end Program

end MatrixProgram
