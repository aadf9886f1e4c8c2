import MatrixProgram.Proofs.Component.Capabilities
import MatrixProgram.Proofs.Kernel.Changes
import MatrixProgram.Proofs.Machine.Movement

/-!
# Row selection and its transpose

Propagation gathers the rows of the input that a list names.  Backprop goes through the same list
and scatters: the derivative of output row `i` is added to the row that entry `i` names.  Seen from
one row of the derivative of the input, the loop over the list is a fold over the positions at
which the list names this row, `RowSelect.added`.

The loop stops at the first entry that names no row.  It keeps what the entries before it have
added, `RowSelect.backprop_stops`.
-/

namespace MatrixProgram

open Kernel

namespace RowSelect

variable {rows cols : Nat} {g : Region} {list : List Nat} {outDeriv : View}

/-- An element of row `row` with the elements of one column of a view added, from the positions
at which the list names this row, in increasing order. -/
def added (list : List Nat) (v : View) (row col : Nat) (old : Float32) : Float32 :=
  ((List.range list.length).filter fun i => list[i]? = some row).foldl
    (fun total i => total + 1 * v.get i col) old

theorem positionsOf_eq (list : List Nat) (row : Nat) :
    positionsOf list row = (List.range list.length).filter fun i => list[i]? = some row := by
  have hRange : List.range list.length = list.zipIdx.map (·.2) := by
    rw [List.range_eq_range', List.zipIdx_map_snd]
  rw [hRange, List.filter_map, positionsOf]
  congr 1
  refine List.filter_congr fun entry hMem => ?_
  have hAt : list[entry.2]? = some entry.1 := List.mem_zipIdx_iff_getElem?.mp hMem
  simp [hAt]

/-- A row that the list does not name is left as it is. -/
theorem added_of_not_mem {row : Nat} (hNot : row ∉ list) (v : View) (col : Nat) (old : Float32) :
    added list v row col old = old := by
  have hNone : (List.range list.length).filter (fun i => list[i]? = some row) = [] := by
    refine List.filter_eq_nil_iff.mpr fun i _ => ?_
    simp only [decide_eq_true_eq]
    exact fun hAt => hNot (List.mem_of_getElem? hAt)
  rw [added, hNone, List.foldl_nil]

/-- Rows of a view are added, one after the other, to the rows that are paired with them. -/
def addRows (v : View) (entries : List (Nat × Nat)) (g : Region) : Write rows cols :=
  entries.forM fun entry => addRow entry.1 v entry.2 1 g

theorem addRows_append (v : View) (entries others : List (Nat × Nat)) :
    (addRows v (entries ++ others) g : Write rows cols) =
      (addRows v entries g >>= fun _ => addRows v others g) :=
  List.forM_append

theorem backprop_eq (hLength : list.length = outDeriv.numRows) :
    (backprop (some list) outDeriv g : Write rows cols) = addRows outDeriv list.zipIdx g := by
  rw [backprop, requireIndexes_eq_ok_iff.mpr ⟨rfl, hLength⟩, Action.ofExcept_ok_bind]
  rfl

/-- The rows of a view can be added in order to rows that are all there. -/
theorem addRows_maps (hLength : list.length ≤ outDeriv.numRows)
    (hWidth : g.numCols = outDeriv.numCols) (hValid : ∀ row ∈ list, row < g.numRows) :
    Write.Maps g (addRows outDeriv list.zipIdx g : Write rows cols) (.ok ())
      (added list outDeriv) := by
  have hFold : (fun row col old => list.zipIdx.foldl (fun total entry =>
      if row = entry.1 then total + 1 * outDeriv.get entry.2 col else total) old) =
        added list outDeriv := by
    funext row col old
    rw [added, ← positionsOf_eq]
    exact foldl_positionsOf (fun position total => total + 1 * outDeriv.get position col) old
  rw [← hFold]
  refine Write.Maps.forM list.zipIdx fun entry hMem => ?_
  obtain ⟨hLt, hAt⟩ := List.getElem?_eq_some_iff.mp (List.mem_zipIdx_iff_getElem?.mp hMem)
  have hRow : entry.1 < g.numRows := hValid entry.1 (hAt ▸ List.getElem_mem hLt)
  have hSrcRow : entry.2 < outDeriv.numRows := Nat.lt_of_lt_of_le hLt hLength
  exact guardedMap_rowWindow_maps (singleRows_conditions hRow hSrcRow hWidth) hRow

/-- No row is added once an entry names a row that is not there. -/
theorem addRows_cons_maps {row : Nat} (hRow : ¬row < g.numRows) (position : Nat)
    (rest : List (Nat × Nat)) :
    Write.Maps g (addRows outDeriv ((row, position) :: rest) g : Write rows cols)
      (.error (.failed (.rowIndex row g.numRows))) fun _ _ old => old := by
  have hConditions : requireSingleRows g row outDeriv position =
      .error (.failed (.rowIndex row g.numRows)) := by
    simp [requireSingleRows, requireRow, Action.require, hRow]
  have hRefused : (addRow row outDeriv position 1 g : Write rows cols) =
      throw (.failed (.rowIndex row g.numRows)) := by
    rw [addRow, hConditions]
    rfl
  show Write.Maps g (addRow row outDeriv position 1 g >>= fun _ => addRows outDeriv rest g) _ _
  rw [hRefused]
  exact (Write.Maps.throw _).bind_error

/-- Backprop with a list of rows that are there adds to each of them what the list says. -/
theorem backprop_maps (hLength : list.length = outDeriv.numRows)
    (hWidth : g.numCols = outDeriv.numCols) (hValid : ∀ row ∈ list, row < g.numRows) :
    Write.Maps g (backprop (some list) outDeriv g : Write rows cols) (.ok ())
      (added list outDeriv) := by
  rw [backprop_eq hLength]
  exact addRows_maps (Nat.le_of_eq hLength) hWidth hValid

/-- Backprop stops at the first entry that names no row, and keeps what the entries before it
have added. -/
theorem backprop_stops {before after : List Nat} {row : Nat}
    (hLength : (before ++ row :: after).length = outDeriv.numRows)
    (hWidth : g.numCols = outDeriv.numCols) (hBefore : ∀ r ∈ before, r < g.numRows)
    (hRow : ¬row < g.numRows) :
    Write.Maps g (backprop (some (before ++ row :: after)) outDeriv g : Write rows cols)
      (.error (.failed (.rowIndex row g.numRows))) (added before outDeriv) := by
  have hFewer : before.length ≤ outDeriv.numRows := by
    rw [← hLength, List.length_append]
    omega
  rw [backprop_eq hLength, List.zipIdx_append, List.zipIdx_cons, addRows_append]
  exact @Write.Maps.bind rows cols g _ (fun _ => _) _ _ (fun _ _ old => old)
    (addRows_maps hFewer hWidth hBefore) (addRows_cons_maps hRow _ _)

theorem propagate_eq (hList : g.numRows = list.length) (input : View) :
    (propagate (some list) input g : Write rows cols) = gatherCopy input (list.map some) g := by
  rw [propagate, requireIndexes_eq_ok_iff.mpr ⟨rfl, hList.symm⟩, Action.ofExcept_ok_bind]

/-- A list gathers rows of an input of equal width exactly if its entries are rows of the input. -/
theorem gather_conditions_iff {input : View} (hList : g.numRows = list.length)
    (hWidth : g.numCols = input.numCols) :
    (do requireTable g (list.map some).length input
        requireRows (list.map some) input.numRows) = .ok () ↔
      ∀ row ∈ list, row < input.numRows := by
  constructor
  · intro h
    obtain ⟨_, -, hRows⟩ := Action.check_bind_eq_ok_iff.mp h
    intro row hMem
    exact Action.require_eq_ok_iff.mp (Action.check_forM_eq_ok_iff.mp hRows row (by simpa))
  · intro h
    exact gather_conditions (by simp [hList]) hWidth fun row hMem => h row (by simpa using hMem)

/-- Propagation by a list succeeds exactly if its entries are rows of the input, and then selects
them. -/
theorem propagate_eq_ok_iff {input output : View} {t : Buffer}
    (hList : output.numRows = list.length) (hWidth : output.numCols = input.numCols) :
    output.change (propagate (some list) input) = .ok () t ↔
      (∀ row ∈ list, row < input.numRows) ∧
        output.Mapped (fun i col _ => input.get (list.getD i 0) col) t := by
  have hEntry : ∀ row, row < output.numRows →
      entry (list.map some) row = some (list.getD row 0) := by
    intro row hRow
    have hLt : row < list.length := hList ▸ hRow
    simp [entry, hLt]
  rw [← gather_conditions_iff hList hWidth]
  refine (View.change_guardedMap_eq_ok_iff (propagate_eq hList input)).trans
    (and_congr_right fun _ => ⟨fun h => h.congr ?_, fun h => h.congr ?_⟩)
  · intro row col hRow _ old
    simp only [hEntry row hRow]
  · intro row col hRow _ old
    simp only [hEntry row hRow]

/-- What row selection by a list does to what a view shows, and its backprop to another. -/
structure Transposes (s : RowSelect) (list : List Nat) (input output outDeriv inDeriv : View) :
    Prop where
  /-- Propagation succeeds exactly when all entries of the list name rows of the input. -/
  propagate_succeeds_iff :
    (∃ t, output.change (Component.propagate (.rowSelect s) (some list) input) = .ok () t) ↔
      ∀ row ∈ list, row < input.numRows
  /-- Row `i` of the output is then the row of the input that entry `i` names. -/
  gathered : ∀ t,
    output.change (Component.propagate (.rowSelect s) (some list) input) = .ok () t →
      output.Mapped (fun i col _ => input.get (list.getD i 0) col) t
  /-- Backprop succeeds on the same lists, and adds to each row of the derivative of the input the
  rows of the derivative of the output at the positions at which the list names it. -/
  scattered : (∀ row ∈ list, row < input.numRows) → ∀ inValue outValue, ∃ t,
    inDeriv.change (Component.backprop (.rowSelect s) (some list) inValue outValue outDeriv) =
        .ok () t ∧
      inDeriv.Mapped (added list outDeriv) t ∧
      -- A row that the list does not name is as before.
      ∀ row ∉ list, ∀ col, row < inDeriv.numRows → col < inDeriv.numCols →
        t.get (inDeriv.region.rowOffset + row) (inDeriv.region.colOffset + col) =
          inDeriv.get row col

/-- Backprop of row selection is the transpose of its propagation, row by row. -/
theorem backprop_transposes_propagate (s : RowSelect) {list : List Nat}
    {input output outDeriv inDeriv : View} (hOutput : output.numRows = list.length)
    (hWidth : output.numCols = input.numCols) (hDeriv : outDeriv.numRows = list.length)
    (hDerivWidth : inDeriv.numCols = outDeriv.numCols)
    (hInDeriv : inDeriv.numRows = input.numRows) :
    Transposes s list input output outDeriv inDeriv where
  propagate_succeeds_iff := by
    constructor
    · rintro ⟨t, hRun⟩
      exact ((propagate_eq_ok_iff hOutput hWidth).mp hRun).1
    · intro hValid
      exact ⟨_, (propagate_eq_ok_iff hOutput hWidth).mpr ⟨hValid, output.mapped_mapWindow _⟩⟩
  gathered := fun _ hRun => ((propagate_eq_ok_iff hOutput hWidth).mp hRun).2
  scattered := by
    intro hValid inValue outValue
    have hThere : ∀ row ∈ list, row < inDeriv.numRows := hInDeriv ▸ hValid
    obtain ⟨t, hMapped, hRun⟩ := View.change_of_maps (v := inDeriv)
      (w := Component.backprop (.rowSelect s) (some list) inValue outValue outDeriv)
      (backprop_maps hDeriv.symm hDerivWidth hThere)
    refine ⟨t, hRun, hMapped, fun row hNot col hRow hCol => ?_⟩
    rw [hMapped.inside row col hRow hCol, added_of_not_mem hNot]

/-- The input of a selection: a column which shows 11 and 21. -/
def sampleInput : View :=
  ⟨.ofFn 3 2 fun row col => Float32.ofNat (10 * row + col), ⟨1, 2, 1, 1⟩, by decide⟩

/-- Its output: three rows inside of a larger buffer. -/
def sampleOutput : View :=
  ⟨.zeros 4 3, ⟨1, 3, 2, 1⟩, by decide⟩

/-- The derivative of the output: a column which shows 1, 2 and 3. -/
def sampleOutDeriv : View :=
  ⟨.ofFn 4 1 fun row _ => Float32.ofNat row, ⟨1, 3, 0, 1⟩, by decide⟩

/-- The derivative of the input: a column of zeros next to another one. -/
def sampleInDeriv : View :=
  ⟨.zeros 2 2, ⟨0, 2, 1, 1⟩, by decide⟩

/-- The second row is selected twice and the first row once: both then hold 3. -/
theorem sample_transposes :
    (sampleOutput.numRows = 3 ∧ sampleOutDeriv.numRows = 3 ∧
        sampleOutput.numCols = sampleInput.numCols ∧
        sampleInDeriv.shape = ⟨sampleInput.numRows, sampleOutDeriv.numCols⟩) ∧
      Transposes ⟨1⟩ [1, 1, 0] sampleInput sampleOutput sampleOutDeriv sampleInDeriv ∧
      ∃ t, sampleInDeriv.change
          (Component.backprop (.rowSelect ⟨1⟩) (some [1, 1, 0]) none none sampleOutDeriv) =
            .ok () t ∧
        t.get 0 1 = 3 ∧ t.get 1 1 = 3 := by
  have hTransposes : Transposes ⟨1⟩ [1, 1, 0] sampleInput sampleOutput sampleOutDeriv
      sampleInDeriv := backprop_transposes_propagate ⟨1⟩ rfl rfl rfl rfl rfl
  refine ⟨⟨rfl, rfl, rfl, rfl⟩, hTransposes, ?_⟩
  obtain ⟨t, hRun, hMapped, -⟩ := hTransposes.scattered (by decide) none none
  refine ⟨t, hRun, ?_, ?_⟩
  · exact (hMapped.inside 0 0 (by decide) (by decide)).trans (by decide +kernel)
  · exact (hMapped.inside 1 0 (by decide) (by decide)).trans (by decide +kernel)

end RowSelect

end MatrixProgram
