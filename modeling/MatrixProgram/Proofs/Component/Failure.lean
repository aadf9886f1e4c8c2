import MatrixProgram.Proofs.Component.Selection
import MatrixProgram.Proofs.Kernel.Product

/-!
# What a failing operation of a component leaves

Several operations of components are sequences of primitives, and a primitive that fails leaves
what the ones before it have done.  Of a product with a bias, or a change of a weight and then of
a bias, only the first part can fail: it requires whatever the second one does.  So these
operations are all or nothing, `Action.AllOrNothing`.

Backprop of row selection is not.  Propagation tries the whole list before it writes a row, but
backprop tries an entry when it comes to it, and stops at the first one that names no row,
`RowSelect.StopsAt`.  The rows added until then stay added: `RowSelect.added_before_failure`.
-/

namespace MatrixProgram

open Kernel

namespace Action

variable {σ τ α β : Type} {first : Action σ α} {next : α → Action σ β}

/-- An action that changes nothing when it fails. -/
def AllOrNothing (act : Action σ α) : Prop :=
  ∀ s err t, act s = .error err t → t = s

theorem AllOrNothing.pure (a : α) : AllOrNothing (Pure.pure a : Action σ α) := by
  intro s err t hRun
  cases hRun

theorem AllOrNothing.throw (err : Error) :
    AllOrNothing (MonadExcept.throw err : Action σ α) := by
  intro s err' t hRun
  cases hRun
  rfl

/-- A sequence is all or nothing if its first part is, and the rest never fails after it. -/
theorem AllOrNothing.bind (hFirst : AllOrNothing first)
    (hNext : ∀ s a t, first s = .ok a t → ∃ b, outcome (next a t) = .ok b) :
    AllOrNothing (first >>= next) := by
  intro s err t hRun
  cases hStart : first s with
  | ok a u =>
      obtain ⟨b, hDone⟩ := hNext s a u hStart
      rw [bind_run_ok hStart] at hRun
      rw [hRun] at hDone
      cases hDone
  | error err' u =>
      rw [bind_run_error hStart] at hRun
      cases hRun
      exact hFirst s _ _ hStart

/-- A change of a part of the state is all or nothing if it is so on this part. -/
theorem AllOrNothing.mapState {act : Action τ α} (h : AllOrNothing act) {f : τ → σ} {s : σ}
    {part : τ} (hPart : f part = s) {err : Error} {t : σ}
    (hRun : Action.mapState f (act part) = .error err t) : t = s := by
  cases hAct : act part with
  | ok a u =>
      rw [hAct] at hRun
      cases hRun
  | error err' u =>
      rw [hAct] at hRun
      cases hRun
      rw [h part _ _ hAct, hPart]

/-- A change of a part of the state that answers does so on this part. -/
theorem mapState_eq_ok {f : τ → σ} {r : EStateM.Result Error τ α} {a : α} {t : σ}
    (hRun : Action.mapState f r = .ok a t) : ∃ part, r = .ok a part ∧ t = f part := by
  cases r with
  | ok b part =>
      cases hRun
      exact ⟨part, rfl, rfl⟩
  | error err part => cases hRun

end Action

namespace Kernel

variable {rows cols : Nat}

theorem guardedMap_allOrNothing (conditions : Except Error Unit) (g : Region)
    (f : Nat → Nat → Float32 → Float32) :
    Action.AllOrNothing (guardedMap conditions g f : Write rows cols) := by
  intro m err t hRun
  cases conditions with
  | ok u => cases hRun
  | error err' =>
      cases hRun
      rfl

end Kernel

/-- Such a change of what a view shows leaves the buffer of the view when it fails. -/
theorem View.eq_of_change_eq_error {v : View}
    {w : {rows cols : Nat} → Region → Write rows cols} {err : Error} {t : Buffer}
    (h : Action.AllOrNothing (w v.region : Write v.buffer.numRows v.buffer.numCols))
    (hRun : v.change w = .error err t) : t = v.buffer := by
  rw [change_eq] at hRun
  exact h.mapState rfl hRun

/-! ## Products and parameters -/

namespace Affine

variable {rows cols : Nat}

/-- The product has the width of the bias, so the bias can be added to it. -/
theorem propagate_allOrNothing (a : Affine) (input : View) (g : Region) :
    Action.AllOrNothing (a.propagate input g : Write rows cols) := by
  refine .bind (guardedMap_allOrNothing _ _ _) fun m _ t hProduct => ?_
  obtain ⟨hConditions, -⟩ := guardedMap_eq_ok_iff.mp hProduct
  have hOuter : g.shape = ⟨input.numRows, a.outputDim⟩ :=
    (requireProduct_eq_ok_iff.mp hConditions).2
  have hBias : (⟨1, g.numCols⟩ : Shape) = ⟨1, a.outputDim⟩ :=
    congrArg (fun s : Shape => (⟨1, s.numCols⟩ : Shape)) hOuter
  exact ⟨(), addToEachRow_succeeds 1 hBias t⟩

/-- The derivative of the output has the width of the bias if it has the height of the weight. -/
theorem update_allOrNothing (inValue : Option View) (outDeriv : View) :
    Action.AllOrNothing (update inValue outDeriv) := by
  cases inValue with
  | none => exact .throw _
  | some input =>
      refine .bind (fun a err a' hRun => ?_) fun a _ a' hWeight => ?_
      · exact (guardedMap_allOrNothing _ _ _).mapState rfl hRun
      · obtain ⟨weight, hProduct, rfl⟩ := Action.mapState_eq_ok hWeight
        obtain ⟨hConditions, -⟩ := guardedMap_eq_ok_iff.mp hProduct
        have hOuter : (⟨a.outputDim, a.inputDim⟩ : Shape) = ⟨outDeriv.numCols, input.numCols⟩ :=
          (requireProduct_eq_ok_iff.mp hConditions).2
        have hBias : (⟨1, outDeriv.numCols⟩ : Shape) = ⟨1, a.outputDim⟩ :=
          congrArg (fun s : Shape => (⟨1, s.numRows⟩ : Shape)) hOuter.symm
        refine ⟨(), ?_⟩
        rw [changeBias, Action.outcome_mapState]
        exact rowSum_succeeds a.learningRate 1 hBias a.bias

end Affine

theorem Nonlinear.backprop_allOrNothing {rows cols : Nat} (n : Nonlinear)
    (outValue : Option View) (outDeriv : View) (g : Region) :
    Action.AllOrNothing (n.backprop outValue outDeriv g : Write rows cols) := by
  cases outValue with
  | none => exact .throw _
  | some v => exact guardedMap_allOrNothing _ _ _

/-- The count and the sums change together, after the one test. -/
theorem Nonlinear.storeStats_allOrNothing (outValue : View) :
    Action.AllOrNothing (storeStats outValue) := by
  intro n err n' hRun
  by_cases hWidth : outValue.numCols = n.dim
  · simp [storeStats, Action.bind_run, hWidth] at hRun
  · simp only [storeStats, Action.bind_run, Action.get_run, hWidth, if_false, Action.throw_run]
      at hRun
    cases hRun
    rfl

/-! ## Rows added before a failure -/

namespace RowSelect

variable {rows cols : Nat} {g : Region} {indexes : Option (List Nat)} {outDeriv inDeriv : View}

theorem propagate_allOrNothing (indexes : Option (List Nat)) (input : View) (g : Region) :
    Action.AllOrNothing (propagate indexes input g : Write rows cols) := by
  unfold propagate
  cases requireIndexes indexes g.numRows with
  | ok list => exact guardedMap_allOrNothing _ _ _
  | error err => exact .throw err

/-- Backprop of row selection stops at the entry `row` of the list, which names no row, and the
entries before it, at least one, have added their rows. -/
structure StopsAt (before : List Nat) (row : Nat) (after : List Nat)
    (indexes : Option (List Nat)) (outDeriv inDeriv : View) (err : Error) (t : Buffer) :
    Prop where
  indexes_eq : indexes = some (before ++ row :: after)
  length : (before ++ row :: after).length = outDeriv.numRows
  width : inDeriv.numCols = outDeriv.numCols
  before_ne_nil : before ≠ []
  before_there : ∀ r ∈ before, r < inDeriv.numRows
  row_absent : ¬row < inDeriv.numRows
  error_eq : err = .failed (.rowIndex row inDeriv.numRows)
  mapped : inDeriv.Mapped (added before outDeriv) t

/-- No row of another width is added. -/
theorem addRows_allOrNothing (hWidth : g.numCols ≠ outDeriv.numCols)
    (entries : List (Nat × Nat)) :
    Action.AllOrNothing (addRows outDeriv entries g : Write rows cols) := by
  cases entries with
  | nil => exact .pure ()
  | cons entry rest =>
      refine .bind (guardedMap_allOrNothing _ _ _) fun m _ t hFirst => ?_
      obtain ⟨hConditions, -⟩ := guardedMap_eq_ok_iff.mp hFirst
      exact absurd (of_requireSingleRows hConditions).2 hWidth

/-- Without a list of the right length, or with a window of another width, nothing is added. -/
theorem backprop_allOrNothing (hMisfit : ∀ list, indexes = some list →
    list.length = outDeriv.numRows → g.numCols ≠ outDeriv.numCols) :
    Action.AllOrNothing (backprop indexes outDeriv g : Write rows cols) := by
  cases indexes with
  | none => exact .throw _
  | some list =>
      by_cases hLength : list.length = outDeriv.numRows
      · rw [backprop_eq hLength]
        exact addRows_allOrNothing (hMisfit list rfl hLength) _
      · have hIndexes : requireIndexes (some list) outDeriv.numRows =
            .error (.failed (.precomputedCount list.length outDeriv.numRows)) := by
          simp [requireIndexes, hLength]
        rw [backprop, hIndexes]
        exact .throw _

/-- A list of the right length, for a window of the right width, fails at its first entry that
names no row. -/
theorem exists_stop {list : List Nat} {err : Error} {t : Buffer}
    (hLength : list.length = outDeriv.numRows) (hWidth : inDeriv.numCols = outDeriv.numCols)
    (hRun : inDeriv.change (backprop (some list) outDeriv) = .error err t) :
    ∃ before row after, list = before ++ row :: after ∧ (∀ r ∈ before, r < inDeriv.numRows) ∧
      ¬row < inDeriv.numRows ∧ err = .failed (.rowIndex row inDeriv.numRows) ∧
        inDeriv.Mapped (added before outDeriv) t := by
  cases hFind : list.find? fun row => ¬row < inDeriv.numRows with
  | none =>
      have hThere : ∀ row ∈ list, row < inDeriv.numRows := by
        simpa using List.find?_eq_none.mp hFind
      obtain ⟨u, -, hDone⟩ := View.change_of_maps (w := backprop (some list) outDeriv)
        (backprop_maps hLength hWidth hThere)
      cases hDone.symm.trans hRun
  | some row =>
      obtain ⟨hAbsent, before, after, rfl, hBefore⟩ := List.find?_eq_some_iff_append.mp hFind
      have hThere : ∀ r ∈ before, r < inDeriv.numRows := by simpa using hBefore
      have hRow : ¬row < inDeriv.numRows := by simpa using hAbsent
      obtain ⟨u, hMapped, hStops⟩ := View.change_of_maps
        (w := backprop (some (before ++ row :: after)) outDeriv)
        (backprop_stops hLength hWidth hThere hRow)
      cases hStops.symm.trans hRun
      exact ⟨before, row, after, rfl, hThere, hRow, rfl, hMapped⟩

theorem backprop_eq_error {err : Error} {t : Buffer}
    (hRun : inDeriv.change (backprop indexes outDeriv) = .error err t) :
    t = inDeriv.buffer ∨
      ∃ before row after, StopsAt before row after indexes outDeriv inDeriv err t := by
  by_cases hFits : ∃ list, indexes = some list ∧ list.length = outDeriv.numRows ∧
      inDeriv.numCols = outDeriv.numCols
  · obtain ⟨list, rfl, hLength, hWidth⟩ := hFits
    obtain ⟨before, row, after, rfl, hThere, hRow, hErr, hMapped⟩ :=
      exists_stop hLength hWidth hRun
    by_cases hNil : before = []
    · subst hNil
      exact .inl (hMapped.unique inDeriv.mapped_self)
    · exact .inr ⟨before, row, after, rfl, hLength, hWidth, hNil, hThere, hRow, hErr, hMapped⟩
  · refine .inl (View.eq_of_change_eq_error (w := backprop indexes outDeriv) ?_ hRun)
    exact backprop_allOrNothing fun list hList hLength hWidth =>
      hFits ⟨list, hList, hLength, hWidth⟩

/-- The derivative of an input with two rows, which hold 2 and 1. -/
def stoppedInDeriv : View :=
  .whole (.ofFn 2 1 fun row _ => Float32.ofNat (2 - row))

/-- The derivative of an output whose two rows hold 10 and 20. -/
def stoppedOutDeriv : View :=
  .whole (.ofFn 2 1 fun row _ => Float32.ofNat (10 * (row + 1)))

/-- The first row is added, and stays added when the second entry names no row. -/
theorem added_before_failure :
    ∃ t, stoppedInDeriv.change
        (Component.backprop (.rowSelect ⟨1⟩) (some [0, 5]) none none stoppedOutDeriv) =
          .error (.failed (.rowIndex 5 2)) t ∧
      stoppedInDeriv.buffer.get 0 0 = 2 ∧ t.get 0 0 = 12 ∧ t ≠ stoppedInDeriv.buffer := by
  obtain ⟨t, hMapped, hStops⟩ := View.change_of_maps (v := stoppedInDeriv)
    (w := Component.backprop (.rowSelect ⟨1⟩) (some ([0] ++ 5 :: [])) none none stoppedOutDeriv)
    (backprop_stops rfl rfl (by decide) (by decide))
  have hBefore : stoppedInDeriv.buffer.get 0 0 = 2 := by decide +kernel
  have hAfter : t.get 0 0 = 12 :=
    (hMapped.inside 0 0 (by decide) (by decide)).trans (by decide +kernel)
  refine ⟨t, hStops, hBefore, hAfter, ?_⟩
  rintro rfl
  rw [hBefore] at hAfter
  exact absurd hAfter (by decide +kernel)

end RowSelect

/-! ## All components -/

namespace Component

/-- What a component leaves when one of its operations fails.  The first two operations get the
component to read alone, so there it is only about the buffer. -/
structure FailsUnchanged (c : Component) : Prop where
  propagate : ∀ indexes input (output : View) err t,
    output.change (c.propagate indexes input) = .error err t → t = output.buffer
  /-- Rows added by row selection are the only thing that a backprop leaves. -/
  backprop : ∀ indexes inValue outValue outDeriv (inDeriv : View) err t,
    inDeriv.change (c.backprop indexes inValue outValue outDeriv) = .error err t →
      t = inDeriv.buffer ∨
        (∃ s, c = .rowSelect s) ∧ ∃ before row after,
          RowSelect.StopsAt before row after indexes outDeriv inDeriv err t
  update : ∀ indexes inValue outDeriv err c',
    update indexes inValue outDeriv c = .error err c' → c' = c
  storeStats : ∀ outValue err c', storeStats outValue c = .error err c' → c' = c

/-- An operation that fails changes nothing, whatever its operands are, unless it is the backprop
of row selection and some rows have been added before. -/
theorem failure_keeps_all_but_added_rows (c : Component) : c.FailsUnchanged where
  propagate := by
    intro indexes input output err t hRun
    refine View.eq_of_change_eq_error (w := c.propagate indexes input) ?_ hRun
    cases c with
    | affine a => exact a.propagate_allOrNothing input _
    | nonlinear n => exact guardedMap_allOrNothing _ _ _
    | rowSelect s => exact RowSelect.propagate_allOrNothing indexes input _
    | declared d => exact .throw _
  backprop := by
    intro indexes inValue outValue outDeriv inDeriv err t hRun
    have hRefused := fun h =>
      View.eq_of_change_eq_error (w := c.backprop indexes inValue outValue outDeriv) h hRun
    cases c with
    | affine a => exact .inl (hRefused (guardedMap_allOrNothing _ _ _))
    | nonlinear n => exact .inl (hRefused (n.backprop_allOrNothing outValue outDeriv _))
    | rowSelect s => exact (RowSelect.backprop_eq_error hRun).imp_right fun h => ⟨⟨s, rfl⟩, h⟩
    | declared d => exact .inl (hRefused (.throw _))
  update := by
    intro indexes inValue outDeriv err c' hRun
    cases c with
    | affine a => exact (Affine.update_allOrNothing inValue outDeriv).mapState rfl hRun
    | nonlinear n => cases hRun
    | rowSelect s => cases hRun
    | declared d => cases hRun
  storeStats := by
    intro outValue err c' hRun
    cases c with
    | nonlinear n => exact (Nonlinear.storeStats_allOrNothing outValue).mapState rfl hRun
    | affine a => cases hRun
    | rowSelect s => cases hRun
    | declared d => cases hRun

end Component

end MatrixProgram
