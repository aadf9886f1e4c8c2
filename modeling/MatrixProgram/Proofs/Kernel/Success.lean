import MatrixProgram.Proofs.Kernel.Windows

/-!
# When primitives and components succeed

A primitive fails only if its conditions on shapes and row indexes do.  For each primitive and
each operation of a component there is one lemma which names these conditions as equations of
extents, and concludes that the change succeeds on any values.
-/

namespace MatrixProgram

namespace Write

variable {rows cols : Nat}

/-- A change succeeds, whatever the old values are. -/
def Succeeds (w : Write rows cols) : Prop :=
  ∀ m, Action.outcome (w m) = .ok ()

theorem Succeeds.pure : Succeeds (Pure.pure () : Write rows cols) :=
  fun _ => rfl

theorem Succeeds.bind {first : Write rows cols} {next : Unit → Write rows cols}
    (hFirst : Succeeds first) (hNext : Succeeds (next ())) : Succeeds (first >>= next) := by
  intro m
  have hDone := hFirst m
  rw [Action.bind_run]
  cases hRun : first m with
  | ok u t => exact hNext t
  | error err t =>
      rw [hRun] at hDone
      cases hDone

theorem Succeeds.forM {α : Type} {change : α → Write rows cols} (xs : List α)
    (h : ∀ x ∈ xs, Succeeds (change x)) : Succeeds (xs.forM change) := by
  induction xs with
  | nil => exact Succeeds.pure
  | cons x rest ih =>
      have hRest := ih fun y hMem => h y (List.mem_cons_of_mem _ hMem)
      exact Succeeds.bind (h x List.mem_cons_self) hRest

end Write

/-! ## The primitives -/

namespace Kernel

open Write

variable {rows cols : Nat} {g : Region} {src : View}

theorem guardedMap_succeeds {conditions : Except Error Unit}
    {f : Nat → Nat → Float32 → Float32} (h : conditions = .ok ()) :
    Succeeds (guardedMap conditions g f : Write rows cols) := by
  intro m
  rw [outcome_guardedMap, h]

theorem requireShape_eq_ok {expected got : Shape} (h : expected = got) :
    requireShape expected got = .ok () :=
  Action.require_eq_ok_iff.mpr h

theorem copy_succeeds (hShape : g.shape = src.shape) :
    Succeeds (copy src g : Write rows cols) :=
  guardedMap_succeeds (requireShape_eq_ok hShape)

theorem add_succeeds (alpha : Float32) (hShape : g.shape = src.shape) :
    Succeeds (add src alpha g : Write rows cols) :=
  guardedMap_succeeds (requireShape_eq_ok hShape)

/-- The conditions of gathering rows of one source. -/
theorem gather_conditions {indexes : List (Option Nat)} (hLength : indexes.length = g.numRows)
    (hWidth : g.numCols = src.numCols) (hRows : ∀ row, some row ∈ indexes → row < src.numRows) :
    (do
      requireTable g indexes.length src
      requireRows indexes src.numRows) = .ok () := by
  refine Action.check_bind_eq_ok_iff.mpr ⟨(), Action.require_eq_ok_iff.mpr ⟨hLength, hWidth⟩, ?_⟩
  refine Action.check_forM_eq_ok_iff.mpr fun row hMem => Action.require_eq_ok_iff.mpr ?_
  simp only [List.mem_filterMap, id_eq, exists_eq_right] at hMem
  exact hRows row hMem

theorem gatherCopy_succeeds {indexes : List (Option Nat)} (hLength : indexes.length = g.numRows)
    (hWidth : g.numCols = src.numCols) (hRows : ∀ row, some row ∈ indexes → row < src.numRows) :
    Succeeds (gatherCopy src indexes g : Write rows cols) :=
  guardedMap_succeeds (gather_conditions hLength hWidth hRows)

theorem gatherAdd_succeeds {indexes : List (Option Nat)} (alpha : Float32)
    (hLength : indexes.length = g.numRows) (hWidth : g.numCols = src.numCols)
    (hRows : ∀ row, some row ∈ indexes → row < src.numRows) :
    Succeeds (gatherAdd src alpha indexes g : Write rows cols) :=
  guardedMap_succeeds (gather_conditions hLength hWidth hRows)

/-- The conditions of copying or adding a single row. -/
theorem singleRows_conditions {row srcRow : Nat} (hRow : row < g.numRows)
    (hSrcRow : srcRow < src.numRows) (hWidth : g.numCols = src.numCols) :
    requireSingleRows g row src srcRow = .ok () := by
  have hShape : (⟨1, g.numCols⟩ : Shape) = ⟨1, src.numCols⟩ := by rw [hWidth]
  exact Action.check_bind_eq_ok_iff.mpr ⟨(), Action.require_eq_ok_iff.mpr hRow,
    Action.check_bind_eq_ok_iff.mpr ⟨(), Action.require_eq_ok_iff.mpr hSrcRow,
      requireShape_eq_ok hShape⟩⟩

theorem copyRow_succeeds {row srcRow : Nat} (hRow : row < g.numRows)
    (hSrcRow : srcRow < src.numRows) (hWidth : g.numCols = src.numCols) :
    Succeeds (copyRow row src srcRow g : Write rows cols) :=
  guardedMap_succeeds (singleRows_conditions hRow hSrcRow hWidth)

theorem addRow_succeeds {row srcRow : Nat} (alpha : Float32) (hRow : row < g.numRows)
    (hSrcRow : srcRow < src.numRows) (hWidth : g.numCols = src.numCols) :
    Succeeds (addRow row src srcRow alpha g : Write rows cols) :=
  guardedMap_succeeds (singleRows_conditions hRow hSrcRow hWidth)

theorem clearRow_succeeds {row : Nat} (hRow : row < g.numRows) :
    Succeeds (clearRow row g : Write rows cols) :=
  guardedMap_succeeds (Action.require_eq_ok_iff.mpr hRow)

/-- The conditions of adding ranges of rows. -/
theorem addRanges_conditions {ranges : List (Nat × Nat)} (hLength : ranges.length = g.numRows)
    (hWidth : g.numCols = src.numCols)
    (hRange : ∀ first past, (first, past) ∈ ranges → first ≤ past ∧ past ≤ src.numRows) :
    (do
      requireTable g ranges.length src
      requireRanges ranges src.numRows) = .ok () := by
  refine Action.check_bind_eq_ok_iff.mpr ⟨(), Action.require_eq_ok_iff.mpr ⟨hLength, hWidth⟩, ?_⟩
  refine Action.check_forM_eq_ok_iff.mpr ?_
  rintro ⟨first, past⟩ hMem
  exact Action.require_eq_ok_iff.mpr (hRange first past hMem)

theorem addRanges_succeeds {ranges : List (Nat × Nat)} (hLength : ranges.length = g.numRows)
    (hWidth : g.numCols = src.numCols)
    (hRange : ∀ first past, (first, past) ∈ ranges → first ≤ past ∧ past ≤ src.numRows) :
    Succeeds (addRanges src ranges g : Write rows cols) :=
  guardedMap_succeeds (addRanges_conditions hLength hWidth hRange)

theorem product_succeeds {a b : Factor} (alpha beta : Float32)
    (hInner : a.shape.numCols = b.shape.numRows)
    (hOuter : g.shape = ⟨a.shape.numRows, b.shape.numCols⟩) :
    Succeeds (accumulateProduct a b alpha beta g : Write rows cols) :=
  guardedMap_succeeds (Action.check_bind_eq_ok_iff.mpr
    ⟨(), Action.require_eq_ok_iff.mpr hInner, requireShape_eq_ok hOuter⟩)

theorem addToEachRow_succeeds {vec : View} (alpha : Float32)
    (hShape : ⟨1, g.numCols⟩ = vec.shape) :
    Succeeds (addToEachRow vec alpha g : Write rows cols) :=
  guardedMap_succeeds (requireShape_eq_ok hShape)

theorem rowSum_succeeds (alpha beta : Float32) (hShape : ⟨1, src.numCols⟩ = g.shape) :
    Succeeds (accumulateRowSum src alpha beta g : Write rows cols) :=
  guardedMap_succeeds (requireShape_eq_ok hShape)

theorem applyActivation_succeeds (op : Activation) (hShape : g.shape = src.shape) :
    Succeeds (applyActivation op src g : Write rows cols) :=
  guardedMap_succeeds (requireShape_eq_ok hShape)

theorem activationGradient_succeeds {outValue outDeriv : View} (op : Activation)
    (beta : Float32) (hValue : g.shape = outValue.shape) (hDeriv : g.shape = outDeriv.shape) :
    Succeeds (activationGradient op outValue outDeriv beta g : Write rows cols) :=
  guardedMap_succeeds (Action.check_bind_eq_ok_iff.mpr
    ⟨(), requireShape_eq_ok hValue, requireShape_eq_ok hDeriv⟩)

end Kernel

/-! ## The components -/

namespace Affine

open Write Kernel

variable {a : Affine}

/-- Changing the weight and going on succeeds if the change does, and going on succeeds with
any weight. -/
theorem changeWeight_bind_succeeds {w : (a : Affine) → Region → Write a.outputDim a.inputDim}
    {next : Unit → Action Affine Unit} (hWeight : Succeeds (w a (.whole a.outputDim a.inputDim)))
    (hNext : ∀ weight, Action.outcome (next () { a with weight }) = .ok ()) :
    Action.outcome ((changeWeight w >>= next) a) = .ok () := by
  have hDone := hWeight a.weight
  rw [Action.bind_run, changeWeight]
  cases hRun : w a (.whole a.outputDim a.inputDim) a.weight with
  | ok u weight => exact hNext weight
  | error err weight =>
      rw [hRun] at hDone
      cases hDone

/-- An update succeeds on an input and a derivative of the output of the layer's widths, with
equally many rows. -/
theorem update_succeeds {input outDeriv : View} (hOut : outDeriv.numCols = a.outputDim)
    (hIn : input.numCols = a.inputDim) (hRows : input.numRows = outDeriv.numRows) :
    Action.outcome (update (some input) outDeriv a) = .ok () := by
  have hWeight : (⟨a.outputDim, a.inputDim⟩ : Shape) = ⟨outDeriv.numCols, input.numCols⟩ := by
    rw [hOut, hIn]
  have hBias : (⟨1, outDeriv.numCols⟩ : Shape) = ⟨1, a.outputDim⟩ := by rw [hOut]
  refine changeWeight_bind_succeeds
    (product_succeeds (a := ⟨outDeriv, true⟩) a.learningRate 1 hRows.symm hWeight) ?_
  intro weight
  rw [changeBias, Action.outcome_mapState]
  exact rowSum_succeeds a.learningRate 1 hBias a.bias

end Affine

namespace Component

open Write Kernel

variable {rows cols : Nat} {g : Region}

/-- Two regions with equally many rows and columns have the same shape. -/
theorem shape_eq {g : Region} {v : View} (hRows : g.numRows = v.numRows)
    (hCols : g.numCols = v.numCols) : g.shape = v.shape := by
  show (⟨g.numRows, g.numCols⟩ : Shape) = ⟨v.numRows, v.numCols⟩
  rw [hRows, hCols]

/-- A list of rows selects the rows of an output from those of an input. -/
def Selects (found : List Nat) (inputRows outputRows : Nat) : Prop :=
  found.length = outputRows ∧ ∀ row ∈ found, row < inputRows

/-- Propagation succeeds on an input and an output of the component's widths, which have
equally many rows, or whose rows the precomputed list selects. -/
theorem propagate_succeeds {c : Component} {indexes : Option (List Nat)} {input : View}
    (hComputes : c.Computes) (hIn : input.numCols = c.inputDim) (hOut : g.numCols = c.outputDim)
    (hRows : c.capabilities.simple = true → input.numRows = g.numRows)
    (hSelects : ∀ r, c = .rowSelect r →
      ∃ found, indexes = some found ∧ Selects found input.numRows g.numRows) :
    Succeeds (c.propagate indexes input g : Write rows cols) := by
  cases c with
  | affine a =>
      have hShape : g.shape = ⟨input.numRows, a.outputDim⟩ := by
        rw [hRows rfl, ← show g.numCols = a.outputDim from hOut]
        rfl
      have hBias : (⟨1, g.numCols⟩ : Shape) = ⟨1, a.outputDim⟩ := by rw [hOut]; rfl
      exact Succeeds.bind (product_succeeds 1 0 hIn hShape) (addToEachRow_succeeds 1 hBias)
  | nonlinear n =>
      exact applyActivation_succeeds n.op (shape_eq (hRows rfl).symm (hOut.trans hIn.symm))
  | rowSelect r =>
      obtain ⟨found, hFound, hLength, hBelow⟩ := hSelects r rfl
      have hIndexes := RowSelect.requireIndexes_eq_ok_iff.mpr ⟨hFound, hLength⟩
      show Succeeds (RowSelect.propagate indexes input g : Write rows cols)
      rw [RowSelect.propagate, hIndexes, Action.ofExcept_ok_bind]
      refine gatherCopy_succeeds (by simp [hLength]) (hOut.trans hIn.symm) ?_
      intro row hMem
      obtain ⟨row', hRow', hEq⟩ := List.mem_map.mp hMem
      cases hEq
      exact hBelow row hRow'
  | declared d => exact hComputes.elim

/-- Backprop of a simple component succeeds on a derivative of the output and a window of the
component's widths with equally many rows, if the value of the output is as wide and as high
where it is needed. -/
theorem backprop_succeeds {c : Component} {indexes : Option (List Nat)}
    {inValue outValue : Option View} {outDeriv : View} (hComputes : c.Computes)
    (hSimple : c.capabilities.simple = true) (hOut : outDeriv.numCols = c.outputDim)
    (hIn : g.numCols = c.inputDim) (hRows : outDeriv.numRows = g.numRows)
    (hValue : c.capabilities.backpropNeedsOutput = true → ∃ v, outValue = some v ∧
      v.numCols = c.outputDim ∧ v.numRows = outDeriv.numRows) :
    Succeeds (c.backprop indexes inValue outValue outDeriv g : Write rows cols) := by
  cases c with
  | affine a =>
      have hShape : g.shape = ⟨outDeriv.numRows, a.inputDim⟩ := by
        rw [hRows, ← show g.numCols = a.inputDim from hIn]
        rfl
      exact product_succeeds 1 0 hOut hShape
  | nonlinear n =>
      obtain ⟨v, rfl, hWidth, hHeight⟩ := hValue rfl
      exact activationGradient_succeeds n.op 0
        (shape_eq (hRows.symm.trans hHeight.symm) (hIn.trans hWidth.symm))
        (shape_eq hRows.symm (hIn.trans hOut.symm))
  | rowSelect r => cases hSimple
  | declared d => exact hComputes.elim

/-- An update succeeds on an input and a derivative of the output of the component's widths,
with equally many rows. -/
theorem update_succeeds {c : Component} {indexes : Option (List Nat)} {inValue : Option View}
    {outDeriv : View} (hOut : outDeriv.numCols = c.outputDim)
    (hIn : ∃ v, inValue = some v ∧ v.numCols = c.inputDim ∧ v.numRows = outDeriv.numRows) :
    Action.outcome (update indexes inValue outDeriv c) = .ok () := by
  cases c with
  | affine a =>
      obtain ⟨v, rfl, hWidth, hHeight⟩ := hIn
      show Action.outcome (Action.mapState Component.affine
        (Affine.update (some v) outDeriv a)) = .ok ()
      rw [Action.outcome_mapState]
      exact Affine.update_succeeds hOut hWidth hHeight
  | nonlinear n => rfl
  | rowSelect r => rfl
  | declared d => rfl

/-- Storing statistics succeeds on an output of the component's width. -/
theorem storeStats_succeeds {c : Component} {outValue : View}
    (hWidth : outValue.numCols = c.outputDim) :
    Action.outcome (storeStats outValue c) = .ok () := by
  cases c with
  | nonlinear n =>
      have hDim : outValue.numCols = n.dim := hWidth
      show Action.outcome (Action.mapState Component.nonlinear
        (Nonlinear.storeStats outValue n)) = .ok ()
      rw [Action.outcome_mapState]
      simp [Nonlinear.storeStats, Action.bind_run, hDim, Action.outcome]
  | affine a => rfl
  | rowSelect r => rfl
  | declared d => rfl

end Component

/-- A network as wide as another one has components at the same indexes, as wide as those of
the other one. -/
theorem Network.exists_entry_of_widths {net net' : Network} {k : Nat} {c : Component}
    (hWidths : net'.widths = net.widths) (hLayer : net.component k = .ok c) :
    ∃ name c', net'.components[k]? = some (name, c') ∧ c'.widths = c.widths := by
  have hEntry : (net.components.map fun entry => entry.2.widths)[k]? = some c.widths := by
    unfold Network.component at hLayer
    split at hLayer
    · rename_i entry hGet
      cases hLayer
      simp [hGet]
    · cases hLayer
  have hEntry' : (net'.components.map fun entry => entry.2.widths)[k]? = some c.widths :=
    (congrArg (·[k]?) hWidths).trans hEntry
  rw [List.getElem?_map, Option.map_eq_some_iff] at hEntry'
  obtain ⟨⟨name, c'⟩, hGet, hSame⟩ := hEntry'
  exact ⟨name, c', hGet, hSame⟩

/-- A change that succeeds on every component of some widths succeeds on the component of an
index in a network with these widths. -/
theorem Network.changeComponent_succeeds {net net' : Network} {k : Nat} {c : Component}
    {change : Action Component Unit} (hWidths : net'.widths = net.widths)
    (hLayer : net.component k = .ok c)
    (hChange : ∀ c' : Component, c'.inputDim = c.inputDim → c'.outputDim = c.outputDim →
      Action.outcome (change c') = .ok ()) :
    Action.outcome (Network.changeComponent k change net') = .ok () := by
  obtain ⟨name, c', hGet, hSame⟩ := exists_entry_of_widths hWidths hLayer
  obtain ⟨hIn, hOut⟩ := Prod.mk.inj hSame
  simp only [Network.changeComponent, hGet, Action.outcome_mapState]
  exact hChange c' hIn hOut

end MatrixProgram
