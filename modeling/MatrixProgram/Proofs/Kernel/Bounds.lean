import MatrixProgram.Overflow
import MatrixProgram.Proofs.Kernel.Copies

/-!
# Primitives stay inside their views

A view shows a region that fits in its buffer, so each position of the view has an offset
inside the storage, `View.storageOffset_lt`, and with machine words it is computed exactly,
`Overflow.storageOffset_eq`.  This file shows that the primitives stay at
such positions.  What a primitive does is the same for any two views that show the same
elements, whatever lies around the regions in their buffers, `Primitive.run_congr`; so it
reads nothing but what its views show.  And it changes nothing outside its window,
`Primitive.get_run`.
-/

namespace MatrixProgram

/-! ## Positions in the storage -/

/-- A position of a region that fits has an offset inside the storage. -/
theorem Region.storageOffset_lt {g : Region} {rows cols row col : Nat} (hFits : g.FitsIn rows cols)
    (hRow : row < g.numRows) (hCol : col < g.numCols) :
    g.storageOffset cols row col < rows * cols := by
  simp only [FitsIn, rowEnd, colEnd] at hFits
  have hOffset : (g.rowOffset + row) * cols + (g.colOffset + col) < rows * cols :=
    Dense.offset_lt (by omega) (by omega)
  simpa only [storageOffset, Nat.add_assoc] using hOffset

/-- The rows, the columns and the elements of a matrix are counted by words, as are those of all
storage. -/
structure Shape.WordSized (shape : Shape) : Prop where
  rows : shape.numRows < UInt64.size
  cols : shape.numCols < UInt64.size
  elements : shape.numRows * shape.numCols < UInt64.size

/-- The offset of a position, or of the end of a row, is computed exactly. -/
theorem Overflow.storageOffset_eq (o : Overflow) {g : Region} {shape : Shape} {row col : Nat}
    (hSize : shape.WordSized) (hFits : g.FitsIn shape.numRows shape.numCols)
    (hRow : row < g.numRows) (hCol : col ≤ g.numCols) :
    o.storageOffset g shape.numCols row col = some (g.storageOffset shape.numCols row col) := by
  obtain ⟨rows, cols⟩ := shape
  obtain ⟨hRows, -, hElements⟩ := hSize
  dsimp only at hRows hElements hFits ⊢
  simp only [Region.FitsIn, Region.rowEnd, Region.colEnd] at hFits
  -- The row of the storage that the position is in ends with the storage at the latest.
  have hNext : (g.rowOffset + row) * cols + cols ≤ rows * cols := by
    rw [← Nat.succ_mul]
    exact Nat.mul_le_mul_right cols (by omega)
  have hOwnRow := o.word_of_lt (n := g.rowOffset + row) (by omega)
  have hBefore := o.word_of_lt (n := (g.rowOffset + row) * cols) (by omega)
  have hFirst := o.word_of_lt (n := (g.rowOffset + row) * cols + g.colOffset) (by omega)
  have hOffset := o.word_of_lt (n := (g.rowOffset + row) * cols + g.colOffset + col) (by omega)
  simp only [storageOffset, hOwnRow, hBefore, hFirst, hOffset, Option.bind_eq_bind,
    Option.bind_some, Region.storageOffset]

/-- A buffer has one element for each of its positions. -/
@[simp]
theorem Buffer.size_toArray (b : Buffer) : b.toArray.size = b.numRows * b.numCols :=
  b.values.data.size_toArray

namespace View

/-- A position of a view has an offset inside the storage of its buffer. -/
theorem storageOffset_lt (v : View) {row col : Nat} (hRow : row < v.numRows)
    (hCol : col < v.numCols) :
    v.region.storageOffset v.buffer.numCols row col < v.buffer.toArray.size := by
  rw [Buffer.size_toArray]
  exact Region.storageOffset_lt v.fits hRow hCol

/-- Two views show the same elements.  Their buffers may differ outside of the regions, and
the regions may lie at different places. -/
structure ShowsSame (v w : View) : Prop where
  shape : v.shape = w.shape
  value : ∀ row col, row < v.numRows → col < v.numCols → v.get row col = w.get row col

theorem ShowsSame.copied_eq {v w : View} (h : v.ShowsSame w) : v.copied = w.copied :=
  View.copied_eq h.shape h.value

end View

namespace Kernel

variable {rows cols : Nat}

/-! ## The primitives as data -/

/-- A primitive with its views and its other parameters. -/
inductive Primitive where
  | copy (src : View)
  | add (src : View) (alpha : Float32)
  | clear
  | gatherCopy (src : View) (indexes : List (Option Nat))
  | gatherAdd (src : View) (alpha : Float32) (indexes : List (Option Nat))
  | copyRow (row : Nat) (src : View) (srcRow : Nat)
  | addRow (row : Nat) (src : View) (srcRow : Nat) (alpha : Float32)
  | clearRow (row : Nat)
  | addRanges (src : View) (ranges : List (Nat × Nat))
  | accumulateProduct (a b : Factor) (alpha beta : Float32)
  | addToEachRow (vec : View) (alpha : Float32)
  | accumulateRowSum (src : View) (alpha beta : Float32)
  | applyActivation (op : Activation) (src : View)
  | activationGradient (op : Activation) (outValue outDeriv : View) (beta : Float32)

namespace Primitive

/-- What a primitive does to a window. -/
def run : Primitive → Region → Write rows cols
  | .copy src => Kernel.copy src
  | .add src alpha => Kernel.add src alpha
  | .clear => Kernel.clear
  | .gatherCopy src indexes => Kernel.gatherCopy src indexes
  | .gatherAdd src alpha indexes => Kernel.gatherAdd src alpha indexes
  | .copyRow row src srcRow => Kernel.copyRow row src srcRow
  | .addRow row src srcRow alpha => Kernel.addRow row src srcRow alpha
  | .clearRow row => Kernel.clearRow row
  | .addRanges src ranges => Kernel.addRanges src ranges
  | .accumulateProduct a b alpha beta => Kernel.accumulateProduct a b alpha beta
  | .addToEachRow vec alpha => Kernel.addToEachRow vec alpha
  | .accumulateRowSum src alpha beta => Kernel.accumulateRowSum src alpha beta
  | .applyActivation op src => Kernel.applyActivation op src
  | .activationGradient op outValue outDeriv beta =>
      Kernel.activationGradient op outValue outDeriv beta

/-- The primitive with other views in the place of its own. -/
def mapViews (f : View → View) : Primitive → Primitive
  | .copy src => .copy (f src)
  | .add src alpha => .add (f src) alpha
  | .clear => .clear
  | .gatherCopy src indexes => .gatherCopy (f src) indexes
  | .gatherAdd src alpha indexes => .gatherAdd (f src) alpha indexes
  | .copyRow row src srcRow => .copyRow row (f src) srcRow
  | .addRow row src srcRow alpha => .addRow row (f src) srcRow alpha
  | .clearRow row => .clearRow row
  | .addRanges src ranges => .addRanges (f src) ranges
  | .accumulateProduct a b alpha beta =>
      .accumulateProduct ⟨f a.view, a.transposed⟩ ⟨f b.view, b.transposed⟩ alpha beta
  | .addToEachRow vec alpha => .addToEachRow (f vec) alpha
  | .accumulateRowSum src alpha beta => .accumulateRowSum (f src) alpha beta
  | .applyActivation op src => .applyActivation op (f src)
  | .activationGradient op outValue outDeriv beta =>
      .activationGradient op (f outValue) (f outDeriv) beta

theorem mapViews_mapViews (f f' : View → View) (prim : Primitive) :
    (prim.mapViews f).mapViews f' = prim.mapViews fun v => f' (f v) := by
  cases prim <;> rfl

/-! ## Reading -/

/-- With copies of what its views show a primitive does the same. -/
theorem run_copied (prim : Primitive) (g : Region) :
    ((prim.mapViews View.copied).run g : Write rows cols) = prim.run g := by
  cases prim with
  | copy src => exact copy_copied src g
  | add src alpha => exact add_copied src alpha g
  | clear => rfl
  | gatherCopy src indexes => exact gatherCopy_copied src indexes g
  | gatherAdd src alpha indexes => exact gatherAdd_copied src alpha indexes g
  | copyRow row src srcRow => exact copyRow_copied row src srcRow g
  | addRow row src srcRow alpha => exact addRow_copied row src srcRow alpha g
  | clearRow row => rfl
  | addRanges src ranges => exact addRanges_copied src ranges g
  | accumulateProduct a b alpha beta =>
      exact product_congr a.copied_showsSame b.copied_showsSame alpha beta g
  | addToEachRow vec alpha => exact addToEachRow_copied vec alpha g
  | accumulateRowSum src alpha beta => exact rowSum_copied src alpha beta g
  | applyActivation op src => exact applyActivation_copied op src g
  | activationGradient op outValue outDeriv beta =>
      exact activationGradient_copied op outValue outDeriv beta g

/-- A primitive reads nothing but what its views show. -/
theorem run_congr {f : View → View} (hSame : ∀ v, (f v).ShowsSame v) (prim : Primitive)
    (g : Region) : ((prim.mapViews f).run g : Write rows cols) = prim.run g := by
  have hCopies : (prim.mapViews f).mapViews View.copied = prim.mapViews View.copied := by
    rw [mapViews_mapViews]
    simp only [(hSame _).copied_eq]
  rw [← run_copied (prim.mapViews f) g, hCopies, run_copied]

/-! ## Writing -/

/-- A primitive maps its window, whatever its parameters are. -/
theorem run_sets (prim : Primitive) (g : Region) :
    Write.Sets g (fun _ => False) (prim.run g : Write rows cols) := by
  cases prim with
  | copy src => exact (copy_sets src).mono fun _ h => h.elim
  | add src alpha => exact add_sets src alpha
  | clear => exact guardedMap_sets _ (Action.Allowed.ok ()) fun _ _ _ _ h => h.elim
  | gatherCopy src indexes => exact (gatherCopy_sets src indexes).mono fun _ h => h.elim
  | gatherAdd src alpha indexes => exact gatherAdd_sets src alpha indexes
  | copyRow row src srcRow => exact (copyRow_sets row src srcRow).mono fun _ h => h.elim
  | addRow row src srcRow alpha => exact addRow_sets row src srcRow alpha
  | clearRow row => exact (clearRow_sets row).mono fun _ h => h.elim
  | addRanges src ranges => exact addRanges_sets src ranges
  | accumulateProduct a b alpha beta =>
      exact guardedMap_sets _ ((requireProduct_allowed _ _).bind fun _ =>
        requireShape_allowed _ _) fun _ _ _ _ h => h.elim
  | addToEachRow vec alpha => exact addToEachRow_sets vec alpha
  | accumulateRowSum src alpha beta =>
      exact guardedMap_sets _ (requireShape_allowed _ _) fun _ _ _ _ h => h.elim
  | applyActivation op src => exact (applyActivation_sets op src).mono fun _ h => h.elim
  | activationGradient op outValue outDeriv beta =>
      exact guardedMap_sets _ ((requireShape_allowed _ _).bind fun _ =>
        requireShape_allowed _ _) fun _ _ _ _ h => h.elim

/-- A primitive changes nothing outside its window, whether or not it fails. -/
theorem get_run (prim : Primitive) {g : Region} (m : Dense rows cols) {row col : Nat}
    (hOutside : ¬g.Contains row col) :
    (Action.finalState (prim.run g m)).get row col = m.get row col := by
  obtain ⟨_, f, hMaps, -, -⟩ := prim.run_sets g
  rw [(hMaps m).2, Dense.get_mapWindow_of_not_contains hOutside]

/-- A primitive indexes nothing outside of buffers: it reads what its views show, and it
writes to its window. -/
structure InBounds (prim : Primitive) : Prop where
  reads : ∀ f : View → View, (∀ v, (f v).ShowsSame v) → ∀ (rows cols : Nat) (g : Region),
    ((prim.mapViews f).run g : Write rows cols) = prim.run g
  writes : ∀ (rows cols : Nat) (g : Region) (m : Dense rows cols) (row col : Nat),
    ¬g.Contains row col → (Action.finalState (prim.run g m)).get row col = m.get row col

theorem inBounds (prim : Primitive) : prim.InBounds where
  reads := fun _ hSame _ _ g => run_congr hSame prim g
  writes := fun _ _ _ m _ _ hOutside => prim.get_run m hOutside

end Primitive

end Kernel

/-! ## What is read outside the primitives -/

namespace View

variable {v w : View}

/-- Reading out a view reads what it shows. -/
theorem ShowsSame.toArray_eq (h : v.ShowsSame w) : v.toArray = w.toArray := by
  rw [toArray, toArray, ← toBuffer_copied v, h.copied_eq, toBuffer_copied]

/-- The statistics of an output are those of the elements that are shown. -/
theorem ShowsSame.storeStats_eq (h : v.ShowsSame w) :
    Component.storeStats v = Component.storeStats w := by
  rw [← Component.storeStats_copied v, h.copied_eq, Component.storeStats_copied]

/-- All that is read of a view lies inside the storage of its buffer: the positions of the view
do, and reading it out or storing its statistics reads no other ones. -/
structure InBounds (v : View) : Prop where
  offset : ∀ row col, row < v.numRows → col < v.numCols →
    v.region.storageOffset v.buffer.numCols row col < v.buffer.toArray.size
  toArray : ∀ w : View, w.ShowsSame v → w.toArray = v.toArray
  storeStats : ∀ w : View, w.ShowsSame v → Component.storeStats w = Component.storeStats v

theorem inBounds (v : View) : v.InBounds where
  offset := fun _ _ => v.storageOffset_lt
  toArray := fun _ => ShowsSame.toArray_eq
  storeStats := fun _ => ShowsSame.storeStats_eq

end View

end MatrixProgram
