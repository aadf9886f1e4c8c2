import MatrixProgram.Proofs.Kernel.Windows

/-!
# Changes of what a view shows

A change of a window runs on a buffer after a test that the window fits.  A view has passed this
test, so on what a view shows a change runs as it does on dense values, `View.change_eq`.

`View.Mapped` says what has become of the buffer of a view: each element that the view shows is
mapped, by its position in the view, and every other element is as before.  This determines the
buffer, `View.mapped_iff`.  A change that answers and maps its window in the same way for all old
values does so on every view, `View.change_of_maps`.
-/

namespace MatrixProgram

namespace View

variable {v : View} {w : {rows cols : Nat} → Region → Write rows cols} {t : Buffer}
  {f : Nat → Nat → Float32 → Float32}

/-- Run a change on what a view shows, in the buffer of the view. -/
def change (v : View) (w : {rows cols : Nat} → Region → Write rows cols) :
    EStateM.Result Error Buffer Unit :=
  Write.inWindow v.region w v.buffer

theorem change_eq (v : View) (w : {rows cols : Nat} → Region → Write rows cols) :
    v.change w =
      Action.mapState (fun values => ⟨v.buffer.numRows, v.buffer.numCols, values⟩)
        (w v.region v.buffer.values) :=
  if_pos v.fits

/-- The buffer `t` is that of a view with the elements that the view shows mapped: the element at
position `(row, col)` of the view is `f row col` of what it was. -/
structure Mapped (v : View) (f : Nat → Nat → Float32 → Float32) (t : Buffer) : Prop where
  shape : t.shape = v.buffer.shape
  inside : ∀ row col, row < v.numRows → col < v.numCols →
    t.get (v.region.rowOffset + row) (v.region.colOffset + col) = f row col (v.get row col)
  outside : ∀ row col, ¬v.region.Contains row col → t.get row col = v.buffer.get row col

/-- The buffer with the window of the view mapped. -/
theorem mapped_mapWindow (v : View) (f : Nat → Nat → Float32 → Float32) :
    v.Mapped f ⟨v.buffer.numRows, v.buffer.numCols, v.buffer.values.mapWindow v.region f⟩ where
  shape := rfl
  inside := by
    intro row col hRow hCol
    have hFits := v.fits
    simp only [numRows, numCols] at hRow hCol
    simp only [Region.FitsIn, Region.rowEnd, Region.colEnd] at hFits
    have hIn : v.region.Contains (v.region.rowOffset + row) (v.region.colOffset + col) := by
      simp only [Region.Contains, Region.rowEnd, Region.colEnd]
      omega
    calc
      (v.buffer.values.mapWindow v.region f).get (v.region.rowOffset + row)
          (v.region.colOffset + col) =
        f (v.region.rowOffset + row - v.region.rowOffset)
          (v.region.colOffset + col - v.region.colOffset) (v.get row col) := by
            rw [Dense.get_mapWindow (by omega) (by omega), if_pos hIn]
            rfl
      _ = f row col (v.get row col) := by rw [Nat.add_sub_cancel_left, Nat.add_sub_cancel_left]
  outside := fun _ _ hOutside => Dense.get_mapWindow_of_not_contains hOutside

theorem mapped_self (v : View) : v.Mapped (fun _ _ old => old) v.buffer :=
  ⟨rfl, fun _ _ _ _ => rfl, fun _ _ _ => rfl⟩

/-- There is only one buffer to which a map of what the view shows leads. -/
theorem Mapped.unique {t' : Buffer} (h : v.Mapped f t) (h' : v.Mapped f t') : t = t' := by
  refine Buffer.ext_get (h.shape.trans h'.shape.symm) fun row col _ _ => ?_
  by_cases hIn : v.region.Contains row col
  · simp only [Region.Contains, Region.rowEnd, Region.colEnd] at hIn
    have hRow : v.region.rowOffset + (row - v.region.rowOffset) = row := by omega
    have hCol : v.region.colOffset + (col - v.region.colOffset) = col := by omega
    have hRowLt : row - v.region.rowOffset < v.numRows := by
      rw [numRows]
      omega
    have hColLt : col - v.region.colOffset < v.numCols := by
      rw [numCols]
      omega
    have hInside := h.inside _ _ hRowLt hColLt
    have hInside' := h'.inside _ _ hRowLt hColLt
    rw [hRow, hCol] at hInside hInside'
    exact hInside.trans hInside'.symm
  · exact (h.outside row col hIn).trans (h'.outside row col hIn).symm

theorem mapped_iff : v.Mapped f t ↔
    t = ⟨v.buffer.numRows, v.buffer.numCols, v.buffer.values.mapWindow v.region f⟩ := by
  constructor
  · exact fun h => h.unique (v.mapped_mapWindow f)
  · rintro rfl
    exact v.mapped_mapWindow f

/-- Maps that agree on the positions of the view lead to the same buffer. -/
theorem Mapped.congr {f' : Nat → Nat → Float32 → Float32} (h : v.Mapped f t)
    (hSame : ∀ row col, row < v.numRows → col < v.numCols → ∀ old,
      f row col old = f' row col old) : v.Mapped f' t := by
  rw [mapped_iff] at h ⊢
  rw [h, Dense.mapWindow_congr hSame]

/-- A change that maps its window maps what a view shows. -/
theorem change_of_maps {o : Except Error Unit}
    (h : Write.Maps v.region (w v.region : Write v.buffer.numRows v.buffer.numCols) o f) :
    ∃ t, v.Mapped f t ∧ v.change w =
      match o with
      | .ok u => .ok u t
      | .error err => .error err t := by
  refine ⟨_, v.mapped_mapWindow f, ?_⟩
  rw [change_eq, h.run v.buffer.values]
  cases o <;> rfl

/-- A change that tries conditions first succeeds exactly when they hold, and then maps what the
view shows. -/
theorem change_guardedMap_eq_ok_iff {conditions : Except Error Unit}
    (h : (w v.region : Write v.buffer.numRows v.buffer.numCols) =
      Kernel.guardedMap conditions v.region f) :
    v.change w = .ok () t ↔ conditions = .ok () ∧ v.Mapped f t := by
  rw [change_eq, h, mapped_iff]
  cases conditions with
  | ok u =>
      rw [Kernel.guardedMap_ok, Action.mapState, EStateM.Result.ok.injEq]
      simp only [true_and, eq_comm]
  | error err => simp [Kernel.guardedMap_error, Action.mapState]

end View

end MatrixProgram
