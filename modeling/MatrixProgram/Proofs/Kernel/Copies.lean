import MatrixProgram.Proofs.Kernel.Windows

/-!
# Operands and their copies

What a primitive or a component does with a view depends on the elements that the view sees
and on nothing else of its buffer: with a copy of them in a buffer of its own it does the
same.  Two views that look the same have the same copy, so a change that reads one of them is
the change that reads the other.

There is one lemma for each primitive and each operation of a component that reads views.
-/

namespace MatrixProgram

/-- The elements of a list are added up in the same way if each step does the same. -/
private theorem foldl_congr {α β : Type} {f f' : β → α → β} {xs : List α} (start : β)
    (h : ∀ total, ∀ x ∈ xs, f total x = f' total x) : xs.foldl f start = xs.foldl f' start := by
  refine List.foldl_rel (r := Eq) rfl ?_
  rintro x hMem total _ rfl
  exact h total x hMem

namespace View

/-- A view of a copy of what is seen. -/
def copied (v : View) : View :=
  .whole v.toBuffer

@[simp]
theorem shape_copied (v : View) : v.copied.shape = v.shape :=
  rfl

@[simp]
theorem numRows_copied (v : View) : v.copied.numRows = v.numRows :=
  rfl

@[simp]
theorem numCols_copied (v : View) : v.copied.numCols = v.numCols :=
  rfl

theorem get_copied {v : View} {row col : Nat} (hRow : row < v.numRows)
    (hCol : col < v.numCols) : v.copied.get row col = v.get row col := by
  have hWhole : v.copied.get row col = v.toBuffer.get row col := by
    simp [copied, whole, get, Region.whole]
  rw [hWhole, get_toBuffer hRow hCol]

/-- Two views that look the same have the same copy. -/
theorem copied_eq {v w : View} (hShape : v.shape = w.shape)
    (h : ∀ row col, row < v.numRows → col < v.numCols → v.get row col = w.get row col) :
    v.copied = w.copied := by
  have hBuffer : v.toBuffer = w.toBuffer := by
    refine Buffer.ext_get hShape ?_
    intro row col hRow hCol
    have hRows : v.numRows = w.numRows := congrArg Shape.numRows hShape
    have hCols : v.numCols = w.numCols := congrArg Shape.numCols hShape
    rw [get_toBuffer hRow hCol, get_toBuffer (hRows ▸ hRow) (hCols ▸ hCol)]
    exact h row col hRow hCol
  rw [copied, copied, hBuffer]

theorem toBuffer_copied (v : View) : v.copied.toBuffer = v.toBuffer := by
  apply Buffer.ext_get
  · rfl
  · intro row col hRow hCol
    rw [get_toBuffer (v := v.copied) hRow hCol, get_toBuffer (v := v) hRow hCol]
    exact get_copied hRow hCol

theorem sum_copied (v : View) : v.copied.sum = v.sum := by
  rw [sum, sum, toArray, toArray, toBuffer_copied]

end View

/-! ## The primitives -/

namespace Kernel

variable {rows cols : Nat}

/-- Two primitives are the same if their conditions are and, where these hold, their maps
agree on the window. -/
theorem guardedMap_congr {conditions : Except Error Unit} {g : Region}
    {f f' : Nat → Nat → Float32 → Float32}
    (h : conditions = .ok () → ∀ row col, row < g.numRows → col < g.numCols → ∀ old,
      f row col old = f' row col old) :
    (guardedMap conditions g f : Write rows cols) = guardedMap conditions g f' := by
  funext m
  cases conditions with
  | error err => rfl
  | ok u =>
      show EStateM.Result.ok () (m.mapWindow g f) = .ok () (m.mapWindow g f')
      rw [Dense.mapWindow_congr (h rfl)]

theorem numRows_of_requireShape {g : Region} {v : View}
    (h : requireShape g.shape v.shape = .ok ()) : g.numRows = v.numRows :=
  congrArg Shape.numRows (Action.require_eq_ok_iff.mp h)

theorem numCols_of_requireShape {g : Region} {v : View}
    (h : requireShape g.shape v.shape = .ok ()) : g.numCols = v.numCols :=
  congrArg Shape.numCols (Action.require_eq_ok_iff.mp h)

theorem copy_copied (v : View) (g : Region) :
    (copy v.copied g : Write rows cols) = copy v g := by
  refine guardedMap_congr ?_
  intro hShape row col hRow hCol _
  have hRows := numRows_of_requireShape hShape
  have hCols := numCols_of_requireShape hShape
  exact View.get_copied (v := v) (hRows ▸ hRow) (hCols ▸ hCol)

theorem add_copied (v : View) (alpha : Float32) (g : Region) :
    (add v.copied alpha g : Write rows cols) = add v alpha g := by
  refine guardedMap_congr ?_
  intro hShape row col hRow hCol old
  have hRows := numRows_of_requireShape hShape
  have hCols := numCols_of_requireShape hShape
  rw [View.get_copied (v := v) (hRows ▸ hRow) (hCols ▸ hCol)]

/-- A row that a table names is a row of the source. -/
theorem entry_lt_of_requireRows {indexes : List (Option Nat)} {numRows row srcRow : Nat}
    (h : requireRows indexes numRows = .ok ()) (hEntry : entry indexes row = some srcRow) :
    srcRow < numRows := by
  have hMem : some srcRow ∈ indexes := by
    unfold entry at hEntry
    cases hGet : indexes[row]? with
    | none => simp [hGet] at hEntry
    | some found =>
        rw [hGet, Option.join_some] at hEntry
        subst hEntry
        exact List.mem_of_getElem? hGet
  have hEach := Action.check_forM_eq_ok_iff.mp h srcRow
    (List.mem_filterMap.mpr ⟨some srcRow, hMem, rfl⟩)
  exact Action.require_eq_ok_iff.mp hEach

theorem gatherCopy_copied (v : View) (indexes : List (Option Nat)) (g : Region) :
    (gatherCopy v.copied indexes g : Write rows cols) = gatherCopy v indexes g := by
  refine guardedMap_congr ?_
  intro hConditions row col hRow hCol old
  obtain ⟨⟨⟩, hTable, hRows⟩ := Action.check_bind_eq_ok_iff.mp hConditions
  have hCols : g.numCols = v.numCols := (Action.require_eq_ok_iff.mp hTable).2
  cases hEntry : entry indexes row with
  | none => rfl
  | some srcRow =>
      have hSrcRow := entry_lt_of_requireRows hRows hEntry
      exact View.get_copied (v := v) hSrcRow (hCols ▸ hCol)

theorem gatherAdd_copied (v : View) (alpha : Float32) (indexes : List (Option Nat))
    (g : Region) :
    (gatherAdd v.copied alpha indexes g : Write rows cols) = gatherAdd v alpha indexes g := by
  refine guardedMap_congr ?_
  intro hConditions row col hRow hCol old
  obtain ⟨⟨⟩, hTable, hRows⟩ := Action.check_bind_eq_ok_iff.mp hConditions
  have hCols : g.numCols = v.numCols := (Action.require_eq_ok_iff.mp hTable).2
  cases hEntry : entry indexes row with
  | none => rfl
  | some srcRow =>
      have hGet := View.get_copied (v := v) (entry_lt_of_requireRows hRows hEntry) (hCols ▸ hCol)
      simp only [hGet]

/-- A single row that is read is a row of the source, of the width of the window. -/
theorem of_requireSingleRows {g : Region} {row srcRow : Nat} {v : View}
    (h : requireSingleRows g row v srcRow = .ok ()) :
    srcRow < v.numRows ∧ g.numCols = v.numCols := by
  obtain ⟨⟨⟩, -, hRest⟩ := Action.check_bind_eq_ok_iff.mp h
  obtain ⟨⟨⟩, hRow, hShape⟩ := Action.check_bind_eq_ok_iff.mp hRest
  exact ⟨Action.require_eq_ok_iff.mp hRow,
    congrArg Shape.numCols (Action.require_eq_ok_iff.mp hShape)⟩

theorem copyRow_copied (row : Nat) (v : View) (srcRow : Nat) (g : Region) :
    (copyRow row v.copied srcRow g : Write rows cols) = copyRow row v srcRow g := by
  refine guardedMap_congr ?_
  intro hConditions _ col _ hCol old
  obtain ⟨hRow, hCols⟩ := of_requireSingleRows (v := v) hConditions
  exact View.get_copied (v := v) hRow (hCols ▸ hCol)

theorem addRow_copied (row : Nat) (v : View) (srcRow : Nat) (alpha : Float32) (g : Region) :
    (addRow row v.copied srcRow alpha g : Write rows cols) = addRow row v srcRow alpha g := by
  refine guardedMap_congr ?_
  intro hConditions _ col _ hCol old
  obtain ⟨hRow, hCols⟩ := of_requireSingleRows (v := v) hConditions
  rw [View.get_copied (v := v) hRow (hCols ▸ hCol)]

theorem addRanges_copied (v : View) (ranges : List (Nat × Nat)) (g : Region) :
    (addRanges v.copied ranges g : Write rows cols) = addRanges v ranges g := by
  refine guardedMap_congr ?_
  intro hConditions row col _ hCol old
  obtain ⟨⟨⟩, hTable, hRanges⟩ := Action.check_bind_eq_ok_iff.mp hConditions
  have hCols : g.numCols = v.numCols := (Action.require_eq_ok_iff.mp hTable).2
  cases hRange : ranges[row]? with
  | none => rfl
  | some range =>
      obtain ⟨first, past⟩ := range
      have hBounds := Action.require_eq_ok_iff.mp (Action.check_forM_eq_ok_iff.mp hRanges
        (first, past) (List.mem_of_getElem? hRange))
      refine foldl_congr _ ?_
      intro total srcRow hMem
      rw [List.mem_range'_1] at hMem
      have hRow : srcRow < v.numRows := by
        have hPast : past ≤ v.numRows := hBounds.2
        omega
      rw [View.get_copied (v := v) hRow (hCols ▸ hCol)]

/-- Two factors that are the same after transposition. -/
structure Factor.ShowsSame (a b : Factor) : Prop where
  shape : a.shape = b.shape
  value : ∀ row col, row < b.shape.numRows → col < b.shape.numCols → a.get row col = b.get row col

theorem Factor.ShowsSame.refl (a : Factor) : a.ShowsSame a :=
  ⟨rfl, fun _ _ _ _ => rfl⟩

/-- A factor of which only a copy is kept. -/
def Factor.copied (a : Factor) : Factor :=
  ⟨a.view.copied, a.transposed⟩

theorem Factor.copied_showsSame (a : Factor) : a.copied.ShowsSame a where
  shape := rfl
  value := by
    intro row col hRow hCol
    obtain ⟨v, transposed⟩ := a
    cases transposed with
    | false => exact View.get_copied hRow hCol
    | true => exact View.get_copied hCol hRow

/-- What the conditions of a product say of an element of the window. -/
private theorem lt_of_product {a b : Factor} {g : Region} {row col : Nat}
    (h : (do requireProduct a b; requireShape g.shape ⟨a.shape.numRows, b.shape.numCols⟩) =
      .ok ()) (hRow : row < g.numRows) (hCol : col < g.numCols) :
    row < a.shape.numRows ∧ col < b.shape.numCols ∧ a.shape.numCols = b.shape.numRows := by
  obtain ⟨⟨⟩, hProduct, hShape⟩ := Action.check_bind_eq_ok_iff.mp h
  have hOuter : g.shape = ⟨a.shape.numRows, b.shape.numCols⟩ :=
    Action.require_eq_ok_iff.mp hShape
  have hRows : g.numRows = a.shape.numRows := congrArg Shape.numRows hOuter
  have hCols : g.numCols = b.shape.numCols := congrArg Shape.numCols hOuter
  exact ⟨hRows ▸ hRow, hCols ▸ hCol, Action.require_eq_ok_iff.mp hProduct⟩

/-- A product looks at its factors after transposition only. -/
theorem product_congr {a a' b b' : Factor} (hLeft : a'.ShowsSame a) (hRight : b'.ShowsSame b)
    (alpha beta : Float32) (g : Region) :
    (accumulateProduct a' b' alpha beta g : Write rows cols) =
      accumulateProduct a b alpha beta g := by
  unfold accumulateProduct requireProduct
  rw [hLeft.shape, hRight.shape]
  refine guardedMap_congr fun hConditions row col hRow hCol old => ?_
  obtain ⟨hRowLt, hColLt, hInner⟩ := lt_of_product (a := a) (b := b) hConditions hRow hCol
  have hDot : dot a' b' row col = dot a b row col := by
    unfold dot
    rw [hLeft.shape]
    refine foldl_congr _ fun total inner hMem => ?_
    have hLt : inner < a.shape.numCols := List.mem_range.mp hMem
    rw [hLeft.value row inner hRowLt hLt, hRight.value inner col (hInner ▸ hLt) hColLt]
  rw [hDot]

theorem product_copied_left (a b : Factor) (alpha beta : Float32) (g : Region) :
    (accumulateProduct a.copied b alpha beta g : Write rows cols) =
      accumulateProduct a b alpha beta g :=
  product_congr a.copied_showsSame (.refl b) alpha beta g

theorem addToEachRow_copied (v : View) (alpha : Float32) (g : Region) :
    (addToEachRow v.copied alpha g : Write rows cols) = addToEachRow v alpha g := by
  refine guardedMap_congr ?_
  intro hShape row col _ hCol old
  have hSame : (⟨1, g.numCols⟩ : Shape) = v.shape := Action.require_eq_ok_iff.mp hShape
  have hRows : 1 = v.numRows := congrArg Shape.numRows hSame
  have hCols : g.numCols = v.numCols := congrArg Shape.numCols hSame
  rw [View.get_copied (v := v) (hRows ▸ Nat.zero_lt_one) (hCols ▸ hCol)]

theorem rowSum_copied (v : View) (alpha beta : Float32) (g : Region) :
    (accumulateRowSum v.copied alpha beta g : Write rows cols) =
      accumulateRowSum v alpha beta g := by
  refine guardedMap_congr ?_
  intro hShape row col _ hCol old
  have hCols : v.numCols = g.numCols :=
    congrArg Shape.numCols (Action.require_eq_ok_iff.mp hShape)
  have hSum : columnSum v.copied col = columnSum v col := by
    refine foldl_congr _ ?_
    intro total srcRow hMem
    rw [View.get_copied (v := v) (List.mem_range.mp hMem) (hCols ▸ hCol)]
  rw [hSum]

theorem applyActivation_copied (op : Activation) (v : View) (g : Region) :
    (applyActivation op v.copied g : Write rows cols) = applyActivation op v g := by
  refine guardedMap_congr ?_
  intro hShape row col hRow hCol old
  have hRows := numRows_of_requireShape hShape
  have hCols := numCols_of_requireShape hShape
  rw [View.get_copied (v := v) (hRows ▸ hRow) (hCols ▸ hCol)]

theorem activationGradient_copied (op : Activation) (outValue outDeriv : View)
    (beta : Float32) (g : Region) :
    (activationGradient op outValue.copied outDeriv.copied beta g : Write rows cols) =
      activationGradient op outValue outDeriv beta g := by
  refine guardedMap_congr ?_
  intro hConditions row col hRow hCol old
  obtain ⟨⟨⟩, hValue, hDeriv⟩ := Action.check_bind_eq_ok_iff.mp hConditions
  have hValueRows := numRows_of_requireShape hValue
  have hValueCols := numCols_of_requireShape hValue
  have hDerivRows := numRows_of_requireShape hDeriv
  have hDerivCols := numCols_of_requireShape hDeriv
  rw [View.get_copied (v := outValue) (hValueRows ▸ hRow) (hValueCols ▸ hCol),
    View.get_copied (v := outDeriv) (hDerivRows ▸ hRow) (hDerivCols ▸ hCol)]

end Kernel

/-! ## The components -/

namespace Component

variable {rows cols : Nat}

theorem propagate_copied (c : Component) (indexes : Option (List Nat)) (input : View)
    (g : Region) :
    (c.propagate indexes input.copied g : Write rows cols) = c.propagate indexes input g := by
  cases c with
  | affine a =>
      have hProduct : (Kernel.accumulateProduct ⟨input.copied, false⟩ ⟨a.weightView, true⟩ 1 0 g :
          Write rows cols) = Kernel.accumulateProduct ⟨input, false⟩ ⟨a.weightView, true⟩ 1 0 g :=
        Kernel.product_copied_left ⟨input, false⟩ ⟨a.weightView, true⟩ 1 0 g
      exact congrArg (fun first => first >>= fun _ => Kernel.addToEachRow a.biasView 1 g) hProduct
  | nonlinear n => exact Kernel.applyActivation_copied _ _ _
  | rowSelect r =>
      show (Action.ofExcept (RowSelect.requireIndexes indexes g.numRows) >>= fun found =>
        Kernel.gatherCopy input.copied (found.map some) g : Write rows cols) = _
      simp only [Kernel.gatherCopy_copied]
      rfl
  | declared d => rfl

theorem backprop_copied (c : Component) (indexes : Option (List Nat))
    (inValue outValue : Option View) (outDeriv : View) (g : Region) :
    (c.backprop indexes (inValue.map View.copied) (outValue.map View.copied) outDeriv.copied g
        : Write rows cols) =
      c.backprop indexes inValue outValue outDeriv g := by
  cases c with
  | affine a => exact Kernel.product_copied_left ⟨outDeriv, false⟩ ⟨a.weightView, false⟩ 1 0 g
  | nonlinear n =>
      cases outValue with
      | none => rfl
      | some v => exact Kernel.activationGradient_copied _ _ _ _ _
  | rowSelect r =>
      show (Action.ofExcept (RowSelect.requireIndexes indexes outDeriv.numRows) >>= fun found =>
        found.zipIdx.forM fun entry =>
          Kernel.addRow entry.1 outDeriv.copied entry.2 1 g : Write rows cols) = _
      simp only [Kernel.addRow_copied]
      rfl
  | declared d => rfl

theorem update_copied (indexes : Option (List Nat)) (inValue : Option View)
    (outDeriv : View) :
    update indexes (inValue.map View.copied) outDeriv.copied = update indexes inValue outDeriv := by
  funext c
  cases c with
  | affine a =>
      have hUpdate : Affine.update (inValue.map View.copied) outDeriv.copied =
          Affine.update inValue outDeriv := by
        cases inValue with
        | none => rfl
        | some v =>
            have hWeight : ∀ (a : Affine) (g : Region),
                (Kernel.accumulateProduct ⟨outDeriv.copied, true⟩ ⟨v.copied, false⟩
                  a.learningRate 1 g : Write a.outputDim a.inputDim) =
                Kernel.accumulateProduct ⟨outDeriv, true⟩ ⟨v, false⟩ a.learningRate 1 g :=
              fun a g => Kernel.product_congr (Kernel.Factor.copied_showsSame ⟨outDeriv, true⟩)
                (Kernel.Factor.copied_showsSame ⟨v, false⟩) a.learningRate 1 g
            have hBias : ∀ (a : Affine) (g : Region),
                (Kernel.accumulateRowSum outDeriv.copied a.learningRate 1 g :
                  Write 1 a.outputDim) =
                Kernel.accumulateRowSum outDeriv a.learningRate 1 g :=
              fun a g => Kernel.rowSum_copied outDeriv a.learningRate 1 g
            simp only [Option.map_some, Affine.update]
            have hWeights := funext fun a => funext (hWeight a)
            have hBiases := funext fun a => funext (hBias a)
            rw [hWeights, hBiases]
      show Action.mapState Component.affine
        (Affine.update (inValue.map View.copied) outDeriv.copied a) = _
      rw [hUpdate]
      rfl
  | nonlinear n => rfl
  | rowSelect r => rfl
  | declared d => rfl

theorem storeStats_copied (outValue : View) :
    storeStats outValue.copied = storeStats outValue := by
  funext c
  cases c with
  | nonlinear n =>
      have hColumn : ∀ (col : Nat) (start : Float), col < outValue.numCols →
          Nonlinear.addColumn outValue.copied col start =
            Nonlinear.addColumn outValue col start := by
        intro col start hCol
        refine foldl_congr start ?_
        intro total row hMem
        rw [View.get_copied (v := outValue) (List.mem_range.mp hMem) hCol]
      have hStats : Nonlinear.storeStats outValue.copied n = Nonlinear.storeStats outValue n := by
        by_cases hWidth : outValue.numCols = n.dim
        · have hSums : n.valueSum.mapIdx (Nonlinear.addColumn outValue.copied) =
              n.valueSum.mapIdx (Nonlinear.addColumn outValue) := by
            apply Vector.ext
            intro col hCol
            rw [Vector.getElem_mapIdx, Vector.getElem_mapIdx]
            exact hColumn col _ (hWidth ▸ hCol)
          simp only [Nonlinear.storeStats, Action.bind_run, Action.get_run,
            View.numCols_copied, hWidth, if_true, hSums, View.numRows_copied]
        · simp [Nonlinear.storeStats, Action.bind_run, hWidth]
      show Action.mapState Component.nonlinear (Nonlinear.storeStats outValue.copied n) = _
      rw [hStats]
      rfl
  | affine a => rfl
  | rowSelect r => rfl
  | declared d => rfl

end Component

end MatrixProgram
