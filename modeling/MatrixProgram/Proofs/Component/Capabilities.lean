import Mathlib.Data.List.Basic
import MatrixProgram.Proofs.Machine.Commands

/-!
# Components keep what they declare

Checks and analyses know a component by its capabilities alone.  This file shows that every
component keeps what it declares, `honours_capabilities`: what is overwritten does not depend on
what was there before, what is added to keeps its old value as the first summand, the rows of a
simple component do not see each other, and an operand that is not needed makes no difference.

Where a component succeeds it maps its window, and the map is found once for each component.
All laws about rows are read off these maps.
-/

namespace MatrixProgram

open Kernel

/-! ## Laws of changes -/

/-- Two views show the same elements in a row. -/
def View.SameRow (v v' : View) (row : Nat) : Prop :=
  ∀ col, col < v.numCols → v.get row col = v'.get row col

namespace Write

variable {rows cols : Nat} {g : Region} {w w' : Write rows cols}

/-- Whether a change succeeds, and what it leaves in its window, does not depend on the old
values. -/
def Overwrites (g : Region) (w : Write rows cols) : Prop :=
  ∀ m m' t, w m = .ok () t →
    ∃ t', w m' = .ok () t' ∧ ∀ row col, g.Contains row col → t'.get row col = t.get row col

/-- Two changes that succeed leave the same elements in a row of their window. -/
def AgreeOn (g : Region) (row : Nat) (w w' : Write rows cols) : Prop :=
  ∀ m m' t t', w m = .ok () t → w' m' = .ok () t' → ∀ col, col < g.numCols →
    t.get (g.rowOffset + row) (g.colOffset + col) =
      t'.get (g.rowOffset + row) (g.colOffset + col)

/-- Where a change succeeds, it adds to each row of its window the rows of a view that are
picked for it, one after the other. -/
def AddsRows (g : Region) (v : View) (picked : Nat → List Nat) (w : Write rows cols) : Prop :=
  ∀ m t, w m = .ok () t →
    (∀ row, ∀ position ∈ picked row, position < v.numRows) ∧
      t = m.mapWindow g fun row col old =>
        (picked row).foldl (fun total position => total + 1 * v.get position col) old

/-- A change that sets all rows of its window overwrites it. -/
theorem Sets.overwrites {p : Prop} (h : Sets g (fun _ => p) w) (hSet : p) : Overwrites g w := by
  obtain ⟨o, f, hMaps, -, hIgnores⟩ := h
  intro m m' t hRun
  have hOutcome := (hMaps m).1
  rw [hRun] at hOutcome
  obtain rfl : o = .ok () := hOutcome.symm
  rw [hMaps.run m] at hRun
  cases hRun
  refine ⟨_, hMaps.run m', fun row col hIn => ?_⟩
  by_cases hInside : row < rows ∧ col < cols
  · rw [Dense.get_mapWindow hInside.1 hInside.2, Dense.get_mapWindow hInside.1 hInside.2,
      if_pos hIn, if_pos hIn]
    exact hIgnores rfl _ _ _ _ hSet
  · rw [Dense.get_of_not hInside, Dense.get_of_not hInside]

/-- Changes agree on a row if their maps give it the same values from all old ones. -/
theorem agreeOn_of_maps {row : Nat}
    (h : ∀ m m' t t', w m = .ok () t → w' m' = .ok () t' → ∃ f f',
      t = m.mapWindow g f ∧ t' = m'.mapWindow g f' ∧
        ∀ col, col < g.numCols → ∀ old old', f row col old = f' row col old')
    (hRow : row < g.numRows) : AgreeOn g row w w' := by
  intro m m' t t' hRun hRun' col hCol
  obtain ⟨f, f', rfl, rfl, hSame⟩ := h m m' t t' hRun hRun'
  have hIn : g.Contains (g.rowOffset + row) (g.colOffset + col) := by
    simp only [Region.Contains, Region.rowEnd, Region.colEnd]
    omega
  by_cases hInside : g.rowOffset + row < rows ∧ g.colOffset + col < cols
  · rw [Dense.get_mapWindow hInside.1 hInside.2, Dense.get_mapWindow hInside.1 hInside.2,
      if_pos hIn, if_pos hIn, Nat.add_sub_cancel_left, Nat.add_sub_cancel_left]
    exact hSame col hCol _ _
  · rw [Dense.get_of_not hInside, Dense.get_of_not hInside]

end Write

/-! ## What the components compute -/

namespace Kernel

variable {rows cols : Nat} {g : Region} {m t : Dense rows cols}

theorem guardedMap_eq_ok_iff {conditions : Except Error Unit}
    {f : Nat → Nat → Float32 → Float32} :
    guardedMap conditions g f m = .ok () t ↔ conditions = .ok () ∧ t = m.mapWindow g f := by
  cases conditions with
  | ok u => simp [guardedMap, eq_comm]
  | error err => simp [guardedMap]

/-- The product of a row with a column depends on that row of the left factor alone. -/
theorem dot_congr {v v' : View} {b : Factor} {row col : Nat} (hWidth : v.numCols = v'.numCols)
    (hRow : v.SameRow v' row) : dot ⟨v, false⟩ b row col = dot ⟨v', false⟩ b row col := by
  have hShape : (Factor.shape ⟨v, false⟩).numCols = (Factor.shape ⟨v', false⟩).numCols := hWidth
  unfold dot
  rw [hShape]
  refine List.foldl_ext _ _ _ fun total inner hMem => ?_
  have hInner : inner < v.numCols := hWidth ▸ List.mem_range.mp hMem
  show total + v.get row inner * _ = total + v'.get row inner * _
  rw [hRow inner hInner]

theorem accumulateProduct_eq_ok {a b : Factor} {alpha : Float32}
    (hRun : accumulateProduct a b alpha 0 g m = .ok () t) :
    a.shape.numCols = b.shape.numRows ∧
      t = m.mapWindow g fun row col _ => alpha * dot a b row col := by
  obtain ⟨hConditions, hState⟩ := guardedMap_eq_ok_iff.mp hRun
  obtain ⟨_, hInner, -⟩ := Action.check_bind_eq_ok_iff.mp hConditions
  have hZero : ((0 : Float32) == 0) = true := by decide
  simp only [hZero, if_true] at hState
  exact ⟨Action.require_eq_ok_iff.mp hInner, hState⟩

end Kernel

variable {rows cols : Nat} {g : Region} {m t : Dense rows cols}

theorem Affine.propagate_eq_ok {a : Affine} {input : View}
    (hRun : a.propagate input g m = .ok () t) :
    input.numCols = a.inputDim ∧ t = m.mapWindow g fun row col _ =>
      1 * dot ⟨input, false⟩ ⟨a.weightView, true⟩ row col + 1 * a.biasView.get 0 col := by
  obtain ⟨_, u, hProduct, hBias⟩ := Action.bind_run_eq_ok_iff.mp hRun
  obtain ⟨hInner, rfl⟩ := accumulateProduct_eq_ok hProduct
  obtain ⟨-, rfl⟩ := guardedMap_eq_ok_iff.mp hBias
  exact ⟨hInner, Dense.mapWindow_mapWindow m _ _⟩

theorem Affine.backprop_eq_ok {a : Affine} {outDeriv : View}
    (hRun : a.backprop outDeriv g m = .ok () t) :
    outDeriv.numCols = a.outputDim ∧ t = m.mapWindow g fun row col _ =>
      1 * dot ⟨outDeriv, false⟩ ⟨a.weightView, false⟩ row col :=
  accumulateProduct_eq_ok hRun

theorem Nonlinear.propagate_eq_ok {n : Nonlinear} {input : View}
    (hRun : n.propagate input g m = .ok () t) :
    g.numCols = input.numCols ∧
      t = m.mapWindow g fun row col _ => n.op.apply (input.get row col) := by
  obtain ⟨hShape, hState⟩ := guardedMap_eq_ok_iff.mp hRun
  exact ⟨numCols_of_requireShape hShape, hState⟩

theorem Nonlinear.backprop_eq_ok {n : Nonlinear} {outValue : Option View} {outDeriv : View}
    (hRun : n.backprop outValue outDeriv g m = .ok () t) :
    ∃ v, outValue = some v ∧ g.numCols = v.numCols ∧ g.numCols = outDeriv.numCols ∧
      t = m.mapWindow g fun row col _ =>
        n.op.derivativeFromOutput (v.get row col) * outDeriv.get row col := by
  cases outValue with
  | none => cases hRun
  | some v =>
      obtain ⟨hConditions, hState⟩ := guardedMap_eq_ok_iff.mp hRun
      obtain ⟨_, hShape, hShape'⟩ := Action.check_bind_eq_ok_iff.mp hConditions
      have hZero : ((0 : Float32) == 0) = true := by decide
      simp only [hZero, if_true] at hState
      exact ⟨v, rfl, numCols_of_requireShape hShape, numCols_of_requireShape hShape', hState⟩

/-! ### Row selection -/

namespace RowSelect

/-- The positions at which a list has a given entry, in increasing order. -/
def positionsOf (indexes : List Nat) (row : Nat) : List Nat :=
  (indexes.zipIdx.filter fun entry => entry.1 = row).map (·.2)

theorem lt_of_mem_positionsOf {indexes : List Nat} {row position : Nat}
    (h : position ∈ positionsOf indexes row) : position < indexes.length := by
  simp only [positionsOf, List.mem_map, List.mem_filter] at h
  obtain ⟨⟨entry, _⟩, ⟨hMem, -⟩, rfl⟩ := h
  exact (List.getElem?_eq_some_iff.mp (List.mem_zipIdx_iff_getElem?.mp hMem)).1

/-- Adding for each entry a value to the row that it names is, for one row, adding the values
from the positions of its entries. -/
theorem foldl_positionsOf {indexes : List Nat} {row : Nat} (f : Nat → Float32 → Float32)
    (start : Float32) :
    indexes.zipIdx.foldl
        (fun total entry => if row = entry.1 then f entry.2 total else total) start =
      (positionsOf indexes row).foldl (fun total position => f position total) start := by
  rw [positionsOf, List.foldl_map, List.foldl_filter]
  refine List.foldl_ext _ _ _ fun total entry _ => ?_
  by_cases hEq : row = entry.1
  · simp [hEq]
  · simp [hEq, Ne.symm hEq]

/-- Rows added one after the other, where all of these additions succeed. -/
theorem addRows_eq_ok {v : View} {alpha : Float32} (entries : List (Nat × Nat))
    (hRun : (entries.forM fun entry => addRow entry.1 v entry.2 alpha g : Write rows cols) m =
      .ok () t) :
    t = m.mapWindow g fun row col old => entries.foldl
      (fun total entry => if row = entry.1 then total + alpha * v.get entry.2 col else total)
        old := by
  induction entries generalizing m with
  | nil =>
      cases hRun
      exact (Dense.mapWindow_id _).symm
  | cons entry rest ih =>
      obtain ⟨_, u, hFirst, hRest⟩ := Action.bind_run_eq_ok_iff.mp hRun
      obtain ⟨hConditions, rfl⟩ := guardedMap_eq_ok_iff.mp hFirst
      rw [ih hRest, Dense.mapWindow_rowWindow m (lt_of_requireSingleRows hConditions),
        Dense.mapWindow_mapWindow]
      rfl

/-- The derivative of output row `i` is added to the row that entry `i` names. -/
theorem backprop_eq_ok {indexes : Option (List Nat)} {outDeriv : View}
    (hRun : backprop indexes outDeriv g m = .ok () t) :
    ∃ list, indexes = some list ∧ list.length = outDeriv.numRows ∧
      t = m.mapWindow g fun row col old => (positionsOf list row).foldl
        (fun total position => total + 1 * outDeriv.get position col) old := by
  obtain ⟨list, _, hList, hAdds⟩ := Action.bind_run_eq_ok_iff.mp hRun
  obtain ⟨hGiven, rfl⟩ := Action.ofExcept_run_eq_ok_iff.mp hList
  obtain ⟨hFound, hLength⟩ := requireIndexes_eq_ok_iff.mp hGiven
  refine ⟨list, hFound, hLength, (addRows_eq_ok list.zipIdx hAdds).trans ?_⟩
  congr 1
  funext row col old
  exact foldl_positionsOf (fun position total => total + 1 * outDeriv.get position col) old

end RowSelect

/-! ## Rows of simple components -/

namespace Component

variable {c : Component}

/-- A row of the output of a simple component depends on that row of the input alone. -/
theorem propagate_agreeOn (hSimple : c.capabilities.simple = true)
    {indexes indexes' : Option (List Nat)} {input input' : View} {row : Nat}
    (hRow : row < g.numRows) (hSame : input.SameRow input' row) :
    Write.AgreeOn g row (c.propagate indexes input g : Write rows cols)
      (c.propagate indexes' input' g) := by
  refine Write.agreeOn_of_maps (fun m m' t t' hRun hRun' => ?_) hRow
  cases c with
  | affine a =>
      obtain ⟨hWidth, hState⟩ := Affine.propagate_eq_ok hRun
      obtain ⟨hWidth', hState'⟩ := Affine.propagate_eq_ok hRun'
      refine ⟨_, _, hState, hState', fun col _ old old' => ?_⟩
      rw [dot_congr (hWidth.trans hWidth'.symm) hSame]
  | nonlinear n =>
      obtain ⟨hWidth, hState⟩ := Nonlinear.propagate_eq_ok hRun
      obtain ⟨-, hState'⟩ := Nonlinear.propagate_eq_ok hRun'
      refine ⟨_, _, hState, hState', fun col hCol old old' => ?_⟩
      rw [hSame col (hWidth ▸ hCol)]
  | rowSelect r => cases hSimple
  | declared d => cases hRun

/-- A row of the derivative of its input depends on that row of the output and of the
derivative of the output alone. -/
theorem backprop_agreeOn (hSimple : c.capabilities.simple = true)
    {indexes indexes' : Option (List Nat)} {inValue inValue' outValue outValue' : Option View}
    {outDeriv outDeriv' : View} {row : Nat} (hRow : row < g.numRows)
    (hSame : outDeriv.SameRow outDeriv' row)
    (hValues : ∀ v v', outValue = some v → outValue' = some v' → v.SameRow v' row) :
    Write.AgreeOn g row (c.backprop indexes inValue outValue outDeriv g : Write rows cols)
      (c.backprop indexes' inValue' outValue' outDeriv' g) := by
  refine Write.agreeOn_of_maps (fun m m' t t' hRun hRun' => ?_) hRow
  cases c with
  | affine a =>
      obtain ⟨hWidth, hState⟩ := Affine.backprop_eq_ok hRun
      obtain ⟨hWidth', hState'⟩ := Affine.backprop_eq_ok hRun'
      refine ⟨_, _, hState, hState', fun col _ old old' => ?_⟩
      rw [dot_congr (hWidth.trans hWidth'.symm) hSame]
  | nonlinear n =>
      obtain ⟨v, hValue, hValueWidth, hWidth, hState⟩ := Nonlinear.backprop_eq_ok hRun
      obtain ⟨v', hValue', -, -, hState'⟩ := Nonlinear.backprop_eq_ok hRun'
      refine ⟨_, _, hState, hState', fun col hCol old old' => ?_⟩
      rw [hValues v v' hValue hValue' col (hValueWidth ▸ hCol), hSame col (hWidth ▸ hCol)]
  | rowSelect r => cases hSimple
  | declared d => cases hRun

/-- Where a backprop adds, it adds the rows at the positions of the precomputed indexes. -/
theorem backprop_addsRows (hAdds : c.capabilities.backpropAdds = true)
    (indexes : Option (List Nat)) (inValue outValue : Option View) (outDeriv : View) :
    Write.AddsRows g outDeriv (fun row => RowSelect.positionsOf (indexes.getD []) row)
      (c.backprop indexes inValue outValue outDeriv g : Write rows cols) := by
  cases c with
  | rowSelect r =>
      intro m t hRun
      obtain ⟨list, rfl, hLength, hState⟩ := RowSelect.backprop_eq_ok hRun
      exact ⟨fun row position hMem => hLength ▸ RowSelect.lt_of_mem_positionsOf hMem, hState⟩
  | affine a => cases hAdds
  | nonlinear n => cases hAdds
  | declared d =>
      intro m t hRun
      cases hRun

end Component

/-! ## The network to update -/

namespace Machine

variable {x : Machine} {s : MachineState} {index k : Nat} {precomputed : Option Nat}

/-- A lookup that goes first does not count. -/
theorem target_after {α β : Type} {check : Except Error α} {next : α → MachineAction β}
    (h : ∀ a t, (Action.finalState (next a t)).target = t.target) :
    (Action.finalState ((Action.ofExcept check >>= next) s)).target = s.target := by
  rw [finalState_bind (f := MachineState.target) h]
  cases check <;> rfl

theorem target_finalState_propagate (input output : Nat) :
    (Action.finalState (x.execute index (.propagate k precomputed input output) s)).target =
      s.target := by
  rw [target_finalState_execute]
  refine target_after fun component t => target_after fun rows u => ?_
  rw [writeFrom_eq]
  exact target_finalState_write

theorem target_finalState_writeInDeriv (component : Component) (rows : Option (List Nat))
    (inValue outValue outDeriv inDeriv : Nat) :
    (Action.finalState (x.writeInDeriv component rows inValue outValue outDeriv inDeriv
      s)).target = s.target := by
  unfold writeInDeriv
  split
  · exact target_finalState_write
  · rfl

/-- A backprop of a component that is not updatable leaves the network to update as it is. -/
theorem target_finalState_backprop_of_not_updatable {c : Component}
    {node inValue outValue outDeriv inDeriv : Nat} (hComponent : x.network.component k = .ok c)
    (hUpdatable : c.capabilities.updatable = false) :
    (Action.finalState (x.execute index
      (.backprop node k precomputed inValue outValue outDeriv inDeriv) s)).target = s.target := by
  rw [target_finalState_execute, perform, backprop_eq, hComponent, Action.ofExcept_ok_bind]
  refine target_after fun rows t => ?_
  rw [hUpdatable, if_neg Bool.false_ne_true]
  exact target_finalState_writeInDeriv c rows inValue outValue outDeriv inDeriv

/-- And so does a backprop whose precomputed indexes are missing. -/
theorem target_finalState_backprop_of_error {c : Component} {err : Error}
    {node inValue outValue outDeriv inDeriv : Nat} (hComponent : x.network.component k = .ok c)
    (hRows : x.precomputedRows index precomputed = .error err) :
    (Action.finalState (x.execute index
      (.backprop node k precomputed inValue outValue outDeriv inDeriv) s)).target = s.target := by
  rw [target_finalState_execute, perform, backprop_eq, hComponent, Action.ofExcept_ok_bind, hRows]
  rfl

end Machine

/-! ## The contract of a component -/

namespace Component

/-- What a component guarantees by its capabilities. -/
structure Honours (c : Component) : Prop where
  /-- A propagation overwrites the output, unless it adds. -/
  propagate_overwrites : c.capabilities.propagateAdds = false →
    ∀ indexes input (rows cols : Nat) g,
      Write.Overwrites g (c.propagate indexes input g : Write rows cols)
  /-- A backprop overwrites the derivative of the input, unless it adds. -/
  backprop_overwrites : c.capabilities.backpropAdds = false →
    ∀ indexes inValue outValue outDeriv (rows cols : Nat) g,
      Write.Overwrites g (c.backprop indexes inValue outValue outDeriv g : Write rows cols)
  /-- If it adds, then each row gets rows of the derivative of the output on top of its old
  value; which ones they are, the precomputed indexes decide. -/
  backprop_adds : c.capabilities.backpropAdds = true → ∀ indexes, ∃ picked,
    ∀ inValue outValue outDeriv (rows cols : Nat) g,
      Write.AddsRows g outDeriv picked
        (c.backprop indexes inValue outValue outDeriv g : Write rows cols)
  /-- A simple component ignores the precomputed indexes. -/
  indexes_ignored : c.capabilities.simple = true → ∀ indexes indexes',
    (∀ input (rows cols : Nat) g,
      (c.propagate indexes input g : Write rows cols) = c.propagate indexes' input g) ∧
    (∀ inValue outValue outDeriv (rows cols : Nat) g,
      (c.backprop indexes inValue outValue outDeriv g : Write rows cols) =
        c.backprop indexes' inValue outValue outDeriv g) ∧
    ∀ inValue outDeriv, update indexes inValue outDeriv c = update indexes' inValue outDeriv c
  /-- A row of the output of a simple component depends on that row of the input alone. -/
  propagate_by_row : c.capabilities.simple = true →
    ∀ indexes indexes' (input input' : View) (rows cols : Nat) (g : Region) row,
      row < g.numRows → input.SameRow input' row →
        Write.AgreeOn g row (c.propagate indexes input g : Write rows cols)
          (c.propagate indexes' input' g)
  /-- A row of the derivative of its input depends on that row of the output and of its
  derivative alone. -/
  backprop_by_row : c.capabilities.simple = true →
    ∀ indexes indexes' inValue inValue' (outValue outValue' : Option View)
      (outDeriv outDeriv' : View) (rows cols : Nat) (g : Region) row,
      row < g.numRows → outDeriv.SameRow outDeriv' row →
        (∀ v v', outValue = some v → outValue' = some v' → v.SameRow v' row) →
          Write.AgreeOn g row
            (c.backprop indexes inValue outValue outDeriv g : Write rows cols)
            (c.backprop indexes' inValue' outValue' outDeriv' g)
  /-- A value of the input that is not needed makes no difference. -/
  input_unused : c.capabilities.backpropNeedsInput = false → ∀ indexes inValue inValue' outDeriv,
    (∀ outValue (rows cols : Nat) g,
      (c.backprop indexes inValue outValue outDeriv g : Write rows cols) =
        c.backprop indexes inValue' outValue outDeriv g) ∧
    update indexes inValue outDeriv c = update indexes inValue' outDeriv c
  /-- Neither does a value of the output that is not needed. -/
  output_unused : c.capabilities.backpropNeedsOutput = false →
    ∀ indexes inValue outValue outValue' outDeriv (rows cols : Nat) g,
      (c.backprop indexes inValue outValue outDeriv g : Write rows cols) =
        c.backprop indexes inValue outValue' outDeriv g
  /-- An update changes nothing, unless the component is updatable. -/
  update_idle : c.capabilities.updatable = false → ∀ indexes inValue outDeriv,
    update indexes inValue outDeriv c = .ok () c
  /-- Statistics change nothing, unless the component stores some. -/
  storeStats_idle : c.capabilities.storesStats = false → ∀ outValue,
    storeStats outValue c = .ok () c
  /-- A propagation changes no component of the network to update, whether or not it
  succeeds. -/
  propagate_keeps : ∀ (x : Machine) k, x.network.component k = .ok c →
    ∀ index precomputed input output s, (Action.finalState
      (x.execute index (.propagate k precomputed input output) s)).target = s.target
  /-- Of a backprop only the update does, and that only if the component is updatable. -/
  backprop_keeps : ∀ (x : Machine) k, x.network.component k = .ok c →
    ∀ index node precomputed inValue outValue outDeriv inDeriv s, (Action.finalState
      (x.execute index (.backprop node k precomputed inValue outValue outDeriv inDeriv)
        s)).target =
      match c.capabilities.updatable, x.precomputedRows index precomputed with
      | true, .ok rows =>
          (Action.finalState (x.updateTarget index k rows inValue outDeriv s)).target
      | _, _ => s.target

/-- Every component keeps what it declares.  One that is known by its description alone does
so because computing with it fails. -/
theorem honours_capabilities (c : Component) : c.Honours where
  propagate_overwrites := fun hAdds indexes input _ _ _ =>
    (propagate_sets c indexes input).overwrites hAdds
  backprop_overwrites := fun hAdds indexes inValue outValue outDeriv _ _ _ =>
    (backprop_sets c indexes inValue outValue outDeriv).overwrites hAdds
  backprop_adds := fun hAdds indexes => ⟨_, fun inValue outValue outDeriv _ _ _ =>
    backprop_addsRows hAdds indexes inValue outValue outDeriv⟩
  indexes_ignored := by
    intro hSimple indexes indexes'
    cases c with
    | rowSelect r => cases hSimple
    | _ => exact ⟨fun _ _ _ _ => rfl, fun _ _ _ _ _ _ => rfl, fun _ _ => rfl⟩
  propagate_by_row := fun hSimple _ _ _ _ _ _ _ _ hRow hSame =>
    propagate_agreeOn hSimple hRow hSame
  backprop_by_row := fun hSimple _ _ _ _ _ _ _ _ _ _ _ _ hRow hSame hValues =>
    backprop_agreeOn hSimple hRow hSame hValues
  input_unused := by
    intro hUnused indexes inValue inValue' outDeriv
    cases c with
    | affine a => cases hUnused
    | _ => exact ⟨fun _ _ _ _ => rfl, rfl⟩
  output_unused := by
    intro hUnused indexes inValue outValue outValue' outDeriv rows cols g
    cases c with
    | nonlinear n => cases hUnused
    | _ => rfl
  update_idle := by
    intro hIdle indexes inValue outDeriv
    cases c with
    | affine a => cases hIdle
    | _ => rfl
  storeStats_idle := by
    intro hIdle outValue
    cases c with
    | nonlinear n => cases hIdle
    | _ => rfl
  propagate_keeps := fun _ _ _ _ _ input output _ =>
    Machine.target_finalState_propagate input output
  backprop_keeps := by
    intro x k hComponent index node precomputed inValue outValue outDeriv inDeriv s
    cases hUpdatable : c.capabilities.updatable with
    | false => exact Machine.target_finalState_backprop_of_not_updatable hComponent hUpdatable
    | true =>
        cases hRows : x.precomputedRows index precomputed with
        | ok rows => exact Machine.target_finalState_backprop hComponent hUpdatable hRows
        | error err => exact Machine.target_finalState_backprop_of_error hComponent hRows

end Component

end MatrixProgram
