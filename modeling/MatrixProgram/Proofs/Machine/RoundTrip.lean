import Mathlib.Data.List.Basic
import MatrixProgram.Proofs.Machine.Paths

/-!
# Gathering what has been scattered

A scattering command sends the rows of its source to the targets of its table, and a gathering
command with the same table fetches a row from each of them.  When the targets share no
element, each of them holds its row of the source after the scattering, whatever else the
command has overwritten, the source itself included.  The destination of the gathering may lie
over the targets and over the source: the rows are fetched as they are before it.
-/

namespace MatrixProgram

namespace Machine

open Program

variable {x : Machine} {i j src dst table : Nat} {copies : Bool} {O : Nat → Prop}
  {s t : MachineState} {source d : SubMatrix} {pairs : List (Option (Nat × Nat))}

/-- A matrix that is held has a value everywhere. -/
theorem Stores.exists_value {m : Nat} (h : x.Stores O s) (hOwned : O m) (row col : Nat) :
    ∃ value, s.slots.value? m row col = some value := by
  obtain ⟨b, hBuffer, -⟩ := h.holds m hOwned
  exact ⟨b.get row col, Slots.value?_of_buffer? hBuffer row col⟩

theorem element_of_value? {sub row col : Nat} {view : SubMatrix} {value : Float32}
    (hView : x.program.subMatrix sub = .ok view)
    (hValue : s.slots.value? view.matrix (view.region.rowOffset + row)
      (view.region.colOffset + col) = some value) :
    x.element s sub row col = value := by
  simp only [element, subMatrix?_eq_some_iff.mpr hView, hValue, Option.getD_some]

/-- An element of a sub-matrix gets its new value by its position in the sub-matrix. -/
theorem inWindow_inside {sub row col : Nat} {view : SubMatrix}
    (hView : x.program.subMatrix sub = .ok view) (hRow : row < view.region.numRows)
    (hCol : col < view.region.numCols) (f : Nat → Nat → Float32 → Float32) (old : Float32) :
    x.inWindow sub f view.matrix (view.region.rowOffset + row) (view.region.colOffset + col)
      old = f row col old := by
  have hIn : view.region.Contains (view.region.rowOffset + row)
      (view.region.colOffset + col) := by
    simp only [Region.Contains, Region.rowEnd, Region.colEnd]
    omega
  rw [inWindow_of_subMatrix hView, if_pos ⟨rfl, hIn⟩, Nat.add_sub_cancel_left,
    Nat.add_sub_cancel_left]

/-- When no two targets of a table share an element, an element of a target gets its new value
from the entry of this target alone. -/
theorem scattered_of_has {target : Nat × Nat} {row m r col : Nat}
    (hFits : x.program.PairsFit src table true source pairs)
    (hApart : AnyTwo pairs fun target other => ¬x.program.TargetsShare target other)
    (hEntry : pairs[row]? = some (some target)) (hHas : x.program.TargetHas target m r col)
    (old : Float32) :
    x.scattered s copies src table m r col old =
      x.scatteredBy s copies src (some target, row) m r col old := by
  simp only [scattered, hFits.entries, Option.getD_some]
  have hOthers : ∀ value, ∀ entry ∈ pairs.zipIdx,
      x.scatteredBy s copies src entry m r col value =
        if row = entry.2 then x.scatteredBy s copies src (entry.1, row) m r col value
        else value := by
    rintro value ⟨pair, k⟩ hMem
    have hAt := List.mem_zipIdx_iff_getElem?.mp hMem
    by_cases hEq : row = k
    · rw [if_pos hEq, hEq]
    · rw [if_neg hEq]
      cases pair with
      | none => rfl
      | some other =>
          obtain ⟨_, hOther, -⟩ := hFits.pair other.1 other.2 (List.mem_of_getElem? hAt)
          exact scatteredBy_of_not_has hOther
            (fun hHas' => hApart row k target other hEq hEntry hAt ⟨m, r, col, hHas, hHas'⟩) value
  rw [List.foldl_ext _ _ _ hOthers, foldl_zipIdx_single (f := fun pair value =>
    x.scatteredBy s copies src (pair, row) m r col value) row pairs 0 old]
  simp [hEntry]

/-- After a copying scattering command whose targets share no element, a target holds its row
of the source. -/
theorem element_of_scattered {sub subRow row col : Nat} {view : SubMatrix}
    (hFits : x.program.PairsFit src table true source pairs)
    (hApart : AnyTwo pairs fun target other => ¬x.program.TargetsShare target other)
    (hEntry : pairs[row]? = some (some (sub, subRow)))
    (hView : x.program.subMatrix sub = .ok view) (hOwned : O view.matrix)
    (hCol : col < view.region.numCols) (hStores : x.Stores O s)
    (hMoved : s.MovedBy (x.scattered s true src table) t) :
    x.element t sub subRow col = x.element s src row col := by
  obtain ⟨_, hFound, hSubRow, -⟩ := hFits.pair sub subRow (List.mem_of_getElem? hEntry)
  cases hView.symm.trans hFound
  have hHas : x.program.TargetHas (sub, subRow) view.matrix (view.region.rowOffset + subRow)
      (view.region.colOffset + col) :=
    ⟨view, hView, rfl, rfl, Nat.le_add_right _ _, Nat.add_lt_add_left hCol _⟩
  obtain ⟨old, hOld⟩ := hStores.exists_value hOwned (view.region.rowOffset + subRow)
    (view.region.colOffset + col)
  have hNew := hMoved.value view.matrix (view.region.rowOffset + subRow)
    (view.region.colOffset + col)
  rw [hOld, Option.map_some, scattered_of_has hFits hApart hEntry hHas, scatteredBy,
    inWindow_inside hView hSubRow hCol, if_pos rfl, if_pos rfl] at hNew
  exact element_of_value? hView hNew

/-- A copying scattering command followed by the copying gathering command of the same table.
If no two targets share an element, then both succeed, and every row of the destination is the
row of the source from before both, or zero where the table has no entry. -/
theorem gather_undoes_scatter (hBuilt : x.program.Built)
    (hScatter : x.program.checkCommand x.network (.scatterCopy src table) = .ok ())
    (hGather : x.program.checkCommand x.network (.gatherCopyMany dst table) = .ok ())
    (hSource : x.program.subMatrix src = .ok source) (hDst : x.program.subMatrix dst = .ok d)
    (hTable : x.program.rowPairs[table]? = some pairs)
    (hApart : AnyTwo pairs fun target other => ¬x.program.TargetsShare target other)
    (hStores : x.Stores (x.program.Owns (.scatterCopy src table)) s)
    (hStores' : x.Stores (x.program.Owns (.gatherCopyMany dst table)) s) :
    ∃ t u, x.execute i (.scatterCopy src table) s = .ok () t ∧
      x.execute j (.gatherCopyMany dst table) t = .ok () u ∧
        ∀ row col, row < d.region.numRows → col < d.region.numCols →
          u.slots.value? d.matrix (d.region.rowOffset + row) (d.region.colOffset + col) =
            match (pairs[row]?).join with
            | some _ => s.slots.value? source.matrix (source.region.rowOffset + row)
                (source.region.colOffset + col)
            | none => some 0 := by
  have hWell := hBuilt.wellFormed
  obtain ⟨source', hFits, hOwnsSource, hOwnsTargets⟩ := scatter_pairsFit hScatter rfl hTable
  cases hSource.symm.trans hFits.ownView
  obtain ⟨d', pairs', hFits'⟩ := checkRowPairs_eq_ok_iff.mp hGather
  cases hDst.symm.trans hFits'.ownView
  cases hTable.symm.trans hFits'.entries
  obtain ⟨t, hRun, hMoved⟩ := execute_moved hWell i hScatter rfl hStores
  have hBetween := hStores'.moved hMoved
  obtain ⟨u, hRun', hMoved'⟩ := execute_moved hWell j hGather rfl hBetween
  refine ⟨t, u, hRun, hRun', fun row col hRow hCol => ?_⟩
  obtain ⟨old, hOld⟩ := hBetween.exists_value (owns_operand .dst rfl d hDst)
    (d.region.rowOffset + row) (d.region.colOffset + col)
  have hEntry : rowEntry x.program.rowPairs table row = pairs[row]? := by
    simp only [rowEntry, hTable, Option.bind_some]
  rw [hMoved'.value, hOld, Option.map_some]
  simp only [moved, inWindow_inside hDst hRow hCol, hEntry]
  cases hPair : (pairs[row]?).join with
  | none => rfl
  | some target =>
      obtain ⟨sub, subRow⟩ := target
      have hAt : pairs[row]? = some (some (sub, subRow)) := Option.join_eq_some_iff.mp hPair
      have hMem := List.mem_of_getElem? hAt
      obtain ⟨view, hView, -, -, hWidth⟩ := hFits'.pair sub subRow hMem
      have hKept : x.element t sub subRow col = x.element s src row col :=
        element_of_scattered hFits hApart hAt hView (hOwnsTargets sub subRow hMem view hView)
          (hWidth ▸ hCol) hStores hMoved
      obtain ⟨value, hValue⟩ := hStores.exists_value hOwnsSource
        (source.region.rowOffset + row) (source.region.colOffset + col)
      simp only [gathered, if_true, hKept, element_of_value? hSource hValue, hValue]

/-- The rows 5, 6 and 7 of the first view are scattered over the matrix, 6 to nowhere, and
gathered in the last three rows.  There 5 and 7 arrive, though the first command has overwritten
7 with 5 and the second one writes where it reads. -/
theorem overlapMachine_returns :
    ∃ t u, overlapMachine.execute 0 (.scatterCopy 2 1) overlapState = .ok () t ∧
      overlapMachine.execute 1 (.gatherCopyMany 4 1) t = .ok () u ∧
        u.slots.value? 1 1 0 = some 5 ∧ u.slots.value? 1 2 0 = some 0 ∧
          u.slots.value? 1 3 0 = some 7 := by
  have hTargets : ∀ (row : Nat) (target : Nat × Nat),
      [some (3, 1), none, some (3, 0)][row]? = some (some target) → target.1 = 3 := by
    intro row target hTarget
    match row with
    | 0 | 2 =>
        cases hTarget
        rfl
    | 1 => cases hTarget
    | _ + 3 => cases hTarget
  have hScatter : overlapMachine.program.checkCommand overlapMachine.network
      (.scatterCopy 2 1) = .ok () := rfl
  have hGather : overlapMachine.program.checkCommand overlapMachine.network
      (.gatherCopyMany 4 1) = .ok () := rfl
  obtain ⟨source, hFits, -⟩ := scatter_pairsFit hScatter rfl rfl
  obtain ⟨t, u, hRun, hRun', hRows⟩ :=
    gather_undoes_scatter (i := 0) (j := 1) ⟨_, rfl⟩ hScatter hGather rfl rfl rfl
      (fun i j target other hNe hTarget hOther hShare =>
        -- Both targets are rows of the same view.
        hFits.ne_of_targetsShare i j target other hNe hTarget hOther hShare
          ((hTargets i target hTarget).trans (hTargets j other hOther).symm))
      (overlapState_stores _) (overlapState_stores _)
  exact ⟨t, u, hRun, hRun', hRows 0 0 (by decide) (by decide), hRows 1 0 (by decide) (by decide),
    hRows 2 0 (by decide) (by decide)⟩

end Machine

end MatrixProgram
