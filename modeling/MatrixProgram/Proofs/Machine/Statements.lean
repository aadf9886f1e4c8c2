import MatrixProgram.Proofs.Machine.Insertion
import MatrixProgram.Proofs.Machine.Paths
import MatrixProgram.Proofs.Printer.Statements

/-!
# Commands with the same statement

The statement of a command determines what the command does, `statement_determines_effect`.  Two
commands with the same statement can name their operands by different indexes, but they carry
out the same operation on the same regions.  A command that moves no rows looks at its operands
through their views only, so that such commands are equal as actions.  Rows that two tables name
through different sub-matrices take different ways through the machine, and there both commands
are compared by what becomes of each element.
-/

namespace MatrixProgram

namespace Program

variable {p : Program} {c d : Command}

/-! ## Operands that are found alike -/

theorem eq_noSubMatrix_of_subMatrix_eq {s s' : Nat} (h : p.subMatrix s = p.subMatrix s')
    (hAbsent : s = noSubMatrix) : s' = noSubMatrix := by
  subst hAbsent
  by_contra hPresent
  unfold subMatrix at h
  rw [if_pos rfl, if_neg hPresent] at h
  split at h <;> cases h

theorem view?_eq_of_subMatrix_eq {s s' : Nat} (h : p.subMatrix s = p.subMatrix s')
    (slots : Slots) : slots.view? p s = slots.view? p s' := by
  unfold Slots.view?
  by_cases hAbsent : s = noSubMatrix
  · rw [if_pos hAbsent, if_pos (eq_noSubMatrix_of_subMatrix_eq h hAbsent)]
  · have hPresent : s' ≠ noSubMatrix := fun hAbsent' =>
      hAbsent (eq_noSubMatrix_of_subMatrix_eq h.symm hAbsent')
    rw [if_neg hAbsent, if_neg hPresent, h]

/-- An operand of the one command is an operand of the other one. -/
theorem SameOperation.operand (h : p.SameOperation c d) {slot : Slot} {s' : Nat}
    (hOperand : d.operand? slot = some s') :
    ∃ s, c.operand? slot = some s ∧ p.subMatrix s = p.subMatrix s' := by
  cases h with
  | resize => exact ⟨s', hOperand, rfl⟩
  | _ => cases slot <;> cases hOperand <;> exact ⟨_, rfl, by assumption⟩

theorem SameOperation.pairTable (h : p.SameOperation c d) {table' : Nat}
    (hTable : d.pairTable? = some table') :
    ∃ table, c.pairTable? = some table ∧ p.rowViews? table = p.rowViews? table' := by
  cases h with
  | resize => exact ⟨table', hTable, rfl⟩
  | _ => cases hTable <;> exact ⟨_, rfl, by assumption⟩

/-- The one command needs no matrix that the other one does not need. -/
theorem SameOperation.owns {m : Nat} (h : p.SameOperation c d) (hOwns : p.Owns d m) :
    p.Owns c m := by
  obtain ⟨slot, s', v, hNames, hView, rfl⟩ := hOwns
  cases hNames with
  | operand hOperand =>
      obtain ⟨s, hOperand', hSame⟩ := h.operand hOperand
      exact ⟨slot, s, v, .operand hOperand', hSame.trans hView, rfl⟩
  | @pairRow table' _ row pairs' hTable hPairs hEntry =>
      obtain ⟨table, hTable', hSame⟩ := h.pairTable hTable
      obtain ⟨pairs, hPairs', hMap⟩ := Option.map_eq_some_iff.mp (hSame.trans (by
        rw [rowViews?, hPairs, Option.map_some]))
      have hMem : some (p.rowView? (s', row)) ∈ pairs.map (Option.map p.rowView?) :=
        hMap ▸ List.mem_map_of_mem hEntry
      obtain ⟨_ | ⟨s, row'⟩, hEntry', hRow⟩ := List.mem_map.mp hMem
      · cases hRow
      · rw [Option.map_some, Option.some.injEq, rowView?, rowView?,
          subMatrix?_eq_some_iff.mpr hView, Option.map_some] at hRow
        obtain ⟨w, hView', hSameRow⟩ := Option.map_eq_some_iff.mp hRow
        exact ⟨.pairRows, s, w, .pairRow hTable' hPairs' hEntry', subMatrix?_eq_some_iff.mp hView',
          (SubMatrix.mk.inj hSameRow).1⟩

end Program

namespace Machine

open Program

variable {x : Machine} {c d : Command} {i j : Nat} {s t : MachineState} {α : Type}

/-! ## Commands that write one sub-matrix -/

theorem write_eq_of_subMatrix_eq {dst dst' : Nat}
    (hDst : x.program.subMatrix dst = x.program.subMatrix dst')
    (operands : Slots → Except Error α) (w : α → {rows cols : Nat} → Region → Write rows cols) :
    x.write dst operands w = x.write dst' operands w := by
  unfold write
  rw [hDst]

theorem writeFrom_eq_of_subMatrix_eq {dst dst' src src' : Nat}
    (hDst : x.program.subMatrix dst = x.program.subMatrix dst')
    (hSrc : x.program.subMatrix src = x.program.subMatrix src') (role : Role)
    (w : View → {rows cols : Nat} → Region → Write rows cols) :
    x.writeFrom dst src role w = x.writeFrom dst' src' role w := by
  rw [writeFrom_eq, writeFrom_eq, write_eq_of_subMatrix_eq hDst,
    funext (view?_eq_of_subMatrix_eq hSrc)]

theorem storeStats_eq_of_subMatrix_eq {k value value' : Nat} (i : Nat)
    (hValue : x.program.subMatrix value = x.program.subMatrix value') :
    x.storeStats i k value = x.storeStats i k value' := by
  unfold storeStats
  simp only [view?_eq_of_subMatrix_eq hValue]

theorem updateTarget_eq_of_subMatrix_eq {k inValue inValue' outDeriv outDeriv' : Nat} (i : Nat)
    (rows : Option (List Nat))
    (hInValue : x.program.subMatrix inValue = x.program.subMatrix inValue')
    (hOutDeriv : x.program.subMatrix outDeriv = x.program.subMatrix outDeriv') :
    x.updateTarget i k rows inValue outDeriv = x.updateTarget i k rows inValue' outDeriv' := by
  unfold updateTarget
  simp only [view?_eq_of_subMatrix_eq hInValue, view?_eq_of_subMatrix_eq hOutDeriv]

theorem writeInDeriv_eq_of_subMatrix_eq {inValue inValue' outValue outValue' outDeriv outDeriv'
      inDeriv inDeriv' : Nat} (component : Component) (rows : Option (List Nat))
    (hInValue : x.program.subMatrix inValue = x.program.subMatrix inValue')
    (hOutValue : x.program.subMatrix outValue = x.program.subMatrix outValue')
    (hOutDeriv : x.program.subMatrix outDeriv = x.program.subMatrix outDeriv')
    (hInDeriv : x.program.subMatrix inDeriv = x.program.subMatrix inDeriv') :
    x.writeInDeriv component rows inValue outValue outDeriv inDeriv =
      x.writeInDeriv component rows inValue' outValue' outDeriv' inDeriv' := by
  have hViews : x.backpropViews inValue outValue outDeriv =
      x.backpropViews inValue' outValue' outDeriv' := by
    funext slots
    unfold backpropViews
    rw [view?_eq_of_subMatrix_eq hInValue, view?_eq_of_subMatrix_eq hOutValue,
      view?_eq_of_subMatrix_eq hOutDeriv]
  unfold writeInDeriv
  by_cases hAbsent : inDeriv = noSubMatrix
  · rw [if_neg (not_not.mpr hAbsent),
      if_neg (not_not.mpr (eq_noSubMatrix_of_subMatrix_eq hInDeriv hAbsent))]
  · have hPresent : inDeriv' ≠ noSubMatrix := fun hAbsent' =>
      hAbsent (eq_noSubMatrix_of_subMatrix_eq hInDeriv.symm hAbsent')
    rw [if_pos hAbsent, if_pos hPresent, hViews, write_eq_of_subMatrix_eq hInDeriv]

/-! ## Commands that move rows -/

theorem element_eq_of_subMatrix_eq {sub sub' : Nat}
    (h : x.program.subMatrix sub = x.program.subMatrix sub') :
    x.element s sub = x.element s sub' := by
  funext row col
  simp only [element, subMatrix?, h]

theorem inWindow_eq_of_subMatrix_eq {sub sub' : Nat}
    (h : x.program.subMatrix sub = x.program.subMatrix sub') :
    x.inWindow sub = x.inWindow sub' := by
  funext f m row col old
  simp only [inWindow, subMatrix?, h]

/-- An element of a row is an element of the view of the row. -/
theorem element_eq_of_rowView?_eq {sub sub' row row' : Nat}
    (h : x.program.rowView? (sub, row) = x.program.rowView? (sub', row')) :
    x.element s sub row = x.element s sub' row' := by
  have hElement : ∀ sub row col, x.element s sub row col =
      (x.program.rowView? (sub, row)).elim 0 fun v =>
        (s.slots.value? v.matrix v.region.rowOffset (v.region.colOffset + col)).getD 0 := by
    intro sub row col
    unfold element rowView?
    cases x.program.subMatrix? sub <;> rfl
  funext col
  rw [hElement, hElement, h]

theorem gathered_eq_of_rowView?_eq {copies : Bool} {pair pair' : Option (Nat × Nat)}
    (h : pair.map x.program.rowView? = pair'.map x.program.rowView?) :
    x.gathered s copies pair = x.gathered s copies pair' := by
  funext col old
  rcases pair with _ | ⟨sub, row⟩ <;> rcases pair' with _ | ⟨sub', row'⟩
  · rfl
  · cases h
  · cases h
  · simp only [gathered, element_eq_of_rowView?_eq (Option.some.inj h)]

/-- The row that a table names for a row of the destination. -/
theorem map_rowView?_rowEntry (table row : Nat) :
    (rowEntry x.program.rowPairs table row).join.map x.program.rowView? =
      ((x.program.rowViews? table).bind fun rows => rows[row]?).join := by
  unfold rowEntry rowViews?
  cases x.program.rowPairs[table]? with
  | none => rfl
  | some pairs =>
      simp only [Option.map_some, Option.bind_some, List.getElem?_map]
      cases pairs[row]? with
      | none => rfl
      | some pair => rfl

/-- What becomes of an element when a row of a source is scattered to the view of a row. -/
def scatteredTo (x : Machine) (s : MachineState) (copies : Bool) (src : Nat)
    (entry : Option (Option SubMatrix) × Nat) (m row col : Nat) (old : Float32) : Float32 :=
  match entry with
  | (some (some v), srcRow) =>
      if m = v.matrix ∧ v.region.Contains row col then
        if copies then x.element s src srcRow (col - v.region.colOffset)
        else old + 1 * x.element s src srcRow (col - v.region.colOffset)
      else old
  | _ => old

/-- A row inside of a sub-matrix is written through its own view. -/
theorem scatteredBy_eq_scatteredTo {copies : Bool} {src srcRow : Nat} {pair : Option (Nat × Nat)}
    (hInside : ∀ dst dstRow, pair = some (dst, dstRow) →
      ∃ v, x.program.subMatrix dst = .ok v ∧ dstRow < v.region.numRows)
    (m row col : Nat) (old : Float32) :
    x.scatteredBy s copies src (pair, srcRow) m row col old =
      x.scatteredTo s copies src (pair.map x.program.rowView?, srcRow) m row col old := by
  rcases pair with _ | ⟨dst, dstRow⟩
  · rfl
  · obtain ⟨v, hView, hLt⟩ := hInside dst dstRow rfl
    have hIff : v.region.Contains row col ∧ row - v.region.rowOffset = dstRow ↔
        (v.region.rowWindow dstRow).Contains row col := by
      rw [Region.contains_rowWindow_iff]
      simp only [Region.Contains, Region.rowEnd]
      omega
    simp only [scatteredBy, scatteredTo, inWindow_of_subMatrix hView, Option.map_some, rowView?,
      subMatrix?_eq_some_iff.mpr hView, ← hIff]
    by_cases hIn : m = v.matrix ∧ v.region.Contains row col
    · by_cases hRow : row - v.region.rowOffset = dstRow
      · have hBoth : m = v.matrix ∧ v.region.Contains row col ∧
            row - v.region.rowOffset = dstRow := ⟨hIn.1, hIn.2, hRow⟩
        rw [if_pos hIn, if_pos hRow, if_pos hBoth]
        rfl
      · rw [if_pos hIn, if_neg hRow, if_neg fun h => hRow h.2.2]
    · rw [if_neg hIn, if_neg fun h => hIn ⟨h.1, h.2.1⟩]

/-- Rows are scattered to the views of rows that the table names. -/
theorem scattered_eq_scatteredTo {copies : Bool} {src table : Nat} {source : SubMatrix}
    {pairs : List (Option (Nat × Nat))} (hFits : x.program.PairsFit src table true source pairs)
    (m row col : Nat) (old : Float32) :
    x.scattered s copies src table m row col old =
      (((x.program.rowViews? table).getD []).zipIdx).foldl
        (fun value entry => x.scatteredTo s copies src entry m row col value) old := by
  unfold scattered rowViews?
  rw [hFits.entries, Option.map_some, Option.getD_some, Option.getD_some, List.zipIdx_map,
    List.foldl_map]
  refine List.foldl_ext _ _ old fun value entry hMem => ?_
  obtain ⟨pair, srcRow⟩ := entry
  refine scatteredBy_eq_scatteredTo (fun dst dstRow hPair => ?_) m row col value
  obtain ⟨v, hView, hLt, -⟩ := hFits.pair dst dstRow (hPair ▸ List.fst_mem_of_mem_zipIdx hMem)
  exact ⟨v, hView, hLt⟩

theorem scattered_eq_of_same {copies : Bool} {src src' table table' : Nat}
    {source source' : SubMatrix} {pairs pairs' : List (Option (Nat × Nat))}
    (hFits : x.program.PairsFit src table true source pairs)
    (hFits' : x.program.PairsFit src' table' true source' pairs')
    (hSrc : x.program.subMatrix src = x.program.subMatrix src')
    (hRows : x.program.rowViews? table = x.program.rowViews? table') :
    x.scattered s copies src table = x.scattered s copies src' table' := by
  funext m row col old
  rw [scattered_eq_scatteredTo hFits, scattered_eq_scatteredTo hFits', hRows]
  simp only [scatteredTo, element_eq_of_subMatrix_eq hSrc]

/-- Commands that carry out the same operation give every element the same new value. -/
theorem moved_eq_of_sameOperation (hCheck : x.program.checkCommand x.network c = .ok ())
    (hCheck' : x.program.checkCommand x.network d = .ok ()) (h : x.program.SameOperation c d) :
    x.moved s c = x.moved s d := by
  cases h with
  | copy hDst hSrc | add hDst hSrc =>
      simp only [moved, inWindow_eq_of_subMatrix_eq hDst, element_eq_of_subMatrix_eq hSrc]
  | gatherCopy hDst hSrc hRows | gatherAdd hDst hSrc hRows =>
      simp only [moved, inWindow_eq_of_subMatrix_eq hDst, element_eq_of_subMatrix_eq hSrc,
        rowEntry, hRows]
  | sumRanges hDst hSrc hRanges =>
      simp only [moved, inWindow_eq_of_subMatrix_eq hDst, element_eq_of_subMatrix_eq hSrc,
        rowEntry, hRanges]
  | @gatherAddMany _ _ table table' hDst hRows | @gatherCopyMany _ _ table table' hDst hRows =>
      simp only [moved, inWindow_eq_of_subMatrix_eq hDst]
      congr 1
      funext row
      -- The tables can name the row through different views, but it is the same row.
      refine gathered_eq_of_rowView?_eq ?_
      rw [map_rowView?_rowEntry, map_rowView?_rowEntry, hRows]
  | scatterAdd hSrc hRows | scatterCopy hSrc hRows =>
      obtain ⟨_, _, hFits⟩ := checkRowPairs_eq_ok_iff.mp hCheck
      obtain ⟨_, _, hFits'⟩ := checkRowPairs_eq_ok_iff.mp hCheck'
      exact scattered_eq_of_same hFits hFits' hSrc hRows
  | _ => rfl

/-! ## All commands -/

/-- A command that moves no rows is carried out as any other one with its operation. -/
theorem perform_eq_of_sameOperation (i : Nat) (h : x.program.SameOperation c d)
    (hMoves : c.movesData = false) : x.perform i c = x.perform i d := by
  cases h with
  | propagate hInput hOutput =>
      simp only [perform, propagate, writeFrom_eq_of_subMatrix_eq hOutput hInput]
  | storeStats hValue => exact storeStats_eq_of_subMatrix_eq i hValue
  | backprop hInValue hOutValue hOutDeriv hInDeriv =>
      simp only [perform, backprop_eq, updateTarget_eq_of_subMatrix_eq i _ hInValue hOutDeriv,
        writeInDeriv_eq_of_subMatrix_eq _ _ hInValue hOutValue hOutDeriv hInDeriv]
  | resize | skip | marker => rfl
  | copy | add | gatherAdd | gatherCopy | gatherAddMany | gatherCopyMany | scatterAdd
  | scatterCopy | sumRanges => cases hMoves

/-- A matrix that exists is allocated and released in the same way from every position. -/
theorem perform_resize_position {m : Nat} (hResize : c.resized? = some m)
    (hLt : m < s.slots.entries.length) (i j : Nat) : x.perform i c s = x.perform j c s := by
  cases c <;> cases hResize
  case allocZeroed | allocUndefined => rfl
  case release => simp [perform, release, Action.bind_run, hLt]

/-- From a state that holds the matrices of their operands, commands that carry out the same
operation answer alike and leave the same matrices and the same network to update. -/
theorem performs_alike (i j : Nat) (hWell : x.program.WellFormed)
    (hCheck : x.program.checkCommand x.network c = .ok ())
    (hCheck' : x.program.checkCommand x.network d = .ok ()) (h : x.program.SameOperation c d)
    (hStores : x.Stores (x.program.Owns c) s) :
    SameRun nothingAside.Relates (x.perform i c s) (x.perform j d s) := by
  cases hMoves : c.movesData with
  | true =>
      have hMoves' : d.movesData = true := by
        cases h <;> exact hMoves
      -- Both runs succeed and leave the same elements, by whatever views the rows are named.
      obtain ⟨t, hRun, hMoved⟩ := perform_moved hWell i hCheck hMoves hStores
      obtain ⟨t', hRun', hMoved'⟩ :=
        perform_moved hWell j hCheck' hMoves' (hStores.mono fun m => h.owns)
      rw [← moved_eq_of_sameOperation hCheck hCheck' h] at hMoved'
      rw [hRun, hRun']
      exact .ok ⟨slots_eq_of_movedBy hMoved' hMoved, hMoved'.target.trans hMoved.target.symm,
        hMoved'.phase.trans hMoved.phase.symm⟩
  | false =>
      -- The command is first moved to the other position, and then exchanged for the other one.
      have hPosition : x.perform i c s = x.perform j c s := by
        cases hResize : c.resized? with
        | none => rw [perform_position hCheck hResize i j]
        | some m =>
            have hEither : c.allocated? = some m ∨ c.released? = some m := by
              cases c <;> cases hResize <;> first | exact .inl rfl | exact .inr rfl
            refine perform_resize_position hResize ?_ i j
            rw [hStores.length]
            exact (resize_of_check hCheck hEither).2
      rw [hPosition, perform_eq_of_sameOperation j h hMoves]
      cases x.perform j d s with
      | ok u t => exact .ok ⟨rfl, rfl, rfl⟩
      | error err t => exact .error ⟨rfl, rfl, rfl⟩

/-- Two commands that are written alike do the same. -/
theorem statement_determines_effect {x : Machine} {c d : Command} {s : MachineState} (i j : Nat)
    (hBuilt : x.program.Built) (hSize : x.program.WordSized)
    (hDistinct : (x.network.components.map (·.1)).Nodup)
    (hCheck : x.program.checkCommand x.network c = .ok ())
    (hCheck' : x.program.checkCommand x.network d = .ok ())
    (hStores : x.Stores (x.program.Owns c) s)
    (hEq : x.program.statement x.network c = x.program.statement x.network d) :
    let run := x.execute i c s
    let run' := x.execute j d s
    Action.outcome run' = Action.outcome run ∧
      (Action.finalState run').slots = (Action.finalState run).slots ∧
      (Action.finalState run').target = (Action.finalState run).target ∧
      (Action.finalState run').phase = (Action.finalState run).phase := by
  have hWell := hBuilt.wellFormed
  have hSame := sameOperation_of_statement hWell hSize hDistinct hCheck hCheck' hEq
  have hRuns : SameRun nothingAside.Relates (x.execute i c s) (x.execute j d s) :=
    sameRun_execute (fun _ _ hStates => ⟨hStates.slots, hStates.target, hStates.phase⟩)
      (performs_alike i j hWell hCheck hCheck' hSame hStores)
  have hStates := hRuns.finalState
  exact ⟨hRuns.outcome_eq, hStates.slots, hStates.target, hStates.phase⟩

/-- One matrix of four rows, with a view of the first three and two views of the last three.  Two
tables of pairs name the third row, none and the second, through the first view and through the
view of all rows. -/
def twinMachine : Machine :=
  { program := BuildStep.runAll
      [.matrix 4 1, .subMatrix 1 ⟨0, 3, 0, 1⟩, .subMatrix 1 ⟨1, 3, 0, 1⟩,
        .subMatrix 1 ⟨1, 3, 0, 1⟩, .rowPairs [some (2, 2), none, some (2, 1)],
        .rowPairs [some (1, 2), none, some (1, 1)]]
      .empty
    network := .empty
    request := ⟨[], [], false, false⟩
    forwardEnd := 0
    traces := true
    undefinedContents := fun _ _ _ => 0 }

theorem twinMachine_matrix {m : Nat} {shape : Shape}
    (hMatrix : twinMachine.program.matrix m = .ok shape) : m = 1 ∧ shape = ⟨4, 1⟩ := by
  match m with
  | 0 => cases hMatrix
  | 1 =>
      cases hMatrix
      exact ⟨rfl, rfl⟩
  | _ + 2 => cases hMatrix

theorem overlapState_stores_twin (c : Command) :
    twinMachine.Stores (twinMachine.program.Owns c) overlapState := by
  refine (Prepared.of_stored (Built.wellFormed ⟨_, rfl⟩) rfl ?_ ?_).stores
  · intro m shape hMatrix
    obtain ⟨rfl, rfl⟩ := twinMachine_matrix hMatrix
    exact ⟨_, rfl, rfl⟩
  · intro net hTarget
    cases hTarget

/-- The third row, nothing and the second become the last three, by either table and through
either view, and at any position. -/
theorem twinMachine_gathers :
    twinMachine.program.statement twinMachine.network (.gatherCopyMany 4 1) =
        "m1(1:3, 0:0).CopyRowsMulti([m1(2,:),-1,m1(1,:)])" ∧
      Action.outcome (twinMachine.execute 5 (.gatherCopyMany 4 1) overlapState) =
        Action.outcome (twinMachine.execute 0 (.gatherCopyMany 3 0) overlapState) ∧
      (Action.finalState (twinMachine.execute 5 (.gatherCopyMany 4 1) overlapState)).slots =
        (Action.finalState (twinMachine.execute 0 (.gatherCopyMany 3 0) overlapState)).slots := by
  have hSize : twinMachine.program.WordSized := by
    intro m shape hMatrix
    obtain ⟨-, rfl⟩ := twinMachine_matrix hMatrix
    decide
  obtain ⟨hOutcome, hSlots, -⟩ := statement_determines_effect (c := .gatherCopyMany 3 0)
    (d := .gatherCopyMany 4 1) 0 5 ⟨_, rfl⟩ hSize List.nodup_nil rfl rfl
    (overlapState_stores_twin _) rfl
  exact ⟨by decide, hOutcome, hSlots⟩

end Machine

end MatrixProgram
