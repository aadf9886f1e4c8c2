import MatrixProgram.Proofs.Machine.Scatter

/-!
# Two ways to move the same rows

Rows of one source can be moved by a table of rows, or by a table of pairs that all name this
source.  A whole sub-matrix can be moved at once, or by the table of all its rows in order.
The commands go through different kernels: one pass over the window, or one row after the other
with the sources looked up in a list.  In every state that holds the matrices of their operands
they leave the same matrices behind, `sameMovement_slots`.
-/

namespace MatrixProgram

namespace Program

variable {p : Program} {c c' : Command}

/-- Two commands move the same rows to the same place. -/
inductive SameMovement (p : Program) : Command → Command → Prop
  | copiedRows {dst src table pairs : Nat} {rows : List (Option Nat)}
      (hRows : p.indexes[table]? = some rows)
      (hPairs : p.rowPairs[pairs]? = some (rows.map (Option.map fun row => (src, row)))) :
      SameMovement p (.gatherCopy dst src table) (.gatherCopyMany dst pairs)
  | addedRows {dst src table pairs : Nat} {rows : List (Option Nat)}
      (hRows : p.indexes[table]? = some rows)
      (hPairs : p.rowPairs[pairs]? = some (rows.map (Option.map fun row => (src, row)))) :
      SameMovement p (.gatherAdd dst src table) (.gatherAddMany dst pairs)
  | copied {dst src table : Nat} {d : SubMatrix} (hDst : p.subMatrix dst = .ok d)
      (hRows : p.indexes[table]? = some ((List.range d.region.numRows).map some)) :
      SameMovement p (.copy dst src) (.gatherCopy dst src table)
  | added {dst src table : Nat} {d : SubMatrix} (hDst : p.subMatrix dst = .ok d)
      (hRows : p.indexes[table]? = some ((List.range d.region.numRows).map some)) :
      SameMovement p (.add dst src) (.gatherAdd dst src table)

theorem SameMovement.movesData (h : p.SameMovement c c') :
    c.movesData = true ∧ c'.movesData = true := by
  cases h <;> exact ⟨rfl, rfl⟩

/-- A table of pairs of one source names no other sub-matrix. -/
theorem eq_of_mem_pairsOf {src sub row : Nat} {rows : List (Option Nat)}
    (h : some (sub, row) ∈ rows.map (Option.map fun row => (src, row))) : sub = src := by
  obtain ⟨entry, -, hEntry⟩ := List.mem_map.mp h
  obtain ⟨_, -, hPair⟩ := Option.map_eq_some_iff.mp hEntry
  exact (congrArg Prod.fst hPair).symm

/-- The second command needs no matrix that the first one does not need. -/
theorem SameMovement.owns {m : Nat} (h : p.SameMovement c c') (hOwns : p.Owns c' m) :
    p.Owns c m := by
  obtain ⟨slot, sub, view, hNames, hView, hMatrix⟩ := hOwns
  -- A pair names the source, an operand is an operand of the first command too.
  have hSub : ∃ slot, c.operand? slot = some sub := by
    cases h with
    | copiedRows hRows hPairs | addedRows hRows hPairs =>
        cases hNames with
        | operand hOperand =>
            cases slot <;> cases hOperand
            exact ⟨.dst, rfl⟩
        | pairRow hTable hEntries hEntry =>
            cases hTable
            cases hEntries.symm.trans hPairs
            exact ⟨.src, congrArg some (eq_of_mem_pairsOf hEntry).symm⟩
    | copied | added =>
        cases hNames with
        | operand hOperand =>
            cases slot <;> cases hOperand
            · exact ⟨.dst, rfl⟩
            · exact ⟨.src, rfl⟩
        | pairRow hTable => cases hTable
  obtain ⟨slot', hOperand⟩ := hSub
  exact ⟨slot', sub, view, .operand hOperand, hView, hMatrix⟩

end Program

namespace Machine

open Program

variable {x : Machine} {c c' : Command} {i j : Nat} {O : Nat → Prop} {s : MachineState}

/-- A table of pairs of one source has an entry where the table of rows has one. -/
theorem rowEntry_pairsOf {src table pairs : Nat} {rows : List (Option Nat)}
    (hRows : x.program.indexes[table]? = some rows)
    (hPairs : x.program.rowPairs[pairs]? = some (rows.map (Option.map fun row => (src, row))))
    (row : Nat) :
    (rowEntry x.program.rowPairs pairs row).join =
      (rowEntry x.program.indexes table row).join.map fun srcRow => (src, srcRow) := by
  simp only [rowEntry, hRows, hPairs, Option.bind_some, List.getElem?_map]
  cases rows[row]? <;> rfl

/-- The table of all rows in order assigns every row to itself. -/
theorem rowEntry_allRows {table row count : Nat}
    (hRows : x.program.indexes[table]? = some ((List.range count).map some))
    (hRow : row < count) : (rowEntry x.program.indexes table row).join = some row := by
  simp [rowEntry, hRows, hRow]

/-- Commands that move the same rows give every element the same new value. -/
theorem moved_eq_of_sameMovement (h : x.program.SameMovement c c') :
    x.moved s c = x.moved s c' := by
  cases h with
  | copiedRows hRows hPairs | addedRows hRows hPairs =>
      simp only [moved]
      congr 1
      funext row col old
      rw [rowEntry_pairsOf hRows hPairs]
      cases (rowEntry x.program.indexes _ row).join <;> rfl
  | copied hDst hRows | added hDst hRows =>
      simp only [moved]
      refine inWindow_congr hDst fun row hRow => ?_
      rw [rowEntry_allRows hRows hRow]

/-- Fewer matrices are easier to hold. -/
theorem Stores.mono {O' : Nat → Prop} (h : x.Stores O s) (hFewer : ∀ m, O' m → O m) :
    x.Stores O' s :=
  ⟨h.length, fun m hOwned => h.holds m (hFewer m hOwned)⟩

/-- A command that moves data succeeds wherever its own operands pass their check, and
noting it in the journal changes no element. -/
theorem execute_moved (hWell : x.program.WellFormed) (index : Nat)
    (hCheck : x.program.checkCommand x.network c = .ok ()) (hMoves : c.movesData = true)
    (hStores : x.Stores (x.program.Owns c) s) :
    ∃ t, x.execute index c s = .ok () t ∧ s.MovedBy (x.moved s c) t := by
  obtain ⟨t, hRun, hMoved⟩ := perform_moved hWell index hCheck hMoves hStores
  obtain ⟨journal, hExecute⟩ := execute_run_of_perform hRun
  exact ⟨_, hExecute, hMoved.length, hMoved.shape, hMoved.value, hMoved.target, hMoved.phase⟩

/-- Rows of one source, moved by a table of rows or by the same table with this source in
every entry, and a whole sub-matrix, moved at once or row by row, leave the same matrices
behind.  Both commands succeed, and neither touches the network to update or the phase. -/
theorem sameMovement_slots (hBuilt : x.program.Built) (hSame : x.program.SameMovement c c')
    (hCheck : x.program.checkCommand x.network c = .ok ())
    (hCheck' : x.program.checkCommand x.network c' = .ok ())
    (hStores : x.Stores (x.program.Owns c) s) :
    ∃ t t', x.execute i c s = .ok () t ∧ x.execute j c' s = .ok () t' ∧
      t'.slots = t.slots ∧ t'.target = t.target ∧ t'.phase = t.phase := by
  have hWell := hBuilt.wellFormed
  obtain ⟨hMoves, hMoves'⟩ := hSame.movesData
  obtain ⟨t, hRun, hMoved⟩ := execute_moved hWell i hCheck hMoves hStores
  obtain ⟨t', hRun', hMoved'⟩ :=
    execute_moved hWell j hCheck' hMoves' (hStores.mono fun m => hSame.owns)
  rw [← moved_eq_of_sameMovement hSame] at hMoved'
  exact ⟨t, t', hRun, hRun', slots_eq_of_movedBy hMoved' hMoved,
    hMoved'.target.trans hMoved.target.symm, hMoved'.phase.trans hMoved.phase.symm⟩

/-- One matrix of four rows, with a view of the first three and two views of the last three.
The tables of rows take all three in order, or the third, none and the first.  The first table
of pairs takes the same rows, and the second one names the second, none and the first of the
last three. -/
def overlapMachine : Machine :=
  { program := BuildStep.runAll
      [.matrix 4 1, .subMatrix 1 ⟨0, 3, 0, 1⟩, .subMatrix 1 ⟨1, 3, 0, 1⟩,
        .subMatrix 1 ⟨1, 3, 0, 1⟩, .indexes [some 0, some 1, some 2],
        .indexes [some 2, none, some 0], .rowPairs [some (2, 2), none, some (2, 0)],
        .rowPairs [some (3, 1), none, some (3, 0)]]
      .empty
    network := .empty
    request := ⟨[], [], false, false⟩
    forwardEnd := 0
    traces := true
    undefinedContents := fun _ _ _ => 0 }

/-- The rows hold 5, 6, 7 and 8. -/
def overlapState : MachineState :=
  { slots := ⟨[none, some (.ofFn 4 1 fun row _ => [5, 6, 7, 8].getD row 0)]⟩
    target := none
    phase := .created
    journal := [] }

theorem overlapState_stores (c : Command) :
    overlapMachine.Stores (overlapMachine.program.Owns c) overlapState := by
  refine (Prepared.of_stored (Built.wellFormed ⟨_, rfl⟩) rfl ?_ ?_).stores
  · intro m shape hMatrix
    match m with
    | 0 => cases hMatrix
    | 1 =>
        cases hMatrix
        exact ⟨_, rfl, rfl⟩
    | _ + 2 => cases hMatrix
  · intro net hTarget
    cases hTarget

/-- The first three rows are added to the last three, at once or by a table.  By either kind
of table the last three become the third, nothing and the first. -/
theorem overlapMachine_moves :
    (∃ t t', overlapMachine.execute 0 (.add 3 2) overlapState = .ok () t ∧
      overlapMachine.execute 0 (.gatherAdd 3 2 0) overlapState = .ok () t' ∧
        t'.slots = t.slots) ∧
      ∃ t t', overlapMachine.execute 0 (.gatherCopy 3 2 1) overlapState = .ok () t ∧
        overlapMachine.execute 0 (.gatherCopyMany 3 0) overlapState = .ok () t' ∧
          t'.slots = t.slots := by
  have hWhole : overlapMachine.program.SameMovement (.add 3 2) (.gatherAdd 3 2 0) :=
    .added rfl rfl
  have hTable : overlapMachine.program.SameMovement (.gatherCopy 3 2 1) (.gatherCopyMany 3 0) :=
    .copiedRows rfl rfl
  obtain ⟨t, t', hRun, hRun', hSlots, -⟩ :=
    sameMovement_slots (i := 0) (j := 0) ⟨_, rfl⟩ hWhole rfl rfl (overlapState_stores _)
  obtain ⟨u, u', hMany, hMany', hManySlots, -⟩ :=
    sameMovement_slots (i := 0) (j := 0) ⟨_, rfl⟩ hTable rfl rfl (overlapState_stores _)
  exact ⟨⟨t, t', hRun, hRun', hSlots⟩, u, u', hMany, hMany', hManySlots⟩

end Machine

end MatrixProgram
