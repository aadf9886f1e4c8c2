import MatrixProgram.Proofs.Machine.Exchange
import MatrixProgram.Proofs.Machine.Movement

/-!
# The targets of scattering commands

A scattering command writes a row of some sub-matrix for every entry of its table.  The check
tells two targets apart by their names, a sub-matrix and a row in it, and not by the storage
behind them.  So different rows of one sub-matrix are apart, but two sub-matrices may view the
same row.

As long as different sub-matrices keep apart, the rows may be written in any order,
`scatter_in_any_order`.  When they do not, the order decides what is left:
`spreadMachine_overlaps`.
-/

namespace MatrixProgram

/-- Whether a scattering command copies, and its source and its table. -/
def Command.scatter? : Command → Option (Bool × Nat × Nat)
  | .scatterCopy src table => some (true, src, table)
  | .scatterAdd src table => some (false, src, table)
  | _ => none

namespace Program

variable {p : Program} {table src : Nat} {source : SubMatrix}
  {pairs : List (Option (Nat × Nat))}

/-- An element of a matrix lies in a target, a row of a sub-matrix. -/
def TargetHas (p : Program) (target : Nat × Nat) : ElementSet := fun m row col =>
  ∃ view, p.subMatrix target.1 = .ok view ∧ m = view.matrix ∧
    row = view.region.rowOffset + target.2 ∧ view.region.colOffset ≤ col ∧
      col < view.region.colEnd

/-- Two targets have a storage element in common. -/
def TargetsShare (p : Program) (target other : Nat × Nat) : Prop :=
  ∃ m row col, p.TargetHas target m row col ∧ p.TargetHas other m row col

/-- What holds of any two different rows of a table that both have a target. -/
def AnyTwo (pairs : List (Option (Nat × Nat))) (q : Nat × Nat → Nat × Nat → Prop) : Prop :=
  ∀ (i j : Nat) (target other : Nat × Nat), i ≠ j → pairs[i]? = some (some target) →
    pairs[j]? = some (some other) → q target other

/-- Entries of a table that are not repeated differ from one row of the table to another. -/
theorem anyTwo_ne_of_nodup (h : (pairs.filterMap id).Nodup) : AnyTwo pairs (· ≠ ·) := by
  intro i j target other hNe hTarget hOther hEq
  subst hEq
  have hCases : ∀ i j : Nat, i < j → pairs[i]? = some (some target) →
      pairs[j]? ≠ some (some target) := by
    intro i j hLt hTarget hOther
    have hPairs := List.pairwise_filterMap.mp h
    obtain ⟨hI, hAtI⟩ := List.getElem?_eq_some_iff.mp hTarget
    obtain ⟨hJ, hAtJ⟩ := List.getElem?_eq_some_iff.mp hOther
    exact List.pairwise_iff_getElem.mp hPairs i j hI hJ hLt target hAtI target hAtJ rfl
  rcases Nat.lt_or_gt_of_ne hNe with hLt | hLt
  · exact hCases i j hLt hTarget hOther
  · exact hCases j i hLt hOther hTarget

/-- Rows of one sub-matrix that share an element are the same row. -/
theorem eq_of_targetsShare {target other : Nat × Nat} (hSame : target.1 = other.1)
    (hShare : p.TargetsShare target other) : target = other := by
  obtain ⟨m, row, col, ⟨view, hView, -, hRow, -⟩, ⟨view', hView', -, hRow', -⟩⟩ := hShare
  rw [hSame] at hView
  cases hView.symm.trans hView'
  exact Prod.ext hSame (by omega)

/-- The targets of a checked table share elements through different sub-matrices only. -/
theorem PairsFit.ne_of_targetsShare (h : p.PairsFit src table true source pairs) :
    AnyTwo pairs fun target other => p.TargetsShare target other → target.1 ≠ other.1 := by
  intro i j target other hNe hTarget hOther hShare hSame
  exact anyTwo_ne_of_nodup (h.nodup rfl) i j target other hNe hTarget hOther
    (eq_of_targetsShare hSame hShare)

end Program

namespace Machine

open Program

variable {x : Machine} {c : Command} {index src table : Nat} {copies : Bool} {s : MachineState}
  {source : SubMatrix} {pairs : List (Option (Nat × Nat))}

/-- One entry changes elements of its target only. -/
theorem scatteredBy_of_not_has {target : Nat × Nat} {d : SubMatrix} {srcRow m row col : Nat}
    (hDst : x.program.subMatrix target.1 = .ok d) (hNot : ¬x.program.TargetHas target m row col)
    (old : Float32) : x.scatteredBy s copies src (some target, srcRow) m row col old = old := by
  simp only [scatteredBy, inWindow_of_subMatrix hDst]
  split
  · rename_i hIn
    obtain ⟨hMatrix, ⟨hFrom, -⟩, hLeft, hRight⟩ := hIn
    refine if_neg fun hRow => hNot ⟨d, hDst, hMatrix, ?_, hLeft, hRight⟩
    omega
  · rfl

/-- Two entries whose targets share no element may be taken in either order. -/
theorem scatteredBy_comm {e e' : Option (Nat × Nat) × Nat}
    (hFits : x.program.PairsFit src table true source pairs)
    (hApart : AnyTwo pairs fun target other => ¬x.program.TargetsShare target other)
    (hMem : e ∈ pairs.zipIdx) (hMem' : e' ∈ pairs.zipIdx) (m row col : Nat) (old : Float32) :
    x.scatteredBy s copies src e' m row col (x.scatteredBy s copies src e m row col old) =
      x.scatteredBy s copies src e m row col (x.scatteredBy s copies src e' m row col old) := by
  obtain ⟨pair, i⟩ := e
  obtain ⟨pair', j⟩ := e'
  have hAt := List.mem_zipIdx_iff_getElem?.mp hMem
  have hAt' := List.mem_zipIdx_iff_getElem?.mp hMem'
  by_cases hEq : i = j
  · subst hEq
    cases hAt.symm.trans hAt'
    rfl
  · cases pair with
    | none => rfl
    | some target =>
        cases pair' with
        | none => rfl
        | some other =>
            obtain ⟨d, hDst, -⟩ := hFits.pair target.1 target.2 (List.mem_of_getElem? hAt)
            obtain ⟨d', hDst', -⟩ := hFits.pair other.1 other.2 (List.mem_of_getElem? hAt')
            by_cases hHas : x.program.TargetHas target m row col
            · -- The other target has not got this element as well.
              have hNot : ¬x.program.TargetHas other m row col := fun hHas' =>
                hApart i j target other hEq hAt hAt' ⟨m, row, col, hHas, hHas'⟩
              rw [scatteredBy_of_not_has hDst' hNot, scatteredBy_of_not_has hDst' hNot]
            · rw [scatteredBy_of_not_has hDst hHas, scatteredBy_of_not_has hDst hHas]

/-- States that come from one state by the same new values have the same slots. -/
theorem slots_eq_of_movedBy {f : Nat → Nat → Nat → Float32 → Float32} {t t' : MachineState}
    (h : s.MovedBy f t) (h' : s.MovedBy f t') : t.slots = t'.slots :=
  Slots.eq_of_agree
    { length := h.length.trans h'.length.symm
      shape := fun m => (h.shape m).trans (h'.shape m).symm
      value := fun m row col _ => (h.value m row col).trans (h'.value m row col).symm }

/-- When no two targets of a table share an element, every order of its entries gives each
element the same new value. -/
theorem foldl_scatteredBy_perm {order : List (Option (Nat × Nat) × Nat)}
    (hFits : x.program.PairsFit src table true source pairs)
    (hApart : AnyTwo pairs fun target other => ¬x.program.TargetsShare target other)
    (hOrder : order.Perm pairs.zipIdx) (m row col : Nat) (old : Float32) :
    order.foldl (fun value entry => x.scatteredBy s copies src entry m row col value) old =
      x.scattered s copies src table m row col old := by
  simp only [scattered, hFits.entries, Option.getD_some]
  refine hOrder.foldl_eq' (fun e hMem e' hMem' value => ?_) old
  exact scatteredBy_comm hFits hApart (hOrder.mem_iff.mp hMem) (hOrder.mem_iff.mp hMem') m row
    col value

/-- The table of a checked scattering command fits, and the command owns what it names. -/
theorem scatter_pairsFit (hCheck : x.program.checkCommand x.network c = .ok ())
    (hScatter : c.scatter? = some (copies, src, table))
    (hTable : x.program.rowPairs[table]? = some pairs) :
    ∃ source, x.program.PairsFit src table true source pairs ∧
      x.program.Owns c source.matrix ∧
        ∀ sub row, some (sub, row) ∈ pairs → ∀ view, x.program.subMatrix sub = .ok view →
          x.program.Owns c view.matrix := by
  have hCommand : c = .scatterCopy src table ∨ c = .scatterAdd src table := by
    cases c <;> cases hScatter
    · exact .inr rfl
    · exact .inl rfl
  have hRows : x.program.checkRowPairs src table true = .ok () ∧
      c.operand? .src = some src ∧ c.pairTable? = some table := by
    rcases hCommand with rfl | rfl
    · exact ⟨hCheck, rfl, rfl⟩
    · exact ⟨hCheck, rfl, rfl⟩
  obtain ⟨hPairs, hSrc, hOwnTable⟩ := hRows
  obtain ⟨source, pairs', hFits⟩ := checkRowPairs_eq_ok_iff.mp hPairs
  cases hTable.symm.trans hFits.entries
  exact ⟨source, hFits, owns_operand .src hSrc source hFits.ownView,
    fun sub row hEntry => owns_of_names (.pairRow hOwnTable hFits.entries hEntry)⟩

/-- In a program that has passed the check, targets from different rows of the table of a
scattering command share elements through different sub-matrices only.  If different
sub-matrices keep apart as well, then it makes no difference to the matrices in which order
the table is walked. -/
theorem scatter_in_any_order {r : Request} {b : Bool} (hBuilt : x.program.Built)
    (hAccepted : x.program.Accepted x.network r b)
    (hCommand : x.program.commands[index]? = some c)
    (hScatter : c.scatter? = some (copies, src, table))
    (hTable : x.program.rowPairs[table]? = some pairs) :
    (AnyTwo pairs fun target other =>
      x.program.TargetsShare target other → target.1 ≠ other.1) ∧
      ((AnyTwo pairs fun target other =>
          target.1 ≠ other.1 → ¬x.program.TargetsShare target other) →
        ∀ s order, x.Stores (x.program.Owns c) s → order.Perm pairs.zipIdx →
          ∃ t t', x.execute index c s = .ok () t ∧
            x.scatterAlong copies src order s = .ok () t' ∧ t'.slots = t.slots) := by
  have hWell := hBuilt.wellFormed
  have hOperands := hAccepted.checkOperands
  obtain ⟨source, hFits, hOwnsSrc, hOwned⟩ :=
    scatter_pairsFit (checkOperands_eq_ok_iff.mp hOperands index c hCommand) hScatter hTable
  refine ⟨hFits.ne_of_targetsShare, ?_⟩
  intro hDifferent s order hStores hOrder
  have hApart : AnyTwo pairs fun target other => ¬x.program.TargetsShare target other :=
    fun i j target other hNe hTarget hOther hShare =>
      hDifferent i j target other hNe hTarget hOther
        (hFits.ne_of_targetsShare i j target other hNe hTarget hOther hShare) hShare
  have hMoves : c.movesData = true ∧ x.moved s c = x.scattered s copies src table := by
    cases c <;> cases hScatter <;> exact ⟨rfl, rfl⟩
  obtain ⟨t, hRun, hMoved⟩ := movement_executes hBuilt hOperands hCommand hMoves.1 hStores
  obtain ⟨t', hWalk, hMoved'⟩ : ∃ t', x.scatterAlong copies src order s = .ok () t' ∧ _ :=
    scatterAlong_moved hWell hFits (fun _ hMem => hOrder.mem_iff.mp hMem) hStores hOwnsSrc hOwned
  refine ⟨t, t', hRun, hWalk, slots_eq_of_movedBy (s := s) hMoved' ?_⟩
  have hSame : (fun m row col old => order.foldl
      (fun value entry => x.scatteredBy s copies src entry m row col value) old) =
        x.moved s c := by
    rw [hMoves.2]
    funext m row col old
    exact foldl_scatteredBy_perm hFits hApart hOrder m row col old
  rw [hSame]
  exact hMoved

/-! ## Two rows that go to two views -/

/-- The rows of the input are copied to two views of the output, the first row of it and a
given one. -/
def spreadMachine (row : Nat) : Machine :=
  { program := BuildStep.runAll
      [.matrix 2 1, .matrix 2 1, .subMatrix 2 ⟨0, 1, 0, 1⟩, .subMatrix 2 ⟨row, 1, 0, 1⟩,
        .rowPairs [some (3, 0), some (4, 0)], .bind 0 1 none, .bind 1 2 none,
        .command (.allocZeroed 2), .command (.scatterCopy 1 0), .recordedMarker,
        .command (.release 1)]
      .empty
    network := throughNetwork
    request :=
      { throughRequest with
        inputs := [.frames "in" 2 false]
        outputs := [.frames "out" 2 false] }
    forwardEnd := 2
    traces := false
    undefinedContents := fun _ _ _ => 0 }

/-- The input holds 5 and 7, and the output holds zeros. -/
def spreadState : MachineState :=
  ⟨⟨[none, some (.ofFn 2 1 fun row _ => [5, 7].getD row 0), some (.zeros 2 1)]⟩, none,
    .created, []⟩

/-- Both views are the first row of the output.  The check accepts that, the targets share an
element, and which row of the input it holds in the end depends on the order in which the
table is walked. -/
theorem spreadMachine_overlaps :
    (spreadMachine 0).program.Accepted (spreadMachine 0).network (spreadMachine 0).request
        true ∧
      (spreadMachine 0).program.TargetsShare (3, 0) (4, 0) ∧
        ∃ t t', (spreadMachine 0).execute 1 (.scatterCopy 1 0) spreadState = .ok () t ∧
          (spreadMachine 0).scatterAlong true 1 [(some (4, 0), 1), (some (3, 0), 0)]
              spreadState = .ok () t' ∧
            t.slots.value? 2 0 0 = some 7 ∧ t'.slots.value? 2 0 0 = some 5 :=
  ⟨⟨_, rfl⟩, ⟨2, 0, 0, ⟨_, rfl, rfl, rfl, by decide, by decide⟩,
    ⟨_, rfl, rfl, rfl, by decide, by decide⟩⟩, _, _, rfl, rfl, rfl, rfl⟩

theorem spreadState_stores (c : Command) :
    (spreadMachine 1).Stores ((spreadMachine 1).program.Owns c) spreadState := by
  refine (Prepared.of_stored (Built.wellFormed ⟨_, rfl⟩) rfl ?_ ?_).stores
  · intro m shape hMatrix
    match m with
    | 0 => cases hMatrix
    | 1 | 2 =>
        cases hMatrix
        exact ⟨_, rfl, rfl⟩
    | _ + 3 => cases hMatrix
  · intro net hTarget
    cases hTarget

/-- The views are the two rows of the output.  Then the rows may be written in the other
order. -/
theorem spreadMachine_in_other_order :
    (spreadMachine 1).program.Accepted (spreadMachine 1).network (spreadMachine 1).request
        true ∧
      ∃ t t', (spreadMachine 1).execute 1 (.scatterCopy 1 0) spreadState = .ok () t ∧
        (spreadMachine 1).scatterAlong true 1 [(some (4, 0), 1), (some (3, 0), 0)]
            spreadState = .ok () t' ∧ t'.slots = t.slots := by
  have hAccepted : (spreadMachine 1).program.Accepted (spreadMachine 1).network
      (spreadMachine 1).request true := ⟨_, rfl⟩
  refine ⟨hAccepted, (scatter_in_any_order (x := spreadMachine 1) ⟨_, rfl⟩ hAccepted
    (c := .scatterCopy 1 0) rfl rfl rfl).2 ?_ spreadState _ (spreadState_stores _)
      (.swap _ _ _)⟩
  intro i j target other hNe hTarget hOther _ hShare
  obtain ⟨m, row, col, ⟨view, hView, -, hRow, -⟩, ⟨view', hView', -, hRow', -⟩⟩ := hShare
  match i, j with
  | 0, 0 => exact hNe rfl
  | 1, 1 => exact hNe rfl
  | 0, 1 =>
      cases hTarget
      cases hOther
      cases hView
      cases hView'
      cases hRow.symm.trans hRow'
  | 1, 0 =>
      cases hTarget
      cases hOther
      cases hView
      cases hView'
      cases hRow.symm.trans hRow'
  | _ + 2, _ => cases hTarget
  | _, _ + 2 => cases hOther

end Machine

end MatrixProgram
