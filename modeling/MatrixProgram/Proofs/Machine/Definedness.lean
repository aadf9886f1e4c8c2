import MatrixProgram.Proofs.Machine.Steps

/-!
# Defined contents during a run

A matrix can be allocated with undefined contents, `filledWith` puts any contents there.  The
columns that are defined before a command are those of supplied matrices and those that an
earlier command touches, `DefinedAt`.  In a program that has passed the check a command reads
defined columns only, and the first command that touches a column writes it.

Hence two runs that differ in the undefined contents agree on all that is defined, step by
step and along every segment: `executeAll_agree`.
-/

namespace MatrixProgram

namespace Program

variable {p : Program} {net : Network} {i j m row col : Nat} {b : Bool} {c : Command}

/-- An element has a defined value before the command at a position. -/
def DefinedAt (p : Program) (net : Network) (i : Nat) : ElementSet :=
  fun m _ col => m ∈ p.supplied net ∨
    ∃ j c, j < i ∧ p.commands[j]? = some c ∧ p.TouchesColumn c m col

theorem definedAt_mono (hLe : i ≤ j) (h : p.DefinedAt net i m row col) :
    p.DefinedAt net j m row col := by
  rcases h with hSupplied | ⟨k, c, hLt, hCommand, hTouches⟩
  · exact .inl hSupplied
  · exact .inr ⟨k, c, by omega, hCommand, hTouches⟩

/-- What a command adds to the defined columns is what it touches. -/
theorem touches_of_definedAt_succ (hCommand : p.commands[i]? = some c)
    (h : p.DefinedAt net (i + 1) m row col) :
    p.DefinedAt net i m row col ∨ p.TouchesColumn c m col := by
  rcases h with hSupplied | ⟨j, d, hLt, hOther, hTouches⟩
  · exact .inl (.inl hSupplied)
  · by_cases hEq : j = i
    · subst hEq
      rw [hCommand] at hOther
      cases hOther
      exact .inr hTouches
    · exact .inl (.inr ⟨j, d, by omega, hOther, hTouches⟩)

/-- A command that allocates or releases a matrix touches no other one. -/
theorem eq_of_touches_resized {k : Nat} (hResize : c.resized? = some m)
    (h : p.TouchesColumn c k col) : m = k := by
  rcases h with ⟨rfl, -⟩ | ⟨slot, s, hNames, -⟩
  · cases hResize
    rfl
  · cases hNames with
    | operand hOperand =>
        cases c <;> simp [Command.operand?] at hOperand <;> cases hResize
    | pairRow hTable =>
        cases c <;> simp [Command.pairTable?] at hTable <;> cases hResize

/-- Allocating without filling touches nothing. -/
theorem not_touches_allocUndefined : ¬p.TouchesColumn (.allocUndefined m) m col := by
  intro h
  rcases h with ⟨hFills, -⟩ | ⟨slot, s, hNames, -⟩
  · cases hFills
  · cases hNames with
    | operand hOperand => cases slot <;> cases hOperand
    | pairRow hTable => cases hTable

variable (hWell : p.WellFormed) (hDisciplined : p.Disciplined net b)

include hDisciplined

/-- After all commands every column of every matrix is defined. -/
theorem definedAt_length {shape : Shape} (row : Nat) (hMatrix : p.matrix m = .ok shape)
    (hCol : col < shape.numCols) : p.DefinedAt net p.commands.length m row col := by
  obtain ⟨f, d, hFirst, -⟩ := hDisciplined.touched hMatrix hCol
  have hLt := (List.getElem?_eq_some_iff.mp hFirst.command).1
  exact .inr ⟨f, d, hLt, hFirst.command, hFirst.touches⟩

include hWell

/-- A command that touches a column which is not yet defined is the first one to touch it. -/
theorem touchesFirst_of_not_definedAt (hCommand : p.commands[i]? = some c)
    (hTouches : p.TouchesColumn c m col) (hNot : ¬p.DefinedAt net i m row col) :
    p.WritesColumn net c m col ∧ ¬p.ReadsColumn net c m col := by
  obtain ⟨shape, hMatrix, hLt⟩ := hWell.lt_of_touchesColumn hTouches
  obtain ⟨f, d, hFirst, hWrites⟩ := hDisciplined.touched hMatrix hLt
  have hNotSupplied : m ∉ p.supplied net := fun hMem => hNot (.inl hMem)
  -- The first command to touch the column is neither an earlier nor a later one.
  have hNotBefore : ¬f < i := fun hBefore =>
    hNot (.inr ⟨f, d, hBefore, hFirst.command, hFirst.touches⟩)
  have hNotAfter : ¬i < f := fun hAfter => hFirst.first hAfter hCommand hTouches
  have hEq : f = i := by omega
  subst hEq
  have hSame : d = c := Option.some.inj (hFirst.command.symm.trans hCommand)
  rw [← hSame]
  exact hWrites hNotSupplied

/-- A command reads defined columns only. -/
theorem definedAt_of_reads (hCommand : p.commands[i]? = some c)
    (hReads : p.ReadsColumn net c m col) : p.DefinedAt net i m row col := by
  apply Classical.byContradiction
  intro hNot
  have hFirst := touchesFirst_of_not_definedAt hWell hDisciplined hCommand hReads.touches hNot
  exact hFirst.2 hReads

end Program

namespace Machine

open Program

variable {x : Machine} {i j : Nat} {c : Command} {s s' : MachineState} {b : Bool}
  {f g : Nat → Nat → Nat → Float32}

/-- The machine with other contents for what is allocated without being filled. -/
def filledWith (x : Machine) (f : Nat → Nat → Nat → Float32) : Machine :=
  { x with undefinedContents := f }

/-- The contents matter for allocations only. -/
theorem execute_filledWith (hResize : c.resized? = none) (index : Nat) :
    (x.filledWith f).execute index c = x.execute index c := by
  cases c <;> first | rfl | cases hResize

variable (hWell : x.program.WellFormed) (hDisciplined : x.program.Disciplined x.network b)
  (hOperands : x.program.checkOperands x.network = .ok ())

include hDisciplined hOperands

/-- Resizes keep two states in agreement on what is defined. -/
theorem execute_agree_of_resized {m : Nat} (hCommand : x.program.commands[i]? = some c)
    (hResize : c.resized? = some m) (hFit : s.slots.Fit x.program)
    (hAgree : s.Agree (x.program.DefinedAt x.network i) s') :
    Matches (x.program.DefinedAt x.network i) (x.program.DefinedAt x.network (i + 1))
      ((x.filledWith f).execute i c s) ((x.filledWith g).execute i c s') := by
  have hCheck := checkOperands_eq_ok_iff.mp hOperands i c hCommand
  have hFit' := fit_of_agree hFit hAgree
  obtain ⟨found, hRefills⟩ := exists_refills (x := x.filledWith f) hCheck hResize
  obtain ⟨found', hRefills'⟩ := exists_refills (x := x.filledWith g) hCheck hResize
  obtain ⟨journal, hRun⟩ := execute_resize i hRefills hCheck hFit
  obtain ⟨journal', hRun'⟩ := execute_resize i hRefills' hCheck hFit'
  rw [hRun, hRun']
  -- Of the other matrices nothing new is defined.
  have hOther : ∀ k row col, x.program.DefinedAt x.network (i + 1) k row col → m ≠ k →
      x.program.DefinedAt x.network i k row col := by
    intro k row col hDefined hNe
    rcases touches_of_definedAt_succ hCommand hDefined with hBefore | hTouches
    · exact hBefore
    · exact absurd (eq_of_touches_resized hResize hTouches) hNe
  have hBuffers : found.map Buffer.shape = found'.map Buffer.shape ∧ (found = found' ∨
      ∀ row col, ¬x.program.DefinedAt x.network (i + 1) m row col) := by
    cases hRefills with
    | zeroed hMatrix =>
        cases hRefills' with
        | zeroed hMatrix' =>
            cases hMatrix.symm.trans hMatrix'
            exact ⟨rfl, .inl rfl⟩
    | released =>
        cases hRefills' with
        | released => exact ⟨rfl, .inl rfl⟩
    | undefined hMatrix =>
        cases hRefills' with
        | undefined hMatrix' =>
            cases hMatrix.symm.trans hMatrix'
            refine ⟨rfl, .inr ?_⟩
            -- Nothing of the matrix has been touched, and it is not supplied.
            intro row col hDefined
            have hAllocates : x.program.AllocatesAt i m := ⟨_, hCommand, rfl⟩
            rcases hDefined with hSupplied | ⟨k, d, hLt, hEarlier, hTouches⟩
            · exact hDisciplined.notAllocated hSupplied i hAllocates
            · have hLe := hDisciplined.allocation_le_touch hOperands hAllocates
                ⟨d, col, hEarlier, hTouches⟩
              have hEq : k = i := by omega
              subst hEq
              rw [hCommand] at hEarlier
              cases hEarlier
              exact not_touches_allocUndefined hTouches
  have hSlots := hAgree.slots.put hBuffers.1 hOther hBuffers.2
  have hAfter : MachineState.Agree (x.program.DefinedAt x.network (i + 1))
      ⟨s.slots.put m found, s.target, s.phase, journal⟩
      ⟨s'.slots.put m found', s'.target, s'.phase, journal'⟩ := ⟨hSlots, hAgree.target⟩
  exact .ok (hAfter.mono fun _ _ _ => definedAt_mono (by omega)) hAfter

include hWell

/-- A command keeps two states in agreement on what is defined. -/
theorem execute_agree (hCommand : x.program.commands[i]? = some c)
    (hFit : s.slots.Fit x.program) (hAgree : s.Agree (x.program.DefinedAt x.network i) s') :
    Matches (x.program.DefinedAt x.network i) (x.program.DefinedAt x.network (i + 1))
      ((x.filledWith f).execute i c s) ((x.filledWith g).execute i c s') := by
  cases hResize : c.resized? with
  | some m =>
      exact execute_agree_of_resized hDisciplined hOperands hCommand hResize hFit hAgree
  | none =>
      have hCheck := checkOperands_eq_ok_iff.mp hOperands i c hCommand
      have hReads : x.ReadsWithin c (x.program.DefinedAt x.network i) := fun m row col =>
        definedAt_of_reads hWell hDisciplined hCommand
      have hKeeps := execute_keepsRules i hWell hCheck hResize hReads
      rw [execute_filledWith hResize, execute_filledWith hResize]
      refine (hKeeps.agree hFit hAgree).mono (fun _ _ _ hIn => hIn) ?_
      intro m row col hDefined
      -- What is newly defined has been written just now.
      by_cases hBefore : x.program.DefinedAt x.network i m row col
      · exact .inl hBefore
      · have hTouches := (touches_of_definedAt_succ hCommand hDefined).resolve_left hBefore
        exact .inr (touchesFirst_of_not_definedAt hWell hDisciplined hCommand hTouches hBefore).1

/-- A run along a segment keeps two states in agreement on what is defined, and has the same
outcome from both. -/
theorem executeAll_agree {segment : List (Command × Nat)}
    (hSegment : x.program.Segment i segment j) (hFit : s.slots.Fit x.program)
    (hAgree : s.Agree (x.program.DefinedAt x.network i) s') :
    Matches (x.program.DefinedAt x.network i) (x.program.DefinedAt x.network j)
      ((x.filledWith f).executeAll segment s) ((x.filledWith g).executeAll segment s') := by
  induction hSegment generalizing s s' with
  | nil => exact .ok hAgree hAgree
  | @cons i j c rest hCommand _ ih =>
      have hCheck := checkOperands_eq_ok_iff.mp hOperands i c hCommand
      have hStep := execute_agree (f := f) (g := g) hWell hDisciplined hOperands hCommand hFit
        hAgree
      have hFits := (execute_fit (x := x.filledWith f) i hWell hCheck hFit).1
      rw [executeAll_cons_run, executeAll_cons_run]
      revert hStep hFits
      generalize (x.filledWith f).execute i c s = r
      generalize (x.filledWith g).execute i c s' = r'
      intro hStep hFits
      cases hStep with
      | error hBefore => exact .error hBefore
      | ok _ hAfter =>
          refine (ih hFits hAfter).mono ?_ fun _ _ _ hIn => hIn
          exact fun _ _ _ => definedAt_mono (by omega)

end Machine

end MatrixProgram
