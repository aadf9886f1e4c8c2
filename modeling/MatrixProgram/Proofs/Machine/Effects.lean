import MatrixProgram.Proofs.Check.Discipline
import MatrixProgram.Proofs.Machine.Commands

/-!
# The effects are sound for the machine

The analysis gives every command two sets of variables, those that it reads and those that it
writes.  This file shows that they are sound: `executed_effects_sound` says of a command that
allocates and releases nothing that it changes elements of written variables only, and that
what it does depends on elements of read variables only.

The step from columns to variables is `elements_read_iff` and `elements_written_iff`; all else
is in the footprint of the command.
-/

namespace MatrixProgram

/-- The elements of some variables: all rows of their columns. -/
def Partition.elements (t : Partition) (vars : List Nat) : ElementSet :=
  fun m _ col => ∃ var ∈ vars, t.HasColumn var m col

/-- States that fit a program agree on some elements if the same matrices are allocated, the
elements are the same, and so are the targets. -/
theorem MachineState.Agree.of_occupied {A : ElementSet} {s s' : MachineState} {p : Program}
    (hFit : s.slots.Fit p) (hFit' : s'.slots.Fit p)
    (hOccupied : ∀ m, s.slots.occupied m = s'.slots.occupied m)
    (hValue : ∀ m row col, A m row col → s.slots.value? m row col = s'.slots.value? m row col)
    (hTarget : s.target = s'.target) : s.Agree A s' where
  slots :=
    { length := hFit.length.trans hFit'.length.symm
      shape := by
        intro m
        rw [hFit.shape?_eq, hFit'.shape?_eq, hOccupied]
      value := hValue }
  target := hTarget

/-- The effects of an action name all that it changes and all that it depends on. -/
structure Effects.SoundFor (e : Effects) (t : Partition) (p : Program)
    (act : MachineAction Unit) : Prop where
  /-- Only elements of written variables change, and the same matrices stay allocated. -/
  frame : ∀ {s u : MachineState}, s.slots.Fit p → act s = .ok () u →
    (∀ m, u.slots.occupied m = s.slots.occupied m) ∧
      ∀ m row col, ¬t.elements e.written m row col →
        u.slots.value? m row col = s.slots.value? m row col
  /-- States that agree on the read variables have the same outcome.  After a success they
  agree on the written variables, and wherever they agreed before. -/
  agree : ∀ {s s' : MachineState}, s.slots.Fit p → s'.slots.Fit p →
    (∀ m, s.slots.occupied m = s'.slots.occupied m) →
    (∀ m row col, t.elements e.read m row col →
      s.slots.value? m row col = s'.slots.value? m row col) →
    s.target = s'.target →
      (∃ err u u', act s = .error err u ∧ act s' = .error err u') ∨
        ∃ u u', act s = .ok () u ∧ act s' = .ok () u' ∧ u.target = u'.target ∧
          ∀ m row col, t.elements e.written m row col ∨
              s.slots.value? m row col = s'.slots.value? m row col →
            u.slots.value? m row col = u'.slots.value? m row col

namespace Program

variable {p : Program} {net : Network} {t : Partition} {c : Command} {e : Effects}

/-- If some variables are those of some columns that a command touches, then their elements
are the elements of these columns. -/
theorem WellFormed.elements_iff (hWell : p.WellFormed) (ht : p.partition = .ok t)
    {vars : List Nat} {columns : Nat → Nat → Prop}
    (hVars : ∀ {var m col}, t.HasColumn var m col → (var ∈ vars ↔ columns m col))
    (hTouches : ∀ {m col}, columns m col → p.TouchesColumn c m col) {m row col : Nat} :
    t.elements vars m row col ↔ columns m col := by
  constructor
  · intro h
    obtain ⟨var, hMem, hCol⟩ := h
    exact (hVars hCol).mp hMem
  · intro hColumn
    obtain ⟨shape, hMatrix, hLt⟩ := hWell.lt_of_touchesColumn (hTouches hColumn)
    obtain ⟨var, hCol⟩ := hWell.exists_hasColumn ht hMatrix hLt
    exact ⟨var, (hVars hCol).mpr hColumn, hCol⟩

theorem elements_read_iff (hWell : p.WellFormed) (ht : p.partition = .ok t)
    (he : p.commandEffects net t c = .ok e) {m row col : Nat} :
    t.elements e.read m row col ↔ p.ReadsColumn net c m col :=
  hWell.elements_iff ht (hWell.mem_read_iff ht he) ReadsColumn.touches

theorem elements_written_iff (hWell : p.WellFormed) (ht : p.partition = .ok t)
    (he : p.commandEffects net t c = .ok e) {m row col : Nat} :
    t.elements e.written m row col ↔ p.WritesColumn net c m col :=
  hWell.elements_iff ht (hWell.mem_written_iff ht he) WritesColumn.touches

end Program

namespace Machine

/-- The effects of a command are sound for carrying it out. -/
theorem soundFor_execute {x : Machine} {t : Partition} {c : Command} {e : Effects} (index : Nat)
    (hWell : x.program.WellFormed) (ht : x.program.partition = .ok t)
    (he : x.program.commandEffects x.network t c = .ok e)
    (hCheck : x.program.checkCommand x.network c = .ok ()) (hResize : c.resized? = none) :
    e.SoundFor t x.program (x.execute index c) where
  frame := by
    intro s u hFit hRun
    have hKeeps := execute_keepsRules (A := fun m _ col => x.program.ReadsColumn x.network c m col)
      index hWell hCheck hResize fun _ _ _ hReads => hReads
    have hFrame := hKeeps.frame hFit
    rw [hRun, Action.finalState] at hFrame
    constructor
    · intro m
      exact Slots.occupied_congr (hFrame.shape m)
    · intro m row col hNot
      apply hFrame.value
      exact mt (Program.elements_written_iff hWell ht he).mpr hNot
  agree := by
    intro s s' hFit hFit' hOccupied hRead hTarget
    -- The largest set on which the two states agree.
    have hReads : x.ReadsWithin c fun m row col =>
        s.slots.value? m row col = s'.slots.value? m row col := by
      intro m row col hColumn
      exact hRead m row col ((Program.elements_read_iff hWell ht he).mpr hColumn)
    have hKeeps := execute_keepsRules index hWell hCheck hResize hReads
    have hAgree := MachineState.Agree.of_occupied hFit hFit' hOccupied
      (fun _ _ _ hSame => hSame) hTarget
    have hMatch := hKeeps.agree hFit hAgree
    revert hMatch
    generalize x.execute index c s = r
    generalize x.execute index c s' = r'
    intro hMatch
    cases hMatch with
    | error hA => exact .inl ⟨_, _, _, rfl, rfl⟩
    | ok hA hB =>
        refine .inr ⟨_, _, rfl, rfl, hB.target, ?_⟩
        intro m row col hIn
        apply hB.slots.value
        rcases hIn with hWritten | hSame
        · exact .inr ((Program.elements_written_iff hWell ht he).mp hWritten)
        · exact .inl hSame

/-- The effects that the analysis finds for the commands of a built program, whose operands
pass their check, are sound for the machine. -/
theorem executed_effects_sound {x : Machine} {index : Nat} {c : Command}
    (hBuilt : x.program.Built) (hOperands : x.program.checkOperands x.network = .ok ())
    (hCommand : x.program.commands[index]? = some c) (hResize : c.resized? = none) :
    ∃ t es e, x.program.partition = .ok t ∧ x.program.effects x.network t = .ok es ∧
      es[index]? = some e ∧ e.SoundFor t x.program (x.execute index c) := by
  have hWell := hBuilt.wellFormed
  obtain ⟨t, ht⟩ := hWell.exists_partition
  obtain ⟨es, hes⟩ := Program.exists_effects t hOperands
  obtain ⟨e, hEntry, he⟩ := Program.getElem?_effects hes hCommand
  have hCheck := Program.checkOperands_eq_ok_iff.mp hOperands index c hCommand
  exact ⟨t, es, e, ht, hes, hEntry, soundFor_execute index hWell ht he hCheck hResize⟩

/-- A machine for the program that copies its input. -/
def throughMachine : Machine :=
  ⟨Program.throughProgram, Program.throughNetwork, Program.throughRequest, 2, false,
    fun _ _ _ => 0⟩

/-- A state of that machine: the input and the output are free, or have one value
throughout. -/
def throughState (input output : Option Float32) : MachineState :=
  ⟨⟨[none, input.map fun v => .ofFn 1 2 fun _ _ => v,
    output.map fun v => .ofFn 1 2 fun _ _ => v]⟩, none, .created, []⟩

theorem throughState_fit (input output : Option Float32) :
    (throughState input output).slots.Fit Program.throughProgram where
  length := rfl
  shape := by
    intro m shape hShape
    match m with
    | 0 => cases hShape
    | 1 =>
        cases input with
        | none => cases hShape
        | some v =>
            cases hShape
            rfl
    | 2 =>
        cases output with
        | none => cases hShape
        | some v =>
            cases hShape
            rfl
    | m + 3 => cases hShape

/-- The copy of the program reaches a result, and its effects are sound. -/
theorem throughMachine_copy_sound :
    (throughState (some 1) (some 0)).slots.Fit Program.throughProgram ∧
      (∃ u, throughMachine.execute 1 (.copy 2 1) (throughState (some 1) (some 0)) = .ok () u) ∧
        ∃ t es e, Program.throughProgram.partition = .ok t ∧
          Program.throughProgram.effects Program.throughNetwork t = .ok es ∧
            es[1]? = some e ∧
              e.SoundFor t Program.throughProgram (throughMachine.execute 1 (.copy 2 1)) :=
  ⟨throughState_fit (some 1) (some 0), ⟨_, rfl⟩,
    executed_effects_sound (x := throughMachine) Program.throughProgram_built rfl rfl rfl⟩

end Machine

end MatrixProgram
