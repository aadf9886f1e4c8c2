import MatrixProgram.Proofs.Check.Requests
import MatrixProgram.Proofs.Machine.Progress
import MatrixProgram.Proofs.Machine.Reachable

/-!
# The forward commands

The check treats the commands of a program as one list, while a machine stops at the phase
marker: the caller supplies inputs before the forward commands, and may read outputs and
supply derivatives after them.  What the forward commands need is that the supplied matrices
which they touch are there, `Fed`.

When everything that the caller supplies is there from the beginning, the forward commands
run to the marker: `accepted_commands_run`.  When only the inputs are, that needs programs
whose two phases are apart, `PhasesApart`: no forward command touches a derivative that is
supplied later, and the forward commands complete the outputs.  For these programs
`forward_provides_outputs` holds, and without that condition it does not.
-/

namespace MatrixProgram

namespace Machine

open Program

variable {x : Machine} {i j : Nat} {c : Command} {s t : MachineState} {b : Bool}
  {target : Option Network} {G : Nat → Prop}

/-! ## Fed states -/

/-- Before the command at a position, whatever should be allocated is, but for the supplied
matrices that are not in `G`. -/
structure Fed (x : Machine) (G : Nat → Prop) (i : Nat) (s : MachineState) : Prop where
  fit : s.slots.Fit x.program
  live : ∀ m, x.program.LiveAt x.network i m → (m ∈ x.program.supplied x.network → G m) →
    s.slots.occupied m = true

theorem Fed.start (hFit : s.slots.Fit x.program)
    (hGiven : ∀ m, m ∈ x.program.supplied x.network → G m → s.slots.occupied m = true) :
    x.Fed G 0 s where
  fit := hFit
  live := by
    intro m hLive hG
    have hMem := liveAt_zero_iff.mp hLive
    exact hGiven m hMem (hG hMem)

/-- A state that keeps the invariant of the storage is prepared for what is allocated. -/
theorem Kept.prepared {O : Nat → Prop} (h : x.Kept target s)
    (hTarget : ∀ net, target = some net → net.widths = x.network.widths)
    (hOwned : ∀ m, O m → s.slots.occupied m = true) : x.Prepared O s where
  length := h.fit.length
  holds := by
    intro m hIn
    obtain ⟨b, hBuffer⟩ := Option.isSome_iff_exists.mp (hOwned m hIn)
    refine ⟨b, hBuffer, matrix_eq_ok_iff.mpr ⟨?_, h.fit.shape (Slots.shape?_of_buffer? hBuffer)⟩⟩
    rintro rfl
    rw [h.empty] at hBuffer
    cases hBuffer
  target := by
    intro net hSome
    have hWidths := h.widths
    rw [hSome, Option.map_some, eq_comm, Option.map_eq_some_iff] at hWidths
    obtain ⟨net', hGiven, hSame⟩ := hWidths
    exact hSame.symm.trans (hTarget net' hGiven)

section Steps

variable (hWell : x.program.WellFormed) (hDisciplined : x.program.Disciplined x.network b)
  (hOperands : x.program.checkOperands x.network = .ok ())

include hWell hDisciplined hOperands

/-- The matrices of the operands of a command are allocated. -/
theorem Fed.owned (h : x.Fed G i s) (hCommand : x.program.commands[i]? = some c)
    (hGiven : ∀ m, x.program.TouchesAt i m → m ∈ x.program.supplied x.network → G m) (m : Nat)
    (hOwned : x.program.Owns c m) : s.slots.occupied m = true :=
  h.live m (liveAt_of_owns hDisciplined hOperands hWell hCommand hOwned)
    (hGiven m (touchesAt_of_owns hWell hCommand hOwned))

theorem Fed.step (h : x.Fed G i s) (hCommand : x.program.commands[i]? = some c)
    (hRun : x.execute i c s = .ok () t) : x.Fed G (i + 1) t := by
  have hCheck := checkOperands_eq_ok_iff.mp hOperands i c hCommand
  have hFit := (execute_fit i hWell hCheck h.fit).1
  rw [hRun, Action.finalState] at hFit
  refine ⟨hFit, fun k hLive hG => ?_⟩
  rcases occupied_step hWell hDisciplined hOperands h.fit hCommand hRun k with
    hResized | ⟨hSame, hLiveBefore⟩
  · exact hResized.mpr hLive
  · rw [hSame]
    exact h.live k (hLiveBefore.mp hLive) hG

end Steps

/-! ## The forward call -/

/-- The value of a requested input or output is that of its binding. -/
theorem valueMatrix_of_requested {side : Side} {spec : IoRequest} {node : Nat} {bound : Binding}
    {shape : Shape} (h : x.program.Requested x.network side spec node bound shape) :
    x.valueMatrix spec.name = .ok bound.value := by
  simp only [valueMatrix, boundNode, h.index, h.bound]
  rfl

/-- The marker is a command, so the forward commands end with it. -/
theorem forwardEnd_lt (hDisciplined : x.program.Disciplined x.network b)
    (hMarker : x.program.forwardEnd = some x.forwardEnd) :
    x.program.SplitAt x.forwardEnd ∧ x.forwardEnd < x.program.commands.length := by
  obtain ⟨marker, hRecorded, hSplit⟩ := hDisciplined.split
  cases hMarker.symm.trans hRecorded
  exact ⟨hSplit, (List.getElem?_eq_some_iff.mp ((hSplit.only x.forwardEnd).mpr rfl)).1⟩

/-- Once the inputs are there, a forward call runs the forward commands. -/
theorem call_forward_run (hAccepted : x.program.Accepted x.network x.request b)
    (hPhase : s.phase = .created)
    (hInputs : ∀ m, x.program.InputValue x.network m → s.slots.occupied m = true) :
    x.call .forward s = match x.executeAll x.forwardCommands s with
      | .ok _ t => .ok .done { t with phase := .forwardDone }
      | .error err t => .error err t := by
  have hSupplied : x.request.inputs.forM (x.requireInput s.slots) = .ok () := by
    refine Action.check_forM_eq_ok_iff.mpr fun spec hMem => ?_
    obtain ⟨node, bound, shape, hRequested⟩ := hAccepted.requestedInput hMem
    rw [requireInput, valueMatrix_of_requested hRequested]
    exact Action.require_eq_ok_iff.mpr (hInputs _ hRequested.inputValue)
  have hAllowed : s.phase ∈ CallKind.forward.allowedIn := by
    rw [hPhase]
    decide
  have hPasses : requirePhase .forward s = .ok () s := by
    simp [requirePhase, Action.bind_run, hAllowed]
  rw [call, Action.map_run, forward, Action.bind_run_ok hPasses, Action.bind_run, Action.get_run]
  simp only [hSupplied, Action.ofExcept_ok, Action.bind_run]
  cases x.executeAll x.forwardCommands s <;> rfl

/-! ## Everything is supplied -/

/-- One component that selects rows, between an input node and an output node. -/
def selectNetwork : Network :=
  { components := [("rows", .rowSelect ⟨2⟩)]
    nodes := [⟨"in", .input⟩, ⟨"layer", .component 0⟩, ⟨"out", .output⟩] }

/-- Two rows go in, and the second one comes out. -/
def selectMachine : Machine :=
  { program := BuildStep.runAll
      [.matrix 2 2, .matrix 1 2, .bind 0 1 none, .bind 2 2 none, .precomputed [1],
        .command (.allocUndefined 2), .command (.propagate 0 (some 0) 1 2), .recordedMarker,
        .command (.release 1)]
      .empty
    network := selectNetwork
    request :=
      { inputs := [.frames "in" 2 false]
        outputs := [.frames "out" 1 false]
        wantsModelDeriv := false
        wantsStats := false }
    forwardEnd := 2
    traces := true
    undefinedContents := fun _ _ _ => 0 }

theorem selectMachine_selectsRows : selectMachine.program.SelectsRows selectNetwork := by
  intro index k precomputed input output r hCommand _
  match index with
  | 0 => cases hCommand
  | 1 =>
      cases hCommand
      exact ⟨0, [1], _, _, rfl, rfl, rfl, rfl, rfl, by decide⟩
  | 2 => cases hCommand
  | 3 => cases hCommand
  | _ + 4 => cases hCommand

/-- A state that holds storage for both matrices. -/
def selectState : MachineState :=
  { slots := ⟨[none, some (.zeros 2 2), some (.zeros 1 2)]⟩
    target := none
    phase := .created
    journal := [] }

theorem selectState_prepared (c : Command) :
    selectMachine.Prepared (selectMachine.program.Owns c) selectState := by
  have hWell : selectMachine.program.WellFormed := Built.wellFormed ⟨_, rfl⟩
  refine Prepared.of_stored hWell rfl ?_ fun net hTarget => by cases hTarget
  intro m shape hMatrix
  match m with
  | 0 => cases hMatrix
  | 1 | 2 =>
      cases hMatrix
      exact ⟨_, rfl, rfl⟩
  | _ + 3 => cases hMatrix

/-- The phases of a program are apart.  No forward command touches a derivative that is
supplied after the forward commands.  And the value of a requested output is that of an input,
or a forward command touches each of its columns. -/
structure PhasesApart (x : Machine) : Prop where
  derivs : ∀ i m, i ≤ x.forwardEnd → x.program.OutputDeriv x.network m →
    ¬x.program.TouchesAt i m
  outputs : ∀ spec ∈ x.request.outputs, ∀ m shape, x.valueMatrix spec.name = .ok m →
    x.program.matrix m = .ok shape → x.program.InputValue x.network m ∨
      ∀ col, col < shape.numCols → ∃ i c, i ≤ x.forwardEnd ∧
        x.program.commands[i]? = some c ∧ x.program.TouchesColumn c m col

/-- A supplied matrix that a forward command touches is the value of an input. -/
theorem PhasesApart.inputValue_of_touches {m : Nat} (h : x.PhasesApart) (hLe : i ≤ x.forwardEnd)
    (hTouches : x.program.TouchesAt i m) (hMem : m ∈ x.program.supplied x.network) :
    x.program.InputValue x.network m :=
  (mem_supplied_cases hMem).resolve_right fun hDeriv => h.derivs i m hLe hDeriv hTouches

/-- The value of a requested output is that of an input, or it is not supplied and a forward
command touches each of its columns. -/
theorem PhasesApart.output_cases {spec : IoRequest} {node : Nat} {bound : Binding}
    {shape : Shape} (h : x.PhasesApart) (hWell : x.program.WellFormed)
    (hMem : spec ∈ x.request.outputs)
    (hRequested : x.program.Requested x.network .output spec node bound shape) :
    x.program.InputValue x.network bound.value ∨
      bound.value ∉ x.program.supplied x.network ∧ ∀ col, col < shape.numCols →
        ∃ i c, i ≤ x.forwardEnd ∧ x.program.commands[i]? = some c ∧
          x.program.TouchesColumn c bound.value col := by
  have hValue := valueMatrix_of_requested hRequested
  rcases h.outputs spec hMem _ shape hValue hRequested.value with hInput | hTouched
  · exact .inl hInput
  · by_cases hSupplied : bound.value ∈ x.program.supplied x.network
    · obtain ⟨i, c, hLe, hCommand, hTouches⟩ := hTouched 0 (hWell.positive hRequested.value).2
      exact .inl (h.inputValue_of_touches hLe ⟨c, 0, hCommand, hTouches⟩ hSupplied)
    · exact .inr ⟨hSupplied, hTouched⟩

/-- What is bound is requested: the values of inputs, and the derivatives of outputs. -/
structure RequestsBound (x : Machine) : Prop where
  inputs : ∀ m, x.program.InputValue x.network m →
    ∃ spec ∈ x.request.inputs, x.valueMatrix spec.name = .ok m
  derivs : ∀ m, x.program.OutputDeriv x.network m →
    ∃ spec ∈ x.request.outputs, spec.wantsDeriv = true ∧ x.derivMatrix spec.name = .ok m

/-- A command gives new values to a column: they do not depend on the old ones. -/
def Overwrites (x : Machine) (i : Nat) (c : Command) (m col : Nat) : Prop :=
  ∀ s s' t t' : MachineState, s.slots.Fit x.program →
    s.Agree (fun k _ j => ¬(k = m ∧ j = col)) s' → x.execute i c s = .ok () t →
      x.execute i c s' = .ok () t' → ∀ row, t.slots.value? m row col = t'.slots.value? m row col

/-- A forward command has given new values to a column, and the matrix has not been allocated
again. -/
def WrittenForward (x : Machine) (m col : Nat) : Prop :=
  ∃ i c, i ≤ x.forwardEnd ∧ x.program.commands[i]? = some c ∧
    x.program.WritesColumn x.network c m col ∧ x.Overwrites i c m col ∧
      ∀ j, i < j → ¬x.program.AllocatesAt j m

/-- A command that writes a column without reading it overwrites it. -/
theorem overwrites_of_writes {m col : Nat} (hWell : x.program.WellFormed)
    (hCheck : x.program.checkCommand x.network c = .ok ())
    (hWrites : x.program.WritesColumn x.network c m col)
    (hNotRead : ¬x.program.ReadsColumn x.network c m col) : x.Overwrites i c m col := by
  intro s s' t t' hFit hAgree hRun hRun' row
  cases hResize : c.resized? with
  | none =>
      have hReads : x.ReadsWithin c fun k _ j => ¬(k = m ∧ j = col) := by
        rintro k row' j hReadsColumn ⟨rfl, rfl⟩
        exact hNotRead hReadsColumn
      have hMatches := (execute_keepsRules i hWell hCheck hResize hReads).agree hFit hAgree
      rw [hRun, hRun'] at hMatches
      cases hMatches with
      | ok _ hAfter => exact hAfter.slots.value m row col (.inr hWrites)
  | some k =>
      -- It allocates the matrix, and fills it with zeros.
      obtain rfl := eq_of_touches_resized hResize hWrites.touches
      obtain ⟨found, hRefills⟩ := exists_refills hCheck hResize
      have hFit' := fit_of_agree hFit hAgree
      obtain ⟨journal, hDone⟩ := execute_resize i hRefills hCheck hFit
      obtain ⟨journal', hDone'⟩ := execute_resize i hRefills hCheck hFit'
      cases hRun.symm.trans hDone
      cases hRun'.symm.trans hDone'
      simp only [Slots.value?, Slots.buffer?_put_self (hRefills.lt hCheck hFit),
        Slots.buffer?_put_self (hRefills.lt hCheck hFit')]

section Outputs

variable (hWell : x.program.WellFormed) (hDisciplined : x.program.Disciplined x.network b)
  (hOperands : x.program.checkOperands x.network = .ok ())

include hWell hDisciplined hOperands

/-- A column of a matrix which is not supplied is written once a forward command touches it:
the first command to do so writes it. -/
theorem writtenForward_of_touches {m col : Nat} (hCommand : x.program.commands[i]? = some c)
    (hLe : i ≤ x.forwardEnd) (hTouches : x.program.TouchesColumn c m col)
    (hNotSupplied : m ∉ x.program.supplied x.network) : x.WrittenForward m col := by
  obtain ⟨shape, hMatrix, hCol⟩ := hWell.lt_of_touchesColumn hTouches
  obtain ⟨f, d, hFirst, hWrites⟩ := hDisciplined.touched hMatrix hCol
  obtain ⟨hWritesColumn, hNotRead⟩ := hWrites hNotSupplied
  have hNotAfter : ¬i < f := fun hAfter => hFirst.first hAfter hCommand hTouches
  have hCheck := checkOperands_eq_ok_iff.mp hOperands f d hFirst.command
  refine ⟨f, d, by omega, hFirst.command, hWritesColumn,
    overwrites_of_writes hWell hCheck hWritesColumn hNotRead, ?_⟩
  intro j hLt hAllocates
  have hBefore := hDisciplined.allocation_le_touch hOperands hAllocates
    ⟨d, col, hFirst.command, hFirst.touches⟩
  omega

omit hOperands in
/-- A produced matrix is allocated after the forward commands, if it is supplied or one of
them touches it. -/
theorem liveAt_of_produced {m : Nat} (hProduced : m ∈ x.program.produced x.network)
    (hSource : m ∈ x.program.supplied x.network ∨
      ∃ i, i ≤ x.forwardEnd ∧ x.program.TouchesAt i m) :
    x.program.LiveAt x.network (x.forwardEnd + 1) m := by
  refine ⟨?_, fun j _ => hDisciplined.notReleased hProduced j⟩
  by_cases hSupplied : m ∈ x.program.supplied x.network
  · exact .inl hSupplied
  · obtain ⟨i, hLe, hTouches⟩ := hSource.resolve_left hSupplied
    obtain ⟨c, col, -, hColumn⟩ := id hTouches
    obtain ⟨shape, hMatrix, -⟩ := hWell.lt_of_touchesColumn hColumn
    obtain ⟨a, hOnly, hBefore⟩ := hDisciplined.allocated hMatrix hSupplied
    have hFirst := hBefore i hTouches
    exact .inr ⟨a, by omega, (hOnly a).mpr rfl⟩

end Outputs

/-- Reading a requested output answers what its slot holds. -/
theorem call_readOutput_run {spec : IoRequest} {m : Nat} {out : Buffer}
    (hPhase : s.phase = .forwardDone) (hMem : spec ∈ x.request.outputs)
    (hValue : x.valueMatrix spec.name = .ok m) (hBuffer : s.slots.buffer? m = some out) :
    x.call (.readOutput spec.name) s = .ok (.buffer out) s := by
  have hAllowed : s.phase ∈ CallKind.readOutput.allowedIn := by
    rw [hPhase]
    decide
  obtain ⟨found, hFound⟩ : ∃ found, x.request.output? spec.name = some found := by
    rw [← Option.isSome_iff_exists, Request.output?, List.find?_isSome]
    exact ⟨spec, hMem, by simp⟩
  simp [call, readOutput, requirePhase, hAllowed, requestedOutput, hFound, hValue, Slots.read,
    hBuffer, Action.bind_run, Action.map_run]

/-- In a program whose phases are apart the forward commands need no more than the inputs, and
they complete the outputs.  A forward call, made when the inputs are there, does not fail
because something is not allocated.  After it has succeeded each requested output can be read,
it has the requested number of rows, and all its values have been supplied by the caller or
written by a forward command. -/
theorem forward_provides_outputs (hBuilt : x.program.Built)
    (hAccepted : x.program.Accepted x.network x.request b)
    (hMarker : x.program.forwardEnd = some x.forwardEnd) (hApart : x.PhasesApart)
    (hRequested : x.RequestsBound)
    (calls : List Call) (hState : s = (x.callAll calls (x.start target)).2)
    (hPhase : s.phase = .created)
    (hSupplied : ∀ spec ∈ x.request.inputs, ∀ m, x.valueMatrix spec.name = .ok m →
      s.slots.occupied m = true) :
    (∀ m misuse t, x.call .forward s ≠ .error (.lifecycle m misuse) t) ∧
      ∀ a t, x.call .forward s = .ok a t → ∀ spec ∈ x.request.outputs, ∃ m out,
        x.valueMatrix spec.name = .ok m ∧
          x.call (.readOutput spec.name) t = .ok (.buffer out) t ∧
            out.numRows = spec.numRows ∧
              ((∃ input ∈ x.request.inputs, x.valueMatrix input.name = .ok m) ∨
                ∀ col, col < out.numCols → x.WrittenForward m col) := by
  have hWell := hBuilt.wellFormed
  have hDisciplined := hAccepted.disciplined hWell
  have hOperands := hAccepted.checkOperands
  have hKept : x.Kept target s := hState ▸ (Reachable.callAll calls .start).kept hWell
  have hInputs : ∀ m, x.program.InputValue x.network m → s.slots.occupied m = true := by
    intro m hInput
    obtain ⟨spec, hMem, hValue⟩ := hRequested.inputs m hInput
    exact hSupplied spec hMem m hValue
  obtain ⟨-, hEnd⟩ := forwardEnd_lt hDisciplined hMarker
  have hFed : x.Fed (x.program.InputValue x.network) 0 s :=
    Fed.start hKept.fit fun m _ hInput => hInputs m hInput
  have hCases := executeAll_cases (I := x.Fed (x.program.InputValue x.network))
    (segment_take hEnd)
    (fun k c u t _ hCommand hI hRun => hI.step hWell hDisciplined hOperands hCommand hRun) hFed
  rw [call_forward_run hAccepted hPhase hInputs]
  rcases hCases with ⟨t, hRun, hAfter⟩ | ⟨k, c, u, err, t, hLt, hCommand, hI, hFails, hRun⟩
  · rw [forwardCommands, hRun]
    refine ⟨fun m misuse t' hErr => (by cases hErr), ?_⟩
    intro a t' hOk spec hMem
    cases hOk
    obtain ⟨node, bound, shape, hOutput⟩ := hAccepted.requestedOutput hMem
    have hValue := valueMatrix_of_requested hOutput
    have hSource := hApart.output_cases hWell hMem hOutput
    have hOccupied : t.slots.occupied bound.value = true := by
      refine hAfter.live _ (liveAt_of_produced hWell hDisciplined hOutput.mem_produced ?_) ?_
      · refine hSource.imp InputValue.mem_supplied ?_
        rintro ⟨-, hTouched⟩
        obtain ⟨i, c, hLe, hCommand, hTouches⟩ := hTouched 0 (hWell.positive hOutput.value).2
        exact ⟨i, hLe, c, 0, hCommand, hTouches⟩
      · exact fun hSupplied => hSource.resolve_right fun hOther => hOther.1 hSupplied
    obtain ⟨out, hBuffer⟩ := Option.isSome_iff_exists.mp hOccupied
    obtain rfl : out.shape = shape := by
      have hDeclared := hAfter.fit.shape (Slots.shape?_of_buffer? hBuffer)
      exact Option.some.inj (hDeclared.symm.trans (matrix_eq_ok_iff.mp hOutput.value).2)
    refine ⟨bound.value, out, hValue, call_readOutput_run rfl hMem hValue hBuffer,
      hOutput.rows, hSource.imp (hRequested.inputs _) ?_⟩
    rintro ⟨hNotSupplied, hTouched⟩ col hCol
    obtain ⟨i, c, hLe, hCommand, hTouches⟩ := hTouched col hCol
    exact writtenForward_of_touches hWell hDisciplined hOperands hCommand hLe hTouches
      hNotSupplied
  · rw [forwardCommands, hRun]
    refine ⟨?_, fun a t' hOk => by cases hOk⟩
    intro m misuse t' hErr
    cases hErr
    have hCheck := checkOperands_eq_ok_iff.mp hOperands k c hCommand
    have hOwned := hI.owned hWell hDisciplined hOperands hCommand fun m hTouches hMem =>
      hApart.inputValue_of_touches (Nat.le_of_lt_succ hLt) hTouches hMem
    exact execute_noMisuse hWell k hI.fit hCheck hOwned m misuse t hFails

theorem throughMachine_phasesApart : throughMachine.PhasesApart where
  derivs := by
    rintro i m _ ⟨entry, hEntry, _, hDeriv⟩
    have hNone : ∀ entry ∈ throughProgram.bindings, entry.2.deriv? = none := by decide
    cases (hNone entry hEntry).symm.trans hDeriv
  outputs := by
    intro spec hMem m shape hValue hMatrix
    obtain rfl := List.mem_singleton.mp hMem
    cases hValue
    cases hMatrix
    refine .inr fun col hCol => ⟨1, .copy 2 1, by decide, rfl, ?_⟩
    exact .inr ⟨.dst, 2, .operand rfl, ⟨2, .whole 1 2⟩, rfl, rfl, Nat.zero_le col, hCol⟩

/-- Of a bound input and a bound output, both requested, everything bound is requested. -/
theorem requestsBound_of_through {deriv? : Option Nat} (hNetwork : x.network = throughNetwork)
    (hBindings : x.program.bindings = [(0, ⟨1, none⟩), (1, ⟨2, deriv?⟩)])
    (hInputs : .frames "in" 1 false ∈ x.request.inputs)
    (hOutputs : ∀ m, deriv? = some m → .frames "out" 1 true ∈ x.request.outputs) :
    x.RequestsBound where
  inputs := by
    rintro m ⟨entry, hEntry, hOnSide, rfl⟩
    rw [hBindings] at hEntry
    rw [hNetwork] at hOnSide
    simp only [List.mem_cons, List.not_mem_nil, or_false] at hEntry
    rcases hEntry with rfl | rfl
    · refine ⟨_, hInputs, ?_⟩
      simp only [valueMatrix, boundNode, binding?, hNetwork, hBindings]
      rfl
    · cases hOnSide
  derivs := by
    rintro m ⟨entry, hEntry, hOnSide, hDeriv⟩
    rw [hBindings] at hEntry
    rw [hNetwork] at hOnSide
    simp only [List.mem_cons, List.not_mem_nil, or_false] at hEntry
    rcases hEntry with rfl | rfl
    · cases hOnSide
    · obtain rfl : deriv? = some m := hDeriv
      refine ⟨_, hOutputs m rfl, rfl, ?_⟩
      simp only [derivMatrix, boundNode, binding?, hNetwork, hBindings]
      rfl

/-- The program that copies its input provides its output. -/
theorem throughMachine_provides_output :
    (∃ t, throughMachine.call .forward (throughMachine.callAll
        [.supplyInput "in" (.ofFn 1 2 fun _ _ => 1)] (throughMachine.start none)).2 =
          .ok .done t) ∧
      (∀ m misuse t, throughMachine.call .forward (throughMachine.callAll
          [.supplyInput "in" (.ofFn 1 2 fun _ _ => 1)] (throughMachine.start none)).2 ≠
            .error (.lifecycle m misuse) t) ∧
        ∀ a t, throughMachine.call .forward (throughMachine.callAll
            [.supplyInput "in" (.ofFn 1 2 fun _ _ => 1)] (throughMachine.start none)).2 =
              .ok a t → ∀ spec ∈ throughRequest.outputs, ∃ m out,
                throughMachine.valueMatrix spec.name = .ok m ∧
                  throughMachine.call (.readOutput spec.name) t = .ok (.buffer out) t ∧
                    out.numRows = spec.numRows ∧
                      ((∃ input ∈ throughRequest.inputs,
                          throughMachine.valueMatrix input.name = .ok m) ∨
                        ∀ col, col < out.numCols → throughMachine.WrittenForward m col) := by
  refine ⟨⟨_, rfl⟩, forward_provides_outputs (x := throughMachine) throughProgram_built
    throughProgram_accepted rfl throughMachine_phasesApart
    (requestsBound_of_through rfl rfl (List.mem_singleton_self _) fun _ hNone => by cases hNone)
    [.supplyInput "in" (.ofFn 1 2 fun _ _ => 1)] rfl rfl ?_⟩
  intro spec hMem m hValue
  obtain rfl := List.mem_singleton.mp hMem
  cases hValue
  rfl

/-- The output is allocated and copied after the marker. -/
def lateMachine : Machine :=
  { program := BuildStep.runAll
      [.matrix 1 2, .matrix 1 2, .bind 0 1 none, .bind 1 2 none, .recordedMarker,
        .command (.allocUndefined 2), .command (.copy 2 1), .command (.release 1)]
      .empty
    network := throughNetwork
    request := throughRequest
    forwardEnd := 0
    traces := false
    undefinedContents := fun _ _ _ => 0 }

/-- The derivative of the output is copied to another matrix before the marker. -/
def earlyMachine : Machine :=
  { program := BuildStep.runAll
      [.matrix 1 2, .matrix 1 2, .matrix 1 2, .matrix 1 2, .bind 0 1 none, .bind 1 2 (some 3),
        .command (.allocUndefined 2), .command (.copy 2 1), .command (.allocUndefined 4),
        .command (.copy 4 3), .recordedMarker, .command (.release 1), .command (.release 3),
        .command (.release 4)]
      .empty
    network := throughNetwork
    request := { throughRequest with outputs := [.frames "out" 1 true] }
    forwardEnd := 4
    traces := false
    undefinedContents := fun _ _ _ => 0 }

/-- The check does not keep the phases apart.  It accepts a program that allocates its output
after the marker, and the output cannot be read after the forward call; and it accepts one
that reads the derivative of its output before the marker, and the forward call fails. -/
theorem checked_phases_overlap :
    (lateMachine.program.Built ∧
        lateMachine.program.Accepted throughNetwork throughRequest true ∧
          lateMachine.RequestsBound ∧
            (lateMachine.callAll [.supplyInput "in" (.ofFn 1 2 fun _ _ => 1), .forward,
                .readOutput "out"] (lateMachine.start none)).1 =
              [.ok .done, .ok .done, .error (.lifecycle 2 .readUnallocated)]) ∧
      earlyMachine.program.Built ∧
        earlyMachine.program.Accepted throughNetwork earlyMachine.request true ∧
          earlyMachine.RequestsBound ∧
            (earlyMachine.callAll [.supplyInput "in" (.ofFn 1 2 fun _ _ => 1), .forward]
                (earlyMachine.start none)).1 =
              [.ok .done, .error (.lifecycle 3 .readUnallocated)] := by
  have hLate : lateMachine.RequestsBound :=
    requestsBound_of_through rfl rfl (List.mem_singleton_self _) fun _ hNone => by cases hNone
  have hEarly : earlyMachine.RequestsBound :=
    requestsBound_of_through rfl rfl (List.mem_singleton_self _) fun _ _ =>
      List.mem_singleton_self _
  exact ⟨⟨⟨_, rfl⟩, ⟨_, rfl⟩, hLate, rfl⟩, ⟨_, rfl⟩, ⟨_, rfl⟩, hEarly, rfl⟩

end Machine

end MatrixProgram
