import MatrixProgram.Proofs.Check.Chain
import MatrixProgram.Proofs.Machine.Forward
import MatrixProgram.Proofs.Machine.Supplies

/-!
# Chains of layers compute the composition

In front of layer `k` matrix `k + 1` holds what the layers before it make of the input.  The
two commands of the layer allocate matrix `k + 2` and propagate into it, which gives what the
layer makes of that, whatever the new storage holds.  By induction along the layers the last
matrix holds the composition when the marker is reached: `run_from_layer`.
-/

namespace MatrixProgram

/-! ## Composition of components -/

/-- A change that succeeds and sets all rows of a whole buffer makes the same of every buffer of
a shape. -/
theorem Write.exists_written {rows cols : Nat}
    {w : {rows cols : Nat} → Region → Write rows cols}
    (hSucceeds : Succeeds (w (.whole rows cols) : Write rows cols))
    (hSets : Sets (.whole rows cols) (fun _ => True) (w (.whole rows cols) : Write rows cols)) :
    ∃ value : Buffer, value.shape = ⟨rows, cols⟩ ∧
      ∀ old : Buffer, old.shape = ⟨rows, cols⟩ →
        inWindow (.whole rows cols) w old = .ok () value := by
  obtain ⟨o, f, hMaps, -, hSet⟩ := hSets
  let zeros : Dense rows cols := .ofFn fun _ _ => 0
  obtain rfl : o = .ok () := (hMaps zeros).1.symm.trans (hSucceeds zeros)
  -- The window is all of the storage, so nothing of the old values is left.
  have hSame : ∀ values : Dense rows cols,
      values.mapWindow (.whole rows cols) f = zeros.mapWindow (.whole rows cols) f := by
    intro values
    refine Dense.ext_get fun row col hRow hCol => ?_
    have hIn := Region.contains_whole_iff.mpr ⟨hRow, hCol⟩
    rw [Dense.get_mapWindow hRow hCol, Dense.get_mapWindow hRow hCol, if_pos hIn, if_pos hIn]
    exact hSet rfl _ _ _ _ trivial
  have hRun : ∀ values : Dense rows cols, w (.whole rows cols) values =
      .ok () (zeros.mapWindow (.whole rows cols) f) := by
    intro values
    rw [← hSame values]
    exact hMaps.run values
  refine ⟨⟨rows, cols, zeros.mapWindow (.whole rows cols) f⟩, rfl, ?_⟩
  rintro ⟨_, _, values⟩ hShape
  cases hShape
  rw [inWindow, if_pos (Region.fitsIn_whole _ _), hRun]
  rfl

namespace Component

/-- The output of a component for a buffer, written into a new buffer of given contents. -/
def output (c : Component) (contents : Nat → Nat → Float32) (input : Buffer) :
    Except Error Buffer :=
  let written := Write.inWindow (.whole input.numRows c.outputDim) (c.propagate none (.whole input))
    (.ofFn input.numRows c.outputDim contents)
  (fun _ => Action.finalState written) <$> Action.outcome written

/-- The outputs of components one after the other, each of them the input of the next. -/
def composed (contents : Nat → Nat → Float32) (layers : List Component) (input : Buffer) :
    Except Error Buffer :=
  layers.foldlM (fun value c => c.output contents value) input

theorem composed_cons {contents : Nat → Nat → Float32} {c : Component} {rest : List Component}
    {input value : Buffer} (h : c.output contents input = .ok value) :
    composed contents (c :: rest) input = composed contents rest value := by
  rw [composed, List.foldlM_cons, h]
  rfl

/-- An affine or nonlinear component has an output for every input of its width, and it does
not depend on the storage that it is written to. -/
theorem exists_output {c : Component}
    (hPlain : (∃ a, c = .affine a) ∨ ∃ n, c = .nonlinear n) {input : Buffer}
    (hWidth : input.numCols = c.inputDim) :
    ∃ value : Buffer, value.shape = ⟨input.numRows, c.outputDim⟩ ∧
      (∀ contents, c.output contents input = .ok value) ∧
      ∀ old : Buffer, old.shape = ⟨input.numRows, c.outputDim⟩ →
        Write.inWindow (.whole input.numRows c.outputDim) (c.propagate none (.whole input)) old =
          .ok () value := by
  obtain ⟨hComputes, hAdds, hOther⟩ : c.Computes ∧ c.capabilities.propagateAdds = false ∧
      ∀ r, c ≠ .rowSelect r := by
    rcases hPlain with ⟨a, rfl⟩ | ⟨n, rfl⟩ <;> exact ⟨trivial, rfl, nofun⟩
  have hSucceeds : Write.Succeeds (c.propagate none (.whole input)
      (.whole input.numRows c.outputDim) : Write input.numRows c.outputDim) :=
    propagate_succeeds hComputes hWidth rfl (fun _ => rfl) fun r hEq => absurd hEq (hOther r)
  obtain ⟨value, hShape, hWritten⟩ := Write.exists_written (w := c.propagate none (.whole input))
    hSucceeds ((propagate_sets c none (.whole input)).mono fun _ _ => hAdds)
  refine ⟨value, hShape, fun contents => ?_, hWritten⟩
  rw [output, hWritten _ (Buffer.shape_ofFn _ _ _)]
  rfl

end Component

/-! ## The machine of a chain -/

namespace LayerChain

open Program

variable {ch : LayerChain} {s : MachineState}

/-- The machine of a chain, for any contents of storage that is not filled. -/
def machine (ch : LayerChain) (traces : Bool)
    (undefinedContents : Nat → Nat → Nat → Float32) : Machine :=
  { program := ch.program
    network := ch.network
    request := ch.request
    forwardEnd := 2 * ch.size
    traces
    undefinedContents }

theorem forwardEnd_program (ch : LayerChain) : ch.program.forwardEnd = some (2 * ch.size) := by
  rw [program_eq]

theorem machine_of (ch : LayerChain) (traces : Bool) :
    Machine.of ch.program ch.network ch.request traces =
      .ok (ch.machine traces fun _ _ _ => 0) := by
  have hMarker : ch.CommandAt (2 * ch.size) .marker := .marker
  have hLt := (List.getElem?_eq_some_iff.mp (getElem?_commands_iff.mpr hMarker)).1
  simp [Machine.of, forwardEnd_program, Nat.not_le.mpr hLt, machine]

theorem checkCommand_ok {i : Nat} {c : Command} (h : ch.CommandAt i c) :
    ch.program.checkCommand ch.network c = .ok () :=
  checkOperands_eq_ok_iff.mp ch.program_operands i c (getElem?_commands_iff.mpr h)

/-- What a slot holds has the declared shape. -/
theorem shape_of_buffer? {slots : Slots} {k width : Nat} {b : Buffer}
    (hFit : slots.Fit ch.program) (hWidth : ch.widths[k]? = some width)
    (hBuffer : slots.buffer? (k + 1) = some b) : b.shape = ⟨ch.rows, width⟩ := by
  have hStored := hFit.shape (Slots.shape?_of_buffer? hBuffer)
  have hDeclared := matrix_eq_ok_iff.mpr ⟨k, width, rfl, hWidth, rfl⟩
  exact Option.some.inj (hStored.symm.trans (Program.matrix_eq_ok_iff.mp hDeclared).2)

theorem fit_put {slots : Slots} {k width : Nat} {b : Buffer} (hFit : slots.Fit ch.program)
    (hWidth : ch.widths[k]? = some width) (hShape : b.shape = ⟨ch.rows, width⟩) :
    (slots.put (k + 1) (some b)).Fit ch.program := by
  refine hFit.put fun found hSome => ?_
  cases hSome
  rw [hShape]
  exact (Program.matrix_eq_ok_iff.mp (matrix_eq_ok_iff.mpr ⟨k, width, rfl, hWidth, rfl⟩)).2

/-- All of a matrix is viewed in its slot. -/
theorem view?_of_buffer? {slots : Slots} {k width : Nat} {b : Buffer}
    (hFit : slots.Fit ch.program) (hWidth : ch.widths[k]? = some width)
    (hBuffer : slots.buffer? (k + 1) = some b) :
    slots.view? ch.program (k + 1) = .ok (some (.whole b)) := by
  have hView := subMatrix_eq_ok_iff.mpr ⟨k, width, rfl, hWidth, rfl⟩
  have hWhole : View.of b (.whole ch.rows width) = .ok (.whole b) := by
    have hShape := shape_of_buffer? hFit hWidth hBuffer
    simp only [Buffer.shape, Shape.mk.injEq] at hShape
    simp [View.of, View.whole, ← hShape.1, ← hShape.2]
  simp [Slots.view?, noSubMatrix, hView, Slots.read, hBuffer, hWhole, pure, Except.pure]

/-! ## The run of a chain -/

section Run

variable (traces : Bool) (undefinedContents : Nat → Nat → Nat → Float32) {k : Nat}
  {layer : Component} {input : Buffer} (hLayer : ch.layers[k]? = some layer)
  (hFit : s.slots.Fit ch.program) (hInput : s.slots.buffer? (k + 1) = some input)

include hLayer hFit hInput

/-- The first command of a layer gives its output some storage. -/
theorem alloc_run :
    ∃ t old, (ch.machine traces undefinedContents).execute (2 * k) (.allocUndefined (k + 2)) s =
        .ok () t ∧
      t.slots.Fit ch.program ∧ t.slots.buffer? (k + 1) = some input ∧
        t.slots.buffer? (k + 2) = some old := by
  have hLt : k < ch.size := (List.getElem?_eq_some_iff.mp hLayer).1
  have hWidth := widths_output hLayer
  have hMatrix : (ch.machine traces undefinedContents).program.matrix (k + 2) =
      .ok ⟨ch.rows, layer.outputDim⟩ :=
    matrix_eq_ok_iff.mpr ⟨k + 1, _, rfl, hWidth, rfl⟩
  obtain ⟨journal, hRun⟩ := Machine.execute_resize (2 * k) (.undefined hMatrix)
    (checkCommand_ok (.alloc hLt)) hFit
  have hBelow : k + 2 < s.slots.entries.length := by
    rw [hFit.length, numMatrices_eq]
    omega
  refine ⟨_, _, hRun, fit_put hFit hWidth (Buffer.shape_ofFn _ _ _), ?_,
    Slots.buffer?_put_self hBelow⟩
  rw [Slots.buffer?_put, if_neg (by omega)]
  exact hInput

/-- The second one makes the output of the input, whatever that storage holds. -/
theorem propagate_run {old : Buffer} (hOld : s.slots.buffer? (k + 2) = some old) :
    ∃ t value, (ch.machine traces undefinedContents).execute (2 * k + 1)
        (.propagate k none (k + 1) (k + 2)) s = .ok () t ∧
      t.slots.Fit ch.program ∧ t.slots.buffer? (k + 2) = some value ∧
        ∀ contents, layer.output contents input = .ok value := by
  have hShapeIn := shape_of_buffer? hFit (widths_input hLayer) hInput
  have hShapeOld := shape_of_buffer? hFit (widths_output hLayer) hOld
  have hRows : input.numRows = ch.rows := congrArg Shape.numRows hShapeIn
  obtain ⟨value, hShape, hOutput, hWritten⟩ := Component.exists_output
    (ch.plain layer (List.mem_of_getElem? hLayer)) (congrArg Shape.numCols hShapeIn)
  rw [hRows] at hShape hWritten
  have hFits := propagateFits hLayer
  have hView := view?_of_buffer? hFit (widths_input hLayer) hInput
  have hPerform : (ch.machine traces undefinedContents).perform (2 * k + 1)
      (.propagate k none (k + 1) (k + 2)) s =
        .ok () { s with slots := s.slots.put (k + 2) (some value) } := by
    simp only [Machine.perform, Machine.propagate, Machine.precomputedRows, machine, hFits.layer,
      Action.ofExcept_ok_bind, Machine.writeFrom_eq, Machine.write, hFits.outputView,
      Slots.getElem?_of_buffer? hOld, hView, Machine.required, hWritten old hShapeOld,
      Action.mapState]
  have hFitAfter := fit_put hFit (widths_output hLayer) hShape
  have hStored := Slots.buffer?_put_self (b := some value) (Slots.lt_length_of_buffer? hOld)
  obtain ⟨journal, hRun⟩ := Machine.execute_run_of_perform hPerform
  exact ⟨_, value, hRun, hFitAfter, hStored, hOutput⟩

end Run

/-- From the allocation of the output of some layer on, the forward commands leave in the last
matrix what the remaining layers make of the value in front of them. -/
theorem run_from_layer (traces : Bool) (undefinedContents : Nat → Nat → Nat → Float32)
    {rest : List Component} {k : Nat} {segment : List (Command × Nat)} {input : Buffer}
    (hRest : ch.layers.drop k = rest) (hLe : k ≤ ch.size)
    (hSegment : ch.program.Segment (2 * k) segment (2 * ch.size + 1))
    (hFit : s.slots.Fit ch.program) (hInput : s.slots.buffer? (k + 1) = some input) :
    ∃ t value, (ch.machine traces undefinedContents).executeAll segment s = .ok () t ∧
      t.slots.buffer? (ch.size + 1) = some value ∧
        ∀ contents, Component.composed contents rest input = .ok value := by
  -- By induction along the layers that remain.
  induction rest generalizing k s segment input with
  | nil =>
      obtain rfl : k = ch.size := Nat.le_antisymm hLe (List.drop_eq_nil_iff.mp hRest)
      obtain ⟨behind, rfl, hEnd⟩ := hSegment.uncons (Nat.lt_succ_self _)
        (getElem?_commands_iff.mpr .marker)
      obtain rfl := hEnd.eq_nil
      have hMarker : (ch.machine traces undefinedContents).perform (2 * ch.size) .marker s =
        .ok () s := rfl
      obtain ⟨journal, hRun⟩ := Machine.execute_run_of_perform hMarker
      refine ⟨{ s with journal }, input, ?_, hInput, fun _ => rfl⟩
      rw [Machine.executeAll_cons_run, hRun]
      rfl
  | cons layer rest ih =>
      have hLayer : ch.layers[k]? = some layer := by
        rw [← List.head?_drop, hRest, List.head?_cons]
      have hBehind : ch.layers.drop (k + 1) = rest := by
        rw [← List.tail_drop, hRest, List.tail_cons]
      have hLt : k < ch.size := (List.getElem?_eq_some_iff.mp hLayer).1
      obtain ⟨_, rfl, hFromLayer⟩ := hSegment.uncons (by omega)
        (getElem?_commands_iff.mpr (.alloc hLt))
      obtain ⟨behind, rfl, hFromNext⟩ := hFromLayer.uncons (by omega)
        (getElem?_commands_iff.mpr (.layer hLt))
      obtain ⟨u, old, hAlloc, hFit', hInput', hOld⟩ :=
        alloc_run traces undefinedContents hLayer hFit hInput
      obtain ⟨v, value, hPropagate, hFit'', hValue, hOutput⟩ :=
        propagate_run traces undefinedContents hLayer hFit' hInput' hOld
      obtain ⟨t, last, hRun, hLast, hComposed⟩ := ih hBehind hLt hFromNext hFit'' hValue
      refine ⟨t, last, ?_, hLast, fun contents => ?_⟩
      · rw [Machine.executeAll_cons_run, hAlloc]
        dsimp only
        rw [Machine.executeAll_cons_run, hPropagate]
        exact hRun
      · rw [Component.composed_cons (hOutput contents)]
        exact hComposed contents

/-! ## The calls -/

/-- Supplying the input fills the first matrix. -/
theorem call_supplyInput_run {first : Component} {b : Buffer} (traces : Bool)
    (undefinedContents : Nat → Nat → Nat → Float32) (hFirst : ch.layers.head? = some first)
    (hShape : b.shape = ⟨ch.rows, first.inputDim⟩) (hPhase : s.phase = .created)
    (hFit : s.slots.Fit ch.program) :
    (ch.machine traces undefinedContents).call (.supplyInput ch.input b) s =
        .ok .done { s with slots := s.slots.put 1 (some b) } ∧
      (s.slots.put 1 (some b)).Fit ch.program ∧ (s.slots.put 1 (some b)).buffer? 1 = some b := by
  have hWidth : ch.widths[0]? = some first.inputDim := by
    rw [widths_eq_cons hFirst, List.getElem?_cons_zero]
  have hMatrix : ch.program.matrix 1 = .ok b.shape :=
    matrix_eq_ok_iff.mpr ⟨0, _, rfl, hWidth, hShape⟩
  have hBelow : 1 < s.slots.entries.length := by
    rw [hFit.length, numMatrices_eq]
    omega
  have hAsked : ch.request.input? ch.input = some (.frames ch.input ch.rows false) := by
    simp [Request.input?, request, IoRequest.frames]
  have hValue : (ch.machine traces undefinedContents).valueMatrix ch.input = .ok 1 :=
    Machine.valueMatrix_eq_ok_iff.mpr ⟨_, Machine.boundNode_eq_ok_iff.mpr
      ⟨ch.inputNode, ch.inputIndex, ch.binding?_inputNode⟩, rfl⟩
  have hRows : b.numRows = (IoRequest.frames ch.input ch.rows false).numRows := by
    rw [numRows_frames]
    exact congrArg Shape.numRows hShape
  exact ⟨Machine.call_supplyInput_eq_ok_iff.mpr
      ⟨hPhase, _, hAsked, 1, hValue, hMatrix, hRows, hBelow, rfl⟩,
    fit_put hFit hWidth hShape, Slots.buffer?_put_self hBelow⟩

/-- A forward call leaves in the last matrix what the layers make of the first one. -/
theorem call_forward_run {input : Buffer} (traces : Bool)
    (undefinedContents : Nat → Nat → Nat → Float32) (hPhase : s.phase = .created)
    (hFit : s.slots.Fit ch.program) (hInput : s.slots.buffer? 1 = some input) :
    ∃ t value, (ch.machine traces undefinedContents).call .forward s = .ok .done t ∧
      t.phase = .forwardDone ∧ t.slots.buffer? (ch.size + 1) = some value ∧
        ∀ contents, Component.composed contents ch.layers input = .ok value := by
  have hInputs : ∀ m, ch.program.InputValue ch.network m → s.slots.occupied m = true := by
    rintro m ⟨entry, hEntry, hKind, rfl⟩
    rcases mem_bindings_iff.mp hEntry with rfl | rfl
    · simp [Slots.occupied, hInput]
    · rw [not_isInputNode_outputNode] at hKind
      cases hKind
  have hLt : 2 * ch.size < ch.program.commands.length :=
    (List.getElem?_eq_some_iff.mp (getElem?_commands_iff.mpr .marker)).1
  obtain ⟨t, value, hRun, hValue, hComposed⟩ := run_from_layer traces undefinedContents
    (k := 0) rfl (Nat.zero_le _) (segment_take hLt) hFit hInput
  refine ⟨{ t with phase := .forwardDone }, value, ?_, rfl, hValue, hComposed⟩
  rw [Machine.call_forward_run (x := ch.machine traces undefinedContents)
    (ch.program_accepted true) hPhase hInputs]
  have hForward : (ch.machine traces undefinedContents).forwardCommands =
      ch.program.commands.zipIdx.take (2 * ch.size + 1) := rfl
  rw [hForward, hRun]

/-- The program of a chain of affine and nonlinear layers of any length passes the check, and
its machine answers what the layers make of the input one after the other: each output is
that of its layer for the output before it, on storage of any contents. -/
theorem chain_computes_composition (ch : LayerChain) :
    ch.program.Accepted ch.network ch.request true ∧
      (∀ traces, Machine.of ch.program ch.network ch.request traces =
        .ok (ch.machine traces fun _ _ _ => 0)) ∧
      ∀ (traces : Bool) (undefinedContents : Nat → Nat → Nat → Float32)
        (target : Option Network) (first : Component) (b : Buffer),
        ch.layers.head? = some first → b.shape = ⟨ch.rows, first.inputDim⟩ →
          ∃ value, (∀ contents, Component.composed contents ch.layers b = .ok value) ∧
            ((ch.machine traces undefinedContents).callAll
                [.supplyInput ch.input b, .forward, .readOutput ch.output]
                ((ch.machine traces undefinedContents).start target)).1 =
              [.ok .done, .ok .done, .ok (.buffer value)] := by
  refine ⟨ch.program_accepted true, ch.machine_of, ?_⟩
  intro traces undefinedContents target first b hFirst hShape
  let x := ch.machine traces undefinedContents
  have hStart : (x.start target).slots.Fit ch.program :=
    (Machine.Reachable.start.kept (x := x) ch.program_built.wellFormed).fit
  obtain ⟨hSupply, hFit, hInput⟩ :=
    call_supplyInput_run traces undefinedContents hFirst hShape rfl hStart
  obtain ⟨t, value, hForward, hPhase, hValue, hComposed⟩ :=
    call_forward_run (s := { x.start target with slots := (x.start target).slots.put 1 (some b) })
      traces undefinedContents rfl hFit hInput
  have hMatrix : x.valueMatrix ch.output = .ok (ch.size + 1) :=
    Machine.valueMatrix_eq_ok_iff.mpr ⟨_, Machine.boundNode_eq_ok_iff.mpr
      ⟨ch.outputNode, ch.outputIndex, ch.binding?_outputNode⟩, rfl⟩
  have hAsked : IoRequest.frames ch.output ch.rows false ∈ x.request.outputs :=
    List.mem_cons_self
  have hRead := Machine.call_readOutput_run hPhase hAsked hMatrix hValue
  refine ⟨value, hComposed, ?_⟩
  rw [Machine.callAll_cons_ok hSupply, Machine.callAll_cons_ok hForward,
    Machine.callAll_cons_ok (c := .readOutput ch.output) hRead]
  rfl

/-- An affine layer that adds two columns, and a rectifier behind it. -/
def sumLayers : List Component :=
  [.affine ⟨2, 1, .ofFn fun _ _ => 1, .ofFn fun _ _ => 0, 0⟩, .nonlinear (.fresh .relu 1)]

/-- Two rows pass through these layers. -/
def sumChain : LayerChain :=
  ofLayers sumLayers 2 nofun (by simp [sumLayers])
    (by
      intro k c d hFirst hSecond
      match k with
      | 0 =>
          cases hFirst
          cases hSecond
          rfl
      | k + 1 => cases hSecond)
    (by simp [sumLayers, Component.inputDim, Component.outputDim, Nonlinear.fresh])
    (by decide) (by decide)

/-- Rows `1, 2` and `-1, -2` go in. -/
def sumInput : Buffer :=
  .ofFn 2 2 fun row col => if row = 0 then Float32.ofNat (col + 1) else -Float32.ofNat (col + 1)

/-- The rectified sums of the rows come out, 3 and 0, whatever new storage holds. -/
theorem sumChain_computes :
    ∃ value : Buffer, value.get 0 0 = 3 ∧ value.get 1 0 = 0 ∧
      ∀ undefinedContents, ((sumChain.machine true undefinedContents).callAll
          [.supplyInput "in" sumInput, .forward, .readOutput "out"]
          ((sumChain.machine true undefinedContents).start none)).1 =
        [.ok .done, .ok .done, .ok (.buffer value)] := by
  have hHead : sumChain.layers.head? =
    some (.affine ⟨2, 1, .ofFn fun _ _ => 1, .ofFn fun _ _ => 0, 0⟩) := rfl
  have hShape : sumInput.shape = ⟨2, 2⟩ := rfl
  have hRun := fun undefinedContents =>
    (chain_computes_composition sumChain).2.2 true undefinedContents none _ sumInput hHead hShape
  have hGet : (Component.composed (fun _ _ => 0) sumChain.layers sumInput).toOption.map
      (fun value => (value.get 0 0, value.get 1 0)) = some (3, 0) := by
    decide +kernel
  obtain ⟨value, hComposed, -⟩ := hRun fun _ _ _ => 0
  rw [hComposed] at hGet
  obtain ⟨hFirst, hSecond⟩ := Prod.mk.inj (Option.some.inj hGet)
  refine ⟨value, hFirst, hSecond, fun undefinedContents => ?_⟩
  obtain ⟨value', hComposed', hAnswers⟩ := hRun undefinedContents
  cases (hComposed' fun _ _ => 0).symm.trans (hComposed _)
  exact hAnswers

end LayerChain

end MatrixProgram
