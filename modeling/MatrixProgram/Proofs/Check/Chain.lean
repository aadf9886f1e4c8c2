import MatrixProgram.Proofs.Check.Requests
import MatrixProgram.Proofs.Program.Chain

/-!
# Chains of layers pass the check

Layer `k` stands at position `2 * k + 1`; it reads matrix `k + 1` and writes matrix `k + 2`, all
of both, and no other command touches a column.  Matrix `k + 2` is allocated one position
before, and matrix `k + 1` is released behind the marker.  What the passes ask for follows from
these positions, whatever the number of layers.
-/

namespace MatrixProgram

namespace LayerChain

open Program

variable {ch : LayerChain} {i m col : Nat} {c : Command}

/-! ## What the commands touch -/

/-- A matrix of the program has a column. -/
def HasColumn (ch : LayerChain) (m col : Nat) : Prop :=
  ∃ shape, ch.program.matrix m = .ok shape ∧ col < shape.numCols

theorem le_of_matrix {shape : Shape} (h : ch.program.matrix m = .ok shape) :
    1 ≤ m ∧ m ≤ ch.size + 1 := by
  obtain ⟨k, width, rfl, hWidth, -⟩ := matrix_eq_ok_iff.mp h
  have hLt := (List.getElem?_eq_some_iff.mp hWidth).1
  rw [length_widths] at hLt
  omega

/-- The view of a number sees all columns of the matrix of that number. -/
theorem viewsColumn_iff {s : Nat} :
    ch.program.ViewsColumn s m col ↔ s = m ∧ ch.HasColumn m col := by
  constructor
  · rintro ⟨view, hView, rfl, -, hCol⟩
    obtain ⟨k, width, rfl, hWidth, rfl⟩ := subMatrix_eq_ok_iff.mp hView
    refine ⟨rfl, ⟨ch.rows, width⟩, matrix_eq_ok_iff.mpr ⟨k, width, rfl, hWidth, rfl⟩, ?_⟩
    simpa [Region.colEnd, Region.whole] using hCol
  · rintro ⟨rfl, shape, hMatrix, hCol⟩
    obtain ⟨k, width, rfl, hWidth, rfl⟩ := matrix_eq_ok_iff.mp hMatrix
    refine ⟨_, subMatrix_eq_ok_iff.mpr ⟨k, width, rfl, hWidth, rfl⟩, rfl, Nat.zero_le _, ?_⟩
    simpa [Region.colEnd, Region.whole] using hCol

theorem viewsAllRows {s : Nat} (h : ch.program.ViewsColumn s m col) :
    ch.program.ViewsAllRows s := by
  obtain ⟨view, hView, -⟩ := h
  obtain ⟨k, width, rfl, hWidth, rfl⟩ := subMatrix_eq_ok_iff.mp hView
  exact ⟨_, ⟨ch.rows, width⟩, hView, matrix_eq_ok_iff.mpr ⟨k, width, rfl, hWidth, rfl⟩, rfl, rfl⟩

theorem exists_layer {k : Nat} (h : k < ch.size) : ∃ layer, ch.layers[k]? = some layer :=
  ⟨_, List.getElem?_eq_getElem h⟩

/-- Affine and nonlinear layers are simple, and propagation does not add. -/
theorem capabilities_of_plain {layer : Component} (h : layer ∈ ch.layers) :
    layer.capabilities.simple = true ∧ layer.capabilities.propagateAdds = false := by
  rcases ch.plain layer h with ⟨a, rfl⟩ | ⟨n, rfl⟩ <;> exact ⟨rfl, rfl⟩

/-- Only the propagations name sub-matrices: that of the input and that of the output. -/
theorem names_iff (hAt : ch.CommandAt i c) {slot : Slot} {s : Nat} :
    ch.program.Names c slot s ↔
      ∃ k, c = .propagate k none (k + 1) (k + 2) ∧
        (slot = .input ∧ s = k + 1 ∨ slot = .output ∧ s = k + 2) := by
  constructor
  · intro h
    cases h with
    | operand hOperand =>
        cases hAt with
        | layer => cases slot <;> simp_all [Command.operand?]
        | _ => cases slot <;> cases hOperand
    | pairRow hTable => cases hAt <;> cases hTable
  · rintro ⟨k, rfl, ⟨rfl, rfl⟩ | ⟨rfl, rfl⟩⟩
    · exact .operand rfl
    · exact .operand rfl

theorem accessKind_output {k : Nat} (h : k < ch.size) :
    ch.program.accessKind ch.network (.propagate k none (k + 1) (k + 2))
      (.writeOrReadWriteIf .propagateAdds) = .ok .write := by
  obtain ⟨layer, hLayer⟩ := exists_layer h
  have hAdds := (capabilities_of_plain (List.mem_of_getElem? hLayer)).2
  simp only [accessKind, holds, commandCapabilities, Command.component?, capabilitiesOf,
    ch.component hLayer, Except.map_ok, hAdds]
  rfl

/-- A propagation reads its input and writes its output. -/
theorem accesses_iff (hAt : ch.CommandAt i c) {s : Nat} {kind : AccessKind} :
    ch.program.Accesses ch.network c s kind ↔
      ∃ k, c = .propagate k none (k + 1) (k + 2) ∧
        (s = k + 1 ∧ kind = .read ∨ s = k + 2 ∧ kind = .write) := by
  constructor
  · rintro ⟨slot, rule, hRule, hKind, hNames⟩
    obtain ⟨k, rfl, hSlot⟩ := (names_iff hAt).mp hNames
    refine ⟨k, rfl, ?_⟩
    cases hAt with
    | layer hLt =>
        rcases hSlot with ⟨rfl, rfl⟩ | ⟨rfl, rfl⟩
        · obtain rfl : rule = .always .read := by simpa [Command.opcode, Opcode.rules] using hRule
          cases hKind
          exact .inl ⟨rfl, rfl⟩
        · obtain rfl : rule = .writeOrReadWriteIf .propagateAdds := by
            simpa [Command.opcode, Opcode.rules] using hRule
          cases (accessKind_output hLt).symm.trans hKind
          exact .inr ⟨rfl, rfl⟩
  · rintro ⟨k, rfl, ⟨rfl, rfl⟩ | ⟨rfl, rfl⟩⟩
    · exact ⟨.input, .always .read, by simp [Command.opcode, Opcode.rules], rfl, .operand rfl⟩
    · cases hAt with
      | layer hLt =>
          exact ⟨.output, _, by simp [Command.opcode, Opcode.rules], accessKind_output hLt,
            .operand rfl⟩

theorem touchesColumn_iff (hAt : ch.CommandAt i c) :
    ch.program.TouchesColumn c m col ↔
      ∃ k, c = .propagate k none (k + 1) (k + 2) ∧ (m = k + 1 ∨ m = k + 2) ∧
        ch.HasColumn m col := by
  have hFills : ¬ch.program.FillsColumn c m col := by
    rintro ⟨rfl, -⟩
    cases hAt
  simp only [TouchesColumn, hFills, false_or, names_iff hAt, viewsColumn_iff]
  constructor
  · rintro ⟨_, _, ⟨k, rfl, ⟨rfl, rfl⟩ | ⟨rfl, rfl⟩⟩, rfl, hColumn⟩
    · exact ⟨k, rfl, .inl rfl, hColumn⟩
    · exact ⟨k, rfl, .inr rfl, hColumn⟩
  · rintro ⟨k, rfl, rfl | rfl, hColumn⟩
    · exact ⟨_, _, ⟨k, rfl, .inl ⟨rfl, rfl⟩⟩, rfl, hColumn⟩
    · exact ⟨_, _, ⟨k, rfl, .inr ⟨rfl, rfl⟩⟩, rfl, hColumn⟩

theorem readsColumn_iff (hAt : ch.CommandAt i c) :
    ch.program.ReadsColumn ch.network c m col ↔
      ∃ k, c = .propagate k none (k + 1) (k + 2) ∧ m = k + 1 ∧ ch.HasColumn m col := by
  constructor
  · rintro ⟨s, kind, hAccess, hViews, hReads⟩
    obtain ⟨k, rfl, ⟨rfl, rfl⟩ | ⟨rfl, rfl⟩⟩ := (accesses_iff hAt).mp hAccess
    · obtain ⟨rfl, hColumn⟩ := viewsColumn_iff.mp hViews
      exact ⟨k, rfl, rfl, hColumn⟩
    · -- The output is written as a whole, so nothing of it is read.
      rcases hReads with hOther | hRows
      · exact absurd rfl hOther
      · exact absurd (viewsAllRows hViews) hRows
  · rintro ⟨k, rfl, rfl, hColumn⟩
    exact ⟨_, .read, (accesses_iff hAt).mpr ⟨k, rfl, .inl ⟨rfl, rfl⟩⟩,
      viewsColumn_iff.mpr ⟨rfl, hColumn⟩, .inl (by decide)⟩

theorem writesColumn_iff (hAt : ch.CommandAt i c) :
    ch.program.WritesColumn ch.network c m col ↔
      ∃ k, c = .propagate k none (k + 1) (k + 2) ∧ m = k + 2 ∧ ch.HasColumn m col := by
  have hFills : ¬ch.program.FillsColumn c m col := by
    rintro ⟨rfl, -⟩
    cases hAt
  simp only [WritesColumn, hFills, false_or, accesses_iff hAt, viewsColumn_iff]
  constructor
  · rintro ⟨_, _, ⟨k, rfl, ⟨rfl, rfl⟩ | ⟨rfl, rfl⟩⟩, ⟨rfl, hColumn⟩, hKind⟩
    · exact absurd rfl hKind
    · exact ⟨k, rfl, rfl, hColumn⟩
  · rintro ⟨k, rfl, rfl, hColumn⟩
    exact ⟨_, .write, ⟨k, rfl, .inr ⟨rfl, rfl⟩⟩, ⟨rfl, hColumn⟩, by decide⟩

/-! ## Positions -/

theorem allocatesAt_iff :
    ch.program.AllocatesAt i m ↔ ∃ k, k < ch.size ∧ i = 2 * k ∧ m = k + 2 := by
  constructor
  · rintro ⟨c, hCommand, hAllocated⟩
    cases getElem?_commands_iff.mp hCommand with
    | @alloc k hLt =>
        cases hAllocated
        exact ⟨k, hLt, rfl, rfl⟩
    | _ => cases hAllocated
  · rintro ⟨k, hLt, rfl, rfl⟩
    exact ⟨_, getElem?_commands_iff.mpr (.alloc hLt), rfl⟩

theorem releasesAt_iff :
    ch.program.ReleasesAt i m ↔
      ∃ k, k < ch.size ∧ i = 2 * ch.size + 1 + k ∧ m = k + 1 := by
  constructor
  · rintro ⟨c, hCommand, hReleased⟩
    cases getElem?_commands_iff.mp hCommand with
    | @release k hLt =>
        cases hReleased
        exact ⟨k, hLt, rfl, rfl⟩
    | _ => cases hReleased
  · rintro ⟨k, hLt, rfl, rfl⟩
    exact ⟨_, getElem?_commands_iff.mpr (.release hLt), rfl⟩

/-- A command that is a propagation stands at the position of its layer. -/
theorem layer_position {k : Nat}
    (h : ch.CommandAt i (.propagate k none (k + 1) (k + 2))) : k < ch.size ∧ i = 2 * k + 1 := by
  cases h with
  | layer hLt => exact ⟨hLt, rfl⟩

theorem exists_of_touchesAt (h : ch.program.TouchesAt i m) :
    ∃ k, k < ch.size ∧ i = 2 * k + 1 ∧ (m = k + 1 ∨ m = k + 2) := by
  obtain ⟨c, col, hCommand, hTouches⟩ := h
  have hAt := getElem?_commands_iff.mp hCommand
  obtain ⟨k, rfl, hMatrix, -⟩ := (touchesColumn_iff hAt).mp hTouches
  obtain ⟨hLt, hPosition⟩ := layer_position hAt
  exact ⟨k, hLt, hPosition, hMatrix⟩

/-! ## The bindings -/

theorem not_isInputNode_outputNode (ch : LayerChain) :
    ch.network.isInputNode ch.outputNode = false := by
  have hOutput := ch.outputKind
  simp only [Network.isOutputNode, Network.isInputNode, beq_iff_eq] at hOutput ⊢
  rw [hOutput]
  rfl

theorem mem_bindings_iff {entry : Nat × Binding} :
    entry ∈ ch.program.bindings ↔
      entry = (ch.inputNode, ⟨1, none⟩) ∨ entry = (ch.outputNode, ⟨ch.size + 1, none⟩) := by
  rw [program_eq]
  show entry ∈ ch.bindings ↔ _
  rw [bindings, (perm_insertBinding _ _ _).mem_iff]
  simp [or_comm]

theorem binding?_inputNode (ch : LayerChain) :
    ch.program.binding? ch.inputNode = some ⟨1, none⟩ :=
  ch.program_built.bindsOnce.binding?_of_mem (mem_bindings_iff.mpr (.inl rfl))

theorem binding?_outputNode (ch : LayerChain) :
    ch.program.binding? ch.outputNode = some ⟨ch.size + 1, none⟩ :=
  ch.program_built.bindsOnce.binding?_of_mem (mem_bindings_iff.mpr (.inr rfl))

/-- The caller supplies the first matrix alone. -/
theorem supplied_eq (ch : LayerChain) : ch.program.supplied ch.network = [1] := by
  have hInput := ch.inputKind
  have hOutput := ch.outputKind
  have hNot := ch.not_isInputNode_outputNode
  rw [supplied, program_eq]
  show ch.bindings.flatMap _ = _
  unfold bindings insertBinding
  split <;> simp [insertBinding, suppliedBy, hInput, hOutput, hNot]

/-- The program produces the last matrix alone. -/
theorem produced_eq (ch : LayerChain) : ch.program.produced ch.network = [ch.size + 1] := by
  have hInput := ch.inputKind
  have hOutput := ch.outputKind
  have hNot := ch.not_isInputNode_outputNode
  rw [produced, program_eq]
  show ch.bindings.flatMap _ = _
  unfold bindings insertBinding
  split <;> simp [insertBinding, producedBy, hInput, hOutput, hNot]

/-! ## The passes -/

theorem program_split (ch : LayerChain) : ch.program.SplitAt (2 * ch.size) where
  only := by
    intro i
    rw [getElem?_commands_iff]
    constructor
    · intro h
      cases h
      rfl
    · rintro rfl
      exact .marker
  before := by
    intro i c hCommand _
    cases getElem?_commands_iff.mp hCommand <;> simp [Command.opcode]
  after := by
    intro i c hCommand hBehind
    cases getElem?_commands_iff.mp hCommand with
    | layer hLt => omega
    | _ => simp [Command.opcode]

/-- The first command that touches a column is a propagation.  It is the one that writes the
matrix, unless the matrix is the first one. -/
theorem program_touched {shape : Shape} (hMatrix : ch.program.matrix m = .ok shape)
    (hCol : col < shape.numCols) :
    ∃ i c, ch.program.TouchesFirst i c m col ∧
      (m ∉ ch.program.supplied ch.network →
        ch.program.WritesColumn ch.network c m col ∧
          ¬ch.program.ReadsColumn ch.network c m col) := by
  have hColumn : ch.HasColumn m col := ⟨shape, hMatrix, hCol⟩
  obtain ⟨hLow, hHigh⟩ := le_of_matrix hMatrix
  have hSize := ch.size_pos
  -- Matrix 1 is touched first by layer 0, and matrix `k + 2` by layer `k`.
  obtain ⟨k, hLt, hOperand, hFirst⟩ : ∃ k, k < ch.size ∧ (m = k + 1 ∨ m = k + 2) ∧
      ∀ l, m = l + 1 ∨ m = l + 2 → k ≤ l := by
    by_cases hOne : m = 1
    · exact ⟨0, hSize, .inl hOne, fun l _ => Nat.zero_le l⟩
    · exact ⟨m - 2, by omega, by omega, fun l _ => by omega⟩
  have hAt : ch.CommandAt (2 * k + 1) (.propagate k none (k + 1) (k + 2)) := .layer hLt
  refine ⟨2 * k + 1, _, ⟨getElem?_commands_iff.mpr hAt,
    (touchesColumn_iff hAt).mpr ⟨k, rfl, hOperand, hColumn⟩, ?_⟩, ?_⟩
  · intro j d hBefore hCommand hTouches
    have hAt' := getElem?_commands_iff.mp hCommand
    obtain ⟨l, rfl, hOperand', -⟩ := (touchesColumn_iff hAt').mp hTouches
    have hLe := hFirst l hOperand'
    have hPosition := (layer_position hAt').2
    omega
  · intro hNot
    rw [supplied_eq, List.mem_singleton] at hNot
    have hOutput : m = k + 2 := by
      have hLe := hFirst (m - 2)
      omega
    refine ⟨(writesColumn_iff hAt).mpr ⟨k, rfl, hOutput, hColumn⟩, ?_⟩
    rw [readsColumn_iff hAt]
    rintro ⟨l, hSame, hInput, -⟩
    cases hSame
    omega

/-- A matrix is written by the layer in front of it and read by the layer behind it. -/
theorem program_unchanged {i j : Nat} {c d : Command} (hLt : i < j)
    (hEarlier : ch.program.commands[i]? = some c) (hLater : ch.program.commands[j]? = some d)
    (hReads : ch.program.ReadsColumn ch.network c m col) :
    ¬ch.program.WritesColumn ch.network d m col := by
  intro hWrites
  have hAt := getElem?_commands_iff.mp hEarlier
  have hAt' := getElem?_commands_iff.mp hLater
  obtain ⟨k, rfl, hInput, -⟩ := (readsColumn_iff hAt).mp hReads
  obtain ⟨l, rfl, hOutput, -⟩ := (writesColumn_iff hAt').mp hWrites
  have hPosition := (layer_position hAt).2
  have hPosition' := (layer_position hAt').2
  omega

theorem program_disciplined (ch : LayerChain) (unchangedAfterRead : Bool) :
    ch.program.Disciplined ch.network unchangedAfterRead where
  boundary := by
    intro entry hEntry
    rcases mem_bindings_iff.mp hEntry with rfl | rfl
    · exact .inl ch.inputKind
    · exact .inr ch.outputKind
  suppliedOnce := by
    rw [supplied_eq]
    exact List.nodup_singleton _
  producedOnce := by
    rw [produced_eq]
    exact List.nodup_singleton _
  split := ⟨2 * ch.size, by rw [program_eq], ch.program_split⟩
  notAllocated := by
    intro m hSupplied i hAllocates
    rw [supplied_eq, List.mem_singleton] at hSupplied
    obtain ⟨k, -, -, hMatrix⟩ := allocatesAt_iff.mp hAllocates
    omega
  allocated := by
    intro m shape hMatrix hNot
    rw [supplied_eq, List.mem_singleton] at hNot
    obtain ⟨hLow, hHigh⟩ := le_of_matrix hMatrix
    refine ⟨2 * (m - 2), fun i => ?_, fun i hTouches => ?_⟩
    · rw [allocatesAt_iff]
      constructor
      · rintro ⟨k, -, rfl, rfl⟩
        rfl
      · rintro rfl
        exact ⟨m - 2, by omega, rfl, by omega⟩
    · obtain ⟨k, -, rfl, hOperand⟩ := exists_of_touchesAt hTouches
      omega
  notReleased := by
    intro m hProduced i hReleases
    rw [produced_eq, List.mem_singleton] at hProduced
    obtain ⟨k, hLt, -, hMatrix⟩ := releasesAt_iff.mp hReleases
    omega
  released := by
    intro m shape hMatrix hNot
    rw [produced_eq, List.mem_singleton] at hNot
    obtain ⟨hLow, hHigh⟩ := le_of_matrix hMatrix
    refine ⟨2 * ch.size + 1 + (m - 1), fun i => ?_, fun i hTouches => ?_⟩
    · rw [releasesAt_iff]
      constructor
      · rintro ⟨k, -, rfl, rfl⟩
        rfl
      · rintro rfl
        exact ⟨m - 1, by omega, rfl, by omega⟩
    · obtain ⟨k, hLt, rfl, -⟩ := exists_of_touchesAt hTouches
      omega
  touched := program_touched
  unchanged := fun _ _ _ _ _ _ _ hLt hEarlier hLater hReads _ =>
    program_unchanged hLt hEarlier hLater hReads

/-! ## Operands and request -/

/-- The operands of a layer are as wide as its input and its output. -/
theorem propagateFits {k : Nat} {layer : Component} (hLayer : ch.layers[k]? = some layer) :
    ch.program.PropagateFits ch.network k none (k + 1) (k + 2) layer
      ⟨k + 1, .whole ch.rows layer.inputDim⟩ ⟨k + 2, .whole ch.rows layer.outputDim⟩ where
  layer := ch.component hLayer
  inputView := subMatrix_eq_ok_iff.mpr ⟨k, _, rfl, widths_input hLayer, rfl⟩
  outputView := subMatrix_eq_ok_iff.mpr ⟨k + 1, _, rfl, widths_output hLayer, rfl⟩
  rowsGiven := by
    intro table hTable
    cases hTable
  inputWidth := rfl
  outputWidth := rfl
  rowCount := fun _ => rfl
  inPlace := by
    intro hSame
    omega

theorem program_operands (ch : LayerChain) : ch.program.checkOperands ch.network = .ok () := by
  refine checkOperands_eq_ok_iff.mpr fun i c hCommand => ?_
  have hResize : ∀ m, m ≠ 0 → m < ch.size + 2 → ch.program.checkResize m = .ok () := by
    intro m hZero hLt
    exact demand_eq_ok_iff.mpr ⟨hZero, by rw [numMatrices_eq]; exact hLt⟩
  cases getElem?_commands_iff.mp hCommand with
  | @alloc k hLt => exact hResize (k + 2) (by omega) (by omega)
  | @layer k hLt =>
      obtain ⟨layer, hLayer⟩ := exists_layer hLt
      exact checkPropagate_eq_ok_iff.mpr ⟨_, _, _, propagateFits hLayer⟩
  | marker => rfl
  | @release k hLt => exact hResize (k + 1) (by omega) (by omega)

/-- As many frames are asked for as there are rows. -/
theorem numRows_frames (ch : LayerChain) (name : String) (wantsDeriv : Bool) :
    (IoRequest.frames name ch.rows wantsDeriv).numRows = ch.rows := by
  simp [IoRequest.numRows, IoRequest.frames, IoRequest.frameCount_of_lt ch.rows_lt]

theorem program_request (ch : LayerChain) :
    ch.program.checkRequest ch.network ch.request = .ok () := by
  have hMatrix : ∀ m, m ≠ 0 → m ≤ ch.size + 1 →
      ∃ width, ch.program.matrix m = .ok ⟨ch.rows, width⟩ := by
    intro m hZero hLe
    obtain ⟨shape, hShape⟩ := exists_matrix (p := ch.program) hZero
      (by rw [numMatrices_eq]; omega)
    obtain ⟨_, width, -, -, rfl⟩ := matrix_eq_ok_iff.mp hShape
    exact ⟨width, hShape⟩
  obtain ⟨first, hFirst⟩ := hMatrix 1 (by omega) (by omega)
  obtain ⟨last, hLast⟩ := hMatrix (ch.size + 1) (by omega) (by omega)
  refine Action.check_bind_eq_ok_iff.mpr ⟨(), ?_, Action.check_bind_eq_ok_iff.mpr ⟨(), ?_, ?_⟩⟩
  · refine Action.check_forM_eq_ok_iff.mpr fun entry hEntry => checkBinding_eq_ok_iff.mpr ?_
    rcases mem_bindings_iff.mp hEntry with rfl | rfl <;>
      simp [BindsMatrices, boundMatrices, numMatrices_eq]
  · refine Action.check_forM_eq_ok_iff.mpr fun spec hSpec => ?_
    obtain rfl := List.mem_singleton.mp hSpec
    exact Requested.checkSpec ⟨ch.inputIndex, ch.inputKind, ch.binding?_inputNode, hFirst,
      (ch.numRows_frames _ _).symm⟩ fun hWants => Bool.noConfusion hWants
  · refine Action.check_forM_eq_ok_iff.mpr fun spec hSpec => ?_
    obtain rfl := List.mem_singleton.mp hSpec
    exact Requested.checkSpec ⟨ch.outputIndex, ch.outputKind, ch.binding?_outputNode, hLast,
      (ch.numRows_frames _ _).symm⟩ fun hWants => Bool.noConfusion hWants

/-- A chain of any length passes the check. -/
theorem program_accepted (ch : LayerChain) (unchangedAfterRead : Bool) :
    ch.program.Accepted ch.network ch.request unchangedAfterRead :=
  (ch.program_disciplined unchangedAfterRead).accepted ch.program_built.wellFormed
    ch.program_operands ch.program_request

end LayerChain

end MatrixProgram
