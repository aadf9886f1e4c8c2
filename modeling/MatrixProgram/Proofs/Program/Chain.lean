import MatrixProgram.Network
import MatrixProgram.Proofs.Program.WellFormed
import MatrixProgram.Request

/-!
# Chains of layers

The forward program of a network whose layers stand one behind the other: for each layer the
matrix of its output is allocated and the layer is propagated into it, and behind the marker
all matrices but the last one are released.  The builder makes this program from a list of
steps; here it is given in closed form, so that a lookup of a matrix, a view or a command is
one lemma each.
-/

namespace MatrixProgram

/-! ## Runs of the builder -/

namespace BuildStep

theorem runAll_append (steps more : List BuildStep) (p : Program) :
    runAll (steps ++ more) p = runAll more (runAll steps p) :=
  List.foldl_append

theorem runAll_cons (step : BuildStep) (rest : List BuildStep) (p : Program) :
    runAll (step :: rest) p = runAll rest (Action.finalState (step.run p)) :=
  rfl

/-- Commands are appended as they come. -/
theorem runAll_commands (cs : List Command) (p : Program) :
    runAll (cs.map .command) p = { p with commands := p.commands ++ cs } := by
  induction cs generalizing p with
  | nil => simp [runAll]
  | cons c rest ih =>
      have hStep : Action.finalState ((BuildStep.command c).run p) =
          { p with commands := p.commands ++ [c] } := rfl
      rw [List.map_cons, runAll_cons, hStep, ih]
      simp

/-- Matrices of equally many rows are appended, each with the view of all of it. -/
theorem runAll_matrices {rows : Nat} {widths : List Nat} (hRows : 0 < rows)
    (hWidths : ∀ width ∈ widths, 0 < width) (p : Program) :
    runAll (widths.map (.matrix rows)) p =
      { p with
        matrices := p.matrices ++ widths.map (⟨rows, ·⟩)
        subMatrices := p.subMatrices ++
          (widths.zipIdx p.numMatrices).map fun (width, m) => ⟨m, .whole rows width⟩ } := by
  induction widths generalizing p with
  | nil => simp [runAll]
  | cons width rest ih =>
      have hStep : Action.finalState ((BuildStep.matrix rows width).run p) =
          { p with
            matrices := p.matrices ++ [⟨rows, width⟩]
            subMatrices := p.subMatrices ++ [⟨p.numMatrices, .whole rows width⟩] } := by
        have hPositive : ¬(rows = 0 ∨ width = 0) := by
          have hWidth := hWidths width List.mem_cons_self
          omega
        simp [run, Program.addMatrix, hPositive, Action.bind_run, Action.map_run,
          Action.finalState]
      rw [List.map_cons, runAll_cons, hStep,
        ih fun other hMem => hWidths other (List.mem_cons_of_mem _ hMem)]
      simp [Program.numMatrices]

end BuildStep

/-! ## The program of a chain -/

/-- Affine and nonlinear layers that fit behind each other, in a network with an input node and
an output node, and the number of rows that pass through them. -/
structure LayerChain where
  layers : List Component
  rows : Nat
  network : Network
  input : String
  output : String
  inputNode : Nat
  outputNode : Nat
  nonempty : layers ≠ []
  plain : ∀ c ∈ layers, (∃ a, c = .affine a) ∨ ∃ n, c = .nonlinear n
  joined : ∀ {k c d}, layers[k]? = some c → layers[k + 1]? = some d → c.outputDim = d.inputDim
  positive : ∀ c ∈ layers, 0 < c.inputDim ∧ 0 < c.outputDim
  rows_pos : 0 < rows
  rows_lt : rows < 2147483648
  component : ∀ {k c}, layers[k]? = some c → network.component k = .ok c
  inputIndex : network.nodeIndex input = some inputNode
  outputIndex : network.nodeIndex output = some outputNode
  inputKind : network.isInputNode inputNode = true
  outputKind : network.isOutputNode outputNode = true

namespace LayerChain

/-- Layers that fit behind each other form a chain, in a network of their own. -/
def ofLayers (layers : List Component) (rows : Nat) (nonempty : layers ≠ [])
    (plain : ∀ c ∈ layers, (∃ a, c = .affine a) ∨ ∃ n, c = .nonlinear n)
    (joined : ∀ {k c d}, layers[k]? = some c → layers[k + 1]? = some d →
      c.outputDim = d.inputDim)
    (positive : ∀ c ∈ layers, 0 < c.inputDim ∧ 0 < c.outputDim) (rows_pos : 0 < rows)
    (rows_lt : rows < 2147483648) : LayerChain where
  layers
  rows
  network :=
    { components := layers.zipIdx.map fun (c, k) => (toString k, c)
      nodes := [⟨"in", .input⟩, ⟨"out", .output⟩] }
  input := "in"
  output := "out"
  inputNode := 0
  outputNode := 1
  nonempty
  plain
  joined
  positive
  rows_pos
  rows_lt
  component := by
    intro k c hLayer
    simp [Network.component, List.getElem?_zipIdx, hLayer]
  inputIndex := rfl
  outputIndex := rfl
  inputKind := rfl
  outputKind := rfl

/-- The number of layers. -/
def size (ch : LayerChain) : Nat :=
  ch.layers.length

/-- The widths of the values between the layers: that of the input of the first one, then
those of all outputs. -/
def widths (ch : LayerChain) : List Nat :=
  (ch.layers.head?.map Component.inputDim).toList ++ ch.layers.map Component.outputDim

/-- For each layer its output is allocated, and the layer is propagated. -/
def forwardCommands (count : Nat) : List Command :=
  (List.range count).flatMap fun k =>
    [.allocUndefined (k + 2), .propagate k none (k + 1) (k + 2)]

/-- The input of every layer is released. -/
def releases (count : Nat) : List Command :=
  (List.range count).map fun k => .release (k + 1)

/-- The steps that build the program: matrix `k + 1` is the input of layer `k`, and matrix
`k + 2` its output. -/
def steps (ch : LayerChain) : List BuildStep :=
  ch.widths.map (.matrix ch.rows) ++
    [.bind ch.inputNode 1 none, .bind ch.outputNode (ch.size + 1) none] ++
      (forwardCommands ch.size).map .command ++ [.recordedMarker] ++
        (releases ch.size).map .command

/-- The forward program of a chain. -/
def program (ch : LayerChain) : Program :=
  BuildStep.runAll ch.steps .empty

/-- As many frames go in as come out, and no derivative is asked for. -/
def request (ch : LayerChain) : Request :=
  { inputs := [.frames ch.input ch.rows false]
    outputs := [.frames ch.output ch.rows false]
    wantsModelDeriv := false
    wantsStats := false }

variable {ch : LayerChain}

theorem program_built (ch : LayerChain) : ch.program.Built :=
  ⟨ch.steps, rfl⟩

theorem size_pos (ch : LayerChain) : 0 < ch.size :=
  List.length_pos_iff.mpr ch.nonempty

/-! ## Widths -/

theorem widths_eq_cons {first : Component} (hFirst : ch.layers.head? = some first) :
    ch.widths = first.inputDim :: ch.layers.map Component.outputDim := by
  simp [widths, hFirst]

theorem exists_first (ch : LayerChain) : ∃ first, ch.layers.head? = some first :=
  ⟨_, List.head?_eq_some_head ch.nonempty⟩

theorem length_widths (ch : LayerChain) : ch.widths.length = ch.size + 1 := by
  obtain ⟨first, hFirst⟩ := ch.exists_first
  simp [widths_eq_cons hFirst, size]

/-- The value behind a layer is as wide as its output. -/
theorem widths_output {k : Nat} {c : Component} (h : ch.layers[k]? = some c) :
    ch.widths[k + 1]? = some c.outputDim := by
  obtain ⟨first, hFirst⟩ := ch.exists_first
  simp [widths_eq_cons hFirst, h]

/-- The value in front of a layer is as wide as its input: the first one by definition, the
others because the layers fit behind each other. -/
theorem widths_input {k : Nat} {c : Component} (h : ch.layers[k]? = some c) :
    ch.widths[k]? = some c.inputDim := by
  cases k with
  | zero =>
      have hFirst : ch.layers.head? = some c := by rw [List.head?_eq_getElem?, h]
      simp [widths_eq_cons hFirst]
  | succ k =>
      have hLt : k < ch.layers.length := by
        have hNext := (List.getElem?_eq_some_iff.mp h).1
        omega
      have hBefore := List.getElem?_eq_getElem hLt
      rw [widths_output hBefore, ch.joined hBefore h]

theorem widths_pos {width : Nat} (h : width ∈ ch.widths) : 0 < width := by
  obtain ⟨first, hFirst⟩ := ch.exists_first
  rw [widths_eq_cons hFirst, List.mem_cons, List.mem_map] at h
  rcases h with rfl | ⟨c, hMem, rfl⟩
  · exact (ch.positive first (List.mem_of_mem_head? hFirst)).1
  · exact (ch.positive c hMem).2

/-! ## The program in closed form -/

theorem inputNode_ne_outputNode (ch : LayerChain) : ch.inputNode ≠ ch.outputNode := by
  intro hEq
  have hInput := ch.inputKind
  have hOutput := ch.outputKind
  rw [hEq, Network.isInputNode, beq_iff_eq] at hInput
  rw [Network.isOutputNode, hInput] at hOutput
  cases hOutput

/-- The bindings of the two nodes, in the order of the nodes. -/
def bindings (ch : LayerChain) : List (Nat × Binding) :=
  Program.insertBinding ch.outputNode ⟨ch.size + 1, none⟩ [(ch.inputNode, ⟨1, none⟩)]

theorem forwardCommands_succ (count : Nat) :
    forwardCommands (count + 1) = forwardCommands count ++
      [.allocUndefined (count + 2), .propagate count none (count + 1) (count + 2)] := by
  simp [forwardCommands, List.range_succ]

theorem length_forwardCommands (count : Nat) : (forwardCommands count).length = 2 * count := by
  induction count with
  | zero => rfl
  | succ count ih =>
      rw [forwardCommands_succ, List.length_append, ih]
      rfl

theorem program_eq (ch : LayerChain) :
    ch.program =
      { Program.empty with
        matrices := ⟨0, 0⟩ :: ch.widths.map (⟨ch.rows, ·⟩)
        subMatrices := ⟨0, .empty⟩ ::
          (ch.widths.zipIdx 1).map fun (width, m) => ⟨m, .whole ch.rows width⟩
        bindings := ch.bindings
        commands := forwardCommands ch.size ++ .marker :: releases ch.size
        forwardEnd := some (2 * ch.size) } := by
  have hBind : ∀ p : Program, p.bindings = [] →
      BuildStep.runAll [.bind ch.inputNode 1 none, .bind ch.outputNode (ch.size + 1) none] p =
        { p with bindings := ch.bindings } := by
    intro p hNone
    have hOther : ¬ch.inputNode = ch.outputNode := ch.inputNode_ne_outputNode
    simp [BuildStep.runAll, BuildStep.run, Program.bind, Program.binding?, hNone, hOther, bindings,
      Program.insertBinding, Action.bind_run, Action.map_run, Action.finalState]
  have hMarker : ∀ p : Program, BuildStep.runAll [.recordedMarker] p =
      { p with commands := p.commands ++ [.marker], forwardEnd := some p.commands.length } :=
    fun p => rfl
  simp only [program, steps, BuildStep.runAll_append]
  rw [BuildStep.runAll_matrices ch.rows_pos fun _ hMem => widths_pos hMem, hBind _ rfl,
    BuildStep.runAll_commands, hMarker, BuildStep.runAll_commands]
  simp [Program.empty, Program.numMatrices, length_forwardCommands]

/-! ## Lookups -/

theorem matrix_eq_ok_iff {m : Nat} {shape : Shape} :
    ch.program.matrix m = .ok shape ↔
      ∃ k width, m = k + 1 ∧ ch.widths[k]? = some width ∧ shape = ⟨ch.rows, width⟩ := by
  rw [Program.matrix_eq_ok_iff, program_eq]
  cases m with
  | zero => simp
  | succ k =>
      simp only [Nat.add_right_cancel_iff, List.getElem?_cons_succ, List.getElem?_map,
        Option.map_eq_some_iff]
      constructor
      · rintro ⟨-, width, hWidth, rfl⟩
        exact ⟨k, width, rfl, hWidth, rfl⟩
      · rintro ⟨_, width, rfl, hWidth, rfl⟩
        exact ⟨Nat.succ_ne_zero _, width, hWidth, rfl⟩

theorem subMatrix_eq_ok_iff {s : Nat} {view : SubMatrix} :
    ch.program.subMatrix s = .ok view ↔
      ∃ k width, s = k + 1 ∧ ch.widths[k]? = some width ∧
        view = ⟨k + 1, .whole ch.rows width⟩ := by
  rw [Program.subMatrix_eq_ok_iff, program_eq]
  cases s with
  | zero => simp [noSubMatrix]
  | succ k =>
      simp only [Nat.add_right_cancel_iff, List.getElem?_cons_succ, List.getElem?_map,
        List.getElem?_zipIdx, Option.map_map, Option.map_eq_some_iff, Function.comp_apply]
      constructor
      · rintro ⟨-, width, hWidth, rfl⟩
        exact ⟨k, width, rfl, hWidth, by rw [Nat.add_comm]⟩
      · rintro ⟨_, width, rfl, hWidth, rfl⟩
        exact ⟨Nat.succ_ne_zero _, width, hWidth, by rw [Nat.add_comm]⟩

theorem numMatrices_eq (ch : LayerChain) : ch.program.numMatrices = ch.size + 2 := by
  simp [Program.numMatrices, program_eq, length_widths]

/-- The command that stands at a position. -/
inductive CommandAt (ch : LayerChain) : Nat → Command → Prop
  | alloc {k : Nat} (h : k < ch.size) : CommandAt ch (2 * k) (.allocUndefined (k + 2))
  | layer {k : Nat} (h : k < ch.size) :
      CommandAt ch (2 * k + 1) (.propagate k none (k + 1) (k + 2))
  | marker : CommandAt ch (2 * ch.size) .marker
  | release {k : Nat} (h : k < ch.size) : CommandAt ch (2 * ch.size + 1 + k) (.release (k + 1))

theorem getElem?_forwardCommands {count i : Nat} {c : Command} :
    (forwardCommands count)[i]? = some c ↔
      ∃ k, k < count ∧ (i = 2 * k ∧ c = .allocUndefined (k + 2) ∨
        i = 2 * k + 1 ∧ c = .propagate k none (k + 1) (k + 2)) := by
  induction count with
  | zero => simp [forwardCommands]
  | succ count ih =>
      rw [forwardCommands_succ, List.getElem?_append, length_forwardCommands]
      split
      · rename_i hBefore
        rw [ih]
        refine exists_congr fun k => and_congr_left fun hAt => ?_
        omega
      · rename_i hBehind
        constructor
        · intro h
          -- The last two commands are those of the last layer.
          obtain hFirst | hSecond | hPast : i = 2 * count ∨ i = 2 * count + 1 ∨
              2 ≤ i - 2 * count := by omega
          · subst hFirst
            rw [Nat.sub_self] at h
            cases h
            exact ⟨count, Nat.lt_succ_self count, .inl ⟨rfl, rfl⟩⟩
          · subst hSecond
            rw [Nat.add_sub_cancel_left] at h
            cases h
            exact ⟨count, Nat.lt_succ_self count, .inr ⟨rfl, rfl⟩⟩
          · rw [List.getElem?_eq_none hPast] at h
            cases h
        · rintro ⟨k, hLt, ⟨rfl, rfl⟩ | ⟨rfl, rfl⟩⟩
          · obtain rfl : k = count := by omega
            rw [Nat.sub_self]
            rfl
          · obtain rfl : k = count := by omega
            rw [Nat.add_sub_cancel_left]
            rfl

theorem getElem?_commands_iff {i : Nat} {c : Command} :
    ch.program.commands[i]? = some c ↔ ch.CommandAt i c := by
  rw [program_eq, List.getElem?_append, length_forwardCommands]
  constructor
  · intro h
    split at h
    · obtain ⟨k, hLt, ⟨rfl, rfl⟩ | ⟨rfl, rfl⟩⟩ := getElem?_forwardCommands.mp h
      · exact .alloc hLt
      · exact .layer hLt
    · rename_i hBehind
      obtain ⟨j, rfl⟩ := Nat.exists_eq_add_of_le (Nat.not_lt.mp hBehind)
      rw [Nat.add_sub_cancel_left] at h
      cases j with
      | zero =>
          cases h
          exact .marker
      | succ k =>
          rw [List.getElem?_cons_succ, releases, List.getElem?_map, Option.map_eq_some_iff] at h
          obtain ⟨k', hGet, rfl⟩ := h
          obtain ⟨hLt, rfl⟩ := List.getElem?_eq_some_iff.mp hGet
          rw [List.getElem_range, ← Nat.add_assoc, Nat.add_right_comm]
          exact .release (by simpa using hLt)
  · intro h
    cases h with
    | @alloc k hLt =>
        rw [if_pos (by omega)]
        exact getElem?_forwardCommands.mpr ⟨k, hLt, .inl ⟨rfl, rfl⟩⟩
    | @layer k hLt =>
        rw [if_pos (by omega)]
        exact getElem?_forwardCommands.mpr ⟨k, hLt, .inr ⟨rfl, rfl⟩⟩
    | marker =>
        rw [if_neg (by omega), Nat.sub_self]
        rfl
    | @release k hLt =>
        have hBehind : 2 * ch.size + 1 + k - 2 * ch.size = k + 1 := by omega
        rw [if_neg (by omega), hBehind, List.getElem?_cons_succ, releases, List.getElem?_map,
          List.getElem?_range hLt]
        rfl

end LayerChain

end MatrixProgram
