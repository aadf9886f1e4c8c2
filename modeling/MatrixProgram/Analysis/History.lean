import MatrixProgram.Analysis.Effects

/-!
# Histories of variables and matrices

The effects of the commands, seen from the other side: for each variable the commands that
access it and how, and for each matrix the commands that allocate, access and release it,
and whether the bindings make it an input or an output of the program.

Derivatives flow against values.  The value matrix of an input node is an input and its
derivative matrix an output; for an output node it is the other way round.
-/

namespace MatrixProgram

/-- An access of a variable by a command. -/
structure Access where
  command : Nat
  kind : AccessKind
deriving DecidableEq, Repr

/-- The history of a matrix. -/
structure MatrixHistory where
  allocation : Option Nat
  release : Option Nat
  /-- The commands that access some variable of the matrix, strictly ascending. -/
  accesses : List Nat
  isInput : Bool
  isOutput : Bool
deriving DecidableEq, Repr

namespace Effects

/-- How a variable is accessed, if it is. -/
def kindOf (e : Effects) (var : Nat) : Option AccessKind :=
  if var ∈ e.read then
    if var ∈ e.written then some .readWrite else some .read
  else
    if var ∈ e.written then some .write else Option.none

/-- The variables that are read or written. -/
def touched (e : Effects) : List Nat :=
  e.read ++ e.written

end Effects

/-- The accesses of a variable, in the order of the commands. -/
def variableHistory (effects : List Effects) (var : Nat) : List Access :=
  effects.zipIdx.filterMap fun (e, command) => (e.kindOf var).map fun kind => ⟨command, kind⟩

/-- The accesses of every variable. -/
def variableHistories (t : Partition) (effects : List Effects) : List (List Access) :=
  (List.range t.numVariables).map (variableHistory effects)

/-- The commands that access some variable of a matrix. -/
def matrixAccesses (t : Partition) (effects : List Effects) (m : Nat) : List Nat :=
  let own := t.ofMatrix m
  effects.zipIdx.filterMap fun (e, command) =>
    if e.touched.any fun var => var ∈ own then some command else none

/-- The commands that allocate a matrix. -/
def allocations (commands : List Command) (m : Nat) : List Nat :=
  commands.zipIdx.filterMap fun (c, index) =>
    if c.allocated? = some m then some index else none

/-- The commands that release a matrix. -/
def releases (commands : List Command) (m : Nat) : List Nat :=
  commands.zipIdx.filterMap fun (c, index) =>
    if c.released? = some m then some index else none

/-- The matrices that the bindings mark as inputs and as outputs. -/
structure Marks where
  inputs : List Nat
  outputs : List Nat
deriving DecidableEq, Repr

namespace Marks

/-- No matrix is marked. -/
def none : Marks :=
  ⟨[], []⟩

/-- The matrices marked on a side. -/
def on (marks : Marks) : Side → List Nat
  | .input => marks.inputs
  | .output => marks.outputs

/-- Mark a matrix of the program, at most once on each side. -/
def mark (numMatrices : Nat) (side : Side) (m : Nat) (marks : Marks) : Except Error Marks :=
  if m = 0 ∨ numMatrices ≤ m then
    .error (.malformed Option.none (.markedMatrix m))
  else if m ∈ marks.on side then
    .error (.malformed Option.none (.markedTwice m side))
  else
    .ok (match side with
      | .input => { marks with inputs := marks.inputs ++ [m] }
      | .output => { marks with outputs := marks.outputs ++ [m] })

end Marks

namespace Program

/-- The sides of a node's value and derivative; the node must be an input or an output. -/
def boundSides (net : Network) (node : Nat) : Except Error (Side × Side) :=
  if net.isInputNode node then
    .ok (.input, .output)
  else if net.isOutputNode node then
    .ok (.output, .input)
  else
    .error (.malformed none (.boundNodeKind node))

/-- Mark the matrices of one binding. -/
def markBinding (p : Program) (net : Network) (marks : Marks) (entry : Nat × Binding) :
    Except Error Marks := do
  let (valueSide, derivSide) ← boundSides net entry.1
  let marks ← marks.mark p.numMatrices valueSide entry.2.value
  match entry.2.deriv? with
  | some deriv => marks.mark p.numMatrices derivSide deriv
  | none => return marks

/-- The matrices that the bindings mark, in the order of the nodes. -/
def marks (p : Program) (net : Network) : Except Error Marks :=
  p.bindings.foldlM (p.markBinding net) .none

/-- An allocation must name a matrix of the program that no earlier command allocates. -/
def requireFirstAllocation (p : Program) (command m : Nat) : Except Error Unit :=
  if m = 0 then
    .error (.malformed (some command) .resizeOfEmpty)
  else if p.numMatrices ≤ m then
    .error (.malformed (some command) (.matrixIndex m))
  else
    match (allocations (p.commands.take command) m).head? with
    | some first => .error (.lifecycle m (.allocatedTwice first command))
    | none => .ok ()

/-- A release must name a matrix of the program that no earlier command releases. -/
def requireFirstRelease (p : Program) (command m : Nat) : Except Error Unit :=
  if m = 0 then
    .error (.malformed (some command) .resizeOfEmpty)
  else if p.numMatrices ≤ m then
    .error (.malformed (some command) (.matrixIndex m))
  else
    match (releases (p.commands.take command) m).head? with
    | some first => .error (.lifecycle m (.releasedTwice first command))
    | none => .ok ()

/-- The effects must be those of a command of the program on variables of the partition,
and the command must not allocate or release a matrix a second time. -/
def requireCommand (p : Program) (t : Partition) (e : Effects) (command : Nat) :
    Except Error Unit := do
  e.touched.forM fun var => do
    let _ ← t.matrixOf var
  match p.commands[command]? with
  | none => throw (.failed (.unknownCommand command))
  | some c =>
    match c.allocated?, c.released? with
    | some m, _ => p.requireFirstAllocation command m
    | none, some m => p.requireFirstRelease command m
    | none, none => return ()

/-- The histories of all matrices, from the effects of the commands. -/
def matrixHistories (p : Program) (net : Network) (t : Partition)
    (effects : List Effects) : Except Error (List MatrixHistory) := do
  effects.zipIdx.forM fun (e, command) => p.requireCommand t e command
  let marks ← p.marks net
  let commands := p.commands.take effects.length
  return (List.range p.numMatrices).map fun m =>
    { allocation := (allocations commands m).head?
      release := (releases commands m).head?
      accesses := matrixAccesses t effects m
      isInput := decide (m ∈ marks.inputs)
      isOutput := decide (m ∈ marks.outputs) }

end Program

end MatrixProgram
