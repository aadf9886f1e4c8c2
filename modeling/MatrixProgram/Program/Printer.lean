import MatrixProgram.Network
import MatrixProgram.Program.Basic

/-!
# The text of a program

A program is written for people: its matrices, its bindings, then one statement per
command.  A view of all of a matrix is written as the matrix, any other view with its
ranges of rows and columns, whose last index is included.  An absent row is written as
-1.  Writing never fails: operands that do not exist are written as such.
-/

namespace MatrixProgram

/-- Items in brackets, separated by commas. -/
def bracketList (items : List String) : String :=
  "[" ++ ",".intercalate items ++ "]"

/-- Something an operand should have named. -/
def invalidText (what : String) (index : Nat) : String :=
  s!"<{what} {index}>"

namespace Program

/-- A sub-matrix as an operand. -/
def subMatrixText (p : Program) (s : Nat) : String :=
  if s = noSubMatrix then
    "[]"
  else
    match p.subMatrix s with
    | .error _ => invalidText "invalid sub-matrix" s
    | .ok view =>
        let m := view.matrix
        if p.isWholeMatrix s then
          s!"m{m}"
        else
          let g := view.region
          let lastRow := g.rowEnd - 1
          let lastCol := g.colEnd - 1
          s!"m{m}({g.rowOffset}:{lastRow}, {g.colOffset}:{lastCol})"

/-- A single row of a sub-matrix, as a row of its matrix. -/
def rowText (p : Program) (s row : Nat) : String :=
  match p.subMatrix s with
  | .error _ => invalidText "invalid sub-matrix" s
  | .ok view =>
      let m := view.matrix
      let g := view.region
      let width := (p.matrices[m]?.map (·.numCols)).getD 0
      let matrixRow := g.rowOffset + row
      if g.colOffset = 0 ∧ g.numCols = width then
        s!"m{m}({matrixRow},:)"
      else
        let lastCol := g.colEnd - 1
        s!"m{m}({matrixRow},{g.colOffset}:{lastCol})"

/-- The last index of a range that ends before `past`, as a signed number of 64 bits. -/
def lastOfRange (past : Nat) : Int :=
  Int.bmod past UInt64.size - 1

/-- A table of row indexes. -/
def indexesText (p : Program) (table : Nat) : String :=
  match p.indexes[table]? with
  | none => invalidText "invalid indexes" table
  | some rows => bracketList (rows.map fun row => (row.map toString).getD "-1")

/-- A table of rows of sub-matrices. -/
def rowPairsText (p : Program) (table : Nat) : String :=
  match p.rowPairs[table]? with
  | none => invalidText "invalid indexes_multi" table
  | some pairs => bracketList (pairs.map fun
      | none => "-1"
      | some (s, row) => p.rowText s row)

/-- A table of ranges of rows. -/
def rowRangesText (p : Program) (table : Nat) : String :=
  match p.rowRanges[table]? with
  | none => invalidText "invalid indexes_ranges" table
  | some ranges => bracketList (ranges.map fun (first, past) =>
      let last := lastOfRange past
      s!"{first}:{last}")

/-- A table of precomputed rows, by name. -/
def precomputedText : Option Nat → String
  | none => "NULL"
  | some table => s!"precomputed_indexes[{table}]"

/-- The shape of a matrix in an allocation. -/
def allocationText (p : Program) (m : Nat) : String :=
  let shape := (p.matrices[m]?).getD ⟨0, 0⟩
  s!"({shape.numRows},{shape.numCols})"

/-- An operation as a call on its first operand. -/
def callText (receiver operation : String) (arguments : List String) : String :=
  receiver ++ "." ++ operation ++ "(" ++ ", ".intercalate arguments ++ ")"

end Program

/-- A component, by its name in the network. -/
def Network.componentText (net : Network) (c : Nat) : String :=
  (net.componentName c).getD (invalidText "component" c)

/-- A node, by its name in the network. -/
def Network.nodeText (net : Network) (node : Nat) : String :=
  (net.nodeName node).getD (invalidText "node" node)

namespace Program

/-- The statement of a command. -/
def statement (p : Program) (net : Network) : Command → String
  | .allocZeroed m => s!"m{m} = zeros" ++ p.allocationText m
  | .allocUndefined m => s!"m{m} = undefined" ++ p.allocationText m
  | .release m => s!"m{m} = []"
  | .propagate c precomputed input output =>
      callText (net.componentText c) "Propagate"
        [precomputedText precomputed, p.subMatrixText input, "&" ++ p.subMatrixText output]
  | .storeStats c value =>
      callText (net.componentText c) "StoreStats" [p.subMatrixText value]
  | .backprop _ c precomputed inValue outValue outDeriv inDeriv =>
      callText (net.componentText c) "Backprop"
        [precomputedText precomputed, p.subMatrixText inValue, p.subMatrixText outValue,
          p.subMatrixText outDeriv, "&" ++ p.subMatrixText inDeriv]
  | .copy dst src => p.subMatrixText dst ++ " = " ++ p.subMatrixText src
  | .add dst src => p.subMatrixText dst ++ " += " ++ p.subMatrixText src
  | .gatherAdd dst src table =>
      callText (p.subMatrixText dst) "AddRows" [p.subMatrixText src, p.indexesText table]
  | .gatherCopy dst src table =>
      callText (p.subMatrixText dst) "CopyRows" [p.subMatrixText src, p.indexesText table]
  | .gatherAddMany dst table =>
      callText (p.subMatrixText dst) "AddRowsMulti" [p.rowPairsText table]
  | .gatherCopyMany dst table =>
      callText (p.subMatrixText dst) "CopyRowsMulti" [p.rowPairsText table]
  | .scatterAdd src table =>
      callText (p.subMatrixText src) "AddToRowsMulti" [p.rowPairsText table]
  | .scatterCopy src table =>
      callText (p.subMatrixText src) "CopyToRowsMulti" [p.rowPairsText table]
  | .sumRanges dst src table =>
      callText (p.subMatrixText dst) "AddRowRanges"
        [p.subMatrixText src, p.rowRangesText table]
  | .skip => "[no-op]"
  | .marker => "[no-op/marker]"

/-- The line that declares the matrices. -/
def declarationLine (p : Program) : String :=
  let declared := (p.matrices.zipIdx.drop 1).map fun (shape, m) =>
    s!"m{m}({shape.numRows}, {shape.numCols})"
  "matrix " ++ ", ".intercalate declared

/-- The lines that bind a node. -/
def bindingLines (net : Network) (node : Nat) (b : Binding) : List String :=
  let name := net.nodeText node
  s!"{name}.value -> m{b.value}" ::
    match b.deriv? with
    | none => []
    | some deriv => [s!"{name}.deriv -> m{deriv}"]

/-- The lines of a command, the recorded phase boundary before it included. -/
def commandLines (p : Program) (net : Network) (c : Command) (index : Nat) : List String :=
  (if p.forwardEnd = some index then ["# begin backward commands"] else []) ++
    [p.statement net c]

/-- The lines of a program. -/
def lines (p : Program) (net : Network) : List String :=
  p.declarationLine ::
    (p.bindings.flatMap fun (node, b) => bindingLines net node b) ++
    "# begin forward commands" ::
    (p.commands.zipIdx.flatMap fun (c, index) => p.commandLines net c index)

/-- The text of a program, one line for each of its parts. -/
def render (p : Program) (net : Network) : String :=
  String.join ((p.lines net).map (· ++ "\n"))

end Program

end MatrixProgram
