import MatrixProgram.Component.Capabilities
import MatrixProgram.Kernel

/-!
# Row selection

A component whose output row `i` is the input row that entry `i` of a precomputed list
names.  The list decides how many output rows there are, so the component is not simple.
Several output rows may select one input row, so backprop accumulates: the derivative
of output row `i` is added to the row that entry `i` names, for one entry after the
other.
-/

namespace MatrixProgram

/-- Selection of rows of `dim` columns. -/
structure RowSelect where
  dim : Nat
deriving DecidableEq, Repr

namespace RowSelect

/-- The name of the type of component. -/
def typeName : String :=
  "RowSelectComponent"

/-- Backprop of row selection adds to the input derivative. -/
def capabilities : Capabilities :=
  { Capabilities.none with backpropAdds := true }

/-- The precomputed list; it must be given and have one entry per output row. -/
def requireIndexes (indexes : Option (List Nat)) (outputRows : Nat) :
    Except Error (List Nat) :=
  match indexes with
  | none => .error (.failed .precomputedMissing)
  | some indexes =>
      if indexes.length = outputRows then
        .ok indexes
      else
        .error (.failed (.precomputedCount indexes.length outputRows))

/-- The window becomes the selected rows of the input. -/
def propagate {rows cols : Nat} (indexes : Option (List Nat)) (input : View)
    (g : Region) : Write rows cols := do
  let indexes ← Action.ofExcept (requireIndexes indexes g.numRows)
  Kernel.gatherCopy input (indexes.map some) g

/-- The rows of `outDeriv` are added, in order, to the rows of the window that the list
names. -/
def backprop {rows cols : Nat} (indexes : Option (List Nat)) (outDeriv : View)
    (g : Region) : Write rows cols := do
  let indexes ← Action.ofExcept (requireIndexes indexes outDeriv.numRows)
  indexes.zipIdx.forM fun (row, position) => Kernel.addRow row outDeriv position 1 g

end RowSelect

end MatrixProgram
