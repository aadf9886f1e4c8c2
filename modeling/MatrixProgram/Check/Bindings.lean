import MatrixProgram.Network
import MatrixProgram.Program.Basic
import MatrixProgram.Request

/-!
# Bindings and requests

Every bound matrix must exist.  Every requested input or output must name a bound node of
the right kind whose value matrix has one row per requested index, and must have a
derivative matrix when a derivative is requested.
-/

namespace MatrixProgram

namespace Program

/-- The matrices of a binding, the value first. -/
def boundMatrices (b : Binding) : List Nat :=
  b.value :: b.deriv?.toList

/-- The matrices of a binding must exist. -/
def checkBinding (p : Program) (entry : Nat × Binding) : Except Error Unit :=
  (boundMatrices entry.2).forM fun m =>
    if m ≠ 0 ∧ m < p.numMatrices then
      .ok ()
    else
      .error (.malformed none (.boundMatrix entry.1 m))

/-- A node is of the kind of a side. -/
def isNodeOn (net : Network) (node : Nat) : Side → Bool
  | .input => net.isInputNode node
  | .output => net.isOutputNode node

/-- A requested input or output must fit the program. -/
def checkSpec (p : Program) (net : Network) (side : Side) (spec : IoRequest) :
    Except Error Unit := do
  match net.nodeIndex spec.name with
  | none => throw (.malformed none (.requestedNode spec.name))
  | some node =>
    if !isNodeOn net node side then
      throw (.malformed none (.requestedSide spec.name side))
    match p.binding? node with
    | none => throw (.malformed none (.requestedUnbound spec.name))
    | some b =>
      let shape ← p.matrix b.value
      if shape.numRows ≠ spec.numRows then
        throw (.malformed none
          (.requestedRows spec.name spec.numRows b.value shape.numRows))
      if spec.wantsDeriv && b.deriv?.isNone then
        throw (.malformed none (.requestedDerivative spec.name))

/-- Check the bindings, then the requested inputs, then the requested outputs. -/
def checkRequest (p : Program) (net : Network) (r : Request) : Except Error Unit := do
  p.bindings.forM p.checkBinding
  r.inputs.forM (p.checkSpec net .input)
  r.outputs.forM (p.checkSpec net .output)

end Program

end MatrixProgram
