import MatrixProgram.Component.Capabilities
import MatrixProgram.Decimal.Plain
import MatrixProgram.Kernel

/-!
# Nonlinear components

An elementwise function with running statistics of its output: for each column the sum
of the outputs seen, and the number of rows seen, both in double precision.
-/

namespace MatrixProgram

/-- An elementwise function of `dim` columns with its statistics. -/
structure Nonlinear where
  op : Activation
  dim : Nat
  valueSum : Vector Float dim
  count : Float

namespace Nonlinear

/-- The component without any statistics. -/
def fresh (op : Activation) (dim : Nat) : Nonlinear :=
  ⟨op, dim, Vector.replicate dim 0, 0⟩

/-- The name of the type of component. -/
def typeName (n : Nonlinear) : String :=
  match n.op with
  | .relu => "RectifiedLinearComponent"
  | .sigmoid => "SigmoidComponent"
  | .tanh => "TanhComponent"

/-- Nonlinear components are simple, run in place, store statistics, and backprop needs
the output alone. -/
def capabilities : Capabilities :=
  { Capabilities.none with
    simple := true
    propagateInPlace := true
    backpropInPlace := true
    backpropNeedsOutput := true
    storesStats := true }

/-- The window becomes the function of the input. -/
def propagate {rows cols : Nat} (n : Nonlinear) (input : View) (g : Region) :
    Write rows cols :=
  Kernel.applyActivation n.op input g

/-- The window becomes the derivative of the input, from the output and its
derivative. -/
def backprop {rows cols : Nat} (n : Nonlinear) (outValue : Option View) (outDeriv : View)
    (g : Region) : Write rows cols :=
  match outValue with
  | none => throw (.failed (.backpropWithoutOutput n.op.name))
  | some outValue => Kernel.activationGradient n.op outValue outDeriv 0 g

/-- A running sum with the elements of one column of a view added, in row order. -/
def addColumn (outValue : View) (col : Nat) (start : Float) : Float :=
  (List.range outValue.numRows).foldl
    (fun total row => total + (outValue.get row col).toFloat) start

/-- Add the rows of an output to the statistics; the output must have `dim` columns. -/
def storeStats (outValue : View) : Action Nonlinear Unit := do
  let n ← get
  if outValue.numCols = n.dim then
    set { n with
      valueSum := n.valueSum.mapIdx (addColumn outValue)
      count := n.count + Float.ofNat outValue.numRows }
  else
    throw (.shapeMismatch ⟨outValue.numRows, n.dim⟩ outValue.shape)

/-- The average output of each column, absent before any statistics. -/
def meanValue (n : Nonlinear) : Option (Vector Float n.dim) :=
  if n.count == 0 then none else some (n.valueSum.map (· / n.count))

/-- A one-line description. -/
def info (n : Nonlinear) : String :=
  let count := Decimal.plainDouble n.count
  s!"{n.typeName}, dim={n.dim}, count={count}"

end Nonlinear

end MatrixProgram
