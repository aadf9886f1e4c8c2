import MatrixProgram.Component.Capabilities
import MatrixProgram.Decimal.Plain
import MatrixProgram.Kernel

/-!
# Affine components

A fully connected layer: each output row is the input row times the transposed weight,
plus the bias.  The weight has one row per output and one column per input, and the bias
is a single row, so the shapes of the parameters are those of the type.

Derivatives are those of an objective to be maximized.  The derivative of the input is
the derivative of the output times the weight, and an update adds to the parameters.
-/

namespace MatrixProgram

/-- A fully connected layer with its parameters and its learning rate. -/
structure Affine where
  inputDim : Nat
  outputDim : Nat
  weight : Dense outputDim inputDim
  bias : Dense 1 outputDim
  learningRate : Float32

namespace Affine

/-- The name of the type of component. -/
def typeName : String :=
  "AffineComponent"

/-- Affine components are simple and updatable, and backprop needs the input. -/
def capabilities : Capabilities :=
  { Capabilities.none with
    simple := true
    updatable := true
    backpropNeedsInput := true }

/-- A layer with given parameters.  The bias must be a single row with one element per
row of the weight. -/
def ofBuffers (weight bias : Buffer) (learningRate : Float32) : Except Error Affine :=
  if bias.numRows = 1 ∧ bias.numCols = weight.numRows then
    .ok {
      inputDim := weight.numCols
      outputDim := weight.numRows
      weight := weight.values
      bias := Dense.ofFn bias.get
      learningRate := learningRate }
  else
    .error (.shapeMismatch ⟨1, weight.numRows⟩ bias.shape)

/-- A word that changes without visible pattern from one position to the next. -/
def scrambled (position : Nat) : UInt32 :=
  let spread := UInt32.ofNat position * 0x9E3779B1
  let folded := (spread ^^^ (spread >>> 15)) * 0x85EBCA77
  folded ^^^ (folded >>> 13)

/-- The initial parameter at a position, from the interval of half-width `bound` around
zero. -/
def initialParameter (bound : Float32) (position : Nat) : Float32 :=
  -- The upper 24 bits of the word, as a fraction of the whole.
  let fraction := (scrambled position >>> 8).toFloat32 / 16777216
  (fraction * 2 - 1) * bound

/-- A layer with scattered parameters from the interval of half-width
`sqrt (1 / inputDim)` around zero; `seed` is the position of the first of them, and those
of the weight come before those of the bias. -/
def ofRandom (inputDim outputDim : Nat) (learningRate : Float32) (seed : Nat) : Affine :=
  let bound := (1 / Float32.ofNat inputDim).sqrt
  { inputDim
    outputDim
    weight := Dense.ofFn fun row col =>
      initialParameter bound (seed + (row * inputDim + col))
    bias := Dense.ofFn fun _ col =>
      initialParameter bound (seed + (outputDim * inputDim + col))
    learningRate }

/-- The weight as a view. -/
def weightView (a : Affine) : View :=
  .ofDense a.weight

/-- The bias as a view. -/
def biasView (a : Affine) : View :=
  .ofDense a.bias

/-- The window becomes the layer's output for the given input rows. -/
def propagate {rows cols : Nat} (a : Affine) (input : View) (g : Region) :
    Write rows cols := do
  Kernel.accumulateProduct ⟨input, false⟩ ⟨a.weightView, true⟩ 1 0 g
  Kernel.addToEachRow a.biasView 1 g

/-- The window becomes the derivative of the input. -/
def backprop {rows cols : Nat} (a : Affine) (outDeriv : View) (g : Region) :
    Write rows cols :=
  Kernel.accumulateProduct ⟨outDeriv, false⟩ ⟨a.weightView, false⟩ 1 0 g

/-- Change the weight of a layer. -/
def changeWeight (w : (a : Affine) → Region → Write a.outputDim a.inputDim) :
    Action Affine Unit := fun a =>
  Action.mapState (fun weight => { a with weight })
    (w a (.whole a.outputDim a.inputDim) a.weight)

/-- Change the bias of a layer. -/
def changeBias (w : (a : Affine) → Region → Write 1 a.outputDim) :
    Action Affine Unit := fun a =>
  Action.mapState (fun bias => { a with bias }) (w a (.whole 1 a.outputDim) a.bias)

/-- Add to the parameters the learning rate times their derivative, given the input and
the derivative of the output. -/
def update (inValue : Option View) (outDeriv : View) : Action Affine Unit := do
  match inValue with
  | none => throw (.failed .updateWithoutInput)
  | some inValue =>
    changeWeight fun a =>
      Kernel.accumulateProduct ⟨outDeriv, true⟩ ⟨inValue, false⟩ a.learningRate 1
    changeBias fun a => Kernel.accumulateRowSum outDeriv a.learningRate 1

/-- A one-line description. -/
def info (a : Affine) : String :=
  let rate := Decimal.plainSingle a.learningRate
  s!"{typeName}, input-dim={a.inputDim}, output-dim={a.outputDim}, " ++
    s!"learning-rate={rate}"

end Affine

end MatrixProgram
