import MatrixProgram.Error

/-!
# Requests

A request names the inputs that the caller supplies and the outputs that the caller
wants.  Each has a list of indexes, one per row, and says whether a derivative is wanted
for it.  For an output that means that the caller supplies the derivative of the
objective.
-/

namespace MatrixProgram

/-- The index of one row: sequence `n`, time `t` and extra dimension `x`. -/
structure RowIndex where
  n : Int
  t : Int
  x : Int
deriving DecidableEq, Repr

/-- One requested input or output. -/
structure IoRequest where
  name : String
  indexes : List RowIndex
  wantsDeriv : Bool
deriving DecidableEq, Repr

namespace IoRequest

/-- The number of rows asked for. -/
def numRows (spec : IoRequest) : Nat :=
  spec.indexes.length

/-- The number of frames that a count stands for: counts are read as signed numbers of 32
bits, and a negative number stands for none. -/
def frameCount (count : Nat) : Nat :=
  (Int.bmod count UInt32.size).toNat

/-- The frames `t = 0, 1, ...` of sequence 0. -/
def frames (name : String) (count : Nat) (wantsDeriv : Bool) : IoRequest :=
  ⟨name, (List.range (frameCount count)).map fun t : Nat => ⟨0, (t : Int), 0⟩, wantsDeriv⟩

end IoRequest

/-- What the caller supplies and wants. -/
structure Request where
  inputs : List IoRequest
  outputs : List IoRequest
  wantsModelDeriv : Bool
  wantsStats : Bool
deriving DecidableEq, Repr

namespace Request

/-- Fail at the first specification whose name has appeared before it. -/
def requireDistinct (side : Side) (seen : List String) : List IoRequest → Except Error Unit
  | [] => .ok ()
  | spec :: rest =>
      if spec.name ∈ seen then
        .error (.failed (.requestedTwice side spec.name))
      else
        requireDistinct side (spec.name :: seen) rest

/-- A request for a forward pass; no name may appear twice on one side. -/
def of (inputs outputs : List IoRequest) : Except Error Request := do
  requireDistinct .input [] inputs
  requireDistinct .output [] outputs
  return ⟨inputs, outputs, false, false⟩

/-- The position of an input of a name. -/
def inputIndex (r : Request) (name : String) : Option Nat :=
  r.inputs.findIdx? fun spec => spec.name == name

/-- The position of an output of a name. -/
def outputIndex (r : Request) (name : String) : Option Nat :=
  r.outputs.findIdx? fun spec => spec.name == name

/-- The input of a name. -/
def input? (r : Request) (name : String) : Option IoRequest :=
  r.inputs.find? fun spec => spec.name == name

/-- The output of a name. -/
def output? (r : Request) (name : String) : Option IoRequest :=
  r.outputs.find? fun spec => spec.name == name

/-- Whether a backward pass is needed: a derivative of the model or of some input is
wanted.  That fails when no output supplies a derivative, since nothing could then flow
backwards. -/
def needsBackward (r : Request) : Except Error Bool :=
  let needed := r.wantsModelDeriv || r.inputs.any (·.wantsDeriv)
  if needed && !r.outputs.any (·.wantsDeriv) then
    .error (.failed .noDerivativeSupplied)
  else
    .ok needed

end Request

end MatrixProgram
