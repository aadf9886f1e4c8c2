/-!
# Capabilities of components

Analyses and checks cannot look inside a component, so each component says about itself
what they need to know.
-/

namespace MatrixProgram

/-- What a component declares about itself. -/
structure Capabilities where
  /-- One output row per input row, and no precomputed indexes. -/
  simple : Bool
  /-- It has parameters, so a backprop on it changes the network to update. -/
  updatable : Bool
  /-- Input and output may be the same sub-matrix. -/
  propagateInPlace : Bool
  /-- Propagation adds to the output. -/
  propagateAdds : Bool
  /-- Backprop adds to the input derivative. -/
  backpropAdds : Bool
  /-- It accumulates statistics. -/
  storesStats : Bool
  /-- Output and input derivative may be the same sub-matrix. -/
  backpropInPlace : Bool
  /-- Backprop reads the forward input. -/
  backpropNeedsInput : Bool
  /-- Backprop reads the forward output. -/
  backpropNeedsOutput : Bool
deriving DecidableEq, Repr

namespace Capabilities

/-- No capability at all. -/
def none : Capabilities :=
  ⟨false, false, false, false, false, false, false, false, false⟩

end Capabilities

end MatrixProgram
