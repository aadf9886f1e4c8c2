import MatrixProgram.Component.Affine
import MatrixProgram.Component.Nonlinear
import MatrixProgram.Component.RowSelect

/-!
# Components

A component is one layer of a network.  Its computing operations are `propagate`, from
an input to an output window, and `backprop`, from the derivative of the output to a
window for the derivative of the input; neither changes the component.  `update` and
`storeStats` change it.

Besides the three layers of this library there are declared components, which have a
description and capabilities but do not compute.  They stand for layers that are
implemented elsewhere, so that programs for them can be printed, analysed and checked.
To run a declared component fails, whatever the layer it stands for would do.  What is
proved of runs is about the three layers: theorems that promise a success ask for a
network that `Computes`, and in the others a declared component only ends the run.
-/

namespace MatrixProgram

/-- A component known by its description alone; computing with it fails. -/
structure Declared where
  typeName : String
  inputDim : Nat
  outputDim : Nat
  capabilities : Capabilities
  refusal : String
deriving DecidableEq, Repr

/-- One layer of a network. -/
inductive Component where
  | affine (a : Affine)
  | nonlinear (n : Nonlinear)
  | rowSelect (r : RowSelect)
  | declared (d : Declared)

namespace Component

/-- The name of the type of a component. -/
def typeName : Component → String
  | .affine _ => Affine.typeName
  | .nonlinear n => n.typeName
  | .rowSelect _ => RowSelect.typeName
  | .declared d => d.typeName

/-- The number of columns of an input. -/
def inputDim : Component → Nat
  | .affine a => a.inputDim
  | .nonlinear n => n.dim
  | .rowSelect r => r.dim
  | .declared d => d.inputDim

/-- The number of columns of an output. -/
def outputDim : Component → Nat
  | .affine a => a.outputDim
  | .nonlinear n => n.dim
  | .rowSelect r => r.dim
  | .declared d => d.outputDim

/-- What a component declares about itself. -/
def capabilities : Component → Capabilities
  | .affine _ => Affine.capabilities
  | .nonlinear _ => Nonlinear.capabilities
  | .rowSelect _ => RowSelect.capabilities
  | .declared d => d.capabilities

/-- The component computes, that is, it is one of the layers of this library. -/
def Computes : Component → Prop
  | .declared _ => False
  | _ => True

instance : (c : Component) → Decidable c.Computes
  | .affine _ => inferInstanceAs (Decidable True)
  | .nonlinear _ => inferInstanceAs (Decidable True)
  | .rowSelect _ => inferInstanceAs (Decidable True)
  | .declared _ => inferInstanceAs (Decidable False)

/-- Compute the output of an input in a window. -/
def propagate {rows cols : Nat} (c : Component) (indexes : Option (List Nat))
    (input : View) (g : Region) : Write rows cols :=
  match c with
  | .affine a => a.propagate input g
  | .nonlinear n => n.propagate input g
  | .rowSelect _ => RowSelect.propagate indexes input g
  | .declared d => throw (.failed (.declaredOnly d.refusal))

/-- Compute the derivative of the input in a window. -/
def backprop {rows cols : Nat} (c : Component) (indexes : Option (List Nat))
    (_inValue outValue : Option View) (outDeriv : View) (g : Region) : Write rows cols :=
  match c with
  | .affine a => a.backprop outDeriv g
  | .nonlinear n => n.backprop outValue outDeriv g
  | .rowSelect _ => RowSelect.backprop indexes outDeriv g
  | .declared d => throw (.failed (.declaredOnly d.refusal))

/-- Apply the change of parameters that one backprop implies. -/
def update (_indexes : Option (List Nat)) (inValue : Option View) (outDeriv : View) :
    Action Component Unit := fun c =>
  match c with
  | .affine a => Action.mapState .affine (Affine.update inValue outDeriv a)
  | c => .ok () c

/-- Accumulate statistics of an output. -/
def storeStats (outValue : View) : Action Component Unit := fun c =>
  match c with
  | .nonlinear n => Action.mapState .nonlinear (Nonlinear.storeStats outValue n)
  | c => .ok () c

/-- A one-line description. -/
def info : Component → String
  | .affine a => a.info
  | .nonlinear n => n.info
  | c => s!"{c.typeName}, input-dim={c.inputDim}, output-dim={c.outputDim}"

end Component

end MatrixProgram
