import MatrixProgram.Error
import MatrixProgram.Program.Command

/-!
# Programs

A program is plain data: the shapes of its matrices, views into them, tables of row
indexes, bindings of network nodes to matrices, and a list of commands.  One phase
marker splits the commands into forward and backward ones.

Matrix 0 and sub-matrix 0 are empty and stand in front of all others.  Sub-matrix 0 is
the absent operand.  The lookups `matrix` and `subMatrix` refuse both.
-/

namespace MatrixProgram

/-- A view of a region of a matrix of the program. -/
structure SubMatrix where
  matrix : Nat
  region : Region
deriving DecidableEq, Repr

/-- The matrices of a node's value and derivative.  The value of an input node and the
derivative of an output node are supplied; the value of an output node and the derivative
of an input node are produced. -/
structure Binding where
  value : Nat
  deriv? : Option Nat
deriving DecidableEq, Repr

/-- The data of one forward and backward pass. -/
structure Program where
  matrices : List Shape
  subMatrices : List SubMatrix
  precomputed : List (List Nat)
  indexes : List (List (Option Nat))
  rowPairs : List (List (Option (Nat × Nat)))
  rowRanges : List (List (Nat × Nat))
  /-- The bindings, with the nodes in increasing order. -/
  bindings : List (Nat × Binding)
  commands : List Command
  /-- The recorded position of the phase marker. -/
  forwardEnd : Option Nat
deriving DecidableEq, Repr

namespace Program

/-- The program that holds only the empty matrix and the empty sub-matrix. -/
def empty : Program :=
  { matrices := [⟨0, 0⟩]
    subMatrices := [⟨0, .empty⟩]
    precomputed := []
    indexes := []
    rowPairs := []
    rowRanges := []
    bindings := []
    commands := []
    forwardEnd := none }

/-- The number of matrices, the empty one included. -/
def numMatrices (p : Program) : Nat :=
  p.matrices.length

/-- The number of sub-matrices, the empty one included. -/
def numSubMatrices (p : Program) : Nat :=
  p.subMatrices.length

/-- The shape of a matrix other than the empty one. -/
def matrix (p : Program) (index : Nat) : Except Error Shape :=
  if index = 0 then
    .error (.malformed none .emptyMatrix)
  else
    match p.matrices[index]? with
    | some shape => .ok shape
    | none => .error (.malformed none (.matrixCount index p.matrices.length))

/-- The sub-matrix of an index other than that of the empty one. -/
def subMatrix (p : Program) (index : Nat) : Except Error SubMatrix :=
  if index = noSubMatrix then
    .error (.malformed none .emptySubMatrix)
  else
    match p.subMatrices[index]? with
    | some s => .ok s
    | none => .error (.malformed none (.subMatrixCount index p.subMatrices.length))

/-- The sub-matrix of an index, absent for the empty one and past the last. -/
def subMatrix? (p : Program) (index : Nat) : Option SubMatrix :=
  (p.subMatrix index).toOption

/-- The binding of a node. -/
def binding? (p : Program) (node : Nat) : Option Binding :=
  (p.bindings.find? fun entry => entry.1 == node).map (·.2)

/-- A sub-matrix views all of its matrix. -/
def isWholeMatrix (p : Program) (index : Nat) : Bool :=
  match p.subMatrix index with
  | .error _ => false
  | .ok s =>
      match p.matrix s.matrix with
      | .error _ => false
      | .ok shape => decide (s.region.IsWhole shape.numRows shape.numCols)

/-- The sub-matrices that view a matrix, in increasing order; none for the empty
matrix's own sub-matrix. -/
def viewsOf (p : Program) (matrix : Nat) : List Nat :=
  (p.subMatrices.zipIdx.drop 1).filterMap fun (s, index) =>
    if s.matrix = matrix then some index else none

/-- For each matrix, the sub-matrices that view it. -/
def subMatrixLists (p : Program) : List (List Nat) :=
  (List.range p.numMatrices).map p.viewsOf

end Program

end MatrixProgram
