/-!
# Commands

A command is one operation of a program.  Its operands are indexes: of matrices, of
sub-matrices, of components and nodes of the network, and of index tables.  Sub-matrix 0
stands for an absent operand.
-/

namespace MatrixProgram

/-- The index of the sub-matrix that stands for an absent operand. -/
def noSubMatrix : Nat :=
  0

/-- One operation of a program. -/
inductive Command where
  /-- Allocate a matrix and fill it with zeros. -/
  | allocZeroed (matrix : Nat)
  /-- Allocate a matrix with undefined contents. -/
  | allocUndefined (matrix : Nat)
  /-- Release a matrix. -/
  | release (matrix : Nat)
  /-- The output becomes the component's output for the input. -/
  | propagate (component : Nat) (precomputed : Option Nat) (input output : Nat)
  /-- The component accumulates statistics of the value. -/
  | storeStats (component value : Nat)
  /-- The input derivative becomes the component's, and an updatable component of the
  network to update is updated. -/
  | backprop (node component : Nat) (precomputed : Option Nat)
      (inValue outValue outDeriv inDeriv : Nat)
  /-- The destination becomes the source. -/
  | copy (dst src : Nat)
  /-- The source is added to the destination. -/
  | add (dst src : Nat)
  /-- Source rows named by a table are added to the rows of the destination. -/
  | gatherAdd (dst src indexes : Nat)
  /-- The rows of the destination become source rows named by a table, or zero. -/
  | gatherCopy (dst src indexes : Nat)
  /-- Rows of several sub-matrices are added to the rows of the destination. -/
  | gatherAddMany (dst pairs : Nat)
  /-- The rows of the destination become rows of several sub-matrices, or zero. -/
  | gatherCopyMany (dst pairs : Nat)
  /-- The rows of the source are added to rows of several sub-matrices. -/
  | scatterAdd (src pairs : Nat)
  /-- Rows of several sub-matrices become the rows of the source. -/
  | scatterCopy (src pairs : Nat)
  /-- Ranges of source rows are added to the rows of the destination. -/
  | sumRanges (dst src ranges : Nat)
  /-- Nothing. -/
  | skip
  /-- The phase marker: forward commands stand before it, backward commands after it. -/
  | marker
deriving DecidableEq, Repr

/-- The operation of a command, without its operands. -/
inductive Opcode where
  | allocZeroed
  | allocUndefined
  | release
  | propagate
  | storeStats
  | backprop
  | copy
  | add
  | gatherAdd
  | gatherCopy
  | gatherAddMany
  | gatherCopyMany
  | scatterAdd
  | scatterCopy
  | sumRanges
  | skip
  | marker
deriving DecidableEq, Repr

namespace Command

/-- The operation of a command. -/
def opcode : Command → Opcode
  | .allocZeroed _ => .allocZeroed
  | .allocUndefined _ => .allocUndefined
  | .release _ => .release
  | .propagate .. => .propagate
  | .storeStats .. => .storeStats
  | .backprop .. => .backprop
  | .copy .. => .copy
  | .add .. => .add
  | .gatherAdd .. => .gatherAdd
  | .gatherCopy .. => .gatherCopy
  | .gatherAddMany .. => .gatherAddMany
  | .gatherCopyMany .. => .gatherCopyMany
  | .scatterAdd .. => .scatterAdd
  | .scatterCopy .. => .scatterCopy
  | .sumRanges .. => .sumRanges
  | .skip => .skip
  | .marker => .marker

/-- The matrix that a command allocates. -/
def allocated? : Command → Option Nat
  | .allocZeroed m => some m
  | .allocUndefined m => some m
  | _ => none

/-- The matrix that a command releases. -/
def released? : Command → Option Nat
  | .release m => some m
  | _ => none

/-- The matrix that a command allocates or releases. -/
def resized? (c : Command) : Option Nat :=
  c.allocated? <|> c.released?

/-- The table of row pairs that a command refers to. -/
def pairTable? : Command → Option Nat
  | .gatherAddMany _ pairs => some pairs
  | .gatherCopyMany _ pairs => some pairs
  | .scatterAdd _ pairs => some pairs
  | .scatterCopy _ pairs => some pairs
  | _ => none

/-- The single sub-matrix that a command writes, if it has one.  Scattering commands
write several. -/
def written? : Command → Option Nat
  | .propagate _ _ _ output => some output
  | .backprop _ _ _ _ _ _ inDeriv => if inDeriv = noSubMatrix then none else some inDeriv
  | .copy dst _ => some dst
  | .add dst _ => some dst
  | .gatherAdd dst _ _ => some dst
  | .gatherCopy dst _ _ => some dst
  | .gatherAddMany dst _ => some dst
  | .gatherCopyMany dst _ => some dst
  | .sumRanges dst _ _ => some dst
  | _ => none

end Command

end MatrixProgram
