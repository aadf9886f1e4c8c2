import MatrixProgram.Analysis.Partition
import MatrixProgram.Network

/-!
# What commands read and write

The behaviour of each operation is a table of rules, `Opcode.rules`.  A rule names an
operand and says how it is accessed; some accesses depend on the component or on an index
table.  `Program.accesses` resolves the rules of a command to accesses of sub-matrices and
whole matrices, and `Program.effects` turns these into sets of variables.

Rows are not cut into variables.  A write that misses some rows of its matrix leaves old
values in its variables, so it counts as a read as well.
-/

namespace MatrixProgram

/-- The place of an operand in a command. -/
inductive Slot where
  | dst
  | src
  | input
  | output
  | value
  | inValue
  | outValue
  | outDeriv
  | inDeriv
  /-- Every sub-matrix that the command's table of row pairs names. -/
  | pairRows
  /-- All of the matrix that the command allocates. -/
  | wholeMatrix
deriving DecidableEq, Repr

/-- What the kind of an access may depend on. -/
inductive Condition where
  | propagateAdds
  | backpropAdds
  | indexAbsent
deriving DecidableEq, Repr

/-- How an operand is accessed. -/
inductive Rule where
  | always (kind : AccessKind)
  /-- Read and written when the condition holds, written otherwise. -/
  | writeOrReadWriteIf (condition : Condition)
deriving DecidableEq, Repr

/-- The rules of an operation.  Undefined contents are not a write, and a release is not
an access. -/
def Opcode.rules : Opcode → List (Slot × Rule)
  | .allocZeroed => [(.wholeMatrix, .always .write)]
  | .allocUndefined => []
  | .release => []
  | .propagate => [(.input, .always .read), (.output, .writeOrReadWriteIf .propagateAdds)]
  | .storeStats => [(.value, .always .read)]
  | .backprop =>
      [(.inValue, .always .read), (.outValue, .always .read), (.outDeriv, .always .read),
        (.inDeriv, .writeOrReadWriteIf .backpropAdds)]
  | .copy => [(.dst, .always .write), (.src, .always .read)]
  | .add => [(.dst, .always .readWrite), (.src, .always .read)]
  | .gatherAdd => [(.dst, .always .readWrite), (.src, .always .read)]
  | .sumRanges => [(.dst, .always .readWrite), (.src, .always .read)]
  | .gatherCopy => [(.dst, .writeOrReadWriteIf .indexAbsent), (.src, .always .read)]
  | .gatherAddMany => [(.dst, .always .readWrite), (.pairRows, .always .read)]
  | .gatherCopyMany => [(.dst, .always .write), (.pairRows, .always .read)]
  | .scatterAdd => [(.src, .always .read), (.pairRows, .always .readWrite)]
  | .scatterCopy => [(.src, .always .read), (.pairRows, .always .readWrite)]
  | .skip => []
  | .marker => []

/-- The sub-matrix in a slot, if the command has such an operand. -/
def Command.operand? : Command → Slot → Option Nat
  | .propagate _ _ input _, .input => some input
  | .propagate _ _ _ output, .output => some output
  | .storeStats _ value, .value => some value
  | .backprop _ _ _ inValue _ _ _, .inValue => some inValue
  | .backprop _ _ _ _ outValue _ _, .outValue => some outValue
  | .backprop _ _ _ _ _ outDeriv _, .outDeriv => some outDeriv
  | .backprop _ _ _ _ _ _ inDeriv, .inDeriv => some inDeriv
  | .copy dst _, .dst => some dst
  | .add dst _, .dst => some dst
  | .gatherAdd dst _ _, .dst => some dst
  | .gatherCopy dst _ _, .dst => some dst
  | .gatherAddMany dst _, .dst => some dst
  | .gatherCopyMany dst _, .dst => some dst
  | .sumRanges dst _ _, .dst => some dst
  | .copy _ src, .src => some src
  | .add _ src, .src => some src
  | .gatherAdd _ src _, .src => some src
  | .gatherCopy _ src _, .src => some src
  | .scatterAdd src _, .src => some src
  | .scatterCopy src _, .src => some src
  | .sumRanges _ src _, .src => some src
  | _, _ => none

/-- The component of a command. -/
def Command.component? : Command → Option Nat
  | .propagate c .. => some c
  | .storeStats c _ => some c
  | .backprop _ c .. => some c
  | _ => none

/-- What an access touches: a sub-matrix, or all of a matrix. -/
inductive Target where
  | subMatrix (s : Nat)
  | matrix (m : Nat)
deriving DecidableEq, Repr

/-- The variables that a command reads and writes, and whether it changes the network to
update, so that it may not be dropped even if nothing reads what it writes. -/
structure Effects where
  read : List Nat
  written : List Nat
  sideEffects : Bool
deriving DecidableEq, Repr

namespace Effects

/-- The effects of a command that does nothing. -/
def none : Effects :=
  ⟨[], [], false⟩

/-- The same effects as strictly ascending lists. -/
def ascending (e : Effects) : Effects :=
  { e with read := Ascending.ofList e.read, written := Ascending.ofList e.written }

end Effects

namespace Partition

/-- Add the variables of a sub-matrix to what is read and written.  A write that misses
some rows counts as a read as well. -/
def record (t : Partition) (s : Nat) (kind : AccessKind) (e : Effects) : Effects :=
  if s = noSubMatrix then
    e
  else
    let vars := (t.ofSubMatrix s).toList
    match kind with
    | .read => { e with read := e.read ++ vars }
    | .write =>
        { e with
          written := e.written ++ vars
          -- The rows outside the window keep their old values.
          read := if t.spansRows s then e.read else e.read ++ vars }
    | .readWrite => { e with written := e.written ++ vars, read := e.read ++ vars }

/-- Add an access of a sub-matrix or of a whole matrix; the latter is always a write. -/
def recordTarget (t : Partition) (e : Effects) : Target × AccessKind → Effects
  | (.subMatrix s, kind) => t.record s kind e
  | (.matrix m, _) => { e with written := e.written ++ (t.ofMatrix m).toList }

end Partition

namespace Program

/-- The capabilities of a component, which must exist. -/
def capabilitiesOf (net : Network) (c : Nat) : Except Malformation Capabilities :=
  match net.component c with
  | .ok component => .ok component.capabilities
  | .error _ => .error (.componentIndex c)

/-- The capabilities of a command's component; those of nothing for a command without
one. -/
def commandCapabilities (net : Network) (c : Command) : Except Malformation Capabilities :=
  match c.component? with
  | some component => capabilitiesOf net component
  | none => .ok .none

/-- A condition holds for a command. -/
def holds (p : Program) (net : Network) (c : Command) :
    Condition → Except Malformation Bool
  | .propagateAdds => (·.propagateAdds) <$> commandCapabilities net c
  | .backpropAdds => (·.backpropAdds) <$> commandCapabilities net c
  | .indexAbsent =>
      match c with
      | .gatherCopy _ _ table =>
          match p.indexes[table]? with
          | some rows => .ok (rows.any Option.isNone)
          | none => .error (.accessedTable .indexes)
      | _ => .ok false

/-- The kind of access that a rule stands for in a command. -/
def accessKind (p : Program) (net : Network) (c : Command) :
    Rule → Except Malformation AccessKind
  | .always kind => .ok kind
  | .writeOrReadWriteIf condition => do
      if ← p.holds net c condition then return .readWrite else return .write

/-- The sub-matrices that a table of row pairs names, ascending. -/
def pairSubMatrices (pairs : List (Option (Nat × Nat))) : List Nat :=
  Ascending.ofList ((pairs.filterMap id).map (·.1))

/-- What a slot of a command touches. -/
def targets (p : Program) (c : Command) : Slot → Except Malformation (List Target)
  | .wholeMatrix => .ok (c.resized?.toList.map .matrix)
  | .pairRows =>
      match c.pairTable? with
      | none => .ok []
      | some table =>
          match p.rowPairs[table]? with
          | some pairs => .ok ((pairSubMatrices pairs).map .subMatrix)
          | none => .error (.accessedTable .rowPairs)
  | slot => .ok ((c.operand? slot).toList.map .subMatrix)

/-- The accesses of a command, in the order of its rules. -/
def accesses (p : Program) (net : Network) (c : Command) :
    Except Malformation (List (Target × AccessKind)) := do
  let perRule ← c.opcode.rules.mapM fun (slot, rule) => do
    let kind ← p.accessKind net c rule
    let touched ← p.targets c slot
    return touched.map fun target => (target, kind)
  return perRule.flatten

/-- A command changes the network to update apart from statistics: it is a backprop of an
updatable component. -/
def hasSideEffects (net : Network) : Command → Except Malformation Bool
  | .backprop _ c .. => (·.updatable) <$> capabilitiesOf net c
  | _ => .ok false

/-- The variables that a command reads and writes. -/
def commandEffects (p : Program) (net : Network) (t : Partition) (c : Command) :
    Except Malformation Effects := do
  let touched ← p.accesses net c
  let sideEffects ← hasSideEffects net c
  return { (touched.foldl t.recordTarget .none).ascending with sideEffects }

/-- The effects of every command. -/
def effects (p : Program) (net : Network) (t : Partition) : Except Error (List Effects) :=
  p.commands.zipIdx.mapM fun (c, index) =>
    (p.commandEffects net t c).mapError (.malformed (some index))

end Program

end MatrixProgram
