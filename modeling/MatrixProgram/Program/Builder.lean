import MatrixProgram.Overflow
import MatrixProgram.Program.Basic

/-!
# Building programs

A program is built by appending to its parts.  Each action answers the index of what it
has appended, each part counted on its own.  Matrices and views must not be empty, views
must lie inside their matrix, and a node is bound once; everything else is not checked
here.

With machine words, the builder does the same but for views: `Overflow.runStep` tests them
with sums of words.
-/

namespace MatrixProgram

namespace Program

/-- Append a matrix and a view of all of it; the answer is the index of the view. -/
def addMatrix (rows cols : Nat) : Action Program Nat := do
  if rows = 0 ∨ cols = 0 then
    throw (.failed (.emptyMatrix rows cols))
  let p ← get
  modify fun p =>
    { p with
      matrices := p.matrices ++ [⟨rows, cols⟩]
      subMatrices := p.subMatrices ++ [⟨p.numMatrices, .whole rows cols⟩] }
  return p.numSubMatrices

/-- Append a view of a region of a matrix. -/
def addSubMatrix (matrix : Nat) (g : Region) : Action Program Nat := do
  let p ← get
  let shape ← Action.ofExcept (p.matrix matrix)
  if g.isEmpty then
    throw (.failed (.emptyView matrix))
  if ¬g.FitsIn shape.numRows shape.numCols then
    throw (.regionOutOfBounds g shape.numRows shape.numCols)
  modify fun p => { p with subMatrices := p.subMatrices ++ [⟨matrix, g⟩] }
  return p.numSubMatrices

/-- Append a view of all rows of some columns of a matrix. -/
def addColumns (matrix colOffset numCols : Nat) : Action Program Nat := do
  let p ← get
  let shape ← Action.ofExcept (p.matrix matrix)
  addSubMatrix matrix ⟨0, shape.numRows, colOffset, numCols⟩

/-- Append a list of precomputed rows. -/
def addPrecomputed (rows : List Nat) : Action Program Nat := do
  let p ← get
  modify fun p => { p with precomputed := p.precomputed ++ [rows] }
  return p.precomputed.length

/-- Append a table of row indexes. -/
def addIndexes (rows : List (Option Nat)) : Action Program Nat := do
  let p ← get
  modify fun p => { p with indexes := p.indexes ++ [rows] }
  return p.indexes.length

/-- Append a table of rows of sub-matrices. -/
def addRowPairs (pairs : List (Option (Nat × Nat))) : Action Program Nat := do
  let p ← get
  modify fun p => { p with rowPairs := p.rowPairs ++ [pairs] }
  return p.rowPairs.length

/-- Append a table of ranges of rows. -/
def addRanges (ranges : List (Nat × Nat)) : Action Program Nat := do
  let p ← get
  modify fun p => { p with rowRanges := p.rowRanges ++ [ranges] }
  return p.rowRanges.length

/-- Append a command. -/
def addCommand (c : Command) : Action Program Nat := do
  let p ← get
  modify fun p => { p with commands := p.commands ++ [c] }
  return p.commands.length

/-- Record the position of the phase marker, or that there is none. -/
def setForwardEnd (position : Option Nat) : Action Program Unit :=
  modify fun p => { p with forwardEnd := position }

/-- Append a phase marker and record its position. -/
def addPhaseMarker : Action Program Nat := do
  let position ← addCommand .marker
  setForwardEnd (some position)
  return position

/-- Insert an entry into bindings with increasing nodes. -/
def insertBinding (node : Nat) (b : Binding) : List (Nat × Binding) → List (Nat × Binding)
  | [] => [(node, b)]
  | entry :: rest =>
      if node < entry.1 then
        (node, b) :: entry :: rest
      else
        entry :: insertBinding node b rest

/-- Bind a node to the matrices of its value and derivative. -/
def bind (node value : Nat) (deriv? : Option Nat) : Action Program Unit := do
  let p ← get
  if (p.binding? node).isSome then
    throw (.failed (.boundTwice node))
  modify fun p => { p with bindings := insertBinding node ⟨value, deriv?⟩ p.bindings }

end Program

/-- One step of building a program. -/
inductive BuildStep where
  | matrix (rows cols : Nat)
  | subMatrix (matrix : Nat) (region : Region)
  | columns (matrix colOffset numCols : Nat)
  | precomputed (rows : List Nat)
  | indexes (rows : List (Option Nat))
  | rowPairs (pairs : List (Option (Nat × Nat)))
  | rowRanges (ranges : List (Nat × Nat))
  | command (c : Command)
  | recordedMarker
  | forwardEnd (position : Option Nat)
  | bind (node value : Nat) (deriv? : Option Nat)
deriving DecidableEq, Repr

namespace BuildStep

/-- Carry out a step.  The answer is the index of what was appended, if anything was. -/
def run : BuildStep → Action Program (Option Nat)
  | .matrix rows cols => some <$> Program.addMatrix rows cols
  | .subMatrix m g => some <$> Program.addSubMatrix m g
  | .columns m colOffset numCols => some <$> Program.addColumns m colOffset numCols
  | .precomputed rows => some <$> Program.addPrecomputed rows
  | .indexes rows => some <$> Program.addIndexes rows
  | .rowPairs pairs => some <$> Program.addRowPairs pairs
  | .rowRanges ranges => some <$> Program.addRanges ranges
  | .command c => some <$> Program.addCommand c
  | .recordedMarker => some <$> Program.addPhaseMarker
  | .forwardEnd position => (fun _ => none) <$> Program.setForwardEnd position
  | .bind node value deriv? => (fun _ => none) <$> Program.bind node value deriv?

/-- The program after a list of steps, the failing ones included. -/
def runAll (steps : List BuildStep) (p : Program) : Program :=
  steps.foldl (fun p step => Action.finalState (step.run p)) p

end BuildStep

namespace Overflow

/-- Append a view of a region of a matrix, with sums of machine words. -/
def addSubMatrix (o : Overflow) (matrix : Nat) (g : Region) (p : Program) :
    Option (EStateM.Result Error Program (Option Nat)) :=
  match p.matrix matrix with
  | .error err => some (.error err p)
  | .ok shape =>
      if g.isEmpty then
        some (.error (.failed (.emptyView matrix)) p)
      else
        (o.checkFits g shape.numRows shape.numCols).map fun
          | .ok () =>
              .ok (some p.numSubMatrices) { p with subMatrices := p.subMatrices ++ [⟨matrix, g⟩] }
          | .error err => .error err p

/-- Append a view of all rows of some columns of a matrix, with sums of machine words. -/
def addColumns (o : Overflow) (matrix colOffset numCols : Nat) (p : Program) :
    Option (EStateM.Result Error Program (Option Nat)) :=
  match p.matrix matrix with
  | .error err => some (.error err p)
  | .ok shape => o.addSubMatrix matrix ⟨0, shape.numRows, colOffset, numCols⟩ p

/-- Carry out a step with sums of machine words. -/
def runStep (o : Overflow) (step : BuildStep) (p : Program) :
    Option (EStateM.Result Error Program (Option Nat)) :=
  match step with
  | .subMatrix m g => o.addSubMatrix m g p
  | .columns m colOffset numCols => o.addColumns m colOffset numCols p
  | step => some (step.run p)

/-- The program after a step.  A step that stops has changed nothing. -/
def next (o : Overflow) (p : Program) (step : BuildStep) : Program :=
  match o.runStep step p with
  | some r => Action.finalState r
  | none => p

/-- The program after a list of steps, those that fail or stop included. -/
def runSteps (o : Overflow) (steps : List BuildStep) (p : Program) : Program :=
  steps.foldl o.next p

end Overflow

namespace Program

/-- The program comes from the empty one by steps of the builder on numbers.  So does every program
made with machine words in which no end of a view has wrapped: `built_runSteps`. -/
def Built (p : Program) : Prop :=
  ∃ steps : List BuildStep, p = BuildStep.runAll steps .empty

end Program

end MatrixProgram
