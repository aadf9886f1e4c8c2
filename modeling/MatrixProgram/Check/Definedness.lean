import MatrixProgram.Analysis

/-!
# Defined values

Every variable must be used, and its first access must be a write unless its matrix is an
input.  For programs that no optimizer has changed, a variable must also not be written
after a pure read of it.
-/

namespace MatrixProgram

namespace Analysis

/-- The matrix of a variable is an input. -/
def isInput (a : Analysis) (m : Nat) : Bool :=
  ((a.matrixHistories[m]?).map (·.isInput)).getD false

/-- A variable must be used, and written first unless its matrix is an input. -/
def checkDefinedVariable (a : Analysis) (accesses : List Access) (var : Nat) :
    Except Error Unit := do
  let m ← a.partition.matrixOf var
  match accesses.head? with
  | none => throw (.undefined var m .neverUsed)
  | some first =>
    if first.kind ≠ .write ∧ a.isInput m = false then
      throw (.undefined var m (.readBeforeWritten first.command))

/-- Check that every variable is defined when it is read. -/
def checkDefined (a : Analysis) : Except Error Unit :=
  a.variableHistories.zipIdx.forM fun (accesses, var) => a.checkDefinedVariable accesses var

/-- Some access after the first pure read is not a pure read. -/
def changesAfterRead (accesses : List Access) : Bool :=
  (accesses.dropWhile fun access => access.kind != .read).any fun access =>
    access.kind != .read

/-- A variable must be used, and must not be written after a pure read. -/
def checkUnchangedVariable (a : Analysis) (accesses : List Access) (var : Nat) :
    Except Error Unit := do
  let m ← a.partition.matrixOf var
  if accesses = [] then
    throw (.undefined var m .neverUsed)
  if changesAfterRead accesses then
    throw (.changedAfterRead var m)

/-- Check that no variable changes after a pure read. -/
def checkUnchanged (a : Analysis) : Except Error Unit :=
  a.variableHistories.zipIdx.forM fun (accesses, var) => a.checkUnchangedVariable accesses var

end Analysis

end MatrixProgram
