import MatrixProgram.Check.Bindings
import MatrixProgram.Check.Definedness
import MatrixProgram.Check.Lifetime
import MatrixProgram.Check.Operands
import MatrixProgram.Check.Order

/-!
# Checking programs

A check is a fixed sequence of passes, and the first violation ends it: the operands of
commands, the bindings and the request, the analysis, the order of commands, the lifetime
of matrices, and defined values.  The last pass, that no variable changes after a pure
read, holds only for programs that no optimizer has changed, so it is optional.
-/

namespace MatrixProgram

/-- Check a program for a network and a request.  The answer is the analysis on which the
check rests. -/
def Program.check (p : Program) (net : Network) (r : Request) (unchangedAfterRead : Bool) :
    Except Error Analysis := do
  p.checkOperands net
  p.checkRequest net r
  let a ← p.analysis net
  p.checkOrder
  a.checkLifetimes
  a.checkDefined
  if unchangedAfterRead then
    a.checkUnchanged
  return a

/-- The program passes the check. -/
def Program.Accepted (p : Program) (net : Network) (r : Request)
    (unchangedAfterRead : Bool) : Prop :=
  ∃ a, p.check net r unchangedAfterRead = .ok a

end MatrixProgram
