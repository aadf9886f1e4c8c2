/-!
# Phases and calls of a machine

A machine is created, runs its forward commands, and may then run its backward
commands.  The names of the calls are part of the text of a misuse.
-/

namespace MatrixProgram

/-- Where a machine is in its sequence of calls. -/
inductive Phase where
  | created
  | forwardDone
  | backwardDone
deriving DecidableEq, Repr

/-- The name by which messages speak of a phase. -/
def Phase.name : Phase → String
  | .created => "Created"
  | .forwardDone => "ForwardDone"
  | .backwardDone => "BackwardDone"

/-- The calls that are restricted to certain phases. -/
inductive CallKind where
  | supplyInput
  | supplyOutputDeriv
  | forward
  | backward
  | readOutput
  | readInputDeriv
deriving DecidableEq, Repr

/-- The name by which messages speak of a call. -/
def CallKind.name : CallKind → String
  | .supplyInput => "accept_input"
  | .supplyOutputDeriv => "accept_output_deriv"
  | .forward => "forward"
  | .backward => "backward"
  | .readOutput => "get_output"
  | .readInputDeriv => "get_input_deriv"

/-- The phases in which a call is allowed. -/
def CallKind.allowedIn : CallKind → List Phase
  | .supplyInput => [.created]
  | .supplyOutputDeriv => [.created, .forwardDone]
  | .forward => [.created]
  | .backward => [.forwardDone]
  | .readOutput => [.forwardDone, .backwardDone]
  | .readInputDeriv => [.backwardDone]

end MatrixProgram
