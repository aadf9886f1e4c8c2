import MatrixProgram.Region
import MatrixProgram.Phase

/-!
# Errors and their wording

An error is a cause: which rule of which family was broken, and by which command,
matrix, variable or name.  All wording is in the `message` functions of this file,
so the rest of the library never builds text to report a failure.

The families are malformed programs, a misplaced phase marker, the lifetime of
matrices, values that are undefined or change after they were read, misuse of a
machine, disagreeing shapes, views outside their matrix, and the failures of
single operations on storage, networks and requests.
-/

namespace MatrixProgram

/-- The part a sub-matrix plays in a command. -/
inductive Role where
  | input
  | output
  | value
  | inValue
  | outValue
  | outDeriv
  | inDeriv
  | destination
  | source
  | matrix
  | rowPair
deriving DecidableEq, Repr

/-- The name by which messages speak of a role. -/
def Role.name : Role → String
  | .input => "input"
  | .output => "output"
  | .value => "value"
  | .inValue => "in-value"
  | .outValue => "out-value"
  | .outDeriv => "out-deriv"
  | .inDeriv => "in-deriv"
  | .destination => "destination"
  | .source => "source"
  | .matrix => "matrix"
  | .rowPair => "indexes_multi"

/-- The tables of row indexes that commands refer to. -/
inductive TableKind where
  | indexes
  | rowPairs
  | rowRanges
deriving DecidableEq, Repr

/-- The name by which messages speak of a table. -/
def TableKind.name : TableKind → String
  | .indexes => "indexes"
  | .rowPairs => "indexes_multi"
  | .rowRanges => "indexes_ranges"

/-- Whether a matrix or a name is meant on the input or on the output side. -/
inductive Side where
  | input
  | output
deriving DecidableEq, Repr

/-- The name by which messages speak of a side. -/
def Side.name : Side → String
  | .input => "input"
  | .output => "output"

/-- What is wrong with an operand, a table, a binding or a view. -/
inductive Malformation where
  | matrixIndex (matrix : Nat)
  | componentIndex (component : Nat)
  | precomputedIndex (table : Nat)
  | precomputedForSimple
  | operandIndex (role : Role) (subMatrix : Nat)
  | inputWidth (cols : Nat) (typeName : String) (dim : Nat)
  | outputWidth (cols : Nat) (typeName : String) (dim : Nat)
  | simpleRowCount
  | inPlacePropagate (typeName : String)
  | noStatistics (typeName : String)
  | statisticsWidth
  | nodeIndex (node : Nat)
  | nodeOfOtherComponent (name : String) (component : Nat)
  | inputValueNeeded
  | outputValueNeeded
  | backpropWithoutEffect
  | inPlaceBackprop (typeName : String)
  | operandWidth (role : Role) (cols dim : Nat)
  | rowCounts (first second : Role)
  | copyShapes (destination source : Shape)
  | copyToItself
  | tableIndex (kind : TableKind) (table : Nat)
  | indexCount (count rows : Nat)
  | gatherWidth
  | sourceRow (row rows : Nat)
  | gatherFromItself
  | pairCount (count rows : Nat)
  | pairRow (row subMatrix : Nat)
  | pairOfItself
  | pairWidth (subMatrix cols expected : Nat)
  | repeatedTarget (subMatrix row : Nat)
  | rangeCount
  | rangeWidth
  | rangeBounds (first past rows : Nat)
  | rangeOfItself
  | emptyMatrix
  | matrixCount (matrix count : Nat)
  | emptySubMatrix
  | subMatrixCount (subMatrix count : Nat)
  | boundMatrix (node matrix : Nat)
  | requestedNode (name : String)
  | requestedSide (name : String) (side : Side)
  | requestedUnbound (name : String)
  | requestedRows (name : String) (wanted matrix rows : Nat)
  | requestedDerivative (name : String)
  | viewOfNoMatrix (subMatrix matrix : Nat)
  | viewPastColumns (subMatrix matrix : Nat)
  | misaligned (subMatrix col : Nat)
  | coversNoColumns (subMatrix : Nat)
  | accessedTable (kind : TableKind)
  | resizeOfEmpty
  | boundNodeKind (node : Nat)
  | markedMatrix (matrix : Nat)
  | markedTwice (matrix : Nat) (side : Side)
  | missingTable (kind : TableKind)
  | freedMatrix (matrix : Nat)
  | statisticsOfEmpty
  | backpropWithoutOutDeriv
  | unresolvedSubMatrix (subMatrix : Nat)
deriving DecidableEq, Repr

/-- What is wrong with the phase marker or with a command's place around it. -/
inductive OrderViolation where
  | noMarker
  | severalMarkers (markers : List Nat)
  | markerNotRecorded (marker : Nat) (recorded : Option Nat)
  | backpropBeforeMarker
  | propagateAfterMarker
  | statisticsAfterMarker
  | markerUnrecorded
  | markerPastEnd
deriving DecidableEq, Repr

/-- What is wrong with the time between a matrix's allocation and its release. -/
inductive LifecycleViolation where
  | allocatedTwice (first second : Nat)
  | releasedTwice (first second : Nat)
  | inputAllocated (command : Nat)
  | neverAllocated
  | neverAccessed
  | accessedBeforeAllocation (access allocation : Nat)
  | outputReleased (command : Nat)
  | neverReleased
  | accessedAfterRelease (access release : Nat)
  | releasedBeforeAllocation (release allocation : Nat)
  | writtenUnallocated
  | readUnallocated
deriving DecidableEq, Repr

/-- Why the contents of a variable are not defined. -/
inductive UndefinedUse where
  | neverUsed
  | readBeforeWritten (command : Nat)
deriving DecidableEq, Repr

/-- A call of a machine that its phase, its request or its bindings forbid. -/
inductive Misuse where
  | outOfPhase (call : CallKind) (phase : Phase)
  | notRequested (name : String) (side : Side)
  | derivativeNotRequested (name : String) (side : Side)
  | noNode (name : String)
  | notBound (name : String)
  | noDerivativeMatrix (name : String)
  | inputNotSupplied (name : String)
  | outputDerivNotSupplied (name : String)
  | noUpdateTarget (command : Nat)
deriving DecidableEq, Repr

/-- The failure of one operation on a region, a buffer, a component, a network, a
request, a program under construction or a table of an analysis. -/
inductive Failure where
  | narrowRows (start len rows : Nat)
  | narrowCols (start len cols : Nat)
  | elementCount (rows cols given : Nat)
  | rowIndex (row rows : Nat)
  | rowRange (first past rows : Nat)
  | productShapes (left right : Shape)
  | updateWithoutInput
  | backpropWithoutOutput (function : String)
  | precomputedMissing
  | precomputedCount (given rows : Nat)
  | declaredOnly (text : String)
  | componentNamedTwice (name : String)
  | nodeNamedTwice (name : String)
  | nodeComponent (component count : Nat)
  | componentIndex (component : Nat)
  | componentCount (component count : Nat)
  | emptyMatrix (rows cols : Nat)
  | emptyView (matrix : Nat)
  | boundTwice (node : Nat)
  | requestedTwice (side : Side) (name : String)
  | noDerivativeSupplied
  | variableIndex (var : Nat)
  | unknownCommand (command : Nat)
  | slotIndex (matrix : Nat)
  | missingOperand (role : Role)
deriving DecidableEq, Repr

/-- An error with its cause and the command, matrix or variable at fault. -/
inductive Error where
  | malformed (command : Option Nat) (cause : Malformation)
  | ordering (command : Option Nat) (cause : OrderViolation)
  | lifecycle (matrix : Nat) (cause : LifecycleViolation)
  | undefined (var matrix : Nat) (cause : UndefinedUse)
  | changedAfterRead (var matrix : Nat)
  | usage (cause : Misuse)
  | shapeMismatch (expected got : Shape)
  | regionOutOfBounds (region : Region) (rows cols : Nat)
  | failed (cause : Failure)
deriving DecidableEq, Repr

/-- A shape in messages: its two extents in parentheses. -/
def Shape.text (s : Shape) : String :=
  s!"({s.numRows}, {s.numCols})"

/-- A list of command indexes in messages. -/
def commandListText (commands : List Nat) : String :=
  "[" ++ ", ".intercalate (commands.map toString) ++ "]"

/-- A command index that may be absent, in messages. -/
def recordedText : Option Nat → String
  | none => "None"
  | some command => s!"Some({command})"

/-- The wording of a malformation. -/
def Malformation.message : Malformation → String
  | .matrixIndex m => s!"matrix index {m} out of range"
  | .componentIndex c => s!"component index {c} out of range"
  | .precomputedIndex p => s!"precomputed-indexes index {p} out of range"
  | .precomputedForSimple => "precomputed indexes given for a simple component"
  | .operandIndex role s => s!"{role.name} sub-matrix index {s} out of range"
  | .inputWidth cols typeName dim =>
      s!"input-dim mismatch: sub-matrix has {cols} columns, {typeName} expects {dim}"
  | .outputWidth cols typeName dim =>
      s!"output-dim mismatch: sub-matrix has {cols} columns, {typeName} produces {dim}"
  | .simpleRowCount => "num-rows mismatch for simple component"
  | .inPlacePropagate typeName => s!"in-place propagation not supported by {typeName}"
  | .noStatistics typeName => s!"StoreStats on {typeName}, which stores no statistics"
  | .statisticsWidth => "dimension mismatch in StoreStats"
  | .nodeIndex n => s!"node index {n} out of range"
  | .nodeOfOtherComponent name c => s!"node '{name}' is not a node of component {c}"
  | .inputValueNeeded => "backprop input value needed but not supplied"
  | .outputValueNeeded => "backprop output value needed but not supplied"
  | .backpropWithoutEffect => "backprop is done but has no effect"
  | .inPlaceBackprop typeName => s!"in-place backprop not supported by {typeName}"
  | .operandWidth role cols dim => s!"{role.name} has {cols} columns, expected {dim}"
  | .rowCounts first second =>
      s!"num-rows mismatch between {first.name} and {second.name}"
  | .copyShapes destination source =>
      s!"dimension mismatch in copy/add: {destination.text} vs {source.text}"
  | .copyToItself => "adding or copying a sub-matrix to itself"
  | .tableIndex kind t => s!"{kind.name} table {t} out of range"
  | .indexCount count rows => s!"{count} indexes for a destination of {rows} rows"
  | .gatherWidth => "dimension mismatch in add-rows/copy-rows"
  | .sourceRow row rows => s!"row index {row} out of range for a source of {rows} rows"
  | .gatherFromItself => "copying rows of a sub-matrix to itself"
  | .pairCount count rows => s!"{count} pairs for a sub-matrix of {rows} rows"
  | .pairRow row s => s!"row {row} out of range in sub-matrix {s}"
  | .pairOfItself => "multi-row command refers to itself"
  | .pairWidth s cols expected => s!"sub-matrix {s} has {cols} columns, expected {expected}"
  | .repeatedTarget s row => s!"duplicate destination ({s}, {row}) in to-rows-multi command"
  | .rangeCount => "num-rows mismatch in add-row-ranges"
  | .rangeWidth => "dimension mismatch in add-row-ranges"
  | .rangeBounds first past rows =>
      s!"row range {first}:{past} out of range for a source of {rows} rows"
  | .rangeOfItself => "summing row ranges of a sub-matrix into itself"
  | .emptyMatrix => "the empty matrix m0 cannot be used as storage"
  | .matrixCount m count => s!"matrix index {m} out of range ({count} matrices)"
  | .emptySubMatrix => "the empty sub-matrix cannot be accessed"
  | .subMatrixCount s count => s!"sub-matrix index {s} out of range ({count} sub-matrices)"
  | .boundMatrix node m => s!"node {node} is bound to invalid matrix {m}"
  | .requestedNode name => s!"no node named '{name}'"
  | .requestedSide name side => s!"'{name}' is not an {side.name} node"
  | .requestedUnbound name => s!"'{name}' has no matrix binding"
  | .requestedRows name wanted m rows =>
      s!"'{name}' requests {wanted} rows but m{m} has {rows}"
  | .requestedDerivative name =>
      s!"a derivative is requested for '{name}' but none is bound"
  | .viewOfNoMatrix s m => s!"sub-matrix {s} refers to invalid matrix {m}"
  | .viewPastColumns s m => s!"sub-matrix {s} exceeds the columns of m{m}"
  | .misaligned s col => s!"sub-matrix {s}: column {col} is not a split point"
  | .coversNoColumns s => s!"sub-matrix {s} covers no columns"
  | .accessedTable kind => s!"{kind.name} out of range"
  | .resizeOfEmpty => "resize of the empty matrix m0"
  | .boundNodeKind node => s!"bound node {node} is neither an input nor an output node"
  | .markedMatrix m => s!"input/output binding names invalid matrix {m}"
  | .markedTwice m side => s!"matrix m{m} is marked as {side.name} more than once"
  | .missingTable kind => s!"{kind.name} table out of range"
  | .freedMatrix m => s!"no matrix m{m}"
  | .statisticsOfEmpty => "StoreStats of the empty matrix"
  | .backpropWithoutOutDeriv => "backprop without out-deriv"
  | .unresolvedSubMatrix s => s!"unresolved sub-matrix {s}"

/-- The wording of an order violation. -/
def OrderViolation.message : OrderViolation → String
  | .noMarker => "no phase marker found"
  | .severalMarkers markers =>
      let count := markers.length
      let commands := commandListText markers
      s!"found {count} phase markers, at commands {commands}"
  | .markerNotRecorded marker recorded =>
      let recordedEnd := recordedText recorded
      s!"phase marker is at command {marker} but the recorded end of the forward " ++
        s!"computation is {recordedEnd}"
  | .backpropBeforeMarker => "backprop occurs before the phase marker"
  | .propagateAfterMarker => "propagate occurs after the phase marker"
  | .statisticsAfterMarker => "store-stats occurs after the phase marker"
  | .markerUnrecorded => "computation has no phase marker"
  | .markerPastEnd => "phase marker position is past the last command"

/-- The wording of a lifecycle violation. -/
def LifecycleViolation.message : LifecycleViolation → String
  | .allocatedTwice first second => s!"allocated twice (commands {first} and {second})"
  | .releasedTwice first second => s!"deallocated twice (commands {first} and {second})"
  | .inputAllocated command => s!"input matrix is allocated by command {command}"
  | .neverAllocated => "matrix is never allocated"
  | .neverAccessed => "matrix is never accessed"
  | .accessedBeforeAllocation access allocation =>
      s!"accessed at command {access} before it is allocated at command {allocation}"
  | .outputReleased command => s!"output matrix is deallocated by command {command}"
  | .neverReleased => "matrix is never deallocated"
  | .accessedAfterRelease access release =>
      s!"accessed at command {access} after it is deallocated at command {release}"
  | .releasedBeforeAllocation release allocation =>
      s!"deallocated at command {release} before allocation at {allocation}"
  | .writtenUnallocated => "written while not allocated"
  | .readUnallocated => "read while not allocated"

/-- The wording of an undefined use. -/
def UndefinedUse.message : UndefinedUse → String
  | .neverUsed => "is never used"
  | .readBeforeWritten command =>
      s!"is read at command {command} before it is written to"

/-- The wording of a misuse. -/
def Misuse.message : Misuse → String
  | .outOfPhase call phase => s!"{call.name}() called in state {phase.name}"
  | .notRequested name side => s!"'{name}' is not an {side.name} of the request"
  | .derivativeNotRequested name side =>
      s!"no derivative was requested for {side.name} '{name}'"
  | .noNode name => s!"the network has no node named '{name}'"
  | .notBound name => s!"node '{name}' is not bound to a matrix"
  | .noDerivativeMatrix name => s!"node '{name}' has no derivative matrix"
  | .inputNotSupplied name => s!"input '{name}' was not supplied before forward()"
  | .outputDerivNotSupplied name =>
      s!"derivative of output '{name}' was not supplied before backward()"
  | .noUpdateTarget command =>
      s!"command {command} updates a component but no network to update was supplied"

/-- The wording of a failed operation. -/
def Failure.message : Failure → String
  | .narrowRows start len rows =>
      s!"narrow rows out of bounds: start {start}, len {len}, rows {rows}"
  | .narrowCols start len cols =>
      s!"narrow cols out of bounds: start {start}, len {len}, cols {cols}"
  | .elementCount rows cols given =>
      let needed := rows * cols
      s!"element count mismatch: {rows}x{cols} requires {needed} elements, got {given}"
  | .rowIndex row rows => s!"row {row} out of range for a view with {rows} rows"
  | .rowRange first past rows =>
      s!"row range {first}:{past} out of range for {rows} source rows"
  | .productShapes left right =>
      s!"gemm shape mismatch: [{left.numRows}x{left.numCols}] @ " ++
        s!"[{right.numRows}x{right.numCols}], inner dims must match"
  | .updateWithoutInput => "AffineComponent::update requires the input value"
  | .backpropWithoutOutput function => s!"{function} backprop requires the output value"
  | .precomputedMissing => "RowSelectComponent requires precomputed indexes"
  | .precomputedCount given rows =>
      s!"RowSelectComponent: {given} precomputed rows for {rows} output rows"
  | .declaredOnly text => text
  | .componentNamedTwice name => s!"duplicate component name '{name}'"
  | .nodeNamedTwice name => s!"duplicate node name '{name}'"
  | .nodeComponent component count =>
      s!"component node refers to component {component}, but there are {count}"
  | .componentIndex component => s!"component index {component} out of range"
  | .componentCount component count =>
      s!"component index {component} out of range ({count} components)"
  | .emptyMatrix rows cols => s!"cannot create an empty {rows}x{cols} matrix"
  | .emptyView matrix => s!"empty sub-matrix of m{matrix} requested"
  | .boundTwice node => s!"node {node} is bound twice"
  | .requestedTwice side name =>
      s!"{side.name} '{name}' appears twice in the computation request"
  | .noDerivativeSupplied =>
      "model or input derivatives were requested, but no output provides a derivative"
  | .variableIndex var => s!"variable {var} out of range"
  | .unknownCommand command => s!"attributes for unknown command {command}"
  | .slotIndex matrix => s!"matrix m{matrix} out of range"
  | .missingOperand role => s!"missing {role.name} operand"

/-- The place of a command in a message, if there is one. -/
def atCommandText : Option Nat → String
  | none => ""
  | some command => s!" at command {command}"

/-- The full wording of an error: the family, the culprit, then the cause. -/
def Error.message : Error → String
  | .malformed command cause =>
      "malformed computation" ++ atCommandText command ++ ": " ++ cause.message
  | .ordering command cause =>
      "ordering violation" ++ atCommandText command ++ ": " ++ cause.message
  | .lifecycle matrix cause =>
      s!"lifecycle violation on matrix m{matrix}: " ++ cause.message
  | .undefined var matrix cause =>
      s!"undefined variable {var} (part of matrix m{matrix}): " ++ cause.message
  | .changedAfterRead var matrix =>
      s!"variable {var} (part of matrix m{matrix}) is modified after being read " ++
        "(this is not expected before optimization)"
  | .usage cause => "usage error: " ++ cause.message
  | .shapeMismatch expected got =>
      "shape mismatch: expected " ++ expected.text ++ ", got " ++ got.text
  | .regionOutOfBounds g rows cols =>
      s!"region rows {g.rowOffset}+{g.numRows}, cols {g.colOffset}+{g.numCols} " ++
        s!"out of bounds for a {rows}x{cols} matrix"
  | .failed cause => cause.message

end MatrixProgram
