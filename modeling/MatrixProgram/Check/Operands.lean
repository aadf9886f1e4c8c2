import MatrixProgram.Network
import MatrixProgram.Program.Basic

/-!
# The operands of commands

Every operand must exist, widths must agree with the component, row counts must agree,
the same sub-matrix may be read and written only where that is supported, and a
scattering command must not name one target twice.  The conditions of a command are
tried in a fixed order, so the first broken one is the answer.
-/

namespace MatrixProgram

/-- A condition on the operands of a command. -/
def demand (p : Prop) [Decidable p] (cause : Malformation) : Except Malformation Unit :=
  if p then .ok () else .error cause

/-- A condition is met exactly when its proposition holds. -/
theorem demand_eq_ok_iff {p : Prop} [Decidable p] {cause : Malformation} {u : Unit} :
    demand p cause = .ok u ↔ p := by
  unfold demand
  by_cases h : p <;> simp [h]

namespace Program

/-- The sub-matrix of an operand that must be present. -/
def operand (p : Program) (role : Role) (s : Nat) : Except Malformation SubMatrix :=
  match p.subMatrix s with
  | .ok view => .ok view
  | .error _ => .error (.operandIndex role s)

/-- The sub-matrix of an operand that may be absent. -/
def optionalOperand (p : Program) (role : Role) (s : Nat) :
    Except Malformation (Option SubMatrix) :=
  if s = noSubMatrix then .ok none else some <$> p.operand role s

/-- The component of a command, which must exist. -/
def checkedComponent (net : Network) (c : Nat) : Except Malformation Component :=
  match net.component c with
  | .ok component => .ok component
  | .error _ => .error (.componentIndex c)

/-- Precomputed rows must exist, and are not for simple components. -/
def checkPrecomputed (p : Program) (caps : Capabilities) :
    Option Nat → Except Malformation Unit
  | none => .ok ()
  | some table => do
      demand (table < p.precomputed.length) (.precomputedIndex table)
      demand (caps.simple = false) .precomputedForSimple

/-- The conditions of a propagation. -/
def checkPropagate (p : Program) (net : Network) (c : Nat) (precomputed : Option Nat)
    (input output : Nat) : Except Malformation Unit := do
  let component ← checkedComponent net c
  let caps := component.capabilities
  p.checkPrecomputed caps precomputed
  let inView ← p.operand .input input
  let outView ← p.operand .output output
  demand (inView.region.numCols = component.inputDim)
    (.inputWidth inView.region.numCols component.typeName component.inputDim)
  demand (outView.region.numCols = component.outputDim)
    (.outputWidth outView.region.numCols component.typeName component.outputDim)
  demand (caps.simple = true → inView.region.numRows = outView.region.numRows)
    .simpleRowCount
  demand (input = output → caps.propagateInPlace = true)
    (.inPlacePropagate component.typeName)

/-- The conditions of storing statistics. -/
def checkStoreStats (p : Program) (net : Network) (c value : Nat) :
    Except Malformation Unit := do
  let component ← checkedComponent net c
  demand (component.capabilities.storesStats = true) (.noStatistics component.typeName)
  let view ← p.operand .value value
  demand (view.region.numCols = component.outputDim) .statisticsWidth

/-- The node of a backprop must be an application of its component. -/
def checkBackpropNode (net : Network) (node c : Nat) : Except Malformation Unit :=
  match net.node node with
  | none => .error (.nodeIndex node)
  | some n => demand (n.kind = .component c) (.nodeOfOtherComponent n.name c)

/-- An operand that is present must have a given width. -/
def checkWidth (role : Role) (dim : Nat) : Option SubMatrix → Except Malformation Unit
  | none => .ok ()
  | some view =>
      demand (view.region.numCols = dim) (.operandWidth role view.region.numCols dim)

/-- Two operands that are both present must have equally many rows. -/
def checkRowCounts (first second : Role) :
    Option SubMatrix → Option SubMatrix → Except Malformation Unit
  | some a, some b =>
      demand (a.region.numRows = b.region.numRows) (.rowCounts first second)
  | _, _ => .ok ()

/-- The conditions of a backprop. -/
def checkBackprop (p : Program) (net : Network) (node c : Nat) (precomputed : Option Nat)
    (inValue outValue outDeriv inDeriv : Nat) : Except Malformation Unit := do
  let component ← checkedComponent net c
  checkBackpropNode net node c
  let caps := component.capabilities
  p.checkPrecomputed caps precomputed
  let inValueView ← p.optionalOperand .inValue inValue
  let outValueView ← p.optionalOperand .outValue outValue
  let outDerivView ← p.operand .outDeriv outDeriv
  let inDerivView ← p.optionalOperand .inDeriv inDeriv
  demand (caps.backpropNeedsInput = true → inValueView ≠ none) .inputValueNeeded
  demand (caps.backpropNeedsOutput = true → outValueView ≠ none) .outputValueNeeded
  demand (inDerivView = none → caps.updatable = true) .backpropWithoutEffect
  demand (outDeriv = inDeriv → caps.backpropInPlace = true)
    (.inPlaceBackprop component.typeName)
  checkWidth .inValue component.inputDim inValueView
  checkWidth .outValue component.outputDim outValueView
  checkWidth .outDeriv component.outputDim (some outDerivView)
  checkWidth .inDeriv component.inputDim inDerivView
  checkRowCounts .inValue .inDeriv inValueView inDerivView
  checkRowCounts .outValue .outDeriv outValueView (some outDerivView)
  -- Other components may select rows, so only simple ones relate output to input rows.
  if caps.simple then
    checkRowCounts .outDeriv .inDeriv (some outDerivView) inDerivView

/-- The conditions of copying or adding a sub-matrix. -/
def checkCopy (p : Program) (dst src : Nat) : Except Malformation Unit := do
  let d ← p.operand .destination dst
  let s ← p.operand .source src
  demand (d.region.shape = s.region.shape) (.copyShapes d.region.shape s.region.shape)
  demand (dst ≠ src) .copyToItself

/-- The conditions of gathering rows of one source. -/
def checkGather (p : Program) (dst src table : Nat) : Except Malformation Unit := do
  let d ← p.operand .destination dst
  let s ← p.operand .source src
  match p.indexes[table]? with
  | none => throw (.tableIndex .indexes table)
  | some rows =>
    demand (rows.length = d.region.numRows) (.indexCount rows.length d.region.numRows)
    demand (d.region.numCols = s.region.numCols) .gatherWidth
    (rows.filterMap id).forM fun row =>
      demand (row < s.region.numRows) (.sourceRow row s.region.numRows)
    demand (dst ≠ src) .gatherFromItself

/-- The conditions of one entry of a table of row pairs, for a command whose own
sub-matrix is `own`. -/
def checkPair (p : Program) (own : Nat) (ownView : SubMatrix) (s row : Nat) :
    Except Malformation Unit := do
  let other ← p.operand .rowPair s
  demand (row < other.region.numRows) (.pairRow row s)
  demand (s ≠ own) .pairOfItself
  demand (other.region.numCols = ownView.region.numCols)
    (.pairWidth s other.region.numCols ownView.region.numCols)

/-- One pair stands before another: by sub-matrix, then by row. -/
def pairBefore (a b : Nat × Nat) : Bool :=
  a.1 < b.1 || (a.1 == b.1 && a.2 < b.2)

/-- The first of a list of pairs, in the order of `pairBefore`. -/
def firstPair : List (Nat × Nat) → Option (Nat × Nat)
  | [] => none
  | a :: rest =>
      match firstPair rest with
      | none => some a
      | some b => if pairBefore b a then some b else some a

/-- The first pair that occurs more than once. -/
def firstRepeated (pairs : List (Nat × Nat)) : Option (Nat × Nat) :=
  firstPair (pairs.filter fun pair => 1 < pairs.count pair)

/-- Only an empty list has no first pair. -/
theorem firstPair_eq_none_iff {pairs : List (Nat × Nat)} :
    firstPair pairs = none ↔ pairs = [] := by
  cases pairs with
  | nil => simp [firstPair]
  | cons a rest =>
      simp only [firstPair]
      split
      · simp
      · split <;> simp

/-- No pair is repeated exactly when the pairs are distinct. -/
theorem firstRepeated_eq_none_iff {pairs : List (Nat × Nat)} :
    firstRepeated pairs = none ↔ pairs.Nodup := by
  rw [firstRepeated, firstPair_eq_none_iff, List.filter_eq_nil_iff, List.nodup_iff_count]
  constructor
  · intro h a
    by_cases hMem : a ∈ pairs
    · have hNot := h a hMem
      simp only [decide_eq_true_eq] at hNot
      omega
    · rw [List.count_eq_zero.mpr hMem]
      omega
  · intro h a _
    have hCount := h a
    simp only [decide_eq_true_eq]
    omega

/-- The conditions of gathering from, or scattering to, rows of several sub-matrices. -/
def checkRowPairs (p : Program) (own table : Nat) (scatters : Bool) :
    Except Malformation Unit := do
  let ownView ← p.operand .matrix own
  match p.rowPairs[table]? with
  | none => throw (.tableIndex .rowPairs table)
  | some pairs =>
    demand (pairs.length = ownView.region.numRows)
      (.pairCount pairs.length ownView.region.numRows)
    (pairs.filterMap id).forM fun (s, row) => p.checkPair own ownView s row
    if scatters then
      match firstRepeated (pairs.filterMap id) with
      | some (s, row) => throw (.repeatedTarget s row)
      | none => return ()

/-- The conditions of adding ranges of rows. -/
def checkRowRanges (p : Program) (dst src table : Nat) : Except Malformation Unit := do
  let d ← p.operand .destination dst
  let s ← p.operand .source src
  match p.rowRanges[table]? with
  | none => throw (.tableIndex .rowRanges table)
  | some ranges =>
    demand (ranges.length = d.region.numRows) .rangeCount
    demand (d.region.numCols = s.region.numCols) .rangeWidth
    ranges.forM fun (first, past) =>
      demand (first ≤ past ∧ past ≤ s.region.numRows)
        (.rangeBounds first past s.region.numRows)
    demand (dst ≠ src) .rangeOfItself

/-- A matrix that is allocated or released must exist. -/
def checkResize (p : Program) (m : Nat) : Except Malformation Unit :=
  demand (m ≠ 0 ∧ m < p.numMatrices) (.matrixIndex m)

/-- The conditions of a command on its operands. -/
def checkCommand (p : Program) (net : Network) : Command → Except Malformation Unit
  | .allocZeroed m => p.checkResize m
  | .allocUndefined m => p.checkResize m
  | .release m => p.checkResize m
  | .propagate c precomputed input output =>
      p.checkPropagate net c precomputed input output
  | .storeStats c value => p.checkStoreStats net c value
  | .backprop node c precomputed inValue outValue outDeriv inDeriv =>
      p.checkBackprop net node c precomputed inValue outValue outDeriv inDeriv
  | .copy dst src => p.checkCopy dst src
  | .add dst src => p.checkCopy dst src
  | .gatherAdd dst src table => p.checkGather dst src table
  | .gatherCopy dst src table => p.checkGather dst src table
  | .gatherAddMany dst table => p.checkRowPairs dst table false
  | .gatherCopyMany dst table => p.checkRowPairs dst table false
  | .scatterAdd src table => p.checkRowPairs src table true
  | .scatterCopy src table => p.checkRowPairs src table true
  | .sumRanges dst src table => p.checkRowRanges dst src table
  | .skip => .ok ()
  | .marker => .ok ()

/-- Check the operands of every command. -/
def checkOperands (p : Program) (net : Network) : Except Error Unit :=
  p.commands.zipIdx.forM fun (c, index) =>
    (p.checkCommand net c).mapError (.malformed (some index))

end Program

end MatrixProgram
