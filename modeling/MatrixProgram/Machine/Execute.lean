import MatrixProgram.Analysis.Ascending
import MatrixProgram.Machine.State
import MatrixProgram.Program.Printer

/-!
# Executing commands

A command that computes writes one sub-matrix, or several of them one after the other.
`Machine.withViews` is the common scheme.  The buffer of the destination is taken out of its
slot, the operands are viewed, the window of the destination is changed, and the buffer goes
back.  An operand of the same matrix is viewed in a copy of the buffer, so a command that
reads the matrix it writes sees its old contents.

A failing command keeps what it has changed before it failed.
-/

namespace MatrixProgram

/-- A step of a machine. -/
abbrev MachineAction (α : Type) : Type :=
  Action MachineState α

namespace Machine

/-- An operand that must be present. -/
def required {rows cols : Nat} (role : Role) (operand : Option View)
    (w : View → Write rows cols) : Write rows cols :=
  match operand with
  | some v => w v
  | none => throw (.failed (.missingOperand role))

/-- Some of the sub-matrices view a matrix. -/
def viewsMatrix (p : Program) (subs : List Nat) (m : Nat) : Bool :=
  subs.any fun s => (p.subMatrix? s).any fun view => view.matrix == m

/-- The view of an operand while the slot of a matrix is empty: a sub-matrix of this matrix
is viewed in the copy, if one has been taken, and every other one in its slot. -/
def operandView (x : Machine) (slots : Slots) (m : Nat) (copy : Option Buffer) (s : Nat) :
    Except Error (Option View) :=
  match copy, x.program.subMatrix? s with
  | some b, some view =>
      if view.matrix = m then some <$> View.of b view.region else slots.view? x.program s
  | _, _ => slots.view? x.program s

/-- Change the window of a sub-matrix, given views of the sub-matrices that are read.  Its
matrix must be allocated.  A copy of the buffer is taken only if some operand needs it. -/
def withViews (x : Machine) (dst : Nat) (reads : List Nat)
    (w : List (Option View) → {rows cols : Nat} → Region → Write rows cols) :
    MachineAction Unit := fun s =>
  match x.program.subMatrix dst with
  | .error err => .error err s
  | .ok view =>
    match s.slots.entries[view.matrix]? with
    | none => .error (.failed (.slotIndex view.matrix)) s
    | some none => .error (.lifecycle view.matrix .writtenUnallocated) s
    | some (some b) =>
      let taken := s.slots.put view.matrix none
      let copy := if viewsMatrix x.program reads view.matrix then some b else none
      let change : Action Buffer Unit := do
        let views ← Action.ofExcept (reads.mapM (x.operandView taken view.matrix copy))
        Write.inWindow view.region (w views)
      -- On an error, too, the buffer goes back, with what the failing change has left.
      Action.mapState
        (fun b' => { s with slots := taken.put view.matrix (some b') }) (change b)

/-- Write a sub-matrix from a single source. -/
def writeFrom (x : Machine) (dst src : Nat) (role : Role)
    (w : View → {rows cols : Nat} → Region → Write rows cols) : MachineAction Unit :=
  x.withViews dst [src] fun views _ _ g => required role (views[0]?).join fun v => w v g

/-- Allocate a matrix with given contents. -/
def allocate (x : Machine) (m : Nat) (contents : Nat → Nat → Float32) :
    MachineAction Unit := do
  let shape ← Action.ofExcept (x.program.matrix m)
  modify fun s =>
    { s with
      slots := s.slots.put m (some (.ofFn shape.numRows shape.numCols contents)) }

/-- Release a matrix, whether or not it is allocated. -/
def release (index m : Nat) : MachineAction Unit := do
  let s ← get
  if m < s.slots.entries.length then
    set { s with slots := s.slots.put m none }
  else
    throw (.malformed (some index) (.freedMatrix m))

/-- The precomputed rows of a command. -/
def precomputedRows (x : Machine) (index : Nat) :
    Option Nat → Except Error (Option (List Nat))
  | none => .ok none
  | some table =>
      match x.program.precomputed[table]? with
      | some rows => .ok (some rows)
      | none => .error (.malformed (some index) (.precomputedIndex table))

/-- A table of a command, which must exist. -/
def tableAt {α : Type} (tables : List α) (table index : Nat) (kind : TableKind) :
    Except Error α :=
  match tables[table]? with
  | some rows => .ok rows
  | none => .error (.malformed (some index) (.missingTable kind))

/-- The output becomes the component's output for the input. -/
def propagate (x : Machine) (index c : Nat) (precomputed : Option Nat)
    (input output : Nat) : MachineAction Unit := do
  let component ← Action.ofExcept (x.network.component c)
  let rows ← Action.ofExcept (x.precomputedRows index precomputed)
  x.writeFrom output input .input fun v _ _ g => component.propagate rows v g

/-- Change the network to update; without one nothing happens. -/
def changeTarget (change : Network → MachineState → EStateM.Result Error Network Unit) :
    MachineAction Unit := fun s =>
  match s.target with
  | none => .ok () s
  | some net =>
      Action.mapState (fun net' => { s with target := some net' }) (change net s)

/-- The component of the network to update accumulates statistics of a value, if the
request asks for statistics. -/
def storeStats (x : Machine) (index c value : Nat) : MachineAction Unit :=
  if x.request.wantsStats then
    changeTarget fun net s =>
      match s.slots.view? x.program value with
      | .error err => .error err net
      | .ok none => .error (.malformed (some index) .statisticsOfEmpty) net
      | .ok (some v) => Network.changeComponent c (Component.storeStats v) net
  else
    return ()

/-- The component of the network to update takes the change that a backprop implies. -/
def updateTarget (x : Machine) (index c : Nat) (rows : Option (List Nat))
    (inValue outDeriv : Nat) : MachineAction Unit :=
  changeTarget fun net s =>
    match s.slots.view? x.program inValue, s.slots.view? x.program outDeriv with
    | .error err, _ => .error err net
    | .ok _, .error err => .error err net
    | .ok _, .ok none => .error (.malformed (some index) .backpropWithoutOutDeriv) net
    | .ok inView, .ok (some outView) =>
        Network.changeComponent c (Component.update rows inView outView) net

/-- The update of an updatable component, then the derivative of the input, if it is
wanted.  The update comes first because the backprop may overwrite its operands. -/
def backprop (x : Machine) (index c : Nat) (precomputed : Option Nat)
    (inValue outValue outDeriv inDeriv : Nat) : MachineAction Unit := do
  let component ← Action.ofExcept (x.network.component c)
  let rows ← Action.ofExcept (x.precomputedRows index precomputed)
  -- An in-place backprop overwrites the derivative that the update reads.
  if component.capabilities.updatable then
    x.updateTarget index c rows inValue outDeriv
  if inDeriv ≠ noSubMatrix then
    x.withViews inDeriv [inValue, outValue, outDeriv] fun views _ _ g =>
      required .outDeriv (views[2]?).join fun d =>
        component.backprop rows (views[0]?).join (views[1]?).join d g

/-- The sub-matrices that a table of row pairs names, in increasing order. -/
def pairSources (pairs : List (Option (Nat × Nat))) : List Nat :=
  Ascending.ofList ((pairs.filterMap id).map (·.1))

/-- Fill or add to one row of a window, as one entry of a table of row pairs says. -/
def gatherRow {rows cols : Nat} (index : Nat) (copies : Bool)
    (views : List (Nat × Option View)) (row : Nat) (g : Region) :
    Option (Nat × Nat) → Write rows cols
  | none => if copies then Kernel.clearRow row g else return ()
  | some (s, srcRow) =>
      match views.lookup s with
      | none => throw (.malformed (some index) (.unresolvedSubMatrix s))
      | some operand =>
          required .source operand fun v =>
            if copies then Kernel.copyRow row v srcRow g else Kernel.addRow row v srcRow 1 g

/-- The rows of the destination become, or have added, rows of several sub-matrices. -/
def gather (x : Machine) (index : Nat) (copies : Bool) (dst table : Nat) :
    MachineAction Unit := do
  let pairs ← Action.ofExcept (tableAt x.program.rowPairs table index .rowPairs)
  let sources := pairSources pairs
  x.withViews dst sources fun views _ _ g =>
    pairs.zipIdx.forM fun (pair, row) => gatherRow index copies (sources.zip views) row g pair

/-- One row of a window becomes, or has added, one row of a view. -/
def scatterRow {rows cols : Nat} (copies : Bool) (row : Nat) (v : View) (srcRow : Nat)
    (g : Region) : Write rows cols :=
  if copies then Kernel.copyRow row v srcRow g else Kernel.addRow row v srcRow 1 g

/-- Some entry of a table of row pairs names a sub-matrix of a matrix. -/
def namesMatrix (p : Program) (pairs : List (Option (Nat × Nat))) (m : Nat) : Bool :=
  viewsMatrix p ((pairs.filterMap id).map (·.1)) m

/-- Rows of several sub-matrices become, or have added, the rows of the source.  Every
row reads the source as it is before the command: when a target shares the matrix of the
source, from a copy of that matrix taken first. -/
def scatter (x : Machine) (index : Nat) (copies : Bool) (src table : Nat) :
    MachineAction Unit := do
  let pairs ← Action.ofExcept (tableAt x.program.rowPairs table index .rowPairs)
  let source ← Action.ofExcept (x.program.subMatrix src)
  if namesMatrix x.program pairs source.matrix then
    -- The copy: `b` is the buffer from before the first row is written.
    let s ← get
    let b ← Action.ofExcept (s.slots.read source.matrix)
    pairs.zipIdx.forM fun (pair, row) =>
      match pair with
      | none => return ()
      | some (dst, dstRow) => do
          let v ← Action.ofExcept (View.of b source.region)
          x.withViews dst [] fun _ _ _ g => scatterRow copies dstRow v row g
  else
    pairs.zipIdx.forM fun (pair, row) =>
      match pair with
      | none => return ()
      | some (dst, dstRow) =>
          x.writeFrom dst src .source fun v _ _ g => scatterRow copies dstRow v row g

/-- Carry out a command. -/
def perform (x : Machine) (index : Nat) : Command → MachineAction Unit
  | .allocZeroed m => x.allocate m fun _ _ => 0
  | .allocUndefined m => x.allocate m (x.undefinedContents m)
  | .release m => release index m
  | .propagate c precomputed input output => x.propagate index c precomputed input output
  | .storeStats c value => x.storeStats index c value
  | .backprop _ c precomputed inValue outValue outDeriv inDeriv =>
      x.backprop index c precomputed inValue outValue outDeriv inDeriv
  | .copy dst src => x.writeFrom dst src .source fun v _ _ g => Kernel.copy v g
  | .add dst src => x.writeFrom dst src .source fun v _ _ g => Kernel.add v 1 g
  | .gatherCopy dst src table => do
      let rows ← Action.ofExcept (tableAt x.program.indexes table index .indexes)
      x.writeFrom dst src .source fun v _ _ g => Kernel.gatherCopy v rows g
  | .gatherAdd dst src table => do
      let rows ← Action.ofExcept (tableAt x.program.indexes table index .indexes)
      x.writeFrom dst src .source fun v _ _ g => Kernel.gatherAdd v 1 rows g
  | .gatherCopyMany dst table => x.gather index true dst table
  | .gatherAddMany dst table => x.gather index false dst table
  | .scatterCopy src table => x.scatter index true src table
  | .scatterAdd src table => x.scatter index false src table
  | .sumRanges dst src table => do
      let ranges ← Action.ofExcept (tableAt x.program.rowRanges table index .rowRanges)
      x.writeFrom dst src .source fun v _ _ g => Kernel.addRanges v ranges g
  | .skip => return ()
  | .marker => return ()

/-- What the journal notes of a command that has been carried out. -/
def journalEntry (x : Machine) (index : Nat) (c : Command) (slots : Slots) :
    Except Error JournalEntry := do
  let statement := x.program.statement x.network c
  match c.written? with
  | none => return ⟨index, statement, none⟩
  | some s =>
      let v ← slots.view? x.program s
      return ⟨index, statement, some ((v.map View.sum).getD 0)⟩

/-- Carry out a command and note it in the journal of a machine that traces. -/
def execute (x : Machine) (index : Nat) (c : Command) : MachineAction Unit := do
  x.perform index c
  if x.traces then
    let s ← get
    let entry ← Action.ofExcept (x.journalEntry index c s.slots)
    set { s with journal := s.journal ++ [entry] }

/-- Carry out commands, given with their positions, one after the other. -/
def executeAll (x : Machine) (commands : List (Command × Nat)) : MachineAction Unit :=
  commands.forM fun (c, index) => x.execute index c

end Machine

end MatrixProgram
