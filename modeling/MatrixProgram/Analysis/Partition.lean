import MatrixProgram.Analysis.Ascending
import MatrixProgram.Overflow
import MatrixProgram.Program.Basic

/-!
# The partition of columns into variables

Two commands on disjoint columns of one matrix do not conflict.  Each matrix is therefore
cut at every column where one of its views begins or ends, and each resulting interval
of columns is a variable.  A 5-column matrix with a view of all of it and one of columns
2 and 3 has the boundaries 0, 2, 4, 5 and three variables.

Variables are numbered through all matrices in order; the empty matrix has none.  Rows
are not cut.
-/

namespace MatrixProgram

/-- A half-open range of indexes. -/
structure Interval where
  first : Nat
  past : Nat
deriving DecidableEq, Repr

namespace Interval

/-- The interval without members. -/
def empty : Interval :=
  ⟨0, 0⟩

/-- The members of an interval, ascending. -/
def toList (i : Interval) : List Nat :=
  List.range' i.first (i.past - i.first)

instance : Membership Nat Interval :=
  ⟨fun i x => i.first ≤ x ∧ x < i.past⟩

instance (i : Interval) (x : Nat) : Decidable (x ∈ i) :=
  inferInstanceAs (Decidable (_ ∧ _))

theorem mem_iff {i : Interval} {x : Nat} : x ∈ i ↔ i.first ≤ x ∧ x < i.past :=
  Iff.rfl

@[simp]
theorem mem_toList_iff {i : Interval} {x : Nat} : x ∈ i.toList ↔ x ∈ i := by
  simp only [toList, List.mem_range'_1, mem_iff]
  omega

end Interval

/-- How a command touches a variable or a sub-matrix. -/
inductive AccessKind where
  | read
  | write
  | readWrite
deriving DecidableEq, Repr

/-- What the partition knows of a sub-matrix: the variables it covers, and whether it
spans all rows of its matrix. -/
structure Coverage where
  vars : Interval
  spansRows : Bool
deriving DecidableEq, Repr

/-- The variables of a program. -/
structure Partition where
  /-- The column boundaries of each matrix, strictly ascending. -/
  boundaries : List (List Nat)
  /-- What each sub-matrix covers. -/
  coverage : List Coverage
deriving DecidableEq, Repr

/-- The number of intervals between the boundaries of a matrix. -/
def intervalCount (boundaries : List Nat) : Nat :=
  boundaries.length - 1

/-- The number of the first variable of a matrix, from the boundaries of all matrices. -/
def firstVariable (boundaries : List (List Nat)) (m : Nat) : Nat :=
  (boundaries.take m).foldr (fun own total => intervalCount own + total) 0

namespace Program

/-- A view must name a matrix and stay within its columns.  The ends of columns are those that
`colEnd` gives. -/
def requireColumnsBy (colEnd : Region → Nat) (p : Program) (s : Nat) (view : SubMatrix) :
    Except Error Unit :=
  match p.matrix view.matrix with
  | .error _ => .error (.malformed none (.viewOfNoMatrix s view.matrix))
  | .ok shape =>
      if colEnd view.region ≤ shape.numCols then
        .ok ()
      else
        .error (.malformed none (.viewPastColumns s view.matrix))

/-- The sub-matrices other than the empty one, with their indexes. -/
def views (p : Program) : List (SubMatrix × Nat) :=
  p.subMatrices.zipIdx.drop 1

/-- The columns where a matrix or one of its views begins or ends. -/
def boundariesBy (colEnd : Region → Nat) (p : Program) (m : Nat) (shape : Shape) : List Nat :=
  Ascending.ofList
    ((if m = 0 then [] else [0, shape.numCols]) ++
      p.views.flatMap fun (view, _) =>
        if view.matrix = m then [view.region.colOffset, colEnd view.region] else [])

/-- What a view covers, given the boundaries of all matrices. -/
def coverageBy (colEnd : Region → Nat) (p : Program) (boundaries : List (List Nat)) (s : Nat)
    (view : SubMatrix) : Except Error Coverage := do
  let own := (boundaries[view.matrix]?).getD []
  let position (col : Nat) : Except Error Nat :=
    match own.findIdx? (· == col) with
    | some k => .ok k
    | none => .error (.malformed none (.misaligned s col))
  -- Both ends are boundaries, because every view has cut its matrix.
  let first ← position view.region.colOffset
  let past ← position (colEnd view.region)
  if past ≤ first then
    throw (.malformed none (.coversNoColumns s))
  let shape ← p.matrix view.matrix
  let offset := firstVariable boundaries view.matrix
  return ⟨⟨offset + first, offset + past⟩, decide (view.region.SpansRows shape.numRows)⟩

/-- The variables of a program. -/
def partitionBy (colEnd : Region → Nat) (p : Program) : Except Error Partition := do
  p.views.forM fun (view, s) => p.requireColumnsBy colEnd s view
  let boundaries := p.matrices.zipIdx.map fun (shape, m) => p.boundariesBy colEnd m shape
  let covered ← p.views.mapM fun (view, s) => p.coverageBy colEnd boundaries s view
  return ⟨boundaries, ⟨.empty, false⟩ :: covered⟩

/-- The columns where a matrix or one of its views begins or ends. -/
def boundariesOf (p : Program) (m : Nat) (shape : Shape) : List Nat :=
  p.boundariesBy Region.colEnd m shape

/-- The variables of a program. -/
def partition (p : Program) : Except Error Partition :=
  p.partitionBy Region.colEnd

end Program

/-- The variables of a program, with sums of machine words. -/
def Overflow.partition (o : Overflow) (p : Program) : Option (Except Error Partition) :=
  if p.views.all fun (view, _) => (o.colEnd view.region).isSome then
    some (p.partitionBy fun g => (o.colEnd g).getD 0)
  else
    none

namespace Partition

/-- The matrix of each variable. -/
def owners (t : Partition) : List Nat :=
  t.boundaries.zipIdx.flatMap fun (own, m) => List.replicate (intervalCount own) m

/-- The number of variables. -/
def numVariables (t : Partition) : Nat :=
  t.owners.length

/-- The column boundaries of a matrix. -/
def boundariesOf (t : Partition) (m : Nat) : List Nat :=
  (t.boundaries[m]?).getD []

/-- The matrix of a variable. -/
def matrixOf (t : Partition) (var : Nat) : Except Error Nat :=
  match t.owners[var]? with
  | some m => .ok m
  | none => .error (.failed (.variableIndex var))

/-- The variables of a matrix. -/
def ofMatrix (t : Partition) (m : Nat) : Interval :=
  if m < t.boundaries.length then
    ⟨firstVariable t.boundaries m, firstVariable t.boundaries (m + 1)⟩
  else
    .empty

/-- The columns of a variable within its matrix. -/
def columnsOf (t : Partition) (var : Nat) : Except Error Interval := do
  let m ← t.matrixOf var
  let own := t.boundariesOf m
  let k := var - firstVariable t.boundaries m
  return ⟨own.getD k 0, own.getD (k + 1) 0⟩

/-- The variables that a sub-matrix covers; none for the empty one. -/
def ofSubMatrix (t : Partition) (s : Nat) : Interval :=
  ((t.coverage[s]?).map (·.vars)).getD .empty

/-- A sub-matrix spans all rows of its matrix. -/
def spansRows (t : Partition) (s : Nat) : Bool :=
  ((t.coverage[s]?).map (·.spansRows)).getD false

end Partition

end MatrixProgram
