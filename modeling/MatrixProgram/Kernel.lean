import MatrixProgram.Activation
import MatrixProgram.Buffer

/-!
# Primitives on windows

Every primitive changes one window of dense values.  It first tries its conditions on
shapes and row indexes; when one fails it changes nothing, and when all hold it maps
the elements of the window and no other element.  `guardedMap` is that scheme, and
each primitive is one instance of it: its conditions, and the new value of an element
in terms of its position, its old value and the sources.

Products and sums are taken in single precision, from zero and in increasing index.
-/

namespace MatrixProgram

namespace Kernel

variable {rows cols : Nat}

/-- Try the conditions, then map the window. -/
def guardedMap (conditions : Except Error Unit) (g : Region)
    (f : Nat → Nat → Float32 → Float32) : Write rows cols := fun m =>
  match conditions with
  | .ok () => .ok () (m.mapWindow g f)
  | .error err => .error err m

/-- A primitive whose conditions fail changes nothing. -/
theorem guardedMap_error {g : Region} {f : Nat → Nat → Float32 → Float32} {err : Error}
    (m : Dense rows cols) : guardedMap (.error err) g f m = .error err m :=
  rfl

/-- A primitive whose conditions hold maps its window. -/
theorem guardedMap_ok {g : Region} {f : Nat → Nat → Float32 → Float32}
    (m : Dense rows cols) : guardedMap (.ok ()) g f m = .ok () (m.mapWindow g f) :=
  rfl

/-- Two shapes must agree. -/
def requireShape (expected got : Shape) : Except Error Unit :=
  Action.require (expected = got) (.shapeMismatch expected got)

/-- A row index must be below the number of rows. -/
def requireRow (row numRows : Nat) : Except Error Unit :=
  Action.require (row < numRows) (.failed (.rowIndex row numRows))

/-- A table with one entry per row of the window, and a source of equal width. -/
def requireTable (g : Region) (count : Nat) (src : View) : Except Error Unit :=
  Action.require (count = g.numRows ∧ g.numCols = src.numCols)
    (.shapeMismatch g.shape ⟨count, src.numCols⟩)

/-- Every present entry of a row table must be a row of the source. -/
def requireRows (indexes : List (Option Nat)) (numRows : Nat) : Except Error Unit :=
  (indexes.filterMap id).forM fun row => requireRow row numRows

/-- A single row of the window and a single row of a source of equal width. -/
def requireSingleRows (g : Region) (row : Nat) (src : View) (srcRow : Nat) :
    Except Error Unit := do
  requireRow row g.numRows
  requireRow srcRow src.numRows
  requireShape ⟨1, g.numCols⟩ ⟨1, src.numCols⟩

/-- Every range must be ordered and end inside the source. -/
def requireRanges (ranges : List (Nat × Nat)) (numRows : Nat) : Except Error Unit :=
  ranges.forM fun (first, past) =>
    Action.require (first ≤ past ∧ past ≤ numRows)
      (.failed (.rowRange first past numRows))

/-- The entry of a row table for a row, absent past the end of the table. -/
def entry (indexes : List (Option Nat)) (row : Nat) : Option Nat :=
  (indexes[row]?).join

/-! ## Whole windows -/

/-- The window becomes the source. -/
def copy (src : View) (g : Region) : Write rows cols :=
  guardedMap (requireShape g.shape src.shape) g fun row col _ => src.get row col

/-- `alpha` times the source is added to the window. -/
def add (src : View) (alpha : Float32) (g : Region) : Write rows cols :=
  guardedMap (requireShape g.shape src.shape) g fun row col old =>
    old + alpha * src.get row col

/-- The window becomes zero. -/
def clear (g : Region) : Write rows cols :=
  guardedMap (.ok ()) g fun _ _ _ => 0

/-! ## Gathered rows -/

/-- Row `r` of the window becomes the source row that the table names for it, or zero
where the table has no entry. -/
def gatherCopy (src : View) (indexes : List (Option Nat)) (g : Region) : Write rows cols :=
  guardedMap (do
      requireTable g indexes.length src
      requireRows indexes src.numRows)
    g fun row col _ =>
      match entry indexes row with
      | some srcRow => src.get srcRow col
      | none => 0

/-- `alpha` times the source row that the table names is added to row `r` of the
window; a row without an entry is kept. -/
def gatherAdd (src : View) (alpha : Float32) (indexes : List (Option Nat)) (g : Region) :
    Write rows cols :=
  guardedMap (do
      requireTable g indexes.length src
      requireRows indexes src.numRows)
    g fun row col old =>
      match entry indexes row with
      | some srcRow => old + alpha * src.get srcRow col
      | none => old

/-! ## Single rows -/

/-- One row of the window becomes one row of the source. -/
def copyRow (row : Nat) (src : View) (srcRow : Nat) (g : Region) : Write rows cols :=
  guardedMap (requireSingleRows g row src srcRow) (g.rowWindow row) fun _ col _ =>
    src.get srcRow col

/-- `alpha` times one row of the source is added to one row of the window. -/
def addRow (row : Nat) (src : View) (srcRow : Nat) (alpha : Float32) (g : Region) :
    Write rows cols :=
  guardedMap (requireSingleRows g row src srcRow) (g.rowWindow row) fun _ col old =>
    old + alpha * src.get srcRow col

/-- One row of the window becomes zero. -/
def clearRow (row : Nat) (g : Region) : Write rows cols :=
  guardedMap (requireRow row g.numRows) (g.rowWindow row) fun _ _ _ => 0

/-! ## Ranges of rows -/

/-- The source rows `first, ..., past - 1` added to a value, one after the other. -/
def addRange (src : View) (col first past : Nat) (start : Float32) : Float32 :=
  (List.range' first (past - first)).foldl (fun total row => total + src.get row col) start

/-- The source rows of range `r` are added, in order, to row `r` of the window. -/
def addRanges (src : View) (ranges : List (Nat × Nat)) (g : Region) : Write rows cols :=
  guardedMap (do
      requireTable g ranges.length src
      requireRanges ranges src.numRows)
    g fun row col old =>
      match ranges[row]? with
      | some (first, past) => addRange src col first past old
      | none => old

/-! ## Dense algebra -/

/-- A factor of a product: a view, as it stands or transposed. -/
structure Factor where
  view : View
  transposed : Bool

/-- The shape of a factor, after transposition. -/
def Factor.shape (a : Factor) : Shape :=
  if a.transposed then ⟨a.view.numCols, a.view.numRows⟩ else a.view.shape

/-- The element of a factor, after transposition. -/
def Factor.get (a : Factor) (row col : Nat) : Float32 :=
  if a.transposed then a.view.get col row else a.view.get row col

/-- The product of row `row` of `a` with column `col` of `b`, summed from zero in
increasing inner index. -/
def dot (a b : Factor) (row col : Nat) : Float32 :=
  (List.range a.shape.numCols).foldl
    (fun total inner => total + a.get row inner * b.get inner col) 0

/-- The inner extents of two factors must agree. -/
def requireProduct (a b : Factor) : Except Error Unit :=
  Action.require (a.shape.numCols = b.shape.numRows)
    (.failed (.productShapes a.shape b.shape))

/-- The window becomes `beta` times itself plus `alpha` times the product of `a` and
`b`.  When `beta` is zero the old values are not used at all. -/
def accumulateProduct (a b : Factor) (alpha beta : Float32) (g : Region) : Write rows cols :=
  guardedMap (do
      requireProduct a b
      requireShape g.shape ⟨a.shape.numRows, b.shape.numCols⟩)
    g fun row col old =>
      if beta == 0 then
        alpha * dot a b row col
      else
        beta * old + alpha * dot a b row col

/-- `alpha` times the single row `vec` is added to every row of the window. -/
def addToEachRow (vec : View) (alpha : Float32) (g : Region) : Write rows cols :=
  guardedMap (requireShape ⟨1, g.numCols⟩ vec.shape) g fun _ col old =>
    old + alpha * vec.get 0 col

/-- The sum of column `col` of a view, from zero and in increasing row. -/
def columnSum (src : View) (col : Nat) : Float32 :=
  (List.range src.numRows).foldl (fun total row => total + src.get row col) 0

/-- The window, a single row, becomes `beta` times itself plus `alpha` times the sum of
the rows of the source. -/
def accumulateRowSum (src : View) (alpha beta : Float32) (g : Region) : Write rows cols :=
  guardedMap (requireShape ⟨1, src.numCols⟩ g.shape) g fun _ col old =>
    beta * old + alpha * columnSum src col

/-- The window becomes the function of the source, element by element. -/
def applyActivation (op : Activation) (src : View) (g : Region) : Write rows cols :=
  guardedMap (requireShape g.shape src.shape) g fun row col _ =>
    op.apply (src.get row col)

/-- The window becomes `beta` times itself plus the derivative of the function, at the
point where its value is `outValue`, times `outDeriv`.  When `beta` is zero the old
values are not used at all. -/
def activationGradient (op : Activation) (outValue outDeriv : View) (beta : Float32)
    (g : Region) : Write rows cols :=
  guardedMap (do
      requireShape g.shape outValue.shape
      requireShape g.shape outDeriv.shape)
    g fun row col old =>
      let gradient := op.derivativeFromOutput (outValue.get row col) * outDeriv.get row col
      if beta == 0 then gradient else beta * old + gradient

end Kernel

end MatrixProgram
