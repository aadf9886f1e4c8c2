import MatrixProgram.Buffer

/-!
# Sums that are no machine words

Offsets and extents are machine words of 64 bits, and the library treats them as numbers.  The
two differ where a sum is no word.  A build that checks its arithmetic stops there, and one that
does not keeps the lowest 64 bits and goes on: `Overflow` says which of them it is.

The functions of this module compute with words.  Each has `none` for an answer where the program
stops.  The functions on numbers are `Region.rowEnd`, `Region.FitsIn`, `Region.narrowRows` and so
on, and with a condition `Overflow.Exact` on the sums that occur both answer alike.
-/

namespace MatrixProgram

/-- What a program does where a number is no machine word. -/
inductive Overflow where
  /-- It stops. -/
  | stops
  /-- It goes on with the lowest 64 bits. -/
  | wraps
deriving DecidableEq, Repr

namespace Overflow

/-- The word for a number. -/
def word (o : Overflow) (n : Nat) : Option Nat :=
  if n < UInt64.size then
    some n
  else
    match o with
    | .stops => none
    | .wraps => some (n % UInt64.size)

/-- The word for a number can only be the number itself. -/
def Exact (o : Overflow) (n : Nat) : Prop :=
  o = .stops ∨ n < UInt64.size

instance (o : Overflow) (n : Nat) : Decidable (o.Exact n) :=
  inferInstanceAs (Decidable (_ ∨ _))

theorem exact_stops (n : Nat) : stops.Exact n :=
  .inl rfl

theorem word_of_lt {n : Nat} (o : Overflow) (hLt : n < UInt64.size) : o.word n = some n :=
  if_pos hLt

/-- Where a number is exact, a word for it is the number. -/
theorem Exact.of_word {o : Overflow} {n w : Nat} (h : o.Exact n) (hWord : o.word n = some w) :
    w = n ∧ n < UInt64.size := by
  by_cases hLt : n < UInt64.size
  · rw [o.word_of_lt hLt, Option.some.injEq] at hWord
    exact ⟨hWord.symm, hLt⟩
  · obtain rfl | hLt' := h
    · rw [word, if_neg hLt] at hWord
      cases hWord
    · exact absurd hLt' hLt

/-! ## Regions -/

/-- The first row past a region. -/
def rowEnd (o : Overflow) (g : Region) : Option Nat :=
  o.word (g.rowOffset + g.numRows)

/-- The first column past a region. -/
def colEnd (o : Overflow) (g : Region) : Option Nat :=
  o.word (g.colOffset + g.numCols)

/-- A region lies inside a `rows` by `cols` matrix.  The columns are looked at only if the rows
do. -/
def fitsIn (o : Overflow) (g : Region) (rows cols : Nat) : Option Bool :=
  (o.rowEnd g).bind fun pastRow =>
    if pastRow ≤ rows then
      (o.colEnd g).map fun pastCol => decide (pastCol ≤ cols)
    else
      some false

/-- Fail unless a region lies inside a `rows` by `cols` matrix. -/
def checkFits (o : Overflow) (g : Region) (rows cols : Nat) : Option (Except Error Unit) :=
  (o.fitsIn g rows cols).map fun fits =>
    if fits then .ok () else .error (.regionOutOfBounds g rows cols)

/-- Where a range begins that is narrowed to `start, ..., start + len - 1`, counted from its own
first member, if that lies inside. -/
def narrowed (o : Overflow) (first extent start len : Nat) : Option (Option Nat) :=
  (o.word (start + len)).bind fun past =>
    if past ≤ extent then
      (o.word (first + start)).map some
    else
      some none

/-- Rows `start, ..., start + len - 1` of a region, counted from its first row. -/
def narrowRows (o : Overflow) (g : Region) (start len : Nat) : Option (Except Error Region) :=
  (o.narrowed g.rowOffset g.numRows start len).map fun
    | some first => .ok { g with rowOffset := first, numRows := len }
    | none => .error (.failed (.narrowRows start len g.numRows))

/-- Columns `start, ..., start + len - 1` of a region, counted from its first column. -/
def narrowCols (o : Overflow) (g : Region) (start len : Nat) : Option (Except Error Region) :=
  (o.narrowed g.colOffset g.numCols start len).map fun
    | some first => .ok { g with colOffset := first, numCols := len }
    | none => .error (.failed (.narrowCols start len g.numCols))

/-- The flat storage offset of element `(row, col)` of a region. -/
def storageOffset (o : Overflow) (g : Region) (stride row col : Nat) : Option Nat := do
  let ownRow ← o.word (g.rowOffset + row)
  let before ← o.word (ownRow * stride)
  let first ← o.word (before + g.colOffset)
  o.word (first + col)

/-- The ends of a region are exact. -/
structure ExactEnds (o : Overflow) (g : Region) : Prop where
  row : o.Exact g.rowEnd
  col : o.Exact g.colEnd

variable {o : Overflow} {g : Region} {rows cols : Nat}

theorem exactEnds_stops (g : Region) : stops.ExactEnds g :=
  ⟨exact_stops _, exact_stops _⟩

/-- Where the ends are exact, a region is found to fit only if it does. -/
theorem ExactEnds.fitsIn_eq {fits : Bool} (h : o.ExactEnds g)
    (hFits : o.fitsIn g rows cols = some fits) : fits = decide (g.FitsIn rows cols) := by
  obtain ⟨pastRow, hRow, hRest⟩ := Option.bind_eq_some_iff.mp hFits
  obtain ⟨rfl, -⟩ := h.row.of_word hRow
  split at hRest
  · rename_i hRowLe
    obtain ⟨pastCol, hCol, rfl⟩ := Option.map_eq_some_iff.mp hRest
    obtain ⟨rfl, -⟩ := h.col.of_word hCol
    exact decide_eq_decide.mpr (and_iff_right hRowLe).symm
  · rename_i hRowGt
    cases hRest
    exact (decide_eq_false fun hBoth => hRowGt hBoth.1).symm

/-- A region that is found to fit with exact ends fits. -/
theorem ExactEnds.fitsIn_of_test (h : o.ExactEnds g) (hFits : o.fitsIn g rows cols = some true) :
    g.FitsIn rows cols :=
  of_decide_eq_true (h.fitsIn_eq hFits).symm

/-- A region whose ends are words is found to fit exactly when it does. -/
theorem fitsIn_of_lt (o : Overflow) (hRow : g.rowEnd < UInt64.size)
    (hCol : g.colEnd < UInt64.size) :
    o.fitsIn g rows cols = some (decide (g.FitsIn rows cols)) := by
  have hRowWord : o.rowEnd g = some g.rowEnd := o.word_of_lt hRow
  have hColWord : o.colEnd g = some g.colEnd := o.word_of_lt hCol
  rw [fitsIn, hRowWord, hColWord, Option.bind_some, Option.map_some]
  split
  · rename_i hRowLe
    exact congrArg some (decide_eq_decide.mpr (and_iff_right hRowLe).symm)
  · rename_i hRowGt
    exact congrArg some (decide_eq_false fun hBoth => hRowGt hBoth.1).symm

theorem checkFits_eq_ok_iff :
    o.checkFits g rows cols = some (.ok ()) ↔ o.fitsIn g rows cols = some true := by
  unfold checkFits
  rcases o.fitsIn g rows cols with _ | _ | _ <;> simp

/-- A region that passes the test with exact ends fits. -/
theorem ExactEnds.fitsIn_of_checkFits (h : o.ExactEnds g)
    (hCheck : o.checkFits g rows cols = some (.ok ())) : g.FitsIn rows cols :=
  h.fitsIn_of_test (checkFits_eq_ok_iff.mp hCheck)

/-! ## Narrowing -/

theorem narrowed_of_lt (o : Overflow) {first extent start len : Nat}
    (hInside : start + len ≤ extent) (hEnd : first + extent < UInt64.size) :
    o.narrowed first extent start len = some (some (first + start)) := by
  rw [narrowed, o.word_of_lt (by omega), Option.bind_some, if_pos hInside, o.word_of_lt (by omega),
    Option.map_some]

/-- Where the end is exact, a range is narrowed as on numbers. -/
theorem Exact.of_narrowed {first extent start len : Nat} {r : Option Nat}
    (h : o.Exact (start + len)) (hEnd : first + extent < UInt64.size)
    (hNarrow : o.narrowed first extent start len = some r) :
    r = if start + len ≤ extent then some (first + start) else none := by
  by_cases hInside : start + len ≤ extent
  · rw [o.narrowed_of_lt hInside hEnd] at hNarrow
    rw [if_pos hInside, Option.some.inj hNarrow]
  · obtain ⟨past, hPast, hRest⟩ := Option.bind_eq_some_iff.mp hNarrow
    obtain ⟨rfl, -⟩ := h.of_word hPast
    rw [if_neg hInside] at hRest ⊢
    exact (Option.some.inj hRest).symm

theorem Exact.of_narrowRows {start len : Nat} {r : Except Error Region}
    (h : o.Exact (start + len)) (hEnd : g.rowEnd < UInt64.size)
    (hNarrow : o.narrowRows g start len = some r) : g.narrowRows start len = r := by
  obtain ⟨first?, hFirst, rfl⟩ := Option.map_eq_some_iff.mp hNarrow
  rw [h.of_narrowed hEnd hFirst, Region.narrowRows]
  split <;> rfl

theorem Exact.of_narrowCols {start len : Nat} {r : Except Error Region}
    (h : o.Exact (start + len)) (hEnd : g.colEnd < UInt64.size)
    (hNarrow : o.narrowCols g start len = some r) : g.narrowCols start len = r := by
  obtain ⟨first?, hFirst, rfl⟩ := Option.map_eq_some_iff.mp hNarrow
  rw [h.of_narrowed hEnd hFirst, Region.narrowCols]
  split <;> rfl

/-! ## Windows of buffers -/

/-- Run a change of a window on a buffer, after testing that the window fits. -/
def inWindow (o : Overflow) (g : Region) (w : {rows cols : Nat} → Region → Write rows cols)
    (b : Buffer) : Option (EStateM.Result Error Buffer Unit) :=
  (o.checkFits g b.numRows b.numCols).map fun
    | .ok () => Action.mapState (fun values => ⟨b.numRows, b.numCols, values⟩) (w g b.values)
    | .error err => .error err b

/-- Where the ends of a window are exact, a change runs as on numbers if it runs. -/
theorem ExactEnds.of_inWindow (h : o.ExactEnds g)
    {w : {rows cols : Nat} → Region → Write rows cols} {b : Buffer}
    {r : EStateM.Result Error Buffer Unit} (hRun : o.inWindow g w b = some r) :
    Write.inWindow g w b = r := by
  obtain ⟨check, hCheck, rfl⟩ := Option.map_eq_some_iff.mp hRun
  obtain ⟨fits, hFits, rfl⟩ := Option.map_eq_some_iff.mp hCheck
  rw [h.fitsIn_eq hFits, Write.inWindow]
  by_cases hInside : g.FitsIn b.numRows b.numCols
  · rw [if_pos hInside, decide_eq_true hInside]
    rfl
  · rw [if_neg hInside, decide_eq_false hInside]
    rfl

end Overflow

end MatrixProgram
