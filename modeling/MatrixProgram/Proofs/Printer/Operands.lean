import MatrixProgram.Program.Printer
import MatrixProgram.Proofs.Check.Operands
import MatrixProgram.Proofs.Printer.Readable

/-!
# The texts of operands

What is written of an operand, a row or a table is a little data, and a format turns this data
into characters.  Each format is readable before the characters that can follow it, so the text
of an operand tells its data: `ofOperand_readable` and its siblings.

The data tells less than the program holds.  All of a matrix is written as the matrix, whatever
the index of its view, and a row as a row of its matrix, whatever the view that it was named
through.  But it tells all that matters: views that are written alike are the same view,
`eq_of_printedView`, and rows that are written alike are the same row over the same columns,
`eq_of_printedRow`.
-/

namespace MatrixProgram

namespace Text

/-! ## What is written -/

/-- The first and the last index of a range. -/
abbrev PrintedRange : Type :=
  Nat × Nat

/-- The matrix of a view, and the ranges of its rows and columns unless it is all of the
matrix. -/
abbrev PrintedView : Type :=
  Nat × Option (PrintedRange × PrintedRange)

/-- A row of a matrix, and the range of its columns unless it is all of the row. -/
abbrev PrintedRow : Type :=
  Nat × Nat × Option PrintedRange

/-- A range as it is written. -/
def ofRange (r : PrintedRange) : List Char :=
  digits r.1 ++ ':' :: digits r.2

/-- The ranges of a view as they are written. -/
def ofWindow (w : PrintedRange × PrintedRange) : List Char :=
  '(' :: (ofRange w.1 ++ ',' :: ' ' :: ofRange w.2 ++ [')'])

/-- A view as it is written. -/
def ofView (v : PrintedView) : List Char :=
  'm' :: (digits v.1 ++ v.2.elim [] ofWindow)

/-- An operand as it is written. -/
def ofOperand (v? : Option PrintedView) : List Char :=
  v?.elim ['[', ']'] ofView

/-- A row as it is written. -/
def ofRow (r : PrintedRow) : List Char :=
  'm' :: (digits r.1 ++ '(' :: (digits r.2.1 ++ ',' :: (r.2.2.elim [':'] ofRange ++ [')'])))

/-- An entry of a table as it is written. -/
def ofEntry {α : Type} (text : α → List Char) (a? : Option α) : List Char :=
  a?.elim ['-', '1'] text

/-- A range of rows with a last one before the first, if it is empty. -/
def ofSumRange (r : Nat × Int) : List Char :=
  digits r.1 ++ ':' :: signed r.2

/-- A table of row indexes as it is written. -/
def ofIndexes : List (Option Nat) → List Char :=
  ofList (ofEntry digits)

/-- A table of rows of sub-matrices as it is written. -/
def ofPairs : List (Option PrintedRow) → List Char :=
  ofList (ofEntry ofRow)

/-- A table of ranges of rows as it is written. -/
def ofRanges : List (Nat × Int) → List Char :=
  ofList ofSumRange

/-- A table of precomputed rows as it is written. -/
def ofPrecomputed (table? : Option Nat) : List Char :=
  table?.elim ['N', 'U', 'L', 'L'] fun table =>
    "precomputed_indexes[".toList ++ (digits table ++ [']'])

/-! ## Each of them can be read off -/

theorem ofRange_readable : ReadableBefore (fun ch => ch.isDigit = false) ofRange :=
  digits_readable.separated digits_readable ':' (by decide)

theorem ofWindow_readable (next : Char → Prop) : ReadableBefore next ofWindow :=
  .after ['('] <|
    .closed (ofRange_readable.separated (ofRange_readable.after [' ']) ',' (by decide)) ')'
      (by decide)

theorem ofView_readable : ReadableBefore (fun ch => ch.isDigit = false ∧ ch ≠ '(') ofView := by
  have hWindow : ReadableBefore (fun ch => ch.isDigit = false ∧ ch ≠ '(')
      fun w? : Option (PrintedRange × PrintedRange) => w?.elim [] ofWindow :=
    (ofWindow_readable _).orElse fun w rest rest' hRest hEq =>
      (hRest '(' (by rw [← List.nil_append rest, hEq]; rfl)).2 rfl
  refine .after ['m'] (digits_readable.append hWindow fun w? rest hRest => ?_)
  cases w? with
  | none => exact fun ch hHead => (hRest ch hHead).1
  | some w => exact before_cons_iff.mpr (by decide)

theorem ofOperand_readable : ReadableBefore (fun ch => ch.isDigit = false ∧ ch ≠ '(') ofOperand :=
  ofView_readable.orElse fun _ _ _ _ hEq => by simp [ofView] at hEq

theorem ofRow_readable (next : Char → Prop) : ReadableBefore next ofRow := by
  have hColumns : ReadableBefore (fun ch => ch.isDigit = false)
      fun r? : Option PrintedRange => r?.elim [':'] ofRange :=
    -- A range begins with a digit, so that a colon in its place says that there is none.
    ofRange_readable.orElse fun r rest rest' _ hEq => by
      simp only [ofRange, List.append_assoc] at hEq
      exact digits_ne_cons (by decide) hEq.symm
  exact .after ['m'] <| digits_readable.separated
    (digits_readable.separated (hColumns.closed ')' (by decide)) ',' (by decide)) '(' (by decide)

theorem ofSumRange_readable :
    ReadableBefore (fun ch => (ch.isDigit || ch == '-') = false) ofSumRange :=
  digits_readable.separated signed_readable ':' (by decide)

theorem ofIndexes_readable (next : Char → Prop) : ReadableBefore next ofIndexes := by
  have hEntry : ReadableBefore (fun ch => ch.isDigit = false) (ofEntry digits) :=
    digits_readable.orElse fun _ _ _ _ hEq => digits_ne_cons (by decide) hEq.symm
  refine hEntry.list (by decide) (by decide) fun row? _ _ => ?_
  cases row? with
  | none => simp [ofEntry]
  | some row => exact digits_ne_cons (by decide)

theorem ofPairs_readable (next : Char → Prop) : ReadableBefore next ofPairs := by
  have hEntry : ReadableBefore (fun _ => True) (ofEntry ofRow) :=
    (ofRow_readable _).orElse fun _ _ _ _ hEq => by simp [ofRow] at hEq
  refine hEntry.list trivial trivial fun row? _ _ => ?_
  cases row? <;> simp [ofEntry, ofRow]

theorem ofRanges_readable (next : Char → Prop) : ReadableBefore next ofRanges :=
  ofSumRange_readable.list (by decide) (by decide) fun r _ _ => by
    simp only [ofSumRange, List.append_assoc]
    exact digits_ne_cons (by decide)

theorem ofPrecomputed_readable (next : Char → Prop) : ReadableBefore next ofPrecomputed :=
  ((digits_readable.closed ']' (by decide)).after _).orElse fun _ _ _ _ hEq => by
    simp at hEq

/-! ## Characters -/

section Characters

variable {ch : Char}

/-- A view is written with digits and a few other characters. -/
theorem not_mem_ofView (hDigit : ch.isDigit = false) (hOther : ch ∉ ['m', '(', ':', ',', ' ', ')'])
    (v : PrintedView) : ch ∉ ofView v := by
  obtain ⟨_, w?⟩ := v
  simp only [List.mem_cons, not_or] at hOther
  cases w? <;> simp [ofView, ofWindow, ofRange, not_mem_digits hDigit, hOther]

theorem dot_not_mem_ofOperand (v? : Option PrintedView) : '.' ∉ ofOperand v? := by
  cases v? with
  | none => decide
  | some v => exact not_mem_ofView (by decide) (by decide) v

theorem dot_not_mem_ofIndexes (rows : List (Option Nat)) : '.' ∉ ofIndexes rows := by
  have hEntry : ∀ row?, '.' ∉ ofEntry digits row? := by
    rintro (_ | row)
    · decide
    · exact not_mem_digits (by decide) row
  simp [ofIndexes, ofList, not_mem_joined, hEntry]

theorem dot_not_mem_ofPairs (rows : List (Option PrintedRow)) : '.' ∉ ofPairs rows := by
  have hDigits : ∀ n, '.' ∉ digits n := not_mem_digits (by decide)
  have hEntry : ∀ row?, '.' ∉ ofEntry ofRow row? := by
    rintro (_ | ⟨_, _, _ | _⟩) <;> simp [ofEntry, ofRow, ofRange, hDigits]
  simp [ofPairs, ofList, not_mem_joined, hEntry]

theorem dot_not_mem_ofRanges (ranges : List (Nat × Int)) : '.' ∉ ofRanges ranges := by
  have hDigits : ∀ n, '.' ∉ digits n := not_mem_digits (by decide)
  have hEntry : ∀ r, '.' ∉ ofSumRange r := by
    rintro ⟨_, _ | _⟩ <;> simp [ofSumRange, signed, hDigits]
  simp [ofRanges, ofList, not_mem_joined, hEntry]

theorem dot_not_mem_ofPrecomputed (table? : Option Nat) : '.' ∉ ofPrecomputed table? := by
  cases table? with
  | none => decide
  | some table => simp [ofPrecomputed, not_mem_digits]

end Characters

end Text

namespace Program

open Text

variable {p : Program}

/-! ## The operands of a program -/

/-- A view as it is written. -/
def printedView (p : Program) (s : Nat) (v : SubMatrix) : PrintedView :=
  (v.matrix, if p.isWholeMatrix s then none else
    some ((v.region.rowOffset, v.region.rowEnd - 1), v.region.colOffset, v.region.colEnd - 1))

/-- An operand as it is written. -/
def printedOperand (p : Program) (s : Nat) : Option PrintedView :=
  (p.subMatrix? s).map (p.printedView s)

/-- A row of a sub-matrix, as a view of its own. -/
def rowView? (p : Program) (pair : Nat × Nat) : Option SubMatrix :=
  (p.subMatrix? pair.1).map fun v => ⟨v.matrix, v.region.rowWindow pair.2⟩

/-- The rows that a table of row pairs names, where it names one. -/
def rowViews? (p : Program) (table : Nat) : Option (List (Option (Option SubMatrix))) :=
  p.rowPairs[table]?.map fun pairs => pairs.map (Option.map p.rowView?)

/-- The columns of a row as they are written. -/
def printedColumns (p : Program) (v : SubMatrix) : Option PrintedRange :=
  if v.region.colOffset = 0 ∧ v.region.numCols = (p.matrices[v.matrix]?.map (·.numCols)).getD 0
  then none
  else some (v.region.colOffset, v.region.colEnd - 1)

/-- A view of a row as it is written. -/
def printedRow (p : Program) (v : SubMatrix) : PrintedRow :=
  (v.matrix, v.region.rowOffset, p.printedColumns v)

/-- An operand is absent or found. -/
def Resolves (p : Program) (s : Nat) : Prop :=
  s = noSubMatrix ∨ ∃ v, p.subMatrix s = .ok v

theorem printedOperand_of_subMatrix {s : Nat} {v : SubMatrix} (hView : p.subMatrix s = .ok v) :
    p.printedOperand s = some (p.printedView s v) := by
  rw [printedOperand, subMatrix?_eq_some_iff.mpr hView, Option.map_some]

theorem toList_subMatrixText {s : Nat} (h : p.Resolves s) :
    (p.subMatrixText s).toList = ofOperand (p.printedOperand s) := by
  rcases h with rfl | ⟨v, hView⟩
  · simp [subMatrixText, printedOperand, subMatrix?, subMatrix, Except.toOption, ofOperand]
  · have hPresent := (subMatrix_eq_ok_iff.mp hView).1
    simp only [subMatrixText, if_neg hPresent, hView, printedOperand_of_subMatrix hView,
      printedView]
    split
    · simp [ofOperand, ofView, digits, toString]
    · simp [ofOperand, ofView, ofWindow, ofRange, digits, toString]

theorem toList_rowText {s r : Nat} {v : SubMatrix} (hRow : p.rowView? (s, r) = some v) :
    (p.rowText s r).toList = ofRow (p.printedRow v) := by
  obtain ⟨v, hView, rfl⟩ := Option.map_eq_some_iff.mp hRow
  have hPrinted : p.printedRow ⟨v.matrix, v.region.rowWindow r⟩ =
      (v.matrix, v.region.rowOffset + r, p.printedColumns v) := rfl
  simp only [rowText, subMatrix?_eq_some_iff.mp hView, hPrinted, printedColumns]
  split
  · simp [ofRow, digits, toString]
  · simp [ofRow, ofRange, digits, toString]

theorem toList_precomputedText (table? : Option Nat) :
    (precomputedText table?).toList = ofPrecomputed table? := by
  cases table? with
  | none =>
      change "NULL".toList = ['N', 'U', 'L', 'L']
      simp
  | some table =>
      have hText : precomputedText (some table) =
          "precomputed_indexes[" ++ table.repr ++ "]" := rfl
      simp [hText, ofPrecomputed, digits]

/-- A list in brackets has the text of the list of its elements. -/
theorem toList_bracketList {α : Type} {text : α → List Char} {items : List String} {xs : List α}
    (h : items.map String.toList = xs.map text) : (bracketList items).toList = ofList text xs := by
  simp only [bracketList, String.toList_append, String.toList_intercalate, h]
  simp [ofList, intercalate_map_eq_joined]

theorem toList_indexesText {table : Nat} {rows : List (Option Nat)}
    (hTable : p.indexes[table]? = some rows) :
    (p.indexesText table).toList = ofIndexes rows := by
  simp only [indexesText, hTable]
  refine toList_bracketList ?_
  rw [List.map_map]
  refine List.map_congr_left fun row? _ => ?_
  cases row? <;> simp [ofEntry, digits, toString]

theorem toList_rowRangesText {table : Nat} {ranges : List (Nat × Nat)}
    (hTable : p.rowRanges[table]? = some ranges) :
    (p.rowRangesText table).toList =
      ofRanges (ranges.map fun r => (r.1, lastOfRange r.2)) := by
  simp only [rowRangesText, hTable]
  refine toList_bracketList ?_
  rw [List.map_map, List.map_map]
  refine List.map_congr_left fun r _ => ?_
  simp [ofSumRange, digits, toString, toList_repr_int]

/-- The entries of a table of row pairs as they are written. -/
def printedPairs (p : Program) (pairs : List (Option (Nat × Nat))) : List (Option PrintedRow) :=
  pairs.map fun pair? => (pair?.bind p.rowView?).map p.printedRow

theorem toList_rowPairsText {table : Nat} {pairs : List (Option (Nat × Nat))}
    (hTable : p.rowPairs[table]? = some pairs)
    (hFound : ∀ pair, some pair ∈ pairs → ∃ v, p.rowView? pair = some v) :
    (p.rowPairsText table).toList = ofPairs (p.printedPairs pairs) := by
  simp only [rowPairsText, hTable]
  refine toList_bracketList ?_
  rw [printedPairs, List.map_map, List.map_map]
  refine List.map_congr_left fun pair? hMem => ?_
  cases pair? with
  | none => simp [ofEntry]
  | some pair =>
      obtain ⟨v, hRow⟩ := hFound pair hMem
      simp [ofEntry, hRow, toList_rowText hRow]

/-! ## What is written determines the operand -/

theorem isWholeMatrix_eq_true_iff {s : Nat} {v : SubMatrix} {shape : Shape}
    (hView : p.subMatrix s = .ok v) (hMatrix : p.matrix v.matrix = .ok shape) :
    p.isWholeMatrix s = true ↔ v.region = .whole shape.numRows shape.numCols := by
  simp only [isWholeMatrix, hView, hMatrix]
  exact decide_eq_true_iff

/-- Views that are written alike are the same. -/
theorem eq_of_printedView {s s' : Nat} {v v' : SubMatrix} (hWell : p.WellFormed)
    (hView : p.subMatrix s = .ok v) (hView' : p.subMatrix s' = .ok v')
    (hEq : p.printedView s v = p.printedView s' v') : v = v' := by
  obtain ⟨shape, hMatrix, -⟩ := hWell.fits hView
  obtain ⟨hRows, hCols⟩ := hWell.nonempty hView
  obtain ⟨hRows', hCols'⟩ := hWell.nonempty hView'
  obtain ⟨m, g⟩ := v
  obtain ⟨m', g'⟩ := v'
  simp only [printedView, Prod.mk.injEq] at hEq
  obtain ⟨rfl, hWindow⟩ := hEq
  have hWhole := isWholeMatrix_eq_true_iff hView hMatrix
  have hWhole' := isWholeMatrix_eq_true_iff hView' hMatrix
  split at hWindow
  · rename_i hAll
    split at hWindow
    · rename_i hAll'
      rw [show g = _ from hWhole.mp hAll, show g' = _ from hWhole'.mp hAll']
    · cases hWindow
  · split at hWindow
    · cases hWindow
    · -- The ends are those of regions that are not empty.
      simp only [Option.some.injEq, Prod.mk.injEq, Region.rowEnd, Region.colEnd] at hWindow
      cases g
      cases g'
      simp_all
      omega

/-- Operands that are written alike are the same view, or both absent. -/
theorem subMatrix_eq_of_printedOperand {s s' : Nat} (hWell : p.WellFormed) (h : p.Resolves s)
    (h' : p.Resolves s') (hEq : p.printedOperand s = p.printedOperand s') :
    p.subMatrix s = p.subMatrix s' := by
  have hAbsent : p.printedOperand noSubMatrix = none := by
    simp [printedOperand, subMatrix?, subMatrix, Except.toOption]
  rcases h with rfl | ⟨v, hView⟩ <;> rcases h' with rfl | ⟨v', hView'⟩
  · rfl
  · simp [hAbsent, printedOperand_of_subMatrix hView'] at hEq
  · simp [hAbsent, printedOperand_of_subMatrix hView] at hEq
  · rw [printedOperand_of_subMatrix hView, printedOperand_of_subMatrix hView',
      Option.some.injEq] at hEq
    rw [hView, hView', eq_of_printedView hWell hView hView' hEq]

/-- Operands with the same text are the same view, or both absent. -/
theorem subMatrix_eq_of_subMatrixText {s s' : Nat} (hWell : p.WellFormed) (h : p.Resolves s)
    (h' : p.Resolves s') (hEq : p.subMatrixText s = p.subMatrixText s') :
    p.subMatrix s = p.subMatrix s' := by
  refine subMatrix_eq_of_printedOperand hWell h h' (ofOperand_readable.injective ?_)
  rw [← toList_subMatrixText h, ← toList_subMatrixText h', hEq]

theorem eq_of_printedColumns {v v' : SubMatrix} (hSame : v.matrix = v'.matrix)
    (hCols : 0 < v.region.numCols) (hCols' : 0 < v'.region.numCols)
    (hEq : p.printedColumns v = p.printedColumns v') :
    v.region.colOffset = v'.region.colOffset ∧ v.region.numCols = v'.region.numCols := by
  unfold printedColumns at hEq
  split at hEq
  · rename_i hAll
    split at hEq
    · rename_i hAll'
      exact ⟨hAll.1.trans hAll'.1.symm, hAll.2.trans (hSame ▸ hAll'.2.symm)⟩
    · cases hEq
  · split at hEq
    · cases hEq
    · simp only [Option.some.injEq, Prod.mk.injEq, Region.colEnd] at hEq
      omega

/-- Rows that are written alike are the same row of the same matrix, over the same columns. -/
theorem eq_of_printedRow {pair pair' : Nat × Nat} {v v' : SubMatrix} (hWell : p.WellFormed)
    (hRow : p.rowView? pair = some v) (hRow' : p.rowView? pair' = some v')
    (hEq : p.printedRow v = p.printedRow v') : v = v' := by
  obtain ⟨⟨m, g⟩, hView, rfl⟩ := Option.map_eq_some_iff.mp hRow
  obtain ⟨⟨m', g'⟩, hView', rfl⟩ := Option.map_eq_some_iff.mp hRow'
  simp only [printedRow, Prod.mk.injEq] at hEq
  obtain ⟨rfl, hOffset, hPrinted⟩ := hEq
  have hSame : SubMatrix.matrix ⟨m, g⟩ = SubMatrix.matrix ⟨m, g'⟩ := rfl
  obtain ⟨hColumn, hWidth⟩ := eq_of_printedColumns hSame
    (hWell.nonempty (subMatrix?_eq_some_iff.mp hView)).2
    (hWell.nonempty (subMatrix?_eq_some_iff.mp hView')).2 hPrinted
  simp only [Region.rowWindow] at hOffset ⊢
  rw [hOffset, hColumn, hWidth]

/-- Where one function tells more than another one, so it does on lists. -/
theorem map_eq_map_of_map_eq_map {α β γ : Type} {f : α → β} {g : α → γ} {xs ys : List α}
    (h : ∀ a ∈ xs, ∀ b ∈ ys, f a = f b → g a = g b) (hEq : xs.map f = ys.map f) :
    xs.map g = ys.map g := by
  induction xs generalizing ys with
  | nil =>
      cases ys with
      | nil => rfl
      | cons => cases hEq
  | cons a xs ih =>
      cases ys with
      | nil => cases hEq
      | cons b ys =>
          obtain ⟨hHead, hTail⟩ := List.cons.inj hEq
          rw [List.map_cons, List.map_cons, h a List.mem_cons_self b List.mem_cons_self hHead,
            ih (fun a hMem b hMem' => h a (List.mem_cons_of_mem _ hMem) b
              (List.mem_cons_of_mem _ hMem')) hTail]

/-- Tables of pairs that are written alike name the same rows. -/
theorem map_rowView?_eq_of_printedPairs {pairs pairs' : List (Option (Nat × Nat))}
    (hWell : p.WellFormed) (hFound : ∀ pair, some pair ∈ pairs → ∃ v, p.rowView? pair = some v)
    (hFound' : ∀ pair, some pair ∈ pairs' → ∃ v, p.rowView? pair = some v)
    (hEq : p.printedPairs pairs = p.printedPairs pairs') :
    pairs.map (Option.map p.rowView?) = pairs'.map (Option.map p.rowView?) := by
  refine map_eq_map_of_map_eq_map (fun pair? hMem pair?' hMem' hPrinted => ?_) hEq
  rcases pair? with _ | pair <;> rcases pair?' with _ | pair'
  · rfl
  · obtain ⟨v', hRow'⟩ := hFound' pair' hMem'
    simp [hRow'] at hPrinted
  · obtain ⟨v, hRow⟩ := hFound pair hMem
    simp [hRow] at hPrinted
  · obtain ⟨v, hRow⟩ := hFound pair hMem
    obtain ⟨v', hRow'⟩ := hFound' pair' hMem'
    simp only [Option.bind_some, hRow, hRow', Option.map_some, Option.some.injEq] at hPrinted
    rw [Option.map_some, Option.map_some, hRow, hRow', eq_of_printedRow hWell hRow hRow' hPrinted]

/-- The end of a range can be read off its last index, as far as 64 bits go. -/
theorem eq_of_lastOfRange {past past' : Nat} (hLt : past < UInt64.size) (hLt' : past' < UInt64.size)
    (hEq : lastOfRange past = lastOfRange past') : past = past' := by
  -- The sign is lost again modulo the word size, below which both ends are.
  have hBmod : Int.bmod past UInt64.size = Int.bmod past' UInt64.size :=
    (Int.sub_left_inj _).mp hEq
  have hMod := congrArg (· % (UInt64.size : Int)) hBmod
  simp only [Int.bmod_emod] at hMod
  rw [← Int.natCast_emod, ← Int.natCast_emod, Nat.mod_eq_of_lt hLt, Nat.mod_eq_of_lt hLt'] at hMod
  exact Int.ofNat.inj hMod

end Program

end MatrixProgram
