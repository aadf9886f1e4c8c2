import MatrixProgram.Analysis.Partition

/-!
# Cutting a line at boundaries

Two facts about lists of numbers carry the partition of columns.  A strictly ascending list
of boundaries has every point between its first and its last boundary in an interval between
neighbours, and numbering the intervals of several lists one after the other gives each of
them a number of its own.

The main statements are `exists_interval`, about the intervals of one list, and
`owners_eq_some_iff`, about the numbering.
-/

namespace MatrixProgram

/-! ## The intervals of one list -/

/-- A strictly ascending list grows with its positions. -/
theorem getD_lt_getD {bs : List Nat} (hSorted : bs.Pairwise (· < ·)) {i j : Nat}
    (hLt : i < j) (hLength : j < bs.length) : bs.getD i 0 < bs.getD j 0 := by
  have hFirst : i < bs.length := Nat.lt_trans hLt hLength
  simp only [List.getD_eq_getElem?_getD, List.getElem?_eq_getElem hFirst,
    List.getElem?_eq_getElem hLength, Option.getD_some]
  exact List.pairwise_iff_getElem.mp hSorted i j hFirst hLength hLt

/-- A strictly ascending list grows weakly with its positions. -/
theorem getD_le_getD {bs : List Nat} (hSorted : bs.Pairwise (· < ·)) {i j : Nat}
    (hLe : i ≤ j) (hLength : j < bs.length) : bs.getD i 0 ≤ bs.getD j 0 := by
  rcases Nat.eq_or_lt_of_le hLe with rfl | hLt
  · exact Nat.le_refl _
  · exact Nat.le_of_lt (getD_lt_getD hSorted hLt hLength)

/-- A point between two boundaries lies between two neighbouring ones. -/
theorem exists_interval {bs : List Nat} (hSorted : bs.Pairwise (· < ·)) {x low high : Nat}
    (hLow : low ∈ bs) (hLe : low ≤ x) (hHigh : high ∈ bs) (hLt : x < high) :
    ∃ k, k + 1 < bs.length ∧ bs.getD k 0 ≤ x ∧ x < bs.getD (k + 1) 0 := by
  induction bs generalizing low with
  | nil => simp at hLow
  | cons a rest ih =>
      obtain ⟨hHead, hRest⟩ := List.pairwise_cons.mp hSorted
      -- The first boundary is the least, and the last one is not the first.
      have hFirst : a ≤ x := by
        rcases List.mem_cons.mp hLow with rfl | hIn
        · exact hLe
        · exact Nat.le_trans (Nat.le_of_lt (hHead low hIn)) hLe
      have hHighRest : high ∈ rest := by
        rcases List.mem_cons.mp hHigh with rfl | hIn
        · omega
        · exact hIn
      cases rest with
      | nil => simp at hHighRest
      | cons b tail =>
          by_cases hSecond : x < b
          · exact ⟨0, by simp, by simpa using hFirst, by simpa using hSecond⟩
          · obtain ⟨k, hLength, hFrom, hTo⟩ :=
              ih hRest List.mem_cons_self (by omega) hHighRest
            exact ⟨k + 1, by simpa using hLength, by simpa using hFrom, by simpa using hTo⟩

/-! ## Numbering the intervals of several lists -/

/-- The first number of the next list. -/
theorem firstVariable_cons (own : List Nat) (rest : List (List Nat)) (k : Nat) :
    firstVariable (own :: rest) (k + 1) = intervalCount own + firstVariable rest k := by
  simp [firstVariable]

/-- The numbers of the list at position `m` end where those of the next list begin. -/
theorem firstVariable_succ {bounds : List (List Nat)} {m : Nat} {own : List Nat}
    (h : bounds[m]? = some own) :
    firstVariable bounds (m + 1) = firstVariable bounds m + intervalCount own := by
  induction bounds generalizing m with
  | nil => simp at h
  | cons first rest ih =>
      cases m with
      | zero =>
          simp only [List.getElem?_cons_zero, Option.some.injEq] at h
          simp [firstVariable, h]
      | succ k =>
          have hRest := ih (by simpa using h)
          rw [firstVariable_cons, firstVariable_cons, hRest, Nat.add_assoc]

/-- The list to which a number belongs, when the lists are numbered from position
`start` on. -/
private theorem owners_from_eq_some_iff {bounds : List (List Nat)} {start var m : Nat} :
    ((bounds.zipIdx start).flatMap fun (own, m) => List.replicate (intervalCount own) m)[var]?
        = some m ↔
      ∃ k, m = start + k ∧ k < bounds.length ∧
        firstVariable bounds k ≤ var ∧ var < firstVariable bounds (k + 1) := by
  induction bounds generalizing start var with
  | nil => simp
  | cons own rest ih =>
      rw [List.zipIdx_cons, List.flatMap_cons, List.getElem?_append]
      simp only [List.length_replicate]
      -- The first numbers belong to the first list; the others are shifted by their count.
      by_cases hOwn : var < intervalCount own
      · rw [if_pos hOwn, List.getElem?_replicate, if_pos hOwn, Option.some.injEq]
        constructor
        · rintro rfl
          refine ⟨0, rfl, by simp, by simp [firstVariable], ?_⟩
          rw [firstVariable_cons]
          omega
        · intro h
          obtain ⟨k, rfl, -, hFrom, -⟩ := h
          cases k with
          | zero => rfl
          | succ k =>
              rw [firstVariable_cons] at hFrom
              omega
      · rw [if_neg hOwn, ih]
        constructor
        · intro h
          obtain ⟨k, rfl, hLength, hFrom, hTo⟩ := h
          refine ⟨k + 1, by omega, by simpa using hLength, ?_, ?_⟩
          · rw [firstVariable_cons]
            omega
          · rw [firstVariable_cons]
            omega
        · intro h
          obtain ⟨k, rfl, hLength, hFrom, hTo⟩ := h
          cases k with
          | zero =>
              have hNone : firstVariable rest 0 = 0 := by simp [firstVariable]
              rw [firstVariable_cons] at hTo
              omega
          | succ k =>
              rw [firstVariable_cons] at hFrom hTo
              exact ⟨k, by omega, by simpa using hLength, by omega, by omega⟩

namespace Partition

/-- A variable belongs to a matrix exactly when its number lies in the range of the
matrix. -/
theorem owners_eq_some_iff {t : Partition} {var m : Nat} :
    t.owners[var]? = some m ↔
      m < t.boundaries.length ∧
        firstVariable t.boundaries m ≤ var ∧ var < firstVariable t.boundaries (m + 1) := by
  rw [owners, owners_from_eq_some_iff]
  constructor
  · intro h
    obtain ⟨k, rfl, hRange⟩ := h
    simpa using hRange
  · intro hRange
    exact ⟨m, by omega, hRange⟩

/-- The matrix of a variable, by the range of numbers of the matrix. -/
theorem matrixOf_eq_ok_iff {t : Partition} {var m : Nat} :
    t.matrixOf var = .ok m ↔
      m < t.boundaries.length ∧
        firstVariable t.boundaries m ≤ var ∧ var < firstVariable t.boundaries (m + 1) := by
  rw [← owners_eq_some_iff, matrixOf]
  cases t.owners[var]? <;> simp

/-- The variables of a matrix are those whose matrix it is. -/
theorem mem_ofMatrix_iff {t : Partition} {var m : Nat} :
    var ∈ t.ofMatrix m ↔ t.matrixOf var = .ok m := by
  rw [matrixOf_eq_ok_iff, ofMatrix]
  by_cases hLength : m < t.boundaries.length
  · simp [hLength, Interval.mem_iff]
  · simp [hLength, Interval.mem_iff, Interval.empty]

/-- A variable has a matrix exactly when it is below the number of variables. -/
theorem exists_matrixOf_iff {t : Partition} {var : Nat} :
    (∃ m, t.matrixOf var = .ok m) ↔ var < t.numVariables := by
  unfold matrixOf numVariables
  cases hGet : t.owners[var]? with
  | none =>
      simp only [reduceCtorEq, exists_false, false_iff]
      exact fun hLt => by simp [List.getElem?_eq_getElem hLt] at hGet
  | some m =>
      simp only [Except.ok.injEq, exists_eq', true_iff]
      exact (List.getElem?_eq_some_iff.mp hGet).1

end Partition

end MatrixProgram
