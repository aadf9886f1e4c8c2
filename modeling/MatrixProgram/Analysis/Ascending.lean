/-!
# Ascending lists

Sets of indexes are written as strictly ascending lists, so that two lists with the same
members are equal.  The main statements say which members `ofList` has, that it is
strictly ascending, and that the members of a strictly ascending list determine it.
-/

namespace MatrixProgram.Ascending

/-- Insert an index into a strictly ascending list, unless it is there. -/
def insert (x : Nat) : List Nat → List Nat
  | [] => [x]
  | y :: rest =>
      if x < y then x :: y :: rest
      else if x = y then y :: rest
      else y :: insert x rest

/-- The members of a list, strictly ascending. -/
def ofList (xs : List Nat) : List Nat :=
  xs.foldr insert []

@[simp]
theorem mem_insert_iff {x z : Nat} {ys : List Nat} :
    z ∈ insert x ys ↔ z = x ∨ z ∈ ys := by
  induction ys with
  | nil => simp [insert]
  | cons y rest ih =>
      unfold insert
      split
      · simp
      · split
        · rename_i hEq
          simp [hEq]
        · simp only [List.mem_cons, ih]
          exact or_left_comm

/-- Bringing a list into ascending form keeps its members. -/
@[simp]
theorem mem_ofList_iff {z : Nat} {xs : List Nat} : z ∈ ofList xs ↔ z ∈ xs := by
  induction xs with
  | nil => simp [ofList]
  | cons x rest ih =>
      have hStep : ofList (x :: rest) = insert x (ofList rest) := rfl
      rw [hStep, mem_insert_iff, ih, List.mem_cons]

/-- Insertion keeps a list strictly ascending. -/
theorem pairwise_insert {x : Nat} {ys : List Nat} (h : ys.Pairwise (· < ·)) :
    (insert x ys).Pairwise (· < ·) := by
  induction ys with
  | nil => simp [insert]
  | cons y rest ih =>
      obtain ⟨hHead, hRest⟩ := List.pairwise_cons.mp h
      unfold insert
      split
      · rename_i hLt
        refine List.pairwise_cons.mpr ⟨?_, h⟩
        intro z hz
        rcases List.mem_cons.mp hz with rfl | hz
        · exact hLt
        · exact Nat.lt_trans hLt (hHead z hz)
      · split
        · exact h
        · rename_i hNotLt hNe
          refine List.pairwise_cons.mpr ⟨?_, ih hRest⟩
          intro z hz
          rcases mem_insert_iff.mp hz with rfl | hz
          · omega
          · exact hHead z hz

/-- The ascending form of a list is strictly ascending. -/
theorem pairwise_ofList (xs : List Nat) : (ofList xs).Pairwise (· < ·) := by
  induction xs with
  | nil => exact List.Pairwise.nil
  | cons x rest ih => exact pairwise_insert ih

/-- The first members of two strictly ascending lists with the same members agree. -/
private theorem head_eq_of_mem_iff {x y : Nat} {xs ys : List Nat}
    (hXs : (x :: xs).Pairwise (· < ·)) (hYs : (y :: ys).Pairwise (· < ·))
    (h : ∀ z, z ∈ x :: xs ↔ z ∈ y :: ys) : x = y := by
  rcases List.mem_cons.mp ((h x).mp List.mem_cons_self) with hEq | hIn
  · exact hEq
  rcases List.mem_cons.mp ((h y).mpr List.mem_cons_self) with hEq | hIn'
  · exact hEq.symm
  have hBelow := (List.pairwise_cons.mp hYs).1 x hIn
  have hAbove := (List.pairwise_cons.mp hXs).1 y hIn'
  omega

/-- A strictly ascending list is determined by its members. -/
theorem eq_of_mem_iff {xs ys : List Nat} (hXs : xs.Pairwise (· < ·))
    (hYs : ys.Pairwise (· < ·)) (h : ∀ z, z ∈ xs ↔ z ∈ ys) : xs = ys := by
  induction xs generalizing ys with
  | nil => exact (List.eq_nil_iff_forall_not_mem.mpr fun z hz => by simpa using (h z).mpr hz).symm
  | cons x xs ih =>
      cases ys with
      | nil => simpa using (h x).mp List.mem_cons_self
      | cons y ys =>
          have hHead := head_eq_of_mem_iff hXs hYs h
          subst hHead
          obtain ⟨hBelowXs, hRestXs⟩ := List.pairwise_cons.mp hXs
          obtain ⟨hBelowYs, hRestYs⟩ := List.pairwise_cons.mp hYs
          congr 1
          refine ih hRestXs hRestYs fun z => ⟨fun hz => ?_, fun hz => ?_⟩
          · rcases List.mem_cons.mp ((h z).mp (List.mem_cons_of_mem _ hz)) with rfl | hIn
            · exact absurd (hBelowXs _ hz) (Nat.lt_irrefl _)
            · exact hIn
          · rcases List.mem_cons.mp ((h z).mpr (List.mem_cons_of_mem _ hz)) with rfl | hIn
            · exact absurd (hBelowYs _ hz) (Nat.lt_irrefl _)
            · exact hIn

end MatrixProgram.Ascending
