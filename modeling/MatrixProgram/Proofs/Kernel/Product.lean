import MatrixProgram.Proofs.Kernel.Changes
import MatrixProgram.Proofs.Kernel.Sliced
import MatrixProgram.Proofs.Kernel.Success

/-!
# Products under transposition

A product takes each of its factors as it stands or transposed.  Whatever the two flags are, it
succeeds exactly when the extents agree after transposition, and an element of the window then
gets the sum of the products of a row of the left factor with a column of the right one.

The sum is the one that starts at zero and takes the terms in increasing index, `runningSum`:
addition of floats is not associative, so no other order would do.  The loops that compute it
run over flat copies of the factors, and a transposed factor is transposed when it is copied.
To transpose it beforehand comes to the same, `accumulateProduct_untransposed`.
-/

namespace MatrixProgram

/-- What a view shows, transposed, as a buffer of its own. -/
def View.transpose (v : View) : Buffer :=
  .ofFn v.numCols v.numRows fun row col => v.get col row

namespace Kernel

variable {rows cols : Nat}

/-- The terms `0, ..., n - 1` added to zero, in this order. -/
def runningSum (term : Nat → Float32) : Nat → Float32
  | 0 => 0
  | n + 1 => runningSum term n + term n

theorem foldl_range_eq_runningSum (term : Nat → Float32) (n : Nat) :
    (List.range n).foldl (fun total i => total + term i) 0 = runningSum term n := by
  induction n with
  | zero => rfl
  | succ n ih =>
      rw [List.range_succ, List.foldl_append, ih]
      rfl

/-- An element of a product: row `row` of the left factor times column `col` of the right one. -/
def productAt (a b : Factor) (row col : Nat) : Float32 :=
  runningSum (fun inner => a.get row inner * b.get inner col) a.shape.numCols

theorem dot_eq_productAt (a b : Factor) (row col : Nat) : dot a b row col = productAt a b row col :=
  foldl_range_eq_runningSum _ _

/-- The factor with its transposition carried out: a transposed view is replaced by a dense copy
of its transpose, taken as it stands. -/
def Factor.untransposed (a : Factor) : Factor :=
  if a.transposed then ⟨.whole a.view.transpose, false⟩ else a

theorem Factor.transposed_untransposed (a : Factor) : a.untransposed.transposed = false := by
  unfold untransposed
  split
  · rfl
  · rename_i hPlain
    simpa using hPlain

theorem Factor.untransposed_showsSame (a : Factor) : a.untransposed.ShowsSame a := by
  obtain ⟨v, transposed⟩ := a
  cases transposed with
  | false => exact .refl _
  | true =>
      refine ⟨rfl, fun row col hRow hCol => ?_⟩
      calc
        (View.whole v.transpose).get row col = v.transpose.get row col := by
          simp [View.whole, View.get, Region.whole]
        _ = v.get col row := Dense.get_ofFn hRow hCol

/-- A product of factors is the product of the factors with their transpositions carried out. -/
theorem accumulateProduct_untransposed (a b : Factor) (alpha beta : Float32) (g : Region) :
    (accumulateProduct a.untransposed b.untransposed alpha beta g : Write rows cols) =
      accumulateProduct a b alpha beta g :=
  product_congr a.untransposed_showsSame b.untransposed_showsSame alpha beta g

theorem requireProduct_eq_ok_iff {a b : Factor} {g : Region} :
    (do requireProduct a b; requireShape g.shape ⟨a.shape.numRows, b.shape.numCols⟩) = .ok () ↔
      a.shape.numCols = b.shape.numRows ∧ g.shape = ⟨a.shape.numRows, b.shape.numCols⟩ := by
  constructor
  · intro h
    obtain ⟨⟨⟩, hInner, hOuter⟩ := Action.check_bind_eq_ok_iff.mp h
    exact ⟨Action.require_eq_ok_iff.mp hInner, Action.require_eq_ok_iff.mp hOuter⟩
  · rintro ⟨hInner, hOuter⟩
    exact Action.check_bind_eq_ok_iff.mpr
      ⟨(), Action.require_eq_ok_iff.mpr hInner, requireShape_eq_ok hOuter⟩

/-- A product succeeds exactly if the extents agree, and then maps what the view shows. -/
theorem product_eq_ok_iff {a b : Factor} {alpha beta : Float32} {dst : View} {t : Buffer} :
    dst.change (accumulateProduct a b alpha beta) = .ok () t ↔
      (a.shape.numCols = b.shape.numRows ∧ dst.shape = ⟨a.shape.numRows, b.shape.numCols⟩) ∧
        dst.Mapped (fun row col old =>
          if beta == 0 then alpha * productAt a b row col
          else beta * old + alpha * productAt a b row col) t := by
  refine (View.change_guardedMap_eq_ok_iff rfl).trans (and_congr requireProduct_eq_ok_iff ?_)
  simp only [dot_eq_productAt]

/-- What a product does to what a view shows. -/
structure MeetsProduct (a b : Factor) (alpha beta : Float32) (dst : View) : Prop where
  /-- It succeeds exactly when the inner extents of the factors agree, and the view has the outer
  ones. -/
  succeeds_iff : (∃ t, dst.change (accumulateProduct a b alpha beta) = .ok () t) ↔
    a.shape.numCols = b.shape.numRows ∧ dst.shape = ⟨a.shape.numRows, b.shape.numCols⟩
  /-- Each element of the view then holds `alpha` times that of the product, and this is added to
  `beta` times the old value unless `beta` is zero.  Nothing else changes. -/
  mapped : ∀ t, dst.change (accumulateProduct a b alpha beta) = .ok () t →
    dst.Mapped (fun row col old =>
      if beta == 0 then alpha * productAt a b row col
      else beta * old + alpha * productAt a b row col) t
  /-- The loops over the storage, with flat copies of the factors, index nothing out of range, and
  answer and leave behind the same. -/
  loops : (Primitive.accumulateProduct a b alpha beta).sliced dst.buffer.numCols dst.region
      dst.buffer.elements =
    some (Action.mapState Buffer.elements (dst.change (accumulateProduct a b alpha beta)))
  /-- No factor is transposed any more once the transpositions are carried out. -/
  plain : a.untransposed.transposed = false ∧ b.untransposed.transposed = false
  /-- On such factors the product answers and leaves behind the same. -/
  untransposed : dst.change (accumulateProduct a.untransposed b.untransposed alpha beta) =
    dst.change (accumulateProduct a b alpha beta)

/-- A product meets its definition on all factors, as they stand or transposed, on every view and
for all scalars. -/
theorem product_under_transposition (a b : Factor) (alpha beta : Float32) (dst : View) :
    MeetsProduct a b alpha beta dst where
  succeeds_iff := by
    constructor
    · rintro ⟨t, hRun⟩
      exact (product_eq_ok_iff.mp hRun).1
    · intro hExtents
      exact ⟨_, product_eq_ok_iff.mpr ⟨hExtents, dst.mapped_mapWindow _⟩⟩
  mapped := fun _ hRun => (product_eq_ok_iff.mp hRun).2
  loops := by
    refine (accumulateProduct_sliced (m := dst.buffer.values) dst.fits a b alpha beta).trans ?_
    rw [View.change_eq]
    cases accumulateProduct a b alpha beta dst.region dst.buffer.values <;> rfl
  plain := ⟨a.transposed_untransposed, b.transposed_untransposed⟩
  untransposed := by
    rw [View.change_eq, View.change_eq, accumulateProduct_untransposed]

end Kernel

end MatrixProgram
