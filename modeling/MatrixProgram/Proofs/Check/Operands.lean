import MatrixProgram.Check.Operands
import MatrixProgram.Proofs.Program.WellFormed

/-!
# What the operand check guarantees

A command that passes the operand check has a component, sub-matrices and tables that
exist, and their extents agree.  For each kind of command a structure names these facts,
so that later proofs cite a field and never reopen the sequence of checks.
-/

namespace MatrixProgram

namespace Program

variable {p : Program} {net : Network}

/-! ## Single operands -/

theorem operand_eq_ok_iff {role : Role} {s : Nat} {view : SubMatrix} :
    p.operand role s = .ok view ↔ p.subMatrix s = .ok view := by
  unfold operand
  cases p.subMatrix s <;> simp

theorem optionalOperand_eq_ok_iff {role : Role} {s : Nat} {view? : Option SubMatrix} :
    p.optionalOperand role s = .ok view? ↔
      s = noSubMatrix ∧ view? = none ∨
        ∃ view, p.subMatrix s = .ok view ∧ view? = some view := by
  unfold optionalOperand
  by_cases hZero : s = noSubMatrix
  · have hNone : ∀ view, p.subMatrix s ≠ .ok view := fun view h =>
      (subMatrix_eq_ok_iff.mp h).1 hZero
    simp only [hZero, if_true, Except.ok.injEq, true_and]
    constructor
    · exact fun h => .inl h.symm
    · rintro (h | ⟨view, hView, -⟩)
      · exact h.symm
      · exact absurd hView (hZero ▸ hNone view)
  · rw [if_neg hZero, Action.check_map_eq_ok_iff]
    simp only [operand_eq_ok_iff, hZero, false_and, false_or]
    exact exists_congr fun view => and_congr_right fun _ => eq_comm

theorem checkedComponent_eq_ok_iff {c : Nat} {component : Component} :
    checkedComponent net c = .ok component ↔ net.component c = .ok component := by
  unfold checkedComponent
  cases net.component c <;> simp

/-! ## Commands of one source -/

/-- A copied or added source has the shape of the destination and is another sub-matrix. -/
structure CopyFits (p : Program) (dst src : Nat) (d s : SubMatrix) : Prop where
  dstView : p.subMatrix dst = .ok d
  srcView : p.subMatrix src = .ok s
  shape : d.region.shape = s.region.shape
  ne : dst ≠ src

theorem checkCopy_eq_ok_iff {dst src : Nat} :
    p.checkCopy dst src = .ok () ↔ ∃ d s, p.CopyFits dst src d s := by
  simp only [checkCopy, Action.check_bind_eq_ok_iff, operand_eq_ok_iff, demand_eq_ok_iff,
    exists_const]
  constructor
  · rintro ⟨d, hDst, s, hSrc, hShape, hNe⟩
    exact ⟨d, s, hDst, hSrc, hShape, hNe⟩
  · rintro ⟨d, s, h⟩
    exact ⟨d, h.dstView, s, h.srcView, h.shape, h.ne⟩

/-- A table of row indexes has one entry per row of the destination, and every entry is a
row of the source. -/
structure GatherFits (p : Program) (dst src table : Nat) (d s : SubMatrix)
    (rows : List (Option Nat)) : Prop where
  dstView : p.subMatrix dst = .ok d
  srcView : p.subMatrix src = .ok s
  entries : p.indexes[table]? = some rows
  length : rows.length = d.region.numRows
  width : d.region.numCols = s.region.numCols
  row : ∀ row, some row ∈ rows → row < s.region.numRows
  ne : dst ≠ src

theorem checkGather_eq_ok_iff {dst src table : Nat} :
    p.checkGather dst src table = .ok () ↔ ∃ d s rows, p.GatherFits dst src table d s rows := by
  simp only [checkGather, Action.check_bind_eq_ok_iff, operand_eq_ok_iff]
  cases hTable : p.indexes[table]? with
  | none =>
      simp only [Action.check_throw_eq_ok_iff, and_false, exists_false,
        false_iff]
      rintro ⟨d, s, rows, h⟩
      simpa [hTable] using h.entries
  | some rows =>
      simp only [Action.check_bind_eq_ok_iff, demand_eq_ok_iff, Action.check_forM_eq_ok_iff,
        List.mem_filterMap, id_eq, exists_eq_right, exists_const]
      constructor
      · rintro ⟨d, hDst, s, hSrc, hLength, hWidth, hRow, hNe⟩
        exact ⟨d, s, rows, hDst, hSrc, hTable, hLength, hWidth, hRow, hNe⟩
      · rintro ⟨d, s, rows', h⟩
        obtain rfl : rows = rows' := Option.some.inj (hTable.symm.trans h.entries)
        exact ⟨d, h.dstView, s, h.srcView, h.length, h.width, h.row, h.ne⟩

/-- A table of row ranges has one range per row of the destination, and every range is
ordered and ends inside the source. -/
structure RangesFit (p : Program) (dst src table : Nat) (d s : SubMatrix)
    (ranges : List (Nat × Nat)) : Prop where
  dstView : p.subMatrix dst = .ok d
  srcView : p.subMatrix src = .ok s
  entries : p.rowRanges[table]? = some ranges
  length : ranges.length = d.region.numRows
  width : d.region.numCols = s.region.numCols
  range : ∀ first past, (first, past) ∈ ranges → first ≤ past ∧ past ≤ s.region.numRows
  ne : dst ≠ src

theorem checkRowRanges_eq_ok_iff {dst src table : Nat} :
    p.checkRowRanges dst src table = .ok () ↔
      ∃ d s ranges, p.RangesFit dst src table d s ranges := by
  simp only [checkRowRanges, Action.check_bind_eq_ok_iff, operand_eq_ok_iff]
  cases hTable : p.rowRanges[table]? with
  | none =>
      simp only [Action.check_throw_eq_ok_iff, and_false, exists_false,
        false_iff]
      rintro ⟨d, s, ranges, h⟩
      simpa [hTable] using h.entries
  | some ranges =>
      simp only [Action.check_bind_eq_ok_iff, demand_eq_ok_iff, Action.check_forM_eq_ok_iff,
        Prod.forall, exists_const]
      constructor
      · rintro ⟨d, hDst, s, hSrc, hLength, hWidth, hRange, hNe⟩
        exact ⟨d, s, ranges, hDst, hSrc, hTable, hLength, hWidth, hRange, hNe⟩
      · rintro ⟨d, s, ranges', h⟩
        obtain rfl : ranges = ranges' := Option.some.inj (hTable.symm.trans h.entries)
        exact ⟨d, h.dstView, s, h.srcView, h.length, h.width, h.range, h.ne⟩

/-! ## Commands of several sub-matrices -/

/-- A table of row pairs has one entry per row of the command's own sub-matrix, and every
entry is a row of another sub-matrix of equal width.  The targets of a scattering command
are distinct. -/
structure PairsFit (p : Program) (own table : Nat) (scatters : Bool) (view : SubMatrix)
    (pairs : List (Option (Nat × Nat))) : Prop where
  ownView : p.subMatrix own = .ok view
  entries : p.rowPairs[table]? = some pairs
  length : pairs.length = view.region.numRows
  pair : ∀ s row, some (s, row) ∈ pairs → ∃ other, p.subMatrix s = .ok other ∧
    row < other.region.numRows ∧ s ≠ own ∧ other.region.numCols = view.region.numCols
  nodup : scatters = true → (pairs.filterMap id).Nodup

theorem checkPair_eq_ok_iff {own s row : Nat} {view : SubMatrix} :
    p.checkPair own view s row = .ok () ↔ ∃ other, p.subMatrix s = .ok other ∧
      row < other.region.numRows ∧ s ≠ own ∧
        other.region.numCols = view.region.numCols := by
  simp only [checkPair, Action.check_bind_eq_ok_iff, operand_eq_ok_iff, demand_eq_ok_iff,
    exists_const]

theorem checkRowPairs_eq_ok_iff {own table : Nat} {scatters : Bool} :
    p.checkRowPairs own table scatters = .ok () ↔
      ∃ view pairs, p.PairsFit own table scatters view pairs := by
  simp only [checkRowPairs, Action.check_bind_eq_ok_iff, operand_eq_ok_iff]
  cases hTable : p.rowPairs[table]? with
  | none =>
      simp only [Action.check_throw_eq_ok_iff, and_false, exists_false,
        false_iff]
      rintro ⟨view, pairs, h⟩
      simpa [hTable] using h.entries
  | some pairs =>
      simp only [Action.check_bind_eq_ok_iff, demand_eq_ok_iff, Action.check_forM_eq_ok_iff,
        List.mem_filterMap, id_eq, exists_eq_right, Prod.forall, checkPair_eq_ok_iff,
        exists_const]
      constructor
      · rintro ⟨view, hOwn, hLength, hPair, hTargets⟩
        refine ⟨view, pairs, hOwn, hTable, hLength, hPair, ?_⟩
        intro hScatters
        rw [if_pos hScatters] at hTargets
        split at hTargets
        · cases hTargets
        · rename_i hNone
          exact firstRepeated_eq_none_iff.mp hNone
      · rintro ⟨view, pairs', h⟩
        obtain rfl : pairs = pairs' := Option.some.inj (hTable.symm.trans h.entries)
        refine ⟨view, h.ownView, h.length, h.pair, ?_⟩
        split
        · rename_i hScatters
          have hNone := firstRepeated_eq_none_iff.mpr (h.nodup hScatters)
          split
          · rename_i hSome
            cases hNone.symm.trans hSome
          · rfl
        · rfl

/-! ## Commands with a component -/

theorem checkPrecomputed_eq_ok_iff {caps : Capabilities} {precomputed : Option Nat}
    {u : Unit} :
    p.checkPrecomputed caps precomputed = .ok u ↔
      ∀ table, precomputed = some table → table < p.precomputed.length ∧ caps.simple = false := by
  cases precomputed with
  | none => simp [checkPrecomputed]
  | some table =>
      simp [checkPrecomputed, Action.check_bind_eq_ok_iff, demand_eq_ok_iff]

/-- The operands of a propagation have the widths of the component, and as many rows as
each other if it is simple. -/
structure PropagateFits (p : Program) (net : Network) (c : Nat) (precomputed : Option Nat)
    (input output : Nat) (component : Component) (inView outView : SubMatrix) : Prop where
  layer : net.component c = .ok component
  inputView : p.subMatrix input = .ok inView
  outputView : p.subMatrix output = .ok outView
  rowsGiven : ∀ table, precomputed = some table →
    table < p.precomputed.length ∧ component.capabilities.simple = false
  inputWidth : inView.region.numCols = component.inputDim
  outputWidth : outView.region.numCols = component.outputDim
  rowCount : component.capabilities.simple = true →
    inView.region.numRows = outView.region.numRows
  inPlace : input = output → component.capabilities.propagateInPlace = true

theorem checkPropagate_eq_ok_iff {c input output : Nat} {precomputed : Option Nat} :
    p.checkPropagate net c precomputed input output = .ok () ↔
      ∃ component inView outView,
        p.PropagateFits net c precomputed input output component inView outView := by
  simp only [checkPropagate, Action.check_bind_eq_ok_iff, checkedComponent_eq_ok_iff,
    checkPrecomputed_eq_ok_iff, operand_eq_ok_iff, demand_eq_ok_iff, exists_const]
  constructor
  · rintro ⟨component, hLayer, hRows, inView, hIn, outView, hOut, hInWidth, hOutWidth, hCount,
      hInPlace⟩
    exact ⟨component, inView, outView, hLayer, hIn, hOut, hRows, hInWidth, hOutWidth, hCount,
      hInPlace⟩
  · rintro ⟨component, inView, outView, h⟩
    exact ⟨component, h.layer, h.rowsGiven, inView, h.inputView, outView, h.outputView,
      h.inputWidth, h.outputWidth, h.rowCount, h.inPlace⟩

/-- Statistics are stored by a component that has some, from a value of its width. -/
structure StatsFit (p : Program) (net : Network) (c value : Nat) (component : Component)
    (view : SubMatrix) : Prop where
  layer : net.component c = .ok component
  stores : component.capabilities.storesStats = true
  valueView : p.subMatrix value = .ok view
  width : view.region.numCols = component.outputDim

theorem checkStoreStats_eq_ok_iff {c value : Nat} :
    p.checkStoreStats net c value = .ok () ↔
      ∃ component view, p.StatsFit net c value component view := by
  simp only [checkStoreStats, Action.check_bind_eq_ok_iff, checkedComponent_eq_ok_iff,
    operand_eq_ok_iff, demand_eq_ok_iff, exists_const]
  constructor
  · rintro ⟨component, hLayer, hStores, view, hValue, hWidth⟩
    exact ⟨component, view, hLayer, hStores, hValue, hWidth⟩
  · rintro ⟨component, view, h⟩
    exact ⟨component, h.layer, h.stores, view, h.valueView, h.width⟩

/-- An operand is the absent one, or the view that is found for it. -/
def Optional (p : Program) (s : Nat) (view? : Option SubMatrix) : Prop :=
  s = noSubMatrix ∧ view? = none ∨ ∃ view, p.subMatrix s = .ok view ∧ view? = some view

/-- The operands of a backprop, each of which may be absent but for the derivative of the
output. -/
structure BackpropFits (p : Program) (net : Network) (node c : Nat)
    (precomputed : Option Nat) (inValue outValue outDeriv inDeriv : Nat)
    (component : Component) (inValue? outValue? : Option SubMatrix) (derivView : SubMatrix)
    (inDeriv? : Option SubMatrix) : Prop where
  layer : net.component c = .ok component
  nodeKind : ∃ n, net.node node = some n ∧ n.kind = .component c
  rowsGiven : ∀ table, precomputed = some table →
    table < p.precomputed.length ∧ component.capabilities.simple = false
  inValueView : p.Optional inValue inValue?
  outValueView : p.Optional outValue outValue?
  outDerivView : p.subMatrix outDeriv = .ok derivView
  inDerivView : p.Optional inDeriv inDeriv?
  needsInput : component.capabilities.backpropNeedsInput = true → inValue? ≠ none
  needsOutput : component.capabilities.backpropNeedsOutput = true → outValue? ≠ none
  hasEffect : inDeriv? = none → component.capabilities.updatable = true
  inPlace : outDeriv = inDeriv → component.capabilities.backpropInPlace = true
  inValueWidth : ∀ view, inValue? = some view → view.region.numCols = component.inputDim
  outValueWidth : ∀ view, outValue? = some view → view.region.numCols = component.outputDim
  outDerivWidth : derivView.region.numCols = component.outputDim
  inDerivWidth : ∀ view, inDeriv? = some view → view.region.numCols = component.inputDim
  inputRows : ∀ value deriv, inValue? = some value → inDeriv? = some deriv →
    value.region.numRows = deriv.region.numRows
  outputRows : ∀ value, outValue? = some value →
    value.region.numRows = derivView.region.numRows
  simpleRows : component.capabilities.simple = true → ∀ deriv, inDeriv? = some deriv →
    derivView.region.numRows = deriv.region.numRows

theorem checkBackpropNode_eq_ok_iff {node c : Nat} {u : Unit} :
    checkBackpropNode net node c = .ok u ↔ ∃ n, net.node node = some n ∧ n.kind = .component c := by
  unfold checkBackpropNode
  cases net.node node <;> simp [demand_eq_ok_iff]

theorem checkWidth_eq_ok_iff {role : Role} {dim : Nat} {view? : Option SubMatrix} {u : Unit} :
    checkWidth role dim view? = .ok u ↔ ∀ view, view? = some view → view.region.numCols = dim := by
  cases view? <;> simp [checkWidth, demand_eq_ok_iff]

theorem checkRowCounts_eq_ok_iff {first second : Role} {a? b? : Option SubMatrix} {u : Unit} :
    checkRowCounts first second a? b? = .ok u ↔
      ∀ a b, a? = some a → b? = some b → a.region.numRows = b.region.numRows := by
  cases a? <;> cases b? <;> simp [checkRowCounts, demand_eq_ok_iff]

theorem backpropFits_of_check {node c inValue outValue outDeriv inDeriv : Nat}
    {precomputed : Option Nat}
    (h : p.checkBackprop net node c precomputed inValue outValue outDeriv inDeriv = .ok ()) :
    ∃ component inValue? outValue? derivView inDeriv?,
      p.BackpropFits net node c precomputed inValue outValue outDeriv inDeriv component
        inValue? outValue? derivView inDeriv? := by
  simp only [checkBackprop, Action.check_bind_eq_ok_iff, checkedComponent_eq_ok_iff,
    checkBackpropNode_eq_ok_iff, checkPrecomputed_eq_ok_iff, operand_eq_ok_iff,
    optionalOperand_eq_ok_iff, demand_eq_ok_iff, checkWidth_eq_ok_iff,
    checkRowCounts_eq_ok_iff, exists_const] at h
  obtain ⟨component, hLayer, hNode, hRows, inValue?, hInValue, outValue?, hOutValue,
    derivView, hOutDeriv, inDeriv?, hInDeriv, hNeedsIn, hNeedsOut, hEffect, hInPlace,
    hInWidth, hOutWidth, hDerivWidth, hInDerivWidth, hInRows, hOutRows, hSimple⟩ := h
  refine ⟨component, inValue?, outValue?, derivView, inDeriv?, hLayer, hNode, hRows, hInValue,
    hOutValue, hOutDeriv, hInDeriv, hNeedsIn, hNeedsOut, hEffect, hInPlace, hInWidth,
    hOutWidth, hDerivWidth derivView rfl, hInDerivWidth, hInRows, ?_, ?_⟩
  · exact fun value hValue => hOutRows value derivView hValue rfl
  · intro hIsSimple deriv hDeriv
    rw [if_pos hIsSimple, checkRowCounts_eq_ok_iff] at hSimple
    exact hSimple derivView deriv rfl hDeriv

/-! ## All commands -/

/-- The operands of a program are checked exactly when those of each command are. -/
theorem checkOperands_eq_ok_iff :
    p.checkOperands net = .ok () ↔
      ∀ (index : Nat) (c : Command), p.commands[index]? = some c →
        p.checkCommand net c = .ok () := by
  simp only [checkOperands, Action.check_forM_eq_ok_iff, Action.check_mapError_eq_ok_iff,
    Prod.forall, List.mem_zipIdx_iff_getElem?]
  exact forall_comm

theorem exists_rowPairs_of_check {c : Command} {table : Nat}
    (h : p.checkCommand net c = .ok ()) (hTable : c.pairTable? = some table) :
    ∃ pairs, p.rowPairs[table]? = some pairs := by
  have hEntries : ∀ {own scatters}, p.checkRowPairs own table scatters = .ok () →
      ∃ pairs, p.rowPairs[table]? = some pairs := by
    intro own scatters hCheck
    obtain ⟨_, pairs, hFits⟩ := checkRowPairs_eq_ok_iff.mp hCheck
    exact ⟨pairs, hFits.entries⟩
  cases c with
  | gatherAddMany => cases hTable; exact hEntries h
  | gatherCopyMany => cases hTable; exact hEntries h
  | scatterAdd => cases hTable; exact hEntries h
  | scatterCopy => cases hTable; exact hEntries h
  | _ => cases hTable

/-- The sub-matrix that a checked command writes is found. -/
theorem exists_view_of_written {c : Command} {dst : Nat}
    (h : p.checkCommand net c = .ok ()) (hWritten : c.written? = some dst) :
    ∃ view, p.subMatrix dst = .ok view := by
  cases c with
  | propagate =>
      cases hWritten
      obtain ⟨_, _, view, hFits⟩ := checkPropagate_eq_ok_iff.mp h
      exact ⟨view, hFits.outputView⟩
  | backprop node k precomputed inValue outValue outDeriv inDeriv =>
      obtain ⟨_, _, _, _, _, hFits⟩ := backpropFits_of_check h
      by_cases hAbsent : inDeriv = noSubMatrix
      · simp [Command.written?, hAbsent] at hWritten
      · have hSame : inDeriv = dst := by simpa [Command.written?, hAbsent] using hWritten
        rcases hFits.inDerivView with ⟨hNone, -⟩ | ⟨view, hView, -⟩
        · exact absurd hNone hAbsent
        · exact ⟨view, hSame ▸ hView⟩
  | copy =>
      cases hWritten
      obtain ⟨view, _, hFits⟩ := checkCopy_eq_ok_iff.mp h
      exact ⟨view, hFits.dstView⟩
  | add =>
      cases hWritten
      obtain ⟨view, _, hFits⟩ := checkCopy_eq_ok_iff.mp h
      exact ⟨view, hFits.dstView⟩
  | gatherAdd =>
      cases hWritten
      obtain ⟨view, _, _, hFits⟩ := checkGather_eq_ok_iff.mp h
      exact ⟨view, hFits.dstView⟩
  | gatherCopy =>
      cases hWritten
      obtain ⟨view, _, _, hFits⟩ := checkGather_eq_ok_iff.mp h
      exact ⟨view, hFits.dstView⟩
  | gatherAddMany =>
      cases hWritten
      obtain ⟨view, _, hFits⟩ := checkRowPairs_eq_ok_iff.mp h
      exact ⟨view, hFits.ownView⟩
  | gatherCopyMany =>
      cases hWritten
      obtain ⟨view, _, hFits⟩ := checkRowPairs_eq_ok_iff.mp h
      exact ⟨view, hFits.ownView⟩
  | sumRanges =>
      cases hWritten
      obtain ⟨view, _, _, hFits⟩ := checkRowRanges_eq_ok_iff.mp h
      exact ⟨view, hFits.dstView⟩
  | _ => cases hWritten

end Program

end MatrixProgram
