import MatrixProgram.Proofs.Kernel.Success
import MatrixProgram.Proofs.Machine.Lifecycle
import MatrixProgram.Proofs.Machine.Storage

/-!
# Progress of commands

The conditions that the operand check tries are the ones that a command needs: in a state
which holds the matrices of its operands, with the declared shapes, a command does not fail.
`Prepared` is that condition on states.  Every step of a command keeps it, so a command of
several steps is prepared for each of them.

There are two conditions that the operand check leaves open.  The list of a propagation that
selects rows must fit its operands, `SelectsRows`.  And a backprop which does not ask for the
derivative of the input must still have equally many rows in the value of the input and in
the derivative of the output, `backprop_executes`: the check compares each of them with that
derivative only.
-/

namespace MatrixProgram

/-- Every component is an affine or a nonlinear one. -/
def Network.Plain (net : Network) : Prop :=
  ∀ entry ∈ net.components, (∃ a, entry.2 = .affine a) ∨ ∃ n, entry.2 = .nonlinear n

theorem Network.mem_of_component {net : Network} {k : Nat} {c : Component}
    (h : net.component k = .ok c) : ∃ name, (name, c) ∈ net.components := by
  unfold Network.component at h
  split at h
  · rename_i entry hGet
    cases h
    exact ⟨entry.1, List.mem_of_getElem? hGet⟩
  · cases h

theorem Network.Computes.component {net : Network} (hComputes : net.Computes) {k : Nat}
    {c : Component} (h : net.component k = .ok c) : c.Computes := by
  obtain ⟨name, hMem⟩ := mem_of_component h
  exact hComputes _ hMem

theorem Network.Plain.component {net : Network} (hPlain : net.Plain) {k : Nat} {c : Component}
    (h : net.component k = .ok c) : (∃ a, c = .affine a) ∨ ∃ n, c = .nonlinear n := by
  obtain ⟨name, hMem⟩ := mem_of_component h
  exact hPlain _ hMem

namespace Program

/-- Every propagation of a component that selects rows carries a list which selects the rows
of its output from those of its input. -/
def SelectsRows (p : Program) (net : Network) : Prop :=
  ∀ (index k : Nat) (precomputed : Option Nat) (input output : Nat) (r : RowSelect),
    p.commands[index]? = some (.propagate k precomputed input output) →
      net.component k = .ok (.rowSelect r) → ∃ table found inView outView,
        precomputed = some table ∧ p.precomputed[table]? = some found ∧
          p.subMatrix input = .ok inView ∧ p.subMatrix output = .ok outView ∧
            Component.Selects found inView.region.numRows outView.region.numRows

end Program

namespace Machine

open Program Kernel

variable {x : Machine} {c : Command} {index : Nat} {O : Nat → Prop} {s : MachineState}
  {α β : Type}

/-! ## Prepared states -/

/-- A state holds storage of the declared shape for the matrices in `O`, and its network to
update, if there is one, is as wide as the network. -/
structure Prepared (x : Machine) (O : Nat → Prop) (s : MachineState) : Prop where
  length : s.slots.entries.length = x.program.numMatrices
  holds : ∀ m, O m → ∃ b, s.slots.buffer? m = some b ∧ x.program.matrix m = .ok b.shape
  target : ∀ net, s.target = some net → net.widths = x.network.widths

/-- A slot may be filled with a buffer of the declared shape. -/
theorem Prepared.put {m : Nat} {b : Buffer} (h : x.Prepared O s)
    (hShape : x.program.matrix m = .ok b.shape) :
    x.Prepared O { s with slots := s.slots.put m (some b) } where
  length := (Slots.length_put _ _ _).trans h.length
  holds := by
    intro k hOwned
    by_cases hEq : m = k
    · subst hEq
      have hLt : m < s.slots.entries.length := h.length ▸ lt_numMatrices_of_matrix hShape
      exact ⟨b, Slots.buffer?_put_self hLt, hShape⟩
    · obtain ⟨b', hBuffer, hDeclared⟩ := h.holds k hOwned
      refine ⟨b', ?_, hDeclared⟩
      rw [Slots.buffer?_put, if_neg fun hBoth => hEq hBoth.1]
      exact hBuffer
  target := h.target

/-- A view of a matrix fits in the storage that a prepared state holds for it. -/
theorem Prepared.exists_buffer (h : x.Prepared O s) (hWell : x.program.WellFormed) {sub : Nat}
    {view : SubMatrix} (hView : x.program.subMatrix sub = .ok view) (hOwned : O view.matrix) :
    ∃ b, s.slots.buffer? view.matrix = some b ∧ x.program.matrix view.matrix = .ok b.shape ∧
      view.region.FitsIn b.numRows b.numCols := by
  obtain ⟨b, hBuffer, hDeclared⟩ := h.holds _ hOwned
  obtain ⟨shape, hMatrix, hFits⟩ := hWell.fits hView
  cases hDeclared.symm.trans hMatrix
  exact ⟨b, hBuffer, hDeclared, hFits⟩

/-- A sub-matrix of such a matrix is found. -/
theorem Prepared.exists_view (h : x.Prepared O s) (hWell : x.program.WellFormed) {sub : Nat}
    {view : SubMatrix} (hView : x.program.subMatrix sub = .ok view) (hOwned : O view.matrix) :
    ∃ v : View, s.slots.view? x.program sub = .ok (some v) ∧ v.region = view.region := by
  obtain ⟨b, hBuffer, -, hFits⟩ := h.exists_buffer hWell hView hOwned
  refine ⟨⟨b, view.region, hFits⟩, ?_, rfl⟩
  have hPresent := (subMatrix_eq_ok_iff.mp hView).1
  simp [Slots.view?, hPresent, hView, Slots.read, hBuffer, View.of, hFits, pure, Except.pure]

/-- An operand that may be absent is found, or absent. -/
theorem Prepared.exists_optional (h : x.Prepared O s) (hWell : x.program.WellFormed)
    {sub : Nat} {view? : Option SubMatrix} (hView : x.program.Optional sub view?)
    (hOwned : ∀ view, x.program.subMatrix sub = .ok view → O view.matrix) :
    ∃ v? : Option View, s.slots.view? x.program sub = .ok v? ∧
      v?.map View.region = view?.map SubMatrix.region := by
  rcases hView with ⟨rfl, rfl⟩ | ⟨view, hView, rfl⟩
  · exact ⟨none, rfl, rfl⟩
  · obtain ⟨v, hFound, hRegion⟩ := h.exists_view hWell hView (hOwned view hView)
    exact ⟨some v, hFound, congrArg some hRegion⟩

/-- The matrix of an operand is one that the command owns. -/
theorem owns_operand (slot : Slot) {sub : Nat} (hOperand : c.operand? slot = some sub)
    (view : SubMatrix) (hView : x.program.subMatrix sub = .ok view) :
    x.program.Owns c view.matrix :=
  owns_of_names (.operand hOperand) view hView

/-- A state that holds storage for every matrix is prepared for every command. -/
theorem Prepared.of_stored (hWell : x.program.WellFormed)
    (hLength : s.slots.entries.length = x.program.numMatrices)
    (hStored : ∀ m shape, x.program.matrix m = .ok shape →
      ∃ b, s.slots.buffer? m = some b ∧ b.shape = shape)
    (hTarget : ∀ net, s.target = some net → net.widths = x.network.widths) :
    x.Prepared (x.program.Owns c) s where
  length := hLength
  holds := by
    rintro m ⟨_, _, view, _, hView, rfl⟩
    obtain ⟨shape, hMatrix, -⟩ := hWell.fits hView
    obtain ⟨b, hBuffer, rfl⟩ := hStored _ shape hMatrix
    exact ⟨b, hBuffer, hMatrix⟩
  target := hTarget

/-! ## Actions that do not fail -/

/-- An action succeeds in every state of an invariant, which it keeps. -/
def Runs (I : MachineState → Prop) (act : MachineAction Unit) : Prop :=
  ∀ s, I s → ∃ t, act s = .ok () t ∧ I t

section Sequencing

variable {I : MachineState → Prop}

theorem Runs.pure : Runs I (Pure.pure ()) :=
  fun s hBefore => ⟨s, rfl, hBefore⟩

theorem Runs.bind {first : MachineAction Unit} {next : Unit → MachineAction Unit}
    (hFirst : Runs I first) (hNext : Runs I (next ())) : Runs I (first >>= next) := by
  intro s hBefore
  obtain ⟨t, hRun, hBetween⟩ := hFirst s hBefore
  rw [Action.bind_run_ok hRun]
  exact hNext t hBetween

theorem Runs.forM {f : β → MachineAction Unit} (xs : List β) (h : ∀ b ∈ xs, Runs I (f b)) :
    Runs I (xs.forM f) := by
  induction xs with
  | nil => exact Runs.pure
  | cons first rest ih =>
      have hRest := ih fun b hMem => h b (List.mem_cons_of_mem _ hMem)
      exact Runs.bind (h first List.mem_cons_self) hRest

end Sequencing

section Commands

variable (hWell : x.program.WellFormed)

include hWell

/-! ## Writing -/

/-- Writing a sub-matrix succeeds if the operands are found and the change succeeds. -/
theorem write_runs {dst : Nat} {d : SubMatrix} {operands : Slots → Except Error α}
    {w : α → {rows cols : Nat} → Region → Write rows cols}
    (hDst : x.program.subMatrix dst = .ok d) (hOwned : O d.matrix)
    (hOperands : ∀ s, x.Prepared O s → ∃ a, operands s.slots = .ok a ∧
      ∀ rows cols, Write.Succeeds (w a d.region : Write rows cols)) :
    Runs (x.Prepared O) (x.write dst operands w) := by
  intro s hPrepared
  obtain ⟨b, hBuffer, hDeclared, hFits⟩ := hPrepared.exists_buffer hWell hDst hOwned
  obtain ⟨a, hFound, hSucceeds⟩ := hOperands s hPrepared
  have hDone := hSucceeds b.numRows b.numCols b.values
  unfold write
  simp only [hDst, Slots.getElem?_of_buffer? hBuffer, hFound, Write.inWindow, if_pos hFits]
  cases hRun : (w a d.region : Write b.numRows b.numCols) b.values with
  | error err values =>
      rw [hRun] at hDone
      cases hDone
  | ok u values =>
      have hPut := hPrepared.put (b := ⟨b.numRows, b.numCols, values⟩) hDeclared
      exact ⟨_, rfl, hPut⟩

/-- Writing from a single source succeeds if the change succeeds on every view of the region
of the source. -/
theorem writeFrom_runs {dst src : Nat} {d v : SubMatrix} {role : Role}
    {w : View → {rows cols : Nat} → Region → Write rows cols}
    (hDst : x.program.subMatrix dst = .ok d) (hSrc : x.program.subMatrix src = .ok v)
    (hOwnsDst : O d.matrix) (hOwnsSrc : O v.matrix)
    (hSucceeds : ∀ u : View, u.region = v.region →
      ∀ rows cols, Write.Succeeds (w u d.region : Write rows cols)) :
    Runs (x.Prepared O) (x.writeFrom dst src role w) := by
  rw [writeFrom_eq]
  refine write_runs hWell hDst hOwnsDst fun s hPrepared => ?_
  obtain ⟨u, hFound, hRegion⟩ := hPrepared.exists_view hWell hSrc hOwnsSrc
  exact ⟨some u, hFound, hSucceeds u hRegion⟩

/-- A command that writes its destination from its source owns the matrices of both. -/
theorem writeOperand_runs {dst src : Nat} {d v : SubMatrix} {role : Role}
    {w : View → {rows cols : Nat} → Region → Write rows cols}
    (hDstOperand : c.operand? .dst = some dst) (hSrcOperand : c.operand? .src = some src)
    (hDst : x.program.subMatrix dst = .ok d) (hSrc : x.program.subMatrix src = .ok v)
    (hSucceeds : ∀ u : View, u.region = v.region →
      ∀ rows cols, Write.Succeeds (w u d.region : Write rows cols)) :
    Runs (x.Prepared (x.program.Owns c)) (x.writeFrom dst src role w) :=
  writeFrom_runs hWell hDst hSrc (owns_operand .dst hDstOperand d hDst)
    (owns_operand .src hSrcOperand v hSrc) hSucceeds

/-! ## Commands with a table of row pairs -/

omit hWell in
theorem scatterRow_succeeds {rows cols row srcRow : Nat} {copies : Bool} {g : Region} {v : View}
    (hRow : row < g.numRows) (hSrcRow : srcRow < v.numRows) (hWidth : g.numCols = v.numCols) :
    Write.Succeeds (scatterRow copies row v srcRow g : Write rows cols) := by
  cases copies with
  | true => exact copyRow_succeeds hRow hSrcRow hWidth
  | false => exact addRow_succeeds 1 hRow hSrcRow hWidth

/-- A prepared state has views of all sub-matrices that a table names, with the regions that
the check has seen. -/
theorem exists_pairViews {dst table : Nat} {d : SubMatrix} {pairs : List (Option (Nat × Nat))}
    (hFits : x.program.PairsFit dst table false d pairs) (hPrepared : x.Prepared O s)
    (hOwned : ∀ s row, some (s, row) ∈ pairs → ∀ view, x.program.subMatrix s = .ok view →
      O view.matrix) :
    ∃ views, x.pairViews pairs s.slots = .ok views ∧
      ∀ sub row, some (sub, row) ∈ pairs → ∃ v : View, views.lookup sub = some (some v) ∧
        s.slots.view? x.program sub = .ok (some v) ∧ row < v.numRows ∧
          d.region.numCols = v.numCols := by
  have hEach : ∀ sub row, some (sub, row) ∈ pairs → ∃ v : View,
      s.slots.view? x.program sub = .ok (some v) ∧ row < v.numRows ∧
        d.region.numCols = v.numCols := by
    intro sub row hEntry
    obtain ⟨other, hView, hRow, -, hWidth⟩ := hFits.pair sub row hEntry
    obtain ⟨v, hFound, hRegion⟩ :=
      hPrepared.exists_view hWell hView (hOwned sub row hEntry other hView)
    refine ⟨v, hFound, ?_, ?_⟩
    · rw [View.numRows, hRegion]
      exact hRow
    · rw [View.numCols, hRegion]
      exact hWidth.symm
  have hViews : ∃ views, x.pairViews pairs s.slots = .ok views := by
    refine Action.exists_check_mapM fun sub hMem => ?_
    obtain ⟨row, hEntry⟩ := mem_pairSubMatrices_iff.mp hMem
    obtain ⟨v, hFound, -⟩ := hEach sub row hEntry
    exact ⟨(sub, some v), by rw [hFound]; rfl⟩
  obtain ⟨views, hViews⟩ := hViews
  refine ⟨views, hViews, fun sub row hEntry => ?_⟩
  obtain ⟨operand, hLookup, hOperand⟩ := lookup_pairViews hViews hEntry
  obtain ⟨v, hFound, hRow, hWidth⟩ := hEach sub row hEntry
  cases hOperand.symm.trans hFound
  exact ⟨v, hLookup, hFound, hRow, hWidth⟩

theorem gather_runs {dst table : Nat} {copies : Bool} {d : SubMatrix}
    {pairs : List (Option (Nat × Nat))} (hFits : x.program.PairsFit dst table false d pairs)
    (hOwnsDst : O d.matrix)
    (hOwned : ∀ s row, some (s, row) ∈ pairs → ∀ view, x.program.subMatrix s = .ok view →
      O view.matrix) :
    Runs (x.Prepared O) (x.gather index copies dst table) := by
  rw [gather_eq, tableAt_of_getElem? hFits.entries, Action.ofExcept_ok_bind]
  refine write_runs hWell hFits.ownView hOwnsDst fun s hPrepared => ?_
  obtain ⟨views, hViews, hEach⟩ := exists_pairViews hWell hFits hPrepared hOwned
  refine ⟨views, hViews, fun rows cols => Write.Succeeds.forM _ ?_⟩
  rintro ⟨pair, row⟩ hMem
  have hAt := List.mem_zipIdx_iff_getElem?.mp hMem
  have hRow : row < d.region.numRows := by
    rw [← hFits.length]
    exact (List.getElem?_eq_some_iff.mp hAt).1
  cases pair with
  | none =>
      cases copies with
      | true => exact clearRow_succeeds hRow
      | false => exact Write.Succeeds.pure
  | some entry =>
      obtain ⟨sub, srcRow⟩ := entry
      obtain ⟨v, hLookup, -, hSrcRow, hWidth⟩ := hEach sub srcRow (List.mem_of_getElem? hAt)
      show Write.Succeeds (gatherRow index copies views row d.region (some (sub, srcRow)))
      rw [gatherRow_some, hLookup]
      exact scatterRow_succeeds hRow hSrcRow hWidth

theorem scatter_runs {src table : Nat} {copies : Bool} {v : SubMatrix}
    {pairs : List (Option (Nat × Nat))} (hFits : x.program.PairsFit src table true v pairs)
    (hOwnsSrc : O v.matrix)
    (hOwned : ∀ s row, some (s, row) ∈ pairs → ∀ view, x.program.subMatrix s = .ok view →
      O view.matrix) :
    Runs (x.Prepared O) (x.scatter index copies src table) := by
  -- Each entry names a row of a sub-matrix, and stands at the place of a row of the source.
  have hEach : ∀ sub dstRow row, (some (sub, dstRow), row) ∈ pairs.zipIdx →
      ∃ d, x.program.subMatrix sub = .ok d ∧ O d.matrix ∧
        ∀ u : View, u.region = v.region → ∀ rows cols,
          Write.Succeeds (scatterRow copies dstRow u row d.region : Write rows cols) := by
    intro sub dstRow row hMem
    have hAt := List.mem_zipIdx_iff_getElem?.mp hMem
    have hEntry := List.mem_of_getElem? hAt
    obtain ⟨d, hDst, hDstRow, -, hWidth⟩ := hFits.pair sub dstRow hEntry
    refine ⟨d, hDst, hOwned sub dstRow hEntry d hDst, fun u hRegion rows cols => ?_⟩
    have hRow : row < u.numRows := by
      rw [View.numRows, hRegion, ← hFits.length]
      exact (List.getElem?_eq_some_iff.mp hAt).1
    refine scatterRow_succeeds hDstRow hRow ?_
    rw [View.numCols, hRegion]
    exact hWidth
  simp only [scatter, tableAt_of_getElem? hFits.entries, hFits.ownView, Action.ofExcept_ok_bind,
    withViews_nil]
  split
  · -- The copy that is taken first is the same for all entries.
    intro s hPrepared
    obtain ⟨b, hBuffer, -, hInside⟩ := hPrepared.exists_buffer hWell hFits.ownView hOwnsSrc
    have hRead : s.slots.read v.matrix = .ok b := by rw [Slots.read, hBuffer]
    rw [Action.bind_run, Action.get_run]
    simp only [hRead, Action.ofExcept_ok_bind]
    refine Runs.forM _ ?_ s hPrepared
    rintro ⟨pair, row⟩ hMem
    cases pair with
    | none => exact Runs.pure
    | some entry =>
        obtain ⟨sub, dstRow⟩ := entry
        obtain ⟨d, hDst, hOwnsDst, hSucceeds⟩ := hEach sub dstRow row hMem
        have hView : View.of b v.region = .ok ⟨b, v.region, hInside⟩ := dif_pos hInside
        simp only [hView, Action.ofExcept_ok_bind]
        exact write_runs hWell hDst hOwnsDst fun s _ => ⟨(), rfl, hSucceeds _ rfl⟩
  · refine Runs.forM _ ?_
    rintro ⟨pair, row⟩ hMem
    cases pair with
    | none => exact Runs.pure
    | some entry =>
        obtain ⟨sub, dstRow⟩ := entry
        obtain ⟨d, hDst, hOwnsDst, hSucceeds⟩ := hEach sub dstRow row hMem
        exact writeFrom_runs hWell hDst hFits.ownView hOwnsDst hOwnsSrc hSucceeds

/-! ## Commands with a component -/

omit hWell in
/-- The precomputed rows of a command are found, and they are those of its table. -/
theorem exists_precomputedRows (index : Nat) {precomputed : Option Nat}
    (hGiven : ∀ table, precomputed = some table → table < x.program.precomputed.length) :
    ∃ rows, x.precomputedRows index precomputed = .ok rows ∧
      ∀ table found, precomputed = some table → x.program.precomputed[table]? = some found →
        rows = some found := by
  cases precomputed with
  | none => exact ⟨none, rfl, fun _ _ hNone => by cases hNone⟩
  | some table =>
      obtain ⟨rows, hGet⟩ : ∃ rows, x.program.precomputed[table]? = some rows :=
        ⟨_, List.getElem?_eq_getElem (hGiven table rfl)⟩
      refine ⟨some rows, by simp only [precomputedRows, hGet], ?_⟩
      intro table' found hSame hFound
      cases hSame
      exact hGet.symm.trans hFound

theorem propagate_runs {k input output : Nat} {precomputed : Option Nat} {component : Component}
    {inView outView : SubMatrix}
    (hFits : x.program.PropagateFits x.network k precomputed input output component inView outView)
    (hComputes : component.Computes)
    (hSelects : ∀ r, component = .rowSelect r → ∃ table found, precomputed = some table ∧
      x.program.precomputed[table]? = some found ∧
        Component.Selects found inView.region.numRows outView.region.numRows)
    (hOwnsIn : O inView.matrix) (hOwnsOut : O outView.matrix) :
    Runs (x.Prepared O) (x.propagate index k precomputed input output) := by
  obtain ⟨rows, hRows, hTable⟩ := exists_precomputedRows index
    fun table hSome => (hFits.rowsGiven table hSome).1
  simp only [propagate, hFits.layer, hRows, Action.ofExcept_ok_bind]
  refine writeFrom_runs hWell hFits.outputView hFits.inputView hOwnsOut hOwnsIn ?_
  intro u hRegion _ _
  refine Component.propagate_succeeds hComputes ?_ hFits.outputWidth ?_ ?_
  · rw [View.numCols, hRegion]
    exact hFits.inputWidth
  · intro hSimple
    rw [View.numRows, hRegion]
    exact hFits.rowCount hSimple
  · intro r hEq
    obtain ⟨table, found, hSome, hFound, hSelected⟩ := hSelects r hEq
    refine ⟨found, hTable table found hSome hFound, ?_⟩
    rw [View.numRows, hRegion]
    exact hSelected

omit hWell in
/-- A change of the network to update succeeds if it succeeds on every network of its widths,
and keeps these. -/
theorem changeTarget_runs
    {change : Network → MachineState → EStateM.Result Error Network Unit}
    (hChange : ∀ s, x.Prepared O s → ∀ net, net.widths = x.network.widths →
      ∃ f : Action Network Unit, change net s = f net ∧ Action.outcome (f net) = .ok () ∧
        Action.Fixes Network.widths f) :
    Runs (x.Prepared O) (changeTarget change) := by
  intro s hPrepared
  unfold changeTarget
  cases hTarget : s.target with
  | none => exact ⟨s, rfl, hPrepared⟩
  | some net =>
      have hWidths := hPrepared.target net hTarget
      obtain ⟨f, hSame, hDone, hFixes⟩ := hChange s hPrepared net hWidths
      have hKept := hFixes net
      simp only [hSame]
      cases hRun : f net with
      | error err net' =>
          rw [hRun] at hDone
          cases hDone
      | ok u net' =>
          rw [hRun] at hKept
          refine ⟨_, rfl, hPrepared.length, hPrepared.holds, ?_⟩
          intro net'' hSome
          cases hSome
          exact hKept.trans hWidths

theorem storeStats_runs {k value : Nat} {component : Component} {view : SubMatrix}
    (hFits : x.program.StatsFit x.network k value component view) (hOwned : O view.matrix) :
    Runs (x.Prepared O) (x.storeStats index k value) := by
  unfold storeStats
  split
  · refine changeTarget_runs fun s hPrepared net hWidths => ?_
    obtain ⟨v, hFound, hRegion⟩ := hPrepared.exists_view hWell hFits.valueView hOwned
    refine ⟨Network.changeComponent k (Component.storeStats v), by simp only [hFound], ?_,
      Network.changeComponent_fixes (Component.storeStats_fixes v) k⟩
    refine Network.changeComponent_succeeds hWidths hFits.layer fun c' _ hOut => ?_
    refine Component.storeStats_succeeds ?_
    rw [View.numCols, hRegion, hOut]
    exact hFits.width
  · exact Runs.pure

section Backprop

variable {node k inValue outValue outDeriv inDeriv : Nat} {precomputed : Option Nat}
  {component : Component} {inValue? outValue? inDeriv? : Option SubMatrix}
  {derivView : SubMatrix}
  (hFits : x.program.BackpropFits x.network node k precomputed inValue outValue outDeriv inDeriv
    component inValue? outValue? derivView inDeriv?)

include hFits

/-- The update succeeds if the value of the input is there, with as many rows as the
derivative of the output. -/
theorem updateTarget_runs (rows : Option (List Nat))
    (hValue : ∃ view, inValue? = some view ∧ view.region.numRows = derivView.region.numRows) :
    Runs (x.Prepared (x.program.Owns
        (.backprop node k precomputed inValue outValue outDeriv inDeriv)))
      (x.updateTarget index k rows inValue outDeriv) := by
  obtain ⟨view, rfl, hRows⟩ := hValue
  refine changeTarget_runs fun s hPrepared net hWidths => ?_
  obtain ⟨v?, hFoundIn, hRegions⟩ :=
    hPrepared.exists_optional hWell hFits.inValueView (owns_operand .inValue rfl)
  obtain ⟨v, rfl, hRegionIn⟩ := Option.map_eq_some_iff.mp hRegions
  obtain ⟨d, hFoundOut, hRegionOut⟩ :=
    hPrepared.exists_view hWell hFits.outDerivView (owns_operand .outDeriv rfl _ hFits.outDerivView)
  refine ⟨Network.changeComponent k (Component.update rows (some v) d),
    by simp only [hFoundIn, hFoundOut], ?_,
    Network.changeComponent_fixes (Component.update_fixes rows (some v) d) k⟩
  refine Network.changeComponent_succeeds hWidths hFits.layer fun c' hIn hOut => ?_
  refine Component.update_succeeds ?_ ⟨v, rfl, ?_, ?_⟩
  · rw [View.numCols, hRegionOut, hOut]
    exact hFits.outDerivWidth
  · rw [View.numCols, hRegionIn, hIn]
    exact hFits.inValueWidth view rfl
  · rw [View.numRows, View.numRows, hRegionIn, hRegionOut]
    exact hRows

/-- The derivative of the input is written if the component is a simple one. -/
theorem writeInDeriv_runs (rows : Option (List Nat)) (hComputes : component.Computes)
    (hSimple : component.capabilities.simple = true) :
    Runs (x.Prepared (x.program.Owns
        (.backprop node k precomputed inValue outValue outDeriv inDeriv)))
      (x.writeInDeriv component rows inValue outValue outDeriv inDeriv) := by
  unfold writeInDeriv
  split
  · rename_i hPresent
    obtain ⟨hAbsent, -⟩ | ⟨g, hDst, rfl⟩ := hFits.inDerivView
    · exact absurd hAbsent hPresent
    refine write_runs hWell hDst (owns_operand .inDeriv rfl g hDst) fun s hPrepared => ?_
    obtain ⟨inView?, hFoundIn, -⟩ :=
      hPrepared.exists_optional hWell hFits.inValueView (owns_operand .inValue rfl)
    obtain ⟨outView?, hFoundValue, hRegions⟩ :=
      hPrepared.exists_optional hWell hFits.outValueView (owns_operand .outValue rfl)
    obtain ⟨d, hFoundOut, hRegionOut⟩ :=
      hPrepared.exists_view hWell hFits.outDerivView
        (owns_operand .outDeriv rfl _ hFits.outDerivView)
    refine ⟨(inView?, outView?, some d), ?_, fun _ _ => ?_⟩
    · simp only [backpropViews, hFoundIn, hFoundValue, hFoundOut, Action.check_ok_bind]
      rfl
    show Write.Succeeds (component.backprop rows inView? outView? d g.region)
    refine Component.backprop_succeeds hComputes hSimple ?_ (hFits.inDerivWidth g rfl) ?_ ?_
    · rw [View.numCols, hRegionOut]
      exact hFits.outDerivWidth
    · rw [View.numRows, hRegionOut]
      exact hFits.simpleRows hSimple g rfl
    · intro hNeeds
      obtain ⟨view, rfl⟩ := Option.ne_none_iff_exists'.mp (hFits.needsOutput hNeeds)
      obtain ⟨v, rfl, hRegion⟩ := Option.map_eq_some_iff.mp hRegions
      refine ⟨v, rfl, ?_, ?_⟩
      · rw [View.numCols, hRegion]
        exact hFits.outValueWidth view rfl
      · rw [View.numRows, View.numRows, hRegion, hRegionOut]
        exact hFits.outputRows view rfl
  · exact Runs.pure

/-- A backprop of an affine or a nonlinear component succeeds if the value of the input and
the derivative of the output have equally many rows where the derivative of the input is not
wanted. -/
theorem backprop_runs
    (hPlain : (∃ a, component = .affine a) ∨ ∃ n, component = .nonlinear n)
    (hRows : inDeriv? = none → ∀ view, inValue? = some view →
      view.region.numRows = derivView.region.numRows) :
    Runs (x.Prepared (x.program.Owns
        (.backprop node k precomputed inValue outValue outDeriv inDeriv)))
      (x.backprop index k precomputed inValue outValue outDeriv inDeriv) := by
  obtain ⟨rows, hFound, -⟩ := exists_precomputedRows index
    fun table hSome => (hFits.rowsGiven table hSome).1
  rw [backprop_eq, hFits.layer, Action.ofExcept_ok_bind, hFound, Action.ofExcept_ok_bind]
  rcases hPlain with ⟨a, rfl⟩ | ⟨n, rfl⟩
  · -- The rows of the two operands agree with each other, or with the derivative of the input.
    obtain ⟨view, hView⟩ := Option.ne_none_iff_exists'.mp (hFits.needsInput rfl)
    have hAgree : view.region.numRows = derivView.region.numRows := by
      cases hDeriv : inDeriv? with
      | none => exact hRows hDeriv view hView
      | some g =>
          have hInput := hFits.inputRows view g hView hDeriv
          exact hInput.trans (hFits.simpleRows rfl g hDeriv).symm
    exact Runs.bind (updateTarget_runs hWell hFits rows ⟨view, hView, hAgree⟩)
      (writeInDeriv_runs hWell hFits rows trivial rfl)
  · exact Runs.bind Runs.pure (writeInDeriv_runs hWell hFits rows trivial rfl)

end Backprop

/-! ## All commands -/

omit hWell in
/-- A command that allocates or releases a matrix needs no more than its slot. -/
theorem perform_resize_runs {m : Nat} (hResize : c.resized? = some m)
    (hCheck : x.program.checkCommand x.network c = .ok ()) :
    Runs (x.Prepared (x.program.Owns c)) (x.perform index c) := by
  intro s hPrepared
  obtain ⟨b, hRefills⟩ := exists_refills hCheck hResize
  have hLt : m < s.slots.entries.length := by
    rw [hPrepared.length]
    rcases hRefills.allocated_or_released with ⟨hAllocated, -⟩ | ⟨hReleased, -⟩
    · exact (resize_of_check hCheck (.inl hAllocated)).2
    · exact (resize_of_check hCheck (.inr hReleased)).2
  refine ⟨{ s with slots := s.slots.put m b }, ?_, ?_, ?_, hPrepared.target⟩
  · cases hRefills with
    | zeroed hMatrix => simp [perform, allocate, hMatrix, Buffer.zeros]
    | undefined hMatrix => simp [perform, allocate, hMatrix]
    | released => simp [perform, release, Action.bind_run, hLt]
  · exact (Slots.length_put _ _ _).trans hPrepared.length
  · intro k hOwned
    exact absurd hOwned (not_owns_of_resized hResize)

variable (hComputes : x.network.Computes) (hSelects : x.program.SelectsRows x.network)

include hComputes hSelects

/-- Every command but a backprop succeeds in a state that is prepared for it. -/
theorem perform_runs (hCheck : x.program.checkCommand x.network c = .ok ())
    (hCommand : x.program.commands[index]? = some c) (hOther : c.opcode ≠ .backprop) :
    Runs (x.Prepared (x.program.Owns c)) (x.perform index c) := by
  cases c with
  | allocZeroed m => exact perform_resize_runs rfl hCheck
  | allocUndefined m => exact perform_resize_runs rfl hCheck
  | release m => exact perform_resize_runs rfl hCheck
  | propagate k precomputed input output =>
      obtain ⟨component, inView, outView, hFits⟩ := checkPropagate_eq_ok_iff.mp hCheck
      refine propagate_runs hWell hFits (hComputes.component hFits.layer) ?_
        (owns_operand .input rfl _ hFits.inputView)
        (owns_operand .output rfl _ hFits.outputView)
      rintro r rfl
      obtain ⟨table, found, inView', outView', hTable, hFound, hIn, hOut, hSelected⟩ :=
        hSelects index k precomputed input output r hCommand hFits.layer
      cases hFits.inputView.symm.trans hIn
      cases hFits.outputView.symm.trans hOut
      exact ⟨table, found, hTable, hFound, hSelected⟩
  | storeStats k value =>
      obtain ⟨component, view, hFits⟩ := checkStoreStats_eq_ok_iff.mp hCheck
      exact storeStats_runs hWell hFits (owns_operand .value rfl _ hFits.valueView)
  | backprop => exact absurd rfl hOther
  | copy dst src =>
      obtain ⟨d, v, hFits⟩ := checkCopy_eq_ok_iff.mp hCheck
      refine writeOperand_runs hWell rfl rfl hFits.dstView hFits.srcView ?_
      intro u hRegion _ _
      exact copy_succeeds (hFits.shape.trans (congrArg Region.shape hRegion.symm))
  | add dst src =>
      obtain ⟨d, v, hFits⟩ := checkCopy_eq_ok_iff.mp hCheck
      refine writeOperand_runs hWell rfl rfl hFits.dstView hFits.srcView ?_
      intro u hRegion _ _
      exact add_succeeds 1 (hFits.shape.trans (congrArg Region.shape hRegion.symm))
  | gatherAdd dst src table =>
      obtain ⟨d, v, rows, hFits⟩ := checkGather_eq_ok_iff.mp hCheck
      simp only [perform, tableAt_of_getElem? hFits.entries, Action.ofExcept_ok_bind]
      refine writeOperand_runs hWell rfl rfl hFits.dstView hFits.srcView ?_
      intro u hRegion _ _
      refine gatherAdd_succeeds 1 hFits.length ?_ ?_
      · rw [View.numCols, hRegion]
        exact hFits.width
      · rw [View.numRows, hRegion]
        exact hFits.row
  | gatherCopy dst src table =>
      obtain ⟨d, v, rows, hFits⟩ := checkGather_eq_ok_iff.mp hCheck
      simp only [perform, tableAt_of_getElem? hFits.entries, Action.ofExcept_ok_bind]
      refine writeOperand_runs hWell rfl rfl hFits.dstView hFits.srcView ?_
      intro u hRegion _ _
      refine gatherCopy_succeeds hFits.length ?_ ?_
      · rw [View.numCols, hRegion]
        exact hFits.width
      · rw [View.numRows, hRegion]
        exact hFits.row
  | gatherAddMany dst table =>
      obtain ⟨d, pairs, hFits⟩ := checkRowPairs_eq_ok_iff.mp hCheck
      exact gather_runs hWell hFits (owns_operand .dst rfl _ hFits.ownView)
        fun s row hEntry => owns_of_names (.pairRow rfl hFits.entries hEntry)
  | gatherCopyMany dst table =>
      obtain ⟨d, pairs, hFits⟩ := checkRowPairs_eq_ok_iff.mp hCheck
      exact gather_runs hWell hFits (owns_operand .dst rfl _ hFits.ownView)
        fun s row hEntry => owns_of_names (.pairRow rfl hFits.entries hEntry)
  | scatterAdd src table =>
      obtain ⟨v, pairs, hFits⟩ := checkRowPairs_eq_ok_iff.mp hCheck
      exact scatter_runs hWell hFits (owns_operand .src rfl _ hFits.ownView)
        fun s row hEntry => owns_of_names (.pairRow rfl hFits.entries hEntry)
  | scatterCopy src table =>
      obtain ⟨v, pairs, hFits⟩ := checkRowPairs_eq_ok_iff.mp hCheck
      exact scatter_runs hWell hFits (owns_operand .src rfl _ hFits.ownView)
        fun s row hEntry => owns_of_names (.pairRow rfl hFits.entries hEntry)
  | sumRanges dst src table =>
      obtain ⟨d, v, ranges, hFits⟩ := checkRowRanges_eq_ok_iff.mp hCheck
      simp only [perform, tableAt_of_getElem? hFits.entries, Action.ofExcept_ok_bind]
      refine writeOperand_runs hWell rfl rfl hFits.dstView hFits.srcView ?_
      intro u hRegion _ _
      refine addRanges_succeeds hFits.length ?_ ?_
      · rw [View.numCols, hRegion]
        exact hFits.width
      · rw [View.numRows, hRegion]
        exact hFits.range
  | skip => exact Runs.pure
  | marker => exact Runs.pure

omit hComputes hSelects

/-- What the journal notes of a command is there, before the command as well as after it. -/
theorem exists_journalEntry (index : Nat)
    (hCheck : x.program.checkCommand x.network c = .ok ())
    (hPrepared : x.Prepared (x.program.Owns c) s) :
    ∃ entry, x.journalEntry index c s.slots = .ok entry := by
  cases hWritten : c.written? with
  | none => exact ⟨_, by simp only [journalEntry, hWritten]; rfl⟩
  | some dst =>
      obtain ⟨view, hView⟩ := exists_view_of_written hCheck hWritten
      obtain ⟨_, ⟨_, _, _, _, hNames⟩, -⟩ := exists_accesses_of_written hCheck hWritten
      obtain ⟨v, hFound, -⟩ := hPrepared.exists_view hWell hView (owns_of_names hNames view hView)
      exact ⟨_, by simp only [journalEntry, hWritten, hFound]; rfl⟩

/-- Tracing a command that succeeds succeeds. -/
theorem execute_runs (hCheck : x.program.checkCommand x.network c = .ok ())
    (hPerform : Runs (x.Prepared (x.program.Owns c)) (x.perform index c)) :
    Runs (x.Prepared (x.program.Owns c)) (x.execute index c) := by
  refine Runs.bind hPerform ?_
  split
  · intro s hPrepared
    obtain ⟨entry, hEntry⟩ := exists_journalEntry hWell index hCheck hPrepared
    refine ⟨{ s with journal := s.journal ++ [entry] }, ?_, hPrepared.length, hPrepared.holds,
      hPrepared.target⟩
    simp [Action.bind_run, hEntry]
  · exact Runs.pure

end Commands

/-! ## Backprops -/

/-- A backprop of a checked program for affine and nonlinear components succeeds in every
state that is prepared for it, with or without each of its operands, if it asks for the
derivative of the input, or the value of the input and the derivative of the output have
equally many rows. -/
theorem backprop_executes {r : Request} {b : Bool}
    {node k inValue outValue outDeriv inDeriv : Nat} {precomputed : Option Nat}
    (hBuilt : x.program.Built) (hAccepted : x.program.Accepted x.network r b)
    (hPlain : x.network.Plain)
    (hCommand : x.program.commands[index]? =
      some (.backprop node k precomputed inValue outValue outDeriv inDeriv))
    (hPrepared : x.Prepared (x.program.Owns
      (.backprop node k precomputed inValue outValue outDeriv inDeriv)) s)
    (hRows : inDeriv = noSubMatrix → ∀ value deriv, x.program.subMatrix inValue = .ok value →
      x.program.subMatrix outDeriv = .ok deriv → value.region.numRows = deriv.region.numRows) :
    ∃ t, x.execute index (.backprop node k precomputed inValue outValue outDeriv inDeriv) s =
      .ok () t := by
  have hWell := hBuilt.wellFormed
  have hCheck := checkOperands_eq_ok_iff.mp hAccepted.checkOperands index _ hCommand
  obtain ⟨component, inValue?, outValue?, derivView, inDeriv?, hFits⟩ :=
    backpropFits_of_check hCheck
  have hAgree : inDeriv? = none → ∀ view, inValue? = some view →
      view.region.numRows = derivView.region.numRows := by
    rintro rfl view rfl
    rcases hFits.inDerivView with ⟨hAbsent, -⟩ | ⟨_, -, hSome⟩
    · rcases hFits.inValueView with ⟨-, hNone⟩ | ⟨value, hValue, hSame⟩
      · cases hNone
      · cases hSame
        exact hRows hAbsent view derivView hValue hFits.outDerivView
    · cases hSome
  have hRuns : Runs (x.Prepared _) (x.perform index
      (.backprop node k precomputed inValue outValue outDeriv inDeriv)) :=
    backprop_runs hWell hFits (hPlain.component hFits.layer) hAgree
  obtain ⟨t, hRun, -⟩ := execute_runs hWell hCheck hRuns s hPrepared
  exact ⟨t, hRun⟩

/-- One affine component, from an input node to an output node. -/
def updateNetwork : Network :=
  { components := [("affine", .affine
      ⟨1, 1, Dense.ofFn fun _ _ => 2, Dense.ofFn fun _ _ => 0, 0⟩)]
    nodes := [⟨"in", .input⟩, ⟨"layer", .component 0⟩, ⟨"out", .output⟩] }

/-- Some rows go in, and one row comes out with a derivative. -/
def updateRequest (rows : Nat) : Request :=
  { inputs := [.frames "in" rows false]
    outputs := [.frames "out" 1 true]
    wantsModelDeriv := true
    wantsStats := false }

/-- The first row of the input is copied to the output, and a backprop updates the component
from all rows of the input and from the derivative of the output. -/
def updateProgram (rows : Nat) : Program :=
  BuildStep.runAll
    [.matrix rows 1, .matrix 1 1, .matrix 1 1, .subMatrix 1 ⟨0, 1, 0, 1⟩, .bind 0 1 none,
      .bind 2 2 (some 3), .command (.allocUndefined 2), .command (.copy 2 4), .recordedMarker,
      .command (.backprop 1 0 none 1 0 3 0), .command (.release 1), .command (.release 3)]
    .empty

/-- A machine for that program. -/
def updateMachine (rows : Nat) : Machine :=
  ⟨updateProgram rows, updateNetwork, updateRequest rows, 2, false, fun _ _ _ => 0⟩

/-- The state before the backprop, with a network to update. -/
def updateState (rows : Nat) : MachineState :=
  { slots := ⟨[none, some (.zeros rows 1), some (.zeros 1 1), some (.zeros 1 1)]⟩
    target := some updateNetwork
    phase := .forwardDone
    journal := [] }

theorem updateProgram_built (rows : Nat) : (updateProgram rows).Built :=
  ⟨_, rfl⟩

theorem updateNetwork_plain : updateNetwork.Plain := by
  intro entry hMem
  obtain rfl := List.mem_singleton.mp hMem
  exact .inl ⟨_, rfl⟩

theorem updateState_prepared (rows : Nat) (hRows : rows = 1 ∨ rows = 2) (c : Command) :
    (updateMachine rows).Prepared ((updateProgram rows).Owns c) (updateState rows) := by
  have hWell : (updateMachine rows).program.WellFormed := (updateProgram_built rows).wellFormed
  rcases hRows with rfl | rfl
  all_goals
    refine Prepared.of_stored hWell rfl ?_ ?_
    · intro m shape hMatrix
      match m with
      | 0 => cases hMatrix
      | 1 | 2 | 3 =>
          cases hMatrix
          exact ⟨_, rfl, rfl⟩
      | _ + 4 => cases hMatrix
    · intro net hTarget
      cases hTarget
      rfl

/-- With a single input row the update succeeds. -/
theorem updateMachine_backprop_executes :
    (updateProgram 1).Accepted updateNetwork (updateRequest 1) true ∧
      (updateProgram 1).commands[3]? = some (.backprop 1 0 none 1 0 3 0) ∧
        ∃ t, (updateMachine 1).execute 3 (.backprop 1 0 none 1 0 3 0) (updateState 1) =
          .ok () t := by
  have hAccepted : (updateProgram 1).Accepted updateNetwork (updateRequest 1) true := ⟨_, rfl⟩
  refine ⟨hAccepted, rfl, ?_⟩
  refine backprop_executes (x := updateMachine 1) (updateProgram_built 1) hAccepted
    updateNetwork_plain rfl (updateState_prepared 1 (.inl rfl) _) ?_
  intro _ value deriv hValue hDeriv
  cases hValue
  cases hDeriv
  rfl

/-- With two input rows the program still passes the check, but the update fails: the
derivative of the output has one row only. -/
theorem updateMachine_backprop_fails :
    (updateProgram 2).Built ∧ (updateProgram 2).Accepted updateNetwork (updateRequest 2) true ∧
      updateNetwork.Plain ∧ (updateState 2).target = some updateNetwork ∧
        (updateProgram 2).commands[3]? = some (.backprop 1 0 none 1 0 3 0) ∧
          (updateMachine 2).Prepared ((updateProgram 2).Owns (.backprop 1 0 none 1 0 3 0))
            (updateState 2) ∧
            Action.outcome ((updateMachine 2).execute 3 (.backprop 1 0 none 1 0 3 0)
              (updateState 2)) = .error (.failed (.productShapes ⟨1, 1⟩ ⟨2, 1⟩)) :=
  ⟨updateProgram_built 2, ⟨_, rfl⟩, updateNetwork_plain, rfl, rfl,
    updateState_prepared 2 (.inr rfl) _, rfl⟩

end Machine

end MatrixProgram
