import MatrixProgram.Proofs.Machine.Progress

/-!
# What the commands that move data compute

Nine commands copy or add rows without a component.  `moved` gives the new value of every
element of every matrix in terms of its old value and of the elements of the sources, all of
them as they are before the command.  In a state that holds the matrices of its operands such
a command succeeds and gives each element this value, `movement_executes`, however its
sub-matrices overlap.

A command is followed through the changes of single windows.  `MovedBy` is what one of them
does to a state; it is closed under sequencing, so the rows that a scattering command writes
one after the other compose to a fold over its table.
-/

namespace MatrixProgram

/-! ## Maps of a window -/

namespace Write

variable {rows cols : Nat} {g : Region}

/-- A change for every member of a list maps the window by the maps of the members, in
order. -/
theorem Maps.forM {α : Type} {change : α → Write rows cols}
    {f : α → Nat → Nat → Float32 → Float32} (xs : List α)
    (h : ∀ a ∈ xs, Maps g (change a) (.ok ()) (f a)) :
    Maps g (xs.forM change) (.ok ()) fun row col old =>
      xs.foldl (fun value a => f a row col value) old := by
  induction xs with
  | nil => exact Maps.pure
  | cons a rest ih =>
      have hRest := ih fun b hMem => h b (List.mem_cons_of_mem _ hMem)
      have hFirst := h a List.mem_cons_self
      exact @Maps.bind rows cols g (change a) (fun _ => rest.forM change) _ _ _ hFirst hRest

end Write

namespace Kernel

variable {rows cols : Nat} {g : Region} {conditions : Except Error Unit}
  {f : Nat → Nat → Float32 → Float32}

theorem guardedMap_maps (h : conditions = .ok ()) :
    Write.Maps g (guardedMap conditions g f : Write rows cols) (.ok ()) f := by
  subst h
  exact fun m => ⟨rfl, rfl⟩

theorem guardedMap_rowWindow_maps {r : Nat} (h : conditions = .ok ()) (hRow : r < g.numRows) :
    Write.Maps g (guardedMap conditions (g.rowWindow r) f : Write rows cols) (.ok ())
      fun row col old => if row = r then f 0 col old else old := by
  subst h
  exact fun m => ⟨rfl, Dense.mapWindow_rowWindow m hRow f⟩

end Kernel

/-- A fold over a list with positions whose steps change a value at one position only. -/
theorem foldl_zipIdx_single {α β : Type} {f : α → β → β} (row : Nat) (xs : List α) (start : Nat)
    (b : β) :
    (xs.zipIdx start).foldl (fun value entry => if row = entry.2 then f entry.1 value else value)
        b =
      if start ≤ row then
        match xs[row - start]? with
        | some a => f a b
        | none => b
      else b := by
  induction xs generalizing start b with
  | nil => simp
  | cons a rest ih =>
      rw [List.zipIdx_cons, List.foldl_cons, ih]
      by_cases hEq : row = start
      · subst hEq
        have hPast : ¬row + 1 ≤ row := by omega
        simp [hPast]
      · by_cases hLe : start ≤ row
        · have hNext : start + 1 ≤ row := by omega
          have hSub : row - start = (row - (start + 1)) + 1 := by omega
          rw [if_neg hEq, if_pos hNext, if_pos hLe, hSub, List.getElem?_cons_succ]
        · have hNext : ¬start + 1 ≤ row := by omega
          rw [if_neg hEq, if_neg hNext, if_neg hLe]

/-! ## New values -/

/-- A state comes from another one by giving each stored element a new value. -/
structure MachineState.MovedBy (f : Nat → Nat → Nat → Float32 → Float32) (s t : MachineState) :
    Prop where
  length : t.slots.entries.length = s.slots.entries.length
  shape : ∀ m, t.slots.shape? m = s.slots.shape? m
  value : ∀ m row col, t.slots.value? m row col = (s.slots.value? m row col).map (f m row col)
  target : t.target = s.target
  phase : t.phase = s.phase

namespace MachineState.MovedBy

variable {f f' : Nat → Nat → Nat → Float32 → Float32} {s t u : MachineState}

theorem refl (s : MachineState) : s.MovedBy (fun _ _ _ old => old) s where
  length := rfl
  shape := fun _ => rfl
  value := fun _ _ _ => Option.map_id'.symm
  target := rfl
  phase := rfl

theorem trans (h : s.MovedBy f t) (h' : t.MovedBy f' u) :
    s.MovedBy (fun m row col old => f' m row col (f m row col old)) u where
  length := h'.length.trans h.length
  shape := fun m => (h'.shape m).trans (h.shape m)
  value := by
    intro m row col
    rw [h'.value, h.value, Option.map_map]
    rfl
  target := h'.target.trans h.target
  phase := h'.phase.trans h.phase

/-- A matrix none of whose elements changes keeps its buffer. -/
theorem buffer?_eq {m : Nat} (h : s.MovedBy f t) (hKept : ∀ row col old, f m row col old = old) :
    t.slots.buffer? m = s.slots.buffer? m := by
  cases hBuffer : s.slots.buffer? m with
  | none =>
      have hShape := h.shape m
      simpa [Slots.shape?, hBuffer] using hShape
  | some b =>
      obtain ⟨b', hBuffer', hShape⟩ := Slots.exists_buffer?_of_shape?
        ((h.shape m).trans (Slots.shape?_of_buffer? hBuffer))
      rw [hBuffer']
      refine congrArg some (Buffer.ext_get hShape fun row col _ _ => ?_)
      have hValue := h.value m row col
      rw [Slots.value?_of_buffer? hBuffer, Slots.value?_of_buffer? hBuffer', Option.map_some,
        hKept] at hValue
      exact Option.some.inj hValue

end MachineState.MovedBy

/-- The command moves data, without a component. -/
def Command.movesData : Command → Bool
  | .copy _ _ | .add _ _ => true
  | .gatherCopy _ _ _ | .gatherAdd _ _ _ => true
  | .gatherCopyMany _ _ | .gatherAddMany _ _ => true
  | .scatterCopy _ _ | .scatterAdd _ _ => true
  | .sumRanges _ _ _ => true
  | _ => false

namespace Machine

open Program Kernel

variable {x : Machine} {c : Command} {index : Nat} {O : Nat → Prop} {s t : MachineState}
  {α β : Type}

/-- A state holds storage of the declared shape for the matrices in `O`. -/
structure Stores (x : Machine) (O : Nat → Prop) (s : MachineState) : Prop where
  length : s.slots.entries.length = x.program.numMatrices
  holds : ∀ m, O m → ∃ b, s.slots.buffer? m = some b ∧ x.program.matrix m = .ok b.shape

/-- Such a state is prepared, but for the network to update. -/
theorem Stores.prepared (h : x.Stores O s) : x.Prepared O { s with target := none } where
  length := h.length
  holds := h.holds
  target := fun net hNone => by cases hNone

theorem Prepared.stores (h : x.Prepared O s) : x.Stores O s :=
  ⟨h.length, h.holds⟩

/-- New values do not change what is stored. -/
theorem Stores.moved {f : Nat → Nat → Nat → Float32 → Float32} (h : x.Stores O s)
    (hMoved : s.MovedBy f t) : x.Stores O t where
  length := hMoved.length.trans h.length
  holds := by
    intro m hOwned
    obtain ⟨b, hBuffer, hDeclared⟩ := h.holds m hOwned
    obtain ⟨b', hBuffer', hShape⟩ := Slots.exists_buffer?_of_shape?
      ((hMoved.shape m).trans (Slots.shape?_of_buffer? hBuffer))
    exact ⟨b', hBuffer', hShape ▸ hDeclared⟩

/-- Element `(row, col)` of a sub-matrix; zero if it is absent or not stored. -/
def element (x : Machine) (s : MachineState) (sub row col : Nat) : Float32 :=
  match x.program.subMatrix? sub with
  | some view => (s.slots.value? view.matrix (view.region.rowOffset + row)
      (view.region.colOffset + col)).getD 0
  | none => 0

/-- New values inside of a sub-matrix, from positions in it; all other elements are kept. -/
def inWindow (x : Machine) (sub : Nat) (f : Nat → Nat → Float32 → Float32) (m row col : Nat)
    (old : Float32) : Float32 :=
  match x.program.subMatrix? sub with
  | some view =>
      if m = view.matrix ∧ view.region.Contains row col then
        f (row - view.region.rowOffset) (col - view.region.colOffset) old
      else old
  | none => old

/-- The entry of a table for a row. -/
def rowEntry (tables : List (List α)) (table row : Nat) : Option α :=
  tables[table]?.bind fun entries => entries[row]?

/-- What becomes of an element of a row to which a row of some sub-matrix is assigned. -/
def gathered (x : Machine) (s : MachineState) (copies : Bool) (pair : Option (Nat × Nat))
    (col : Nat) (old : Float32) : Float32 :=
  match pair with
  | some (src, srcRow) =>
      if copies then x.element s src srcRow col else old + 1 * x.element s src srcRow col
  | none => if copies then 0 else old

/-- What one entry of a table makes of an element, when rows of a source are scattered. -/
def scatteredBy (x : Machine) (s : MachineState) (copies : Bool) (src : Nat)
    (entry : Option (Nat × Nat) × Nat) (m row col : Nat) (old : Float32) : Float32 :=
  match entry with
  | (none, _) => old
  | (some (dst, dstRow), srcRow) =>
      x.inWindow dst
        (fun row col old =>
          if row = dstRow then
            if copies then x.element s src srcRow col else old + 1 * x.element s src srcRow col
          else old)
        m row col old

/-- The rows of a source are scattered in the order of the table. -/
def scattered (x : Machine) (s : MachineState) (copies : Bool) (src table m row col : Nat)
    (old : Float32) : Float32 :=
  ((x.program.rowPairs[table]?).getD []).zipIdx.foldl
    (fun value entry => x.scatteredBy s copies src entry m row col value) old

/-- A scattering command that walks given entries of its table in their order, each with the
row of the source that it stands for. -/
def scatterAlong (x : Machine) (copies : Bool) (src : Nat)
    (entries : List (Option (Nat × Nat) × Nat)) : MachineAction Unit := do
  let source ← Action.ofExcept (x.program.subMatrix src)
  if namesMatrix x.program (entries.map (·.1)) source.matrix then
    let s ← get
    let b ← Action.ofExcept (s.slots.read source.matrix)
    entries.forM fun (pair, row) =>
      match pair with
      | none => return ()
      | some (dst, dstRow) => do
          let v ← Action.ofExcept (View.of b source.region)
          x.withViews dst [] fun _ _ _ g => scatterRow copies dstRow v row g
  else
    entries.forM fun (pair, row) =>
      match pair with
      | none => return ()
      | some (dst, dstRow) =>
          x.writeFrom dst src .source fun v _ _ g => scatterRow copies dstRow v row g

/-- The new value of an element, after a command that moves data, from its old value and the
elements of the sources. -/
def moved (x : Machine) (s : MachineState) : Command → Nat → Nat → Nat → Float32 → Float32
  | .copy dst src => x.inWindow dst fun row col _ => x.element s src row col
  | .add dst src => x.inWindow dst fun row col old => old + 1 * x.element s src row col
  | .gatherCopy dst src table => x.inWindow dst fun row col _ =>
      match (rowEntry x.program.indexes table row).join with
      | some srcRow => x.element s src srcRow col
      | none => 0
  | .gatherAdd dst src table => x.inWindow dst fun row col old =>
      match (rowEntry x.program.indexes table row).join with
      | some srcRow => old + 1 * x.element s src srcRow col
      | none => old
  | .gatherCopyMany dst table => x.inWindow dst fun row =>
      x.gathered s true (rowEntry x.program.rowPairs table row).join
  | .gatherAddMany dst table => x.inWindow dst fun row =>
      x.gathered s false (rowEntry x.program.rowPairs table row).join
  | .sumRanges dst src table => x.inWindow dst fun row col old =>
      match rowEntry x.program.rowRanges table row with
      | some (first, past) => (List.range' first (past - first)).foldl
          (fun total srcRow => total + x.element s src srcRow col) old
      | none => old
  | .scatterCopy src table => x.scattered s true src table
  | .scatterAdd src table => x.scattered s false src table
  | _ => fun _ _ _ old => old

/-! ## One window -/

theorem get_mapWindow_of_fitsIn {rows cols : Nat} {values : Dense rows cols} {g : Region}
    {f : Nat → Nat → Float32 → Float32} (hFits : g.FitsIn rows cols) (row col : Nat) :
    (values.mapWindow g f).get row col =
      if g.Contains row col then f (row - g.rowOffset) (col - g.colOffset) (values.get row col)
      else values.get row col := by
  by_cases hIn : row < rows ∧ col < cols
  · exact Dense.get_mapWindow hIn.1 hIn.2
  · have hOutside : ¬g.Contains row col := by
      simp only [Region.FitsIn, Region.Contains] at hFits ⊢
      omega
    rw [if_neg hOutside, Dense.get_mapWindow_of_not_contains hOutside]

theorem inWindow_of_subMatrix {sub : Nat} {view : SubMatrix}
    (hView : x.program.subMatrix sub = .ok view) (f : Nat → Nat → Float32 → Float32)
    (m row col : Nat) (old : Float32) :
    x.inWindow sub f m row col old =
      if m = view.matrix ∧ view.region.Contains row col then
        f (row - view.region.rowOffset) (col - view.region.colOffset) old
      else old := by
  simp only [inWindow, subMatrix?_eq_some_iff.mpr hView]

/-- A view shows the elements of the state. -/
theorem get_of_view? {sub : Nat} {v : View} (h : s.slots.view? x.program sub = .ok (some v)) :
    v.get = x.element s sub := by
  unfold Slots.view? at h
  split at h
  · cases h
  · obtain ⟨view, hView, hRest⟩ := Action.check_bind_eq_ok_iff.mp h
    obtain ⟨b, hRead, hLast⟩ := Action.check_bind_eq_ok_iff.mp hRest
    obtain ⟨v', hOf, hSome⟩ := Action.check_bind_eq_ok_iff.mp hLast
    cases hSome
    have hBuffer : s.slots.buffer? view.matrix = some b := by
      unfold Slots.read at hRead
      split at hRead
      · cases hRead
        assumption
      · cases hRead
    unfold View.of at hOf
    split at hOf
    · cases hOf
      funext row col
      simp only [element, subMatrix?_eq_some_iff.mpr hView, View.get,
        Slots.value?_of_buffer? hBuffer, Option.getD_some]
    · cases hOf

section Commands

variable (hWell : x.program.WellFormed)

include hWell

/-- A view of a matrix fits in its storage. -/
theorem Stores.exists_buffer {sub : Nat} {view : SubMatrix} (h : x.Stores O s)
    (hView : x.program.subMatrix sub = .ok view) (hOwned : O view.matrix) :
    ∃ b, s.slots.buffer? view.matrix = some b ∧
      view.region.FitsIn b.numRows b.numCols := by
  obtain ⟨b, hBuffer, -, hFits⟩ := h.prepared.exists_buffer hWell hView hOwned
  exact ⟨b, hBuffer, hFits⟩

/-- Writing a sub-matrix gives new values to its elements. -/
theorem write_moved {dst : Nat} {d : SubMatrix} (operands : Slots → Except Error α)
    {w : α → {rows cols : Nat} → Region → Write rows cols} {a : α}
    {f : Nat → Nat → Float32 → Float32} (hStores : x.Stores O s)
    (hDst : x.program.subMatrix dst = .ok d) (hOwned : O d.matrix)
    (hOperands : operands s.slots = .ok a)
    (hMaps : ∀ rows cols, Write.Maps d.region (w a d.region : Write rows cols) (.ok ()) f) :
    ∃ t, x.write dst operands w s = .ok () t ∧ s.MovedBy (x.inWindow dst f) t := by
  obtain ⟨b, hBuffer, hFits⟩ := hStores.exists_buffer hWell hDst hOwned
  refine ⟨_, write_run hDst hBuffer hOperands hFits (hMaps _ _), ?_⟩
  exact
    { length := Slots.length_put _ _ _
      shape := shape?_mapped hBuffer
      value := by
        intro m row col
        by_cases hEq : d.matrix = m
        · subst hEq
          rw [value?_mapped hBuffer, Slots.value?_of_buffer? hBuffer, Option.map_some,
            get_mapWindow_of_fitsIn hFits, inWindow_of_subMatrix hDst]
          simp only [true_and]
          rfl
        · have hOther : x.inWindow dst f m row col = id := by
            funext old
            rw [inWindow_of_subMatrix hDst, if_neg fun h => hEq h.1.symm]
            rfl
          rw [hOther, Option.map_id]
          exact Slots.value?_put_of_ne hEq
      target := rfl
      phase := rfl }

/-- A stored source is found, and its elements are those of the state. -/
theorem Stores.exists_view {src : Nat} {view : SubMatrix} (h : x.Stores O s)
    (hSrc : x.program.subMatrix src = .ok view) (hOwned : O view.matrix) :
    ∃ v : View, s.slots.view? x.program src = .ok (some v) ∧ v.region = view.region ∧
      v.get = x.element s src := by
  obtain ⟨v, hFound, hRegion⟩ := h.prepared.exists_view hWell hSrc hOwned
  exact ⟨v, hFound, hRegion, get_of_view? hFound⟩

/-- Writing from a single source. -/
theorem writeFrom_moved {dst src : Nat} {d view : SubMatrix} {role : Role}
    {w : View → {rows cols : Nat} → Region → Write rows cols}
    {f : (Nat → Nat → Float32) → Nat → Nat → Float32 → Float32} (hStores : x.Stores O s)
    (hDst : x.program.subMatrix dst = .ok d) (hSrc : x.program.subMatrix src = .ok view)
    (hOwnsDst : O d.matrix) (hOwnsSrc : O view.matrix)
    (hMaps : ∀ v : View, v.region = view.region → ∀ rows cols,
      Write.Maps d.region (w v d.region : Write rows cols) (.ok ()) (f v.get)) :
    ∃ t, x.writeFrom dst src role w s = .ok () t ∧
      s.MovedBy (x.inWindow dst (f (x.element s src))) t := by
  obtain ⟨v, hFound, hRegion, hElements⟩ := hStores.exists_view hWell hSrc hOwnsSrc
  rw [writeFrom_eq, ← hElements]
  exact write_moved hWell (fun slots => slots.view? x.program src) (a := some v) hStores hDst
    hOwnsDst hFound (hMaps v hRegion)

/-! ## Commands with one destination -/

omit hWell in
/-- Inside of a sub-matrix only the rows of the sub-matrix count. -/
theorem inWindow_congr {sub : Nat} {view : SubMatrix} {f f' : Nat → Nat → Float32 → Float32}
    (hView : x.program.subMatrix sub = .ok view)
    (h : ∀ row, row < view.region.numRows → f row = f' row) :
    x.inWindow sub f = x.inWindow sub f' := by
  funext m row col old
  rw [inWindow_of_subMatrix hView, inWindow_of_subMatrix hView]
  split
  · rename_i hIn
    have hRow := hIn.2.1
    simp only [Region.rowEnd] at hRow
    rw [h _ (by omega)]
  · rfl

omit hWell in
theorem scatterRow_maps {rows cols row srcRow : Nat} {copies : Bool} {g : Region} {v : View}
    (hRow : row < g.numRows) (hSrcRow : srcRow < v.numRows) (hWidth : g.numCols = v.numCols) :
    Write.Maps g (scatterRow copies row v srcRow g : Write rows cols) (.ok ())
      fun r col old => if r = row then
        (if copies then v.get srcRow col else old + 1 * v.get srcRow col) else old := by
  have hConditions := singleRows_conditions hRow hSrcRow hWidth
  cases copies with
  | true => exact guardedMap_rowWindow_maps hConditions hRow
  | false => exact guardedMap_rowWindow_maps hConditions hRow

theorem gather_moved {dst table : Nat} {copies : Bool} {d : SubMatrix}
    {pairs : List (Option (Nat × Nat))} (hFits : x.program.PairsFit dst table false d pairs)
    (hStores : x.Stores O s) (hOwnsDst : O d.matrix)
    (hOwned : ∀ s row, some (s, row) ∈ pairs → ∀ view, x.program.subMatrix s = .ok view →
      O view.matrix) :
    ∃ t, x.gather index copies dst table s = .ok () t ∧
      s.MovedBy (x.inWindow dst fun row =>
        x.gathered s copies (rowEntry x.program.rowPairs table row).join) t := by
  obtain ⟨views, hViews, hEach⟩ := exists_pairViews hWell hFits hStores.prepared hOwned
  have hMaps : ∀ rows cols, Write.Maps d.region
      (pairs.zipIdx.forM fun (pair, row) => gatherRow index copies views row d.region pair :
        Write rows cols) (.ok ()) fun row col old => pairs.zipIdx.foldl
          (fun value entry =>
            if row = entry.2 then x.gathered s copies entry.1 col value else value) old := by
    intro rows cols
    refine Write.Maps.forM _ ?_
    rintro ⟨pair, row⟩ hMem
    have hAt := List.mem_zipIdx_iff_getElem?.mp hMem
    have hRow : row < d.region.numRows := by
      rw [← hFits.length]
      exact (List.getElem?_eq_some_iff.mp hAt).1
    cases pair with
    | none =>
        cases copies with
        | true => exact guardedMap_rowWindow_maps (Action.require_eq_ok_iff.mpr hRow) hRow
        | false =>
            simp only [gathered, Bool.false_eq_true, if_false, ite_self]
            exact Write.Maps.pure
    | some entry =>
        obtain ⟨sub, srcRow⟩ := entry
        obtain ⟨v, hLookup, hFound, hSrcRow, hWidth⟩ :=
          hEach sub srcRow (List.mem_of_getElem? hAt)
        have hElements : v.get = x.element s sub := get_of_view? hFound
        show Write.Maps _ (gatherRow index copies views row d.region (some (sub, srcRow))) _ _
        rw [gatherRow_some, hLookup]
        simp only [gathered, ← hElements]
        exact scatterRow_maps hRow hSrcRow hWidth
  rw [gather_eq, tableAt_of_getElem? hFits.entries, Action.ofExcept_ok_bind]
  obtain ⟨t, hRun, hMoved⟩ := write_moved hWell (x.pairViews pairs)
    (w := fun views _ _ g => pairs.zipIdx.forM fun (pair, row) =>
      gatherRow index copies views row g pair)
    hStores hFits.ownView hOwnsDst hViews hMaps
  refine ⟨t, hRun, ?_⟩
  -- Only the entry for a row has an effect on it.
  rw [inWindow_congr hFits.ownView fun row hRow => ?_] at hMoved
  · exact hMoved
  · funext col old
    have hLt : row < pairs.length := hFits.length ▸ hRow
    refine (foldl_zipIdx_single (f := fun pair => x.gathered s copies pair col) row pairs 0
      old).trans ?_
    simp [rowEntry, hFits.entries, List.getElem?_eq_getElem hLt]

/-! ## Commands with several destinations -/

omit hWell in
/-- A sequence of actions, each of which gives new values in every state that an invariant
takes in. -/
theorem forM_moved {I : MachineState → Prop} {act : α → MachineAction Unit}
    {f : α → Nat → Nat → Nat → Float32 → Float32} (xs : List α)
    (h : ∀ a ∈ xs, ∀ s, I s → ∃ t, act a s = .ok () t ∧ I t ∧ s.MovedBy (f a) t) (hBefore : I s) :
    ∃ t, xs.forM act s = .ok () t ∧ I t ∧
      s.MovedBy (fun m row col old => xs.foldl (fun value a => f a m row col value) old) t := by
  induction xs generalizing s with
  | nil => exact ⟨s, rfl, hBefore, .refl s⟩
  | cons a rest ih =>
      obtain ⟨u, hRun, hBetween, hMoved⟩ := h a List.mem_cons_self s hBefore
      obtain ⟨t, hRest, hAfter, hMoved'⟩ :=
        ih (fun b hMem => h b (List.mem_cons_of_mem _ hMem)) hBetween
      refine ⟨t, ?_, hAfter, hMoved.trans hMoved'⟩
      rw [Action.forM_cons_run, Action.bind_run_ok hRun, hRest]

omit hWell in
/-- No target of a scattering command shares the matrix of the source, unless a copy is
taken. -/
theorem ne_of_namesMatrix {pairs : List (Option (Nat × Nat))} {m dst dstRow : Nat}
    {d : SubMatrix} (hNames : namesMatrix x.program pairs m = false)
    (hEntry : some (dst, dstRow) ∈ pairs) (hDst : x.program.subMatrix dst = .ok d) :
    m ≠ d.matrix := by
  rintro rfl
  have hMem : dst ∈ (pairs.filterMap id).map (·.1) :=
    List.mem_map.mpr ⟨(dst, dstRow), List.mem_filterMap.mpr ⟨_, hEntry, rfl⟩, rfl⟩
  have hNot := List.any_eq_false.mp hNames dst hMem
  simp [subMatrix?_eq_some_iff.mpr hDst] at hNot

omit hWell in
/-- A scattering command walks all entries of its table, in their order. -/
theorem scatter_eq (index : Nat) (copies : Bool) (src table : Nat) :
    x.scatter index copies src table =
      (Action.ofExcept (tableAt x.program.rowPairs table index .rowPairs) >>= fun pairs =>
        x.scatterAlong copies src pairs.zipIdx) := by
  refine congrArg (_ >>= ·) (funext fun pairs => ?_)
  unfold scatterAlong
  rewrite [List.zipIdx_map_fst]
  rfl

/-- Walking some entries of the table gives the elements their new values in that order,
whichever order it is. -/
theorem scatterAlong_moved {src table : Nat} {copies : Bool} {source : SubMatrix}
    {pairs : List (Option (Nat × Nat))} {entries : List (Option (Nat × Nat) × Nat)}
    (hFits : x.program.PairsFit src table true source pairs)
    (hEntries : ∀ entry ∈ entries, entry ∈ pairs.zipIdx)
    (hStores : x.Stores O s) (hOwnsSrc : O source.matrix)
    (hOwned : ∀ s row, some (s, row) ∈ pairs → ∀ view, x.program.subMatrix s = .ok view →
      O view.matrix) :
    ∃ t, x.scatterAlong copies src entries s = .ok () t ∧
      s.MovedBy (fun m row col old => entries.foldl
        (fun value entry => x.scatteredBy s copies src entry m row col value) old) t := by
  obtain ⟨b, hBuffer, hInside⟩ := hStores.exists_buffer hWell hFits.ownView hOwnsSrc
  have hRead : s.slots.read source.matrix = .ok b := by rw [Slots.read, hBuffer]
  have hPresent := (subMatrix_eq_ok_iff.mp hFits.ownView).1
  obtain ⟨v, hOf, hRegion⟩ : ∃ v, View.of b source.region = .ok v ∧ v.region = source.region :=
    ⟨⟨b, source.region, hInside⟩, dif_pos hInside, rfl⟩
  -- The source, as long as its buffer is the one from before the command.
  have hFound : ∀ slots : Slots, slots.buffer? source.matrix = some b →
      slots.view? x.program src = .ok (some v) := by
    intro slots hSame
    simp [Slots.view?, hPresent, hFits.ownView, Slots.read, hSame, hOf, pure, Except.pure]
  have hElements : v.get = x.element s src := get_of_view? (hFound s.slots hBuffer)
  have hEach : ∀ dst dstRow row, (some (dst, dstRow), row) ∈ entries →
      ∃ d, x.program.subMatrix dst = .ok d ∧ O d.matrix ∧ ∀ rows cols,
        Write.Maps d.region (scatterRow copies dstRow v row d.region : Write rows cols) (.ok ())
          fun r col old => if r = dstRow then
            (if copies then x.element s src row col else old + 1 * x.element s src row col)
          else old := by
    intro dst dstRow row hMem
    have hAt := List.mem_zipIdx_iff_getElem?.mp (hEntries _ hMem)
    have hEntry := List.mem_of_getElem? hAt
    obtain ⟨d, hDst, hDstRow, -, hWidth⟩ := hFits.pair dst dstRow hEntry
    have hRow : row < v.numRows := by
      rw [View.numRows, hRegion, ← hFits.length]
      exact (List.getElem?_eq_some_iff.mp hAt).1
    refine ⟨d, hDst, hOwned dst dstRow hEntry d hDst, fun rows cols => ?_⟩
    rw [← hElements]
    refine scatterRow_maps hDstRow hRow ?_
    rw [View.numCols, hRegion]
    exact hWidth
  simp only [scatterAlong, hFits.ownView, Action.ofExcept_ok_bind]
  split
  · -- Every row reads the copy.
    rw [Action.bind_run, Action.get_run]
    simp only [hRead, Action.ofExcept_ok_bind, hOf, withViews_nil]
    refine (forM_moved (I := x.Stores O) (f := x.scatteredBy s copies src) entries ?_
      hStores).imp fun t hAfter => ⟨hAfter.1, hAfter.2.2⟩
    rintro ⟨_ | ⟨dst, dstRow⟩, row⟩ hMem u hBefore
    · exact ⟨u, rfl, hBefore, .refl u⟩
    · obtain ⟨d, hDst, hOwnsDst, hMaps⟩ := hEach dst dstRow row hMem
      obtain ⟨t, hRun, hMoved⟩ := write_moved hWell (fun _ => .ok ())
        (w := fun _ _ _ g => scatterRow copies dstRow v row g) hBefore hDst hOwnsDst rfl hMaps
      exact ⟨t, hRun, hBefore.moved hMoved, hMoved⟩
  · -- No row changes the matrix of the source, so every row finds it as it was.
    rename_i hNames
    refine (forM_moved (I := fun u => x.Stores O u ∧ u.slots.buffer? source.matrix = some b)
      (f := x.scatteredBy s copies src) entries ?_ ⟨hStores, hBuffer⟩).imp
        fun t hAfter => ⟨hAfter.1, hAfter.2.2⟩
    rintro ⟨_ | ⟨dst, dstRow⟩, row⟩ hMem u ⟨hBefore, hSame⟩
    · exact ⟨u, rfl, ⟨hBefore, hSame⟩, .refl u⟩
    · obtain ⟨d, hDst, hOwnsDst, hMaps⟩ := hEach dst dstRow row hMem
      obtain ⟨t, hRun, hMoved⟩ := write_moved hWell (fun slots => slots.view? x.program src)
        (w := fun operand _ _ g => required .source operand fun v =>
          scatterRow copies dstRow v row g)
        (a := some v) hBefore hDst hOwnsDst (hFound u.slots hSame) hMaps
      have hOther := ne_of_namesMatrix (Bool.not_eq_true _ ▸ hNames)
        (List.mem_map.mpr ⟨_, hMem, rfl⟩) hDst
      refine ⟨t, (congrFun (writeFrom_eq x dst src .source _) u).trans hRun,
        ⟨hBefore.moved hMoved, ?_⟩, hMoved⟩
      rw [hMoved.buffer?_eq, hSame]
      intro row' col' old
      rw [inWindow_of_subMatrix hDst, if_neg fun h => hOther h.1]

theorem scatter_moved {src table : Nat} {copies : Bool} {source : SubMatrix}
    {pairs : List (Option (Nat × Nat))} (hFits : x.program.PairsFit src table true source pairs)
    (hStores : x.Stores O s) (hOwnsSrc : O source.matrix)
    (hOwned : ∀ s row, some (s, row) ∈ pairs → ∀ view, x.program.subMatrix s = .ok view →
      O view.matrix) :
    ∃ t, x.scatter index copies src table s = .ok () t ∧
      s.MovedBy (x.scattered s copies src table) t := by
  have hScattered : x.scattered s copies src table = fun m row col old =>
      pairs.zipIdx.foldl (fun value entry => x.scatteredBy s copies src entry m row col value)
        old := by
    funext m row col old
    simp only [scattered, hFits.entries, Option.getD_some]
  rw [hScattered, scatter_eq, tableAt_of_getElem? hFits.entries, Action.ofExcept_ok_bind]
  exact scatterAlong_moved hWell hFits (fun _ hMem => hMem) hStores hOwnsSrc hOwned

/-! ## All commands that move data -/

/-- Writing the destination of a command from its source. -/
theorem writeOperand_moved {dst src : Nat} {d view : SubMatrix} {role : Role}
    {w : View → {rows cols : Nat} → Region → Write rows cols}
    {f : (Nat → Nat → Float32) → Nat → Nat → Float32 → Float32}
    (hStores : x.Stores (x.program.Owns c) s)
    (hDstOperand : c.operand? .dst = some dst) (hSrcOperand : c.operand? .src = some src)
    (hDst : x.program.subMatrix dst = .ok d) (hSrc : x.program.subMatrix src = .ok view)
    (hMaps : ∀ v : View, v.region = view.region → ∀ rows cols,
      Write.Maps d.region (w v d.region : Write rows cols) (.ok ()) (f v.get)) :
    ∃ t, x.writeFrom dst src role w s = .ok () t ∧
      s.MovedBy (x.inWindow dst (f (x.element s src))) t :=
  writeFrom_moved hWell hStores hDst hSrc (owns_operand .dst hDstOperand d hDst)
    (owns_operand .src hSrcOperand view hSrc) hMaps

/-- Writing the destination of a command from the rows of its source that a table assigns. -/
theorem gatherRows_moved {dst src table index : Nat} {kind : TableKind} {d view : SubMatrix}
    {rows : List (Option Nat)} {role : Role}
    {w : List (Option Nat) → View → {rows cols : Nat} → Region → Write rows cols}
    {f : (Nat → Option Nat) → (Nat → Nat → Float32) → Nat → Nat → Float32 → Float32}
    (hStores : x.Stores (x.program.Owns c) s)
    (hDstOperand : c.operand? .dst = some dst) (hSrcOperand : c.operand? .src = some src)
    (hFits : x.program.GatherFits dst src table d view rows)
    (hMaps : ∀ v : View,
      (do
        requireTable d.region rows.length v
        requireRows rows v.numRows) = .ok () → ∀ numRows numCols,
      Write.Maps d.region (w rows v d.region : Write numRows numCols) (.ok ())
        (f (entry rows) v.get)) :
    ∃ t, (Action.ofExcept (tableAt x.program.indexes table index kind) >>= fun rows =>
        x.writeFrom dst src role fun v _ _ g => w rows v g) s = .ok () t ∧
      s.MovedBy (x.inWindow dst
        (f (fun row => (rowEntry x.program.indexes table row).join) (x.element s src))) t := by
  have hEntry : entry rows = fun row => (rowEntry x.program.indexes table row).join := by
    funext row
    simp [entry, rowEntry, hFits.entries]
  rw [tableAt_of_getElem? hFits.entries, Action.ofExcept_ok_bind, ← hEntry]
  refine writeOperand_moved (w := fun v _ _ g => w rows v g) hWell hStores hDstOperand
    hSrcOperand hFits.dstView hFits.srcView fun v hRegion => hMaps v ?_
  refine gather_conditions hFits.length ?_ ?_
  · rw [View.numCols, hRegion]
    exact hFits.width
  · rw [View.numRows, hRegion]
    exact hFits.row

theorem perform_moved (index : Nat) (hCheck : x.program.checkCommand x.network c = .ok ())
    (hMoves : c.movesData = true) (hStores : x.Stores (x.program.Owns c) s) :
    ∃ t, x.perform index c s = .ok () t ∧ s.MovedBy (x.moved s c) t := by
  cases c with
  | copy dst src =>
      obtain ⟨d, view, hFits⟩ := checkCopy_eq_ok_iff.mp hCheck
      refine writeOperand_moved (w := fun v _ _ g => copy v g) (f := fun el row col _ => el row col)
        hWell hStores rfl rfl hFits.dstView hFits.srcView ?_
      intro v hRegion _ _
      exact guardedMap_maps (requireShape_eq_ok
        (hFits.shape.trans (congrArg Region.shape hRegion.symm)))
  | add dst src =>
      obtain ⟨d, view, hFits⟩ := checkCopy_eq_ok_iff.mp hCheck
      refine writeOperand_moved (w := fun v _ _ g => add v 1 g)
        (f := fun el row col old => old + 1 * el row col)
        hWell hStores rfl rfl hFits.dstView hFits.srcView ?_
      intro v hRegion _ _
      exact guardedMap_maps (requireShape_eq_ok
        (hFits.shape.trans (congrArg Region.shape hRegion.symm)))
  | gatherCopy dst src table =>
      obtain ⟨d, view, rows, hFits⟩ := checkGather_eq_ok_iff.mp hCheck
      exact gatherRows_moved (w := fun rows v _ _ g => gatherCopy v rows g)
        (f := fun entries el row col _ =>
          match entries row with
          | some srcRow => el srcRow col
          | none => 0)
        hWell hStores rfl rfl hFits fun v hConditions _ _ => guardedMap_maps hConditions
  | gatherAdd dst src table =>
      obtain ⟨d, view, rows, hFits⟩ := checkGather_eq_ok_iff.mp hCheck
      exact gatherRows_moved (w := fun rows v _ _ g => gatherAdd v 1 rows g)
        (f := fun entries el row col old =>
          match entries row with
          | some srcRow => old + 1 * el srcRow col
          | none => old)
        hWell hStores rfl rfl hFits fun v hConditions _ _ => guardedMap_maps hConditions
  | gatherCopyMany dst table =>
      obtain ⟨d, pairs, hFits⟩ := checkRowPairs_eq_ok_iff.mp hCheck
      exact gather_moved hWell hFits hStores (owns_operand .dst rfl _ hFits.ownView)
        fun s row hEntry => owns_of_names (.pairRow rfl hFits.entries hEntry)
  | gatherAddMany dst table =>
      obtain ⟨d, pairs, hFits⟩ := checkRowPairs_eq_ok_iff.mp hCheck
      exact gather_moved hWell hFits hStores (owns_operand .dst rfl _ hFits.ownView)
        fun s row hEntry => owns_of_names (.pairRow rfl hFits.entries hEntry)
  | scatterCopy src table =>
      obtain ⟨view, pairs, hFits⟩ := checkRowPairs_eq_ok_iff.mp hCheck
      exact scatter_moved hWell hFits hStores (owns_operand .src rfl _ hFits.ownView)
        fun s row hEntry => owns_of_names (.pairRow rfl hFits.entries hEntry)
  | scatterAdd src table =>
      obtain ⟨view, pairs, hFits⟩ := checkRowPairs_eq_ok_iff.mp hCheck
      exact scatter_moved hWell hFits hStores (owns_operand .src rfl _ hFits.ownView)
        fun s row hEntry => owns_of_names (.pairRow rfl hFits.entries hEntry)
  | sumRanges dst src table =>
      obtain ⟨d, view, ranges, hFits⟩ := checkRowRanges_eq_ok_iff.mp hCheck
      have hEntry : ∀ row, rowEntry x.program.rowRanges table row = ranges[row]? := by
        intro row
        simp [rowEntry, hFits.entries]
      simp only [perform, tableAt_of_getElem? hFits.entries, Action.ofExcept_ok_bind, moved,
        hEntry]
      refine writeOperand_moved (w := fun v _ _ g => addRanges v ranges g)
        (f := fun el row col old =>
          match ranges[row]? with
          | some (first, past) => (List.range' first (past - first)).foldl
              (fun total srcRow => total + el srcRow col) old
          | none => old)
        hWell hStores rfl rfl hFits.dstView hFits.srcView ?_
      intro v hRegion _ _
      refine guardedMap_maps (addRanges_conditions hFits.length ?_ ?_)
      · rw [View.numCols, hRegion]
        exact hFits.width
      · rw [View.numRows, hRegion]
        exact hFits.range
  | _ => cases hMoves

end Commands

/-- A command that moves data, in a program whose operands pass their check, succeeds in every
state that holds the matrices of its operands.  It gives each element the value that its table
and its sources, as they are before it, determine, and changes nothing else. -/
theorem movement_executes (hBuilt : x.program.Built)
    (hOperands : x.program.checkOperands x.network = .ok ())
    (hCommand : x.program.commands[index]? = some c) (hMoves : c.movesData = true)
    (hStores : x.Stores (x.program.Owns c) s) :
    ∃ t, x.execute index c s = .ok () t ∧ s.MovedBy (x.moved s c) t := by
  have hWell := hBuilt.wellFormed
  have hCheck := checkOperands_eq_ok_iff.mp hOperands index c hCommand
  obtain ⟨t, hRun, hMoved⟩ := perform_moved hWell index hCheck hMoves hStores
  obtain ⟨entry, hEntry⟩ :=
    exists_journalEntry hWell index hCheck (hStores.moved hMoved).prepared
  rw [execute, Action.bind_run_ok hRun]
  split
  · refine ⟨{ t with journal := t.journal ++ [entry] }, ?_, hMoved.length, hMoved.shape,
      hMoved.value, hMoved.target, hMoved.phase⟩
    have hFound : x.journalEntry index c t.slots = .ok entry := hEntry
    simp [Action.bind_run, hFound]
  · exact ⟨t, rfl, hMoved⟩

/-- The first two of three rows are copied, one after the other, to the last two. -/
def shiftMachine : Machine :=
  { program := BuildStep.runAll
      [.matrix 3 1, .subMatrix 1 ⟨0, 2, 0, 1⟩, .subMatrix 1 ⟨1, 2, 0, 1⟩,
        .rowPairs [some (3, 0), some (3, 1)], .command (.scatterCopy 2 0)]
      .empty
    network := .empty
    request := ⟨[], [], false, false⟩
    forwardEnd := 0
    traces := true
    undefinedContents := fun _ _ _ => 0 }

/-- The rows hold 1, 2 and 3. -/
def shiftState : MachineState :=
  { slots := ⟨[none, some (.ofFn 3 1 fun row _ => [1, 2, 3].getD row 0)]⟩
    target := none
    phase := .created
    journal := [] }

theorem shiftMachine_built : shiftMachine.program.Built :=
  ⟨_, rfl⟩

theorem shiftState_stores (c : Command) :
    shiftMachine.Stores (shiftMachine.program.Owns c) shiftState := by
  refine (Prepared.of_stored shiftMachine_built.wellFormed rfl ?_ ?_).stores
  · intro m shape hMatrix
    match m with
    | 0 => cases hMatrix
    | 1 =>
        cases hMatrix
        exact ⟨_, rfl, rfl⟩
    | _ + 2 => cases hMatrix
  · intro net hTarget
    cases hTarget

/-- Both rows are copied as they were: the last two rows then hold 1 and 2. -/
theorem shiftMachine_shifts :
    ∃ t, shiftMachine.execute 0 (.scatterCopy 2 0) shiftState = .ok () t ∧
      t.slots.value? 1 0 0 = some 1 ∧ t.slots.value? 1 1 0 = some 1 ∧
        t.slots.value? 1 2 0 = some 2 := by
  have hCommand : shiftMachine.program.commands[0]? = some (.scatterCopy 2 0) := rfl
  obtain ⟨t, hRun, hMoved⟩ := movement_executes shiftMachine_built rfl hCommand rfl
    (shiftState_stores (.scatterCopy 2 0))
  refine ⟨t, hRun, ?_, ?_, ?_⟩
  · rw [hMoved.value]
    rfl
  · rw [hMoved.value]
    rfl
  · rw [hMoved.value]
    rfl

end Machine

end MatrixProgram
