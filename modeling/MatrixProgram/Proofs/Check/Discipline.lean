import MatrixProgram.Proofs.Check.Passes

/-!
# What the check decides

`Disciplined` says of a program, in terms of its commands and the columns they touch alone,
what the passes after the operands and the request check: no variable, no boundary and no
history occurs in it.  The passes decide exactly that, `accepted_iff_disciplined`.
-/

namespace MatrixProgram

namespace Program

variable {p : Program} {net : Network} {t : Partition} {es : List Effects}

/-! ## The specification -/

/-- A program that treats matrices and columns as they should be treated.  A supplied matrix
is never allocated, every other one exactly once and not after it is touched.  A produced
matrix is never released, every other one exactly once and after it is touched.  Every column
is touched, and the first command that touches a column of a matrix which is not supplied
writes it without reading it. -/
structure Disciplined (p : Program) (net : Network) (unchangedAfterRead : Bool) : Prop where
  boundary : ∀ entry ∈ p.bindings, IsBoundary net entry.1
  suppliedOnce : (p.supplied net).Nodup
  producedOnce : (p.produced net).Nodup
  split : ∃ marker, p.forwardEnd = some marker ∧ p.SplitAt marker
  notAllocated : ∀ {m}, m ∈ p.supplied net → ∀ i, ¬p.AllocatesAt i m
  allocated : ∀ {m shape}, p.matrix m = .ok shape → m ∉ p.supplied net →
    ∃ a, (∀ i, p.AllocatesAt i m ↔ i = a) ∧ ∀ i, p.TouchesAt i m → a ≤ i
  notReleased : ∀ {m}, m ∈ p.produced net → ∀ i, ¬p.ReleasesAt i m
  released : ∀ {m shape}, p.matrix m = .ok shape → m ∉ p.produced net →
    ∃ r, (∀ i, p.ReleasesAt i m ↔ i = r) ∧ ∀ i, p.TouchesAt i m → i < r
  touched : ∀ {m shape col}, p.matrix m = .ok shape → col < shape.numCols →
    ∃ i c, p.TouchesFirst i c m col ∧
      (m ∉ p.supplied net → p.WritesColumn net c m col ∧ ¬p.ReadsColumn net c m col)
  unchanged : unchangedAfterRead = true → ∀ {i j m col : Nat} {c d : Command}, i < j →
    p.commands[i]? = some c → p.commands[j]? = some d →
      p.ReadsColumn net c m col → ¬p.WritesColumn net c m col → ¬p.WritesColumn net d m col

/-! ## The life of a matrix -/

theorem AllocatesAt.exists_matrix (hOperands : p.checkOperands net = .ok ()) {i m : Nat}
    (h : p.AllocatesAt i m) : ∃ shape, p.matrix m = .ok shape := by
  obtain ⟨c, hCommand, hAllocated⟩ := h
  have hCheck := checkOperands_eq_ok_iff.mp hOperands i c hCommand
  obtain ⟨hZero, hLt⟩ := resize_of_check hCheck (.inl hAllocated)
  exact Program.exists_matrix hZero hLt

theorem ReleasesAt.exists_matrix (hOperands : p.checkOperands net = .ok ()) {i m : Nat}
    (h : p.ReleasesAt i m) : ∃ shape, p.matrix m = .ok shape := by
  obtain ⟨c, hCommand, hReleased⟩ := h
  have hCheck := checkOperands_eq_ok_iff.mp hOperands i c hCommand
  obtain ⟨hZero, hLt⟩ := resize_of_check hCheck (.inr hReleased)
  exact Program.exists_matrix hZero hLt

/-- A matrix has a column, so some command touches it. -/
theorem Disciplined.exists_touchesAt {b : Bool} (h : p.Disciplined net b)
    (hWell : p.WellFormed) {m : Nat} {shape : Shape} (hMatrix : p.matrix m = .ok shape) :
    ∃ i, p.TouchesAt i m := by
  obtain ⟨i, c, hFirst, -⟩ := h.touched hMatrix (hWell.positive hMatrix).2
  exact ⟨i, c, 0, hFirst.command, hFirst.touches⟩

theorem Disciplined.allocation_unique {b : Bool} (h : p.Disciplined net b)
    (hOperands : p.checkOperands net = .ok ()) {i j m : Nat} (hI : p.AllocatesAt i m)
    (hJ : p.AllocatesAt j m) : i = j := by
  obtain ⟨shape, hMatrix⟩ := hI.exists_matrix hOperands
  have hNotSupplied : m ∉ p.supplied net := fun hMem => h.notAllocated hMem i hI
  obtain ⟨a, hOnly, -⟩ := h.allocated hMatrix hNotSupplied
  rw [(hOnly i).mp hI, (hOnly j).mp hJ]

theorem Disciplined.release_unique {b : Bool} (h : p.Disciplined net b)
    (hOperands : p.checkOperands net = .ok ()) {i j m : Nat} (hI : p.ReleasesAt i m)
    (hJ : p.ReleasesAt j m) : i = j := by
  obtain ⟨shape, hMatrix⟩ := hI.exists_matrix hOperands
  have hNotProduced : m ∉ p.produced net := fun hMem => h.notReleased hMem i hI
  obtain ⟨r, hOnly, -⟩ := h.released hMatrix hNotProduced
  rw [(hOnly i).mp hI, (hOnly j).mp hJ]

/-- A matrix is not touched before it is allocated. -/
theorem Disciplined.allocation_le_touch {b : Bool} (h : p.Disciplined net b)
    (hOperands : p.checkOperands net = .ok ()) {a i m : Nat} (hAllocates : p.AllocatesAt a m)
    (hTouches : p.TouchesAt i m) : a ≤ i := by
  obtain ⟨shape, hMatrix⟩ := hAllocates.exists_matrix hOperands
  have hNotSupplied : m ∉ p.supplied net := fun hMem => h.notAllocated hMem a hAllocates
  obtain ⟨a', hOnly, hBefore⟩ := h.allocated hMatrix hNotSupplied
  rw [(hOnly a).mp hAllocates]
  exact hBefore i hTouches

/-- A matrix is not touched after it is released, or by its release. -/
theorem Disciplined.touch_lt_release {b : Bool} (h : p.Disciplined net b)
    (hOperands : p.checkOperands net = .ok ()) {i r m : Nat} (hReleases : p.ReleasesAt r m)
    (hTouches : p.TouchesAt i m) : i < r := by
  obtain ⟨shape, hMatrix⟩ := hReleases.exists_matrix hOperands
  have hNotProduced : m ∉ p.produced net := fun hMem => h.notReleased hMem r hReleases
  obtain ⟨r', hOnly, hAfter⟩ := h.released hMatrix hNotProduced
  rw [(hOnly r).mp hReleases]
  exact hAfter i hTouches

theorem Disciplined.allocation_lt_release {b : Bool} (h : p.Disciplined net b)
    (hWell : p.WellFormed) (hOperands : p.checkOperands net = .ok ()) {a r m : Nat}
    (hAllocates : p.AllocatesAt a m) (hReleases : p.ReleasesAt r m) : a < r := by
  obtain ⟨shape, hMatrix⟩ := hAllocates.exists_matrix hOperands
  obtain ⟨i, hTouches⟩ := h.exists_touchesAt hWell hMatrix
  have hLe := h.allocation_le_touch hOperands hAllocates hTouches
  have hLt := h.touch_lt_release hOperands hReleases hTouches
  omega

/-- A matrix that is supplied or produced is one of the program's. -/
theorem exists_matrix_of_marked (hBinds : ∀ entry ∈ p.bindings, p.BindsMatrices entry) {m : Nat}
    (hMarked : m ∈ p.supplied net ∨ m ∈ p.produced net) : ∃ shape, p.matrix m = .ok shape := by
  have hBound : ∃ entry ∈ p.bindings, m ∈ boundMatrices entry.2 := by
    rcases hMarked with hMem | hMem
    · obtain ⟨entry, hEntry, hIn⟩ := List.mem_flatMap.mp hMem
      exact ⟨entry, hEntry, mem_boundMatrices_of_suppliedBy hIn⟩
    · obtain ⟨entry, hEntry, hIn⟩ := List.mem_flatMap.mp hMem
      exact ⟨entry, hEntry, mem_boundMatrices_of_producedBy hIn⟩
  obtain ⟨entry, hEntry, hIn⟩ := hBound
  obtain ⟨hZero, hLt⟩ := hBinds entry hEntry m hIn
  exact exists_matrix hZero hLt

theorem bindsMatrices_of_checkRequest {r : Request} (h : p.checkRequest net r = .ok ()) :
    ∀ entry ∈ p.bindings, p.BindsMatrices entry := by
  obtain ⟨⟨⟩, hBindings, -⟩ := Action.check_bind_eq_ok_iff.mp h
  intro entry hEntry
  exact checkBinding_eq_ok_iff.mp (Action.check_forM_eq_ok_iff.mp hBindings entry hEntry)

/-! ## The whole check -/

theorem check_eq_ok_iff {r : Request} {unchangedAfterRead : Bool} {a : Analysis} :
    p.check net r unchangedAfterRead = .ok a ↔
      p.checkOperands net = .ok () ∧ p.checkRequest net r = .ok () ∧
        p.analysis net = .ok a ∧ p.checkOrder = .ok () ∧ a.checkLifetimes = .ok () ∧
          a.checkDefined = .ok () ∧ (unchangedAfterRead = true → a.checkUnchanged = .ok ()) := by
  simp only [check, Action.check_bind_eq_ok_iff]
  constructor
  · rintro ⟨⟨⟩, hOperands, ⟨⟩, hRequest, a', hAnalysis, ⟨⟩, hOrder, ⟨⟩, hLifetimes, ⟨⟩,
      hDefined, hRest⟩
    cases unchangedAfterRead with
    | false =>
        cases hRest
        exact ⟨hOperands, hRequest, hAnalysis, hOrder, hLifetimes, hDefined, by simp⟩
    | true =>
        obtain ⟨⟨⟩, hUnchanged, hEq⟩ := Action.check_bind_eq_ok_iff.mp hRest
        cases hEq
        exact ⟨hOperands, hRequest, hAnalysis, hOrder, hLifetimes, hDefined,
          fun _ => hUnchanged⟩
  · intro h
    obtain ⟨hOperands, hRequest, hAnalysis, hOrder, hLifetimes, hDefined, hUnchanged⟩ := h
    refine ⟨(), hOperands, (), hRequest, a, hAnalysis, (), hOrder, (), hLifetimes, (),
      hDefined, ?_⟩
    cases unchangedAfterRead with
    | false => rfl
    | true => exact Action.check_bind_eq_ok_iff.mpr ⟨(), hUnchanged rfl, rfl⟩

theorem analysis_eq_ok_iff {a : Analysis} :
    p.analysis net = .ok a ↔
      ∃ t es hs, p.partition = .ok t ∧ p.effects net t = .ok es ∧
        p.matrixHistories net t es = .ok hs ∧ a = ⟨t, es, variableHistories t es, hs⟩ := by
  simp only [analysis, Action.check_bind_eq_ok_iff]
  constructor
  · intro h
    obtain ⟨t, ht, es, hes, hs, hHistories, hEq⟩ := h
    cases hEq
    exact ⟨t, es, hs, ht, hes, hHistories, rfl⟩
  · intro h
    obtain ⟨t, es, hs, ht, hes, hHistories, rfl⟩ := h
    exact ⟨t, ht, es, hes, hs, hHistories, rfl⟩

/-- A program that passes the check has operands that pass theirs. -/
theorem Accepted.checkOperands {r : Request} {unchangedAfterRead : Bool}
    (h : p.Accepted net r unchangedAfterRead) : p.checkOperands net = .ok () := by
  obtain ⟨a, hCheck⟩ := h
  exact (check_eq_ok_iff.mp hCheck).1

theorem Accepted.bindsMatrices {r : Request} {unchangedAfterRead : Bool}
    (h : p.Accepted net r unchangedAfterRead) : ∀ entry ∈ p.bindings, p.BindsMatrices entry := by
  obtain ⟨a, hCheck⟩ := h
  exact bindsMatrices_of_checkRequest (check_eq_ok_iff.mp hCheck).2.1

/-- A program that passes the check is disciplined. -/
theorem Accepted.disciplined {r : Request} {unchangedAfterRead : Bool}
    (h : p.Accepted net r unchangedAfterRead) (hWell : p.WellFormed) :
    p.Disciplined net unchangedAfterRead := by
  obtain ⟨a, hCheck⟩ := h
  obtain ⟨hOperands, -, hAnalysis, hOrder, hLifetimes, hDefined, hUnchanged⟩ :=
    check_eq_ok_iff.mp hCheck
  obtain ⟨t, es, hs, ht, hes, hHistories, rfl⟩ := analysis_eq_ok_iff.mp hAnalysis
  obtain ⟨hAllocations, hReleases, ⟨hBound, hSupplied, hProduced⟩, hEach⟩ :=
    (matrixHistories_eq_ok_iff hWell ht hes hOperands).mp hHistories
  have hLifetime := (checkLifetimes_eq_ok_iff hEach).mp hLifetimes
  have hColumns := (checkDefined_iff hWell ht hes hEach).mp hDefined
  -- A matrix has a first column, which some command touches.
  have hTouched : ∀ {m shape}, p.matrix m = .ok shape → ∃ i, p.TouchesAt i m := by
    intro m shape hShape
    obtain ⟨i, c, hFirst, -⟩ := hColumns m shape 0 hShape (hWell.positive hShape).2
    exact ⟨i, c, 0, hFirst.command, hFirst.touches⟩
  have hAllocation : ∀ {m shape}, p.matrix m = .ok shape →
      (m ∈ p.supplied net → ∀ i, ¬p.AllocatesAt i m) ∧
        (m ∉ p.supplied net →
          ∃ a, (∀ i, p.AllocatesAt i m ↔ i = a) ∧ ∀ i, p.TouchesAt i m → a ≤ i) :=
    fun {m shape} hShape => (hWell.checkAllocation_historyOf_iff ht hes hAllocations
      (hTouched hShape)).mp (hLifetime m shape hShape).1
  have hRelease : ∀ {m shape}, p.matrix m = .ok shape →
      (m ∈ p.produced net → ∀ i, ¬p.ReleasesAt i m) ∧
        (m ∉ p.produced net →
          ∃ r, (∀ i, p.ReleasesAt i m ↔ i = r) ∧ ∀ i, p.TouchesAt i m → i < r) := by
    intro m shape hShape
    refine (hWell.checkRelease_historyOf_iff ht hes hReleases (hTouched hShape) ?_).mp
      (hLifetime m shape hShape).2
    intro a i hAllocates hTouches
    have hNotSupplied : m ∉ p.supplied net := fun hMem => (hAllocation hShape).1 hMem a hAllocates
    obtain ⟨a', hOnly, hBefore⟩ := (hAllocation hShape).2 hNotSupplied
    rw [(hOnly a).mp hAllocates]
    exact hBefore i hTouches
  -- A marked matrix is one of the program's, so its history has been checked.
  have hMarked : ∀ {m}, m ∈ p.supplied net ∨ m ∈ p.produced net →
      ∃ shape, p.matrix m = .ok shape :=
    exists_matrix_of_marked fun entry hEntry => (hBound entry hEntry).2
  exact
    { boundary := fun entry hEntry => (hBound entry hEntry).1
      suppliedOnce := hSupplied
      producedOnce := hProduced
      split := checkOrder_eq_ok_iff.mp hOrder
      notAllocated := by
        intro m hMem
        obtain ⟨shape, hShape⟩ := hMarked (.inl hMem)
        exact (hAllocation hShape).1 hMem
      allocated := fun hShape => (hAllocation hShape).2
      notReleased := by
        intro m hMem
        obtain ⟨shape, hShape⟩ := hMarked (.inr hMem)
        exact (hRelease hShape).1 hMem
      released := fun hShape => (hRelease hShape).2
      touched := fun {m shape col} => hColumns m shape col
      unchanged := by
        intro hFlag
        refine (checkUnchanged_iff hWell ht hes ?_).mp (hUnchanged hFlag)
        intro m shape col hShape hCol
        obtain ⟨i, c, hFirst, -⟩ := hColumns m shape col hShape hCol
        exact ⟨i, c, hFirst⟩ }

/-- A disciplined program whose operands and request pass their checks passes the whole
check. -/
theorem Disciplined.accepted {r : Request} {unchangedAfterRead : Bool}
    (h : p.Disciplined net unchangedAfterRead) (hWell : p.WellFormed)
    (hOperands : p.checkOperands net = .ok ()) (hRequest : p.checkRequest net r = .ok ()) :
    p.Accepted net r unchangedAfterRead := by
  obtain ⟨t, ht⟩ := hWell.exists_partition
  obtain ⟨es, hes⟩ := exists_effects t hOperands
  have hBinds := bindsMatrices_of_checkRequest hRequest
  have hHistories := (matrixHistories_eq_ok_iff hWell ht hes hOperands).mpr
    ⟨h.allocation_unique hOperands, h.release_unique hOperands,
      ⟨fun entry hEntry => ⟨h.boundary entry hEntry, hBinds entry hEntry⟩, h.suppliedOnce,
        h.producedOnce⟩, rfl⟩
  have hLifetime : ∀ m shape, p.matrix m = .ok shape →
      (p.historyOf net t es m).checkAllocation = .ok () ∧
        (p.historyOf net t es m).checkRelease = .ok () := by
    intro m shape hShape
    have hTouched := h.exists_touchesAt hWell hShape
    constructor
    · exact (hWell.checkAllocation_historyOf_iff ht hes (h.allocation_unique hOperands)
        hTouched).mpr ⟨h.notAllocated, h.allocated hShape⟩
    · exact (hWell.checkRelease_historyOf_iff ht hes (h.release_unique hOperands) hTouched
        (h.allocation_le_touch hOperands)).mpr ⟨h.notReleased, h.released hShape⟩
  refine ⟨_, check_eq_ok_iff.mpr ⟨hOperands, hRequest,
    analysis_eq_ok_iff.mpr ⟨t, es, _, ht, hes, hHistories, rfl⟩,
    checkOrder_eq_ok_iff.mpr h.split, (checkLifetimes_eq_ok_iff rfl).mpr hLifetime,
    (checkDefined_iff hWell ht hes rfl).mpr fun _ _ _ => h.touched, ?_⟩⟩
  intro hFlag
  refine (checkUnchanged_iff hWell ht hes ?_).mpr (h.unchanged hFlag)
  intro m shape col hShape hCol
  obtain ⟨i, c, hFirst, -⟩ := h.touched hShape hCol
  exact ⟨i, c, hFirst⟩

/-- The check of a built program whose operands and request pass their checks decides
whether it is disciplined. -/
theorem accepted_iff_disciplined {r : Request} {unchangedAfterRead : Bool} (hBuilt : p.Built)
    (hOperands : p.checkOperands net = .ok ()) (hRequest : p.checkRequest net r = .ok ()) :
    p.Accepted net r unchangedAfterRead ↔ p.Disciplined net unchangedAfterRead :=
  ⟨fun h => h.disciplined hBuilt.wellFormed,
    fun h => h.accepted hBuilt.wellFormed hOperands hRequest⟩

/-! ## A program that copies its input -/

/-- A network of an input node and an output node. -/
def throughNetwork : Network :=
  { components := []
    nodes := [⟨"in", .input⟩, ⟨"out", .output⟩] }

/-- One row goes in and one row comes out. -/
def throughRequest : Request :=
  { inputs := [.frames "in" 1 false]
    outputs := [.frames "out" 1 false]
    wantsModelDeriv := false
    wantsStats := false }

/-- The value of the input is copied to the value of the output, and then released. -/
def throughProgram : Program :=
  BuildStep.runAll
    [.matrix 1 2, .matrix 1 2, .bind 0 1 none, .bind 1 2 none, .command (.allocUndefined 2),
      .command (.copy 2 1), .recordedMarker, .command (.release 1)]
    .empty

theorem throughProgram_built : throughProgram.Built :=
  ⟨_, rfl⟩

theorem throughProgram_accepted :
    throughProgram.Accepted throughNetwork throughRequest true :=
  ⟨_, rfl⟩

theorem throughProgram_disciplined :
    throughProgram.checkOperands throughNetwork = .ok () ∧
      throughProgram.checkRequest throughNetwork throughRequest = .ok () ∧
        throughProgram.Disciplined throughNetwork true :=
  ⟨rfl, rfl, (accepted_iff_disciplined throughProgram_built rfl rfl).mp
    throughProgram_accepted⟩

end Program

end MatrixProgram
