import MatrixProgram.Check
import MatrixProgram.Proofs.Analysis.History

/-!
# What each pass decides

Each pass of the check is turned into a statement about commands and the columns they touch:
`checkOrder_eq_ok_iff`, `matrixHistories_eq_ok_iff`,
`WellFormed.checkAllocation_historyOf_iff` and `WellFormed.checkRelease_historyOf_iff`,
`checkDefined_iff`, `checkUnchanged_iff`.
-/

namespace MatrixProgram

namespace Program

variable {p : Program} {net : Network} {t : Partition} {es : List Effects}

/-! ## The order of commands -/

/-- One marker splits the commands: backprops stand behind it, propagations and statistics
before it. -/
structure SplitAt (p : Program) (marker : Nat) : Prop where
  only : ∀ i, p.commands[i]? = some .marker ↔ i = marker
  before : ∀ {i c}, p.commands[i]? = some c → i < marker → c.opcode ≠ .backprop
  after : ∀ {i c}, p.commands[i]? = some c → marker < i →
    c.opcode ≠ .propagate ∧ c.opcode ≠ .storeStats

theorem mem_markers_iff {i : Nat} : i ∈ p.markers ↔ p.commands[i]? = some .marker := by
  have hMem : i ∈ p.markers ↔ ∃ c, p.commands[i]? = some c ∧ c.opcode = .marker :=
    mem_positions_iff (q := fun c : Command => c.opcode = .marker)
  rw [hMem]
  constructor
  · intro h
    obtain ⟨c, hCommand, hMarker⟩ := h
    cases c <;> simp [Command.opcode] at hMarker
    exact hCommand
  · exact fun hCommand => ⟨.marker, hCommand, rfl⟩

theorem checkSide_eq_ok_iff {marker i : Nat} {c : Command} :
    checkSide marker c i = .ok () ↔
      (i < marker → c.opcode ≠ .backprop) ∧
        (marker < i → c.opcode ≠ .propagate ∧ c.opcode ≠ .storeStats) := by
  unfold checkSide
  cases c.opcode <;> simp

theorem markers_eq_singleton_iff {marker : Nat} :
    p.markers = [marker] ↔ ∀ i, p.commands[i]? = some .marker ↔ i = marker := by
  have hSorted : p.markers.Pairwise (· < ·) :=
    pairwise_positions (q := fun c : Command => c.opcode = .marker)
  constructor
  · intro hEq i
    rw [← mem_markers_iff, hEq, List.mem_singleton]
  · intro hOnly
    refine Ascending.eq_of_mem_iff hSorted (List.pairwise_singleton _ _) ?_
    intro i
    rw [mem_markers_iff, hOnly, List.mem_singleton]

theorem checkSides_eq_ok_iff {marker : Nat} :
    (p.commands.zipIdx.forM fun entry => checkSide marker entry.1 entry.2) = .ok () ↔
      ∀ i c, p.commands[i]? = some c → checkSide marker c i = .ok () := by
  simp only [Action.check_forM_eq_ok_iff, Prod.forall, List.mem_zipIdx_iff_getElem?]
  exact forall_comm

/-- The order of the commands passes when the recorded marker is the only one and splits
them. -/
theorem checkOrder_eq_ok_iff :
    p.checkOrder = .ok () ↔ ∃ marker, p.forwardEnd = some marker ∧ p.SplitAt marker := by
  constructor
  · intro hOk
    unfold checkOrder at hOk
    split at hOk
    · cases hOk
    · rename_i marker hMarkers
      split at hOk
      · rename_i hEnd
        have hEach := checkSides_eq_ok_iff.mp hOk
        refine ⟨marker, hEnd, markers_eq_singleton_iff.mp hMarkers, ?_, ?_⟩
        · intro i c hCommand
          exact (checkSide_eq_ok_iff.mp (hEach i c hCommand)).1
        · intro i c hCommand
          exact (checkSide_eq_ok_iff.mp (hEach i c hCommand)).2
      · cases hOk
    · cases hOk
  · intro h
    obtain ⟨marker, hEnd, hSplit⟩ := h
    rw [checkOrder, markers_eq_singleton_iff.mpr hSplit.only]
    simp only [hEnd, if_true]
    apply checkSides_eq_ok_iff.mpr
    intro i c hCommand
    exact checkSide_eq_ok_iff.mpr ⟨hSplit.before hCommand, hSplit.after hCommand⟩

/-! ## Histories of matrices -/

theorem resize_of_check {c : Command} {m : Nat} (h : p.checkCommand net c = .ok ())
    (hResize : c.allocated? = some m ∨ c.released? = some m) :
    m ≠ 0 ∧ m < p.numMatrices := by
  cases c <;> simp [Command.allocated?, Command.released?] at hResize <;> subst hResize <;>
    exact demand_eq_ok_iff.mp h

/-- A resize passes when its matrix exists and no earlier position has been found for it. -/
private theorem requireFirst_eq_ok_iff {m n : Nat} {earlier : Option Nat} {e₁ e₂ : Error}
    {e₃ : Nat → Error} :
    (if m = 0 then .error e₁ else if n ≤ m then .error e₂ else
        match earlier with
        | some k => .error (e₃ k)
        | none => .ok () : Except Error Unit) = .ok () ↔
      (m ≠ 0 ∧ m < n) ∧ earlier = none := by
  by_cases hZero : m = 0
  · simp [hZero]
  · by_cases hPast : n ≤ m
    · have hNot : ¬m < n := by omega
      simp [hZero, hPast, hNot]
    · have hLt : m < n := by omega
      cases earlier <;> simp [hZero, hPast, hLt]

/-- No position is found among the first commands exactly when none of them has the
property. -/
private theorem head?_positions_take_eq_none_iff {q : Command → Prop} [DecidablePred q]
    {i : Nat} :
    ((p.commands.take i).zipIdx.filterMap fun (c, k) => if q c then some k else none).head? =
        none ↔
      ∀ j, j < i → ¬∃ c, p.commands[j]? = some c ∧ q c := by
  rw [List.head?_eq_none_iff, List.eq_nil_iff_forall_not_mem]
  simp only [mem_positions_iff, List.getElem?_take, Option.ite_none_right_eq_some]
  constructor
  · rintro hNone j hLt ⟨c, hCommand, hProperty⟩
    exact hNone j ⟨c, ⟨hLt, hCommand⟩, hProperty⟩
  · rintro hNone j ⟨c, ⟨hLt, hCommand⟩, hProperty⟩
    exact hNone j hLt ⟨c, hCommand, hProperty⟩

theorem requireFirstAllocation_eq_ok_iff {i m : Nat} :
    p.requireFirstAllocation i m = .ok () ↔
      (m ≠ 0 ∧ m < p.numMatrices) ∧ ∀ j, j < i → ¬p.AllocatesAt j m :=
  requireFirst_eq_ok_iff.trans (and_congr_right fun _ =>
    head?_positions_take_eq_none_iff (q := fun c : Command => c.allocated? = some m))

theorem requireFirstRelease_eq_ok_iff {i m : Nat} :
    p.requireFirstRelease i m = .ok () ↔
      (m ≠ 0 ∧ m < p.numMatrices) ∧ ∀ j, j < i → ¬p.ReleasesAt j m :=
  requireFirst_eq_ok_iff.trans (and_congr_right fun _ =>
    head?_positions_take_eq_none_iff (q := fun c : Command => c.released? = some m))

/-- A command that is accepted into the histories neither allocates nor releases a matrix a
second time, whether or not its operands pass a check. -/
theorem first_of_requireCommand {i : Nat} {c : Command} {e : Effects}
    (hCommand : p.commands[i]? = some c) (h : p.requireCommand t e i = .ok ()) :
    (∀ m, c.allocated? = some m → ∀ j, j < i → ¬p.AllocatesAt j m) ∧
      (∀ m, c.released? = some m → ∀ j, j < i → ¬p.ReleasesAt j m) := by
  rw [requireCommand, Action.check_bind_eq_ok_iff] at h
  obtain ⟨-, -, h⟩ := h
  simp only [hCommand] at h
  -- No command both allocates and releases.
  have hSplit : c.allocated? = none ∨ c.released? = none := by
    cases c <;> simp [Command.allocated?, Command.released?]
  constructor
  · intro m hAllocated
    simp only [hAllocated] at h
    exact (requireFirstAllocation_eq_ok_iff.mp h).2
  · intro m hReleased
    have hAllocated := hSplit.resolve_right (by simp [hReleased])
    simp only [hAllocated, hReleased] at h
    exact (requireFirstRelease_eq_ok_iff.mp h).2

/-- A command with valid operands is accepted into the histories unless it allocates or
releases a matrix a second time. -/
theorem requireCommand_eq_ok (hWell : p.WellFormed) (ht : p.partition = .ok t)
    {i : Nat} {c : Command} {e : Effects} (hCommand : p.commands[i]? = some c)
    (hCheck : p.checkCommand net c = .ok ()) (he : p.commandEffects net t c = .ok e)
    (hAllocations : ∀ m, c.allocated? = some m → ∀ j, j < i → ¬p.AllocatesAt j m)
    (hReleases : ∀ m, c.released? = some m → ∀ j, j < i → ¬p.ReleasesAt j m) :
    p.requireCommand t e i = .ok () := by
  have hVars : (e.touched.forM fun var => do let _ ← t.matrixOf var) = .ok () := by
    rw [Action.check_forM_eq_ok_iff]
    intro var hMem
    obtain ⟨m, hOwner⟩ := hWell.exists_matrixOf_of_mem_touched ht he hMem
    rw [hOwner]
    rfl
  rw [requireCommand, hVars]
  simp only [Action.check_ok_bind, hCommand]
  cases hAllocated : c.allocated? with
  | some m =>
      exact requireFirstAllocation_eq_ok_iff.mpr
        ⟨resize_of_check hCheck (.inl hAllocated), hAllocations m hAllocated⟩
  | none =>
      cases hReleased : c.released? with
      | some m =>
          exact requireFirstRelease_eq_ok_iff.mpr
            ⟨resize_of_check hCheck (.inr hReleased), hReleases m hReleased⟩
      | none => rfl

/-- Where no position with a property stands before another one, there is at most one. -/
private theorem eq_of_none_earlier {q : Nat → Prop} (h : ∀ i, q i → ∀ j, j < i → ¬q j)
    {i j : Nat} (hI : q i) (hJ : q j) : i = j := by
  rcases Nat.lt_trichotomy i j with hLt | hEq | hGt
  · exact absurd hI (h j hJ i hLt)
  · exact hEq
  · exact absurd hJ (h i hI j hGt)

/-- Once all commands are accepted into the histories, no matrix is allocated or released
twice. -/
theorem unique_of_requireCommands (hes : p.effects net t = .ok es)
    (h : (es.zipIdx.forM fun entry => p.requireCommand t entry.1 entry.2) = .ok ()) :
    (∀ {i j m}, p.AllocatesAt i m → p.AllocatesAt j m → i = j) ∧
      ∀ {i j m}, p.ReleasesAt i m → p.ReleasesAt j m → i = j := by
  simp only [Action.check_forM_eq_ok_iff, Prod.forall, List.mem_zipIdx_iff_getElem?] at h
  have hCommands : ∀ i c, p.commands[i]? = some c →
      (∀ m, c.allocated? = some m → ∀ j, j < i → ¬p.AllocatesAt j m) ∧
        (∀ m, c.released? = some m → ∀ j, j < i → ¬p.ReleasesAt j m) := by
    intro i c hCommand
    obtain ⟨e, hEntry, -⟩ := getElem?_effects hes hCommand
    exact first_of_requireCommand hCommand (h e i hEntry)
  constructor
  · intro i j m hI hJ
    refine eq_of_none_earlier (q := fun i => p.AllocatesAt i m) ?_ hI hJ
    rintro i ⟨c, hCommand, hAllocated⟩
    exact (hCommands i c hCommand).1 m hAllocated
  · intro i j m hI hJ
    refine eq_of_none_earlier (q := fun i => p.ReleasesAt i m) ?_ hI hJ
    rintro i ⟨c, hCommand, hReleased⟩
    exact (hCommands i c hCommand).2 m hReleased

/-- All commands are accepted into the histories exactly when no matrix is allocated or
released twice. -/
theorem requireCommands_eq_ok_iff (hWell : p.WellFormed) (ht : p.partition = .ok t)
    (hes : p.effects net t = .ok es) (hOperands : p.checkOperands net = .ok ()) :
    (es.zipIdx.forM fun entry => p.requireCommand t entry.1 entry.2) = .ok () ↔
      (∀ {i j m}, p.AllocatesAt i m → p.AllocatesAt j m → i = j) ∧
        ∀ {i j m}, p.ReleasesAt i m → p.ReleasesAt j m → i = j := by
  refine ⟨unique_of_requireCommands hes, ?_⟩
  simp only [Action.check_forM_eq_ok_iff, Prod.forall, List.mem_zipIdx_iff_getElem?]
  rintro ⟨hAllocations, hReleases⟩ e i hEntry
  obtain ⟨c, hCommand, he⟩ := commandEffects_of_getElem? hes hEntry
  refine requireCommand_eq_ok hWell ht hCommand
    (checkOperands_eq_ok_iff.mp hOperands i c hCommand) he ?_ ?_
  · intro m hAllocated j hLt hEarlier
    have hEq := hAllocations hEarlier ⟨c, hCommand, hAllocated⟩
    omega
  · intro m hReleased j hLt hEarlier
    have hEq := hReleases hEarlier ⟨c, hCommand, hReleased⟩
    omega

/-- The history of a matrix, from the commands and the marks. -/
def historyOf (p : Program) (net : Network) (t : Partition) (es : List Effects) (m : Nat) :
    MatrixHistory :=
  { allocation := (allocations p.commands m).head?
    release := (releases p.commands m).head?
    accesses := matrixAccesses t es m
    isInput := decide (m ∈ p.supplied net)
    isOutput := decide (m ∈ p.produced net) }

/-- What histories that exist tell of a program, whether or not its operands pass a check:
no matrix is allocated, released, supplied or produced twice, and every bound node is an input
or an output. -/
theorem of_matrixHistories (hes : p.effects net t = .ok es) {hs : List MatrixHistory}
    (h : p.matrixHistories net t es = .ok hs) :
    ((∀ {i j m}, p.AllocatesAt i m → p.AllocatesAt j m → i = j) ∧
        ∀ {i j m}, p.ReleasesAt i m → p.ReleasesAt j m → i = j) ∧
      ((∀ entry ∈ p.bindings, IsBoundary net entry.1 ∧ p.BindsMatrices entry) ∧
        (p.supplied net).Nodup ∧ (p.produced net).Nodup) ∧
      hs = (List.range p.numMatrices).map (p.historyOf net t es) := by
  have hTake : p.commands.take es.length = p.commands := by
    rw [length_effects hes, List.take_length]
  simp only [matrixHistories, Action.check_bind_eq_ok_iff, hTake] at h
  obtain ⟨⟨⟩, hEach, marks, hMarks, hEq⟩ := h
  obtain ⟨hBound, hSupplied, hProduced, rfl⟩ := marks_eq_ok_iff.mp hMarks
  cases hEq
  exact ⟨unique_of_requireCommands hes hEach, ⟨hBound, hSupplied, hProduced⟩, rfl⟩

/-- The histories exist exactly when no matrix is allocated, released, supplied or produced
twice and every bound node is an input or an output. -/
theorem matrixHistories_eq_ok_iff (hWell : p.WellFormed) (ht : p.partition = .ok t)
    (hes : p.effects net t = .ok es) (hOperands : p.checkOperands net = .ok ())
    {hs : List MatrixHistory} :
    p.matrixHistories net t es = .ok hs ↔
      (∀ {i j m}, p.AllocatesAt i m → p.AllocatesAt j m → i = j) ∧
        (∀ {i j m}, p.ReleasesAt i m → p.ReleasesAt j m → i = j) ∧
        ((∀ entry ∈ p.bindings, IsBoundary net entry.1 ∧ p.BindsMatrices entry) ∧
          (p.supplied net).Nodup ∧ (p.produced net).Nodup) ∧
        hs = (List.range p.numMatrices).map (p.historyOf net t es) := by
  constructor
  · intro h
    obtain ⟨⟨hAllocations, hReleases⟩, hMarks, hEq⟩ := of_matrixHistories hes h
    exact ⟨hAllocations, hReleases, hMarks, hEq⟩
  · intro h
    obtain ⟨hAllocations, hReleases, ⟨hBound, hSupplied, hProduced⟩, rfl⟩ := h
    have hTake : p.commands.take es.length = p.commands := by
      rw [length_effects hes, List.take_length]
    simp only [matrixHistories, Action.check_bind_eq_ok_iff, hTake]
    exact ⟨(), (requireCommands_eq_ok_iff hWell ht hes hOperands).mpr
      ⟨hAllocations, hReleases⟩, _, marks_eq_ok_iff.mpr ⟨hBound, hSupplied, hProduced, rfl⟩, rfl⟩

/-! ## The lifetime of a matrix -/

theorem head?_allocations_eq_some_iff {m a : Nat} :
    (allocations p.commands m).head? = some a ↔
      p.AllocatesAt a m ∧ ∀ i, p.AllocatesAt i m → a ≤ i := by
  have hSorted : (allocations p.commands m).Pairwise (· < ·) :=
    pairwise_positions (q := fun c : Command => c.allocated? = some m)
  rw [head?_eq_some_iff (r := id) hSorted]
  simp only [mem_allocations_iff, id_eq]

theorem head?_releases_eq_some_iff {m r : Nat} :
    (releases p.commands m).head? = some r ↔
      p.ReleasesAt r m ∧ ∀ i, p.ReleasesAt i m → r ≤ i := by
  have hSorted : (releases p.commands m).Pairwise (· < ·) :=
    pairwise_positions (q := fun c : Command => c.released? = some m)
  rw [head?_eq_some_iff (r := id) hSorted]
  simp only [mem_releases_iff, id_eq]

theorem head?_allocations_eq_none_iff {m : Nat} :
    (allocations p.commands m).head? = none ↔ ∀ i, ¬p.AllocatesAt i m := by
  simp only [List.head?_eq_none_iff, List.eq_nil_iff_forall_not_mem, mem_allocations_iff]

theorem head?_releases_eq_none_iff {m : Nat} :
    (releases p.commands m).head? = none ↔ ∀ i, ¬p.ReleasesAt i m := by
  simp only [List.head?_eq_none_iff, List.eq_nil_iff_forall_not_mem, mem_releases_iff]

theorem pairwise_matrixAccesses (t : Partition) (es : List Effects) (m : Nat) :
    (matrixAccesses t es m).Pairwise (· < ·) :=
  pairwise_positions (q := fun e : Effects =>
    (e.touched.any fun var => var ∈ t.ofMatrix m) = true)

theorem WellFormed.head?_matrixAccesses_iff (hWell : p.WellFormed)
    (ht : p.partition = .ok t) (hes : p.effects net t = .ok es) {m f : Nat} :
    (matrixAccesses t es m).head? = some f ↔
      p.TouchesAt f m ∧ ∀ i, p.TouchesAt i m → f ≤ i := by
  rw [head?_eq_some_iff (r := id) (pairwise_matrixAccesses t es m)]
  simp only [hWell.mem_matrixAccesses_iff ht hes, id_eq]

theorem WellFormed.getLast?_matrixAccesses_iff (hWell : p.WellFormed)
    (ht : p.partition = .ok t) (hes : p.effects net t = .ok es) {m l : Nat} :
    (matrixAccesses t es m).getLast? = some l ↔
      p.TouchesAt l m ∧ ∀ i, p.TouchesAt i m → i ≤ l := by
  rw [getLast?_eq_some_iff (r := id) (pairwise_matrixAccesses t es m)]
  simp only [hWell.mem_matrixAccesses_iff ht hes, id_eq]

/-- A matrix that is touched has a first access and a last one. -/
theorem WellFormed.exists_head?_matrixAccesses (hWell : p.WellFormed)
    (ht : p.partition = .ok t) (hes : p.effects net t = .ok es) {m : Nat}
    (hTouched : ∃ i, p.TouchesAt i m) : ∃ f, (matrixAccesses t es m).head? = some f := by
  obtain ⟨i, hTouches⟩ := hTouched
  have hMem := (hWell.mem_matrixAccesses_iff ht hes).mpr hTouches
  exact Option.ne_none_iff_exists'.mp (mt List.head?_eq_none_iff.mp (List.ne_nil_of_mem hMem))

theorem WellFormed.exists_getLast?_matrixAccesses (hWell : p.WellFormed)
    (ht : p.partition = .ok t) (hes : p.effects net t = .ok es) {m : Nat}
    (hTouched : ∃ i, p.TouchesAt i m) : ∃ l, (matrixAccesses t es m).getLast? = some l := by
  obtain ⟨i, hTouches⟩ := hTouched
  have hMem := (hWell.mem_matrixAccesses_iff ht hes).mpr hTouches
  exact Option.ne_none_iff_exists'.mp
    (mt List.getLast?_eq_none_iff.mp (List.ne_nil_of_mem hMem))

theorem checkAllocation_eq_ok_iff {h : MatrixHistory} :
    h.checkAllocation = .ok () ↔
      (h.isInput = true → h.allocation = none) ∧
        (h.isInput = false → ∃ a f, h.allocation = some a ∧ h.accesses.head? = some f ∧
          a ≤ f) := by
  unfold MatrixHistory.checkAllocation
  cases h.isInput
  · cases h.allocation with
    | none => simp
    | some a => cases h.accesses.head? <;> simp
  · cases h.allocation <;> simp

theorem checkRelease_eq_ok_iff {h : MatrixHistory} :
    h.checkRelease = .ok () ↔
      (h.isOutput = true → h.release = none) ∧
        (h.isOutput = false → ∃ r l, h.release = some r ∧ h.accesses.getLast? = some l ∧
          l < r ∧ ∀ a, h.allocation = some a → a ≤ r) := by
  unfold MatrixHistory.checkRelease
  cases h.isOutput
  · cases h.release with
    | none => simp
    | some r =>
        cases h.accesses.getLast? with
        | none => simp
        | some l =>
            by_cases hLast : r ≤ l
            · have hNot : ¬l < r := by omega
              simp [hLast, hNot]
            · have hLt : l < r := by omega
              cases h.allocation <;> simp [hLast, hLt]
  · cases h.release <;> simp

/-- The history of a matrix passes for its allocation when the matrix is supplied and never
allocated, or allocated once and not after it is touched. -/
theorem WellFormed.checkAllocation_historyOf_iff (hWell : p.WellFormed)
    (ht : p.partition = .ok t) (hes : p.effects net t = .ok es) {m : Nat}
    (hUnique : ∀ {i j}, p.AllocatesAt i m → p.AllocatesAt j m → i = j)
    (hTouched : ∃ i, p.TouchesAt i m) :
    (p.historyOf net t es m).checkAllocation = .ok () ↔
      (m ∈ p.supplied net → ∀ i, ¬p.AllocatesAt i m) ∧
        (m ∉ p.supplied net →
          ∃ a, (∀ i, p.AllocatesAt i m ↔ i = a) ∧ ∀ i, p.TouchesAt i m → a ≤ i) := by
  rw [checkAllocation_eq_ok_iff]
  simp only [historyOf, decide_eq_true_eq, decide_eq_false_iff_not,
    head?_allocations_eq_none_iff]
  refine and_congr_right fun _ => forall_congr' fun _ => ?_
  constructor
  · intro h
    obtain ⟨a, f, hAllocation, hFirst, hLe⟩ := h
    have hAt := (head?_allocations_eq_some_iff.mp hAllocation).1
    have hLeast := ((hWell.head?_matrixAccesses_iff ht hes).mp hFirst).2
    refine ⟨a, fun i => ⟨fun hI => hUnique hI hAt, ?_⟩, ?_⟩
    · intro hEq
      rw [hEq]
      exact hAt
    · intro i hTouches
      exact Nat.le_trans hLe (hLeast i hTouches)
  · intro h
    obtain ⟨a, hOnly, hBefore⟩ := h
    obtain ⟨f, hFirst⟩ := hWell.exists_head?_matrixAccesses ht hes hTouched
    have hFirstTouches := ((hWell.head?_matrixAccesses_iff ht hes).mp hFirst).1
    refine ⟨a, f, ?_, hFirst, hBefore f hFirstTouches⟩
    exact head?_allocations_eq_some_iff.mpr
      ⟨(hOnly a).mpr rfl, fun i hI => Nat.le_of_eq ((hOnly i).mp hI).symm⟩

/-- The history of a matrix passes for its release when the matrix is produced and never
released, or released once and after it is touched. -/
theorem WellFormed.checkRelease_historyOf_iff (hWell : p.WellFormed)
    (ht : p.partition = .ok t) (hes : p.effects net t = .ok es) {m : Nat}
    (hUnique : ∀ {i j}, p.ReleasesAt i m → p.ReleasesAt j m → i = j)
    (hTouched : ∃ i, p.TouchesAt i m)
    (hAllocated : ∀ {a i}, p.AllocatesAt a m → p.TouchesAt i m → a ≤ i) :
    (p.historyOf net t es m).checkRelease = .ok () ↔
      (m ∈ p.produced net → ∀ i, ¬p.ReleasesAt i m) ∧
        (m ∉ p.produced net →
          ∃ r, (∀ i, p.ReleasesAt i m ↔ i = r) ∧ ∀ i, p.TouchesAt i m → i < r) := by
  rw [checkRelease_eq_ok_iff]
  simp only [historyOf, decide_eq_true_eq, decide_eq_false_iff_not, head?_releases_eq_none_iff]
  refine and_congr_right fun _ => forall_congr' fun _ => ?_
  constructor
  · intro h
    obtain ⟨r, l, hRelease, hLast, hLt, -⟩ := h
    have hAt := (head?_releases_eq_some_iff.mp hRelease).1
    have hGreatest := ((hWell.getLast?_matrixAccesses_iff ht hes).mp hLast).2
    refine ⟨r, fun i => ⟨fun hI => hUnique hI hAt, ?_⟩, ?_⟩
    · intro hEq
      rw [hEq]
      exact hAt
    · intro i hTouches
      exact Nat.lt_of_le_of_lt (hGreatest i hTouches) hLt
  · intro h
    obtain ⟨r, hOnly, hAfter⟩ := h
    obtain ⟨l, hLast⟩ := hWell.exists_getLast?_matrixAccesses ht hes hTouched
    have hLastTouches := ((hWell.getLast?_matrixAccesses_iff ht hes).mp hLast).1
    have hLt := hAfter l hLastTouches
    refine ⟨r, l, ?_, hLast, hLt, ?_⟩
    · exact head?_releases_eq_some_iff.mpr
        ⟨(hOnly r).mpr rfl, fun i hI => Nat.le_of_eq ((hOnly i).mp hI).symm⟩
    · -- Some touch stands between the allocation and the release.
      intro a hAllocation
      have hLe := hAllocated (head?_allocations_eq_some_iff.mp hAllocation).1 hLastTouches
      omega

/-- The lifetimes of all matrices pass when those of each of them do. -/
theorem checkLifetimes_eq_ok_iff {a : Analysis}
    (hHistories : a.matrixHistories = (List.range p.numMatrices).map (p.historyOf net t es)) :
    a.checkLifetimes = .ok () ↔
      ∀ m shape, p.matrix m = .ok shape →
        (p.historyOf net t es m).checkAllocation = .ok () ∧
          (p.historyOf net t es m).checkRelease = .ok () := by
  simp only [Analysis.checkLifetimes, Action.check_forM_eq_ok_iff, Prod.forall,
    mem_drop_zipIdx_iff, Action.check_bind_eq_ok_iff, Action.check_mapError_eq_ok_iff,
    hHistories]
  constructor
  · intro hAll m shape hMatrix
    have hGet : ((List.range p.numMatrices).map (p.historyOf net t es))[m]? =
        some (p.historyOf net t es m) := by
      rw [List.getElem?_map, List.getElem?_range (lt_numMatrices_of_matrix hMatrix)]
      rfl
    obtain ⟨⟨⟩, hBoth⟩ := hAll _ m ⟨(matrix_eq_ok_iff.mp hMatrix).1, hGet⟩
    exact hBoth
  · rintro hAll h m ⟨hZero, hGet⟩
    have hLt : m < p.numMatrices := by
      simpa using (List.getElem?_eq_some_iff.mp hGet).1
    rw [List.getElem?_map, List.getElem?_range hLt] at hGet
    cases hGet
    obtain ⟨shape, hMatrix⟩ := exists_matrix hZero hLt
    exact ⟨(), hAll m shape hMatrix⟩

/-! ## Defined values -/

/-- A command is the first one to touch a column. -/
structure TouchesFirst (p : Program) (i : Nat) (c : Command) (m col : Nat) : Prop where
  command : p.commands[i]? = some c
  touches : p.TouchesColumn c m col
  first : ∀ {j d}, j < i → p.commands[j]? = some d → ¬p.TouchesColumn d m col

theorem isInput_iff {a : Analysis}
    (hHistories : a.matrixHistories = (List.range p.numMatrices).map (p.historyOf net t es))
    {m : Nat} (hLt : m < p.numMatrices) :
    a.isInput m = true ↔ m ∈ p.supplied net := by
  simp [Analysis.isInput, hHistories, hLt, historyOf]

theorem mem_variableHistories_iff {accesses : List Access} {var : Nat} :
    (accesses, var) ∈ (variableHistories t es).zipIdx ↔
      var < t.numVariables ∧ accesses = variableHistory es var := by
  rw [List.mem_zipIdx_iff_getElem?, variableHistories, List.getElem?_map,
    Option.map_eq_some_iff]
  constructor
  · intro h
    obtain ⟨var', hGet, rfl⟩ := h
    obtain ⟨hLt, hEq⟩ := List.getElem?_eq_some_iff.mp hGet
    simp only [List.getElem_range] at hEq
    subst hEq
    exact ⟨by simpa using hLt, rfl⟩
  · intro h
    obtain ⟨hLt, rfl⟩ := h
    exact ⟨var, List.getElem?_range hLt, rfl⟩

theorem checkDefinedVariable_eq_ok_iff {a : Analysis} {accesses : List Access} {var m : Nat}
    (hOwner : a.partition.matrixOf var = .ok m) :
    a.checkDefinedVariable accesses var = .ok () ↔
      ∃ first, accesses.head? = some first ∧ (first.kind = .write ∨ a.isInput m = true) := by
  unfold Analysis.checkDefinedVariable
  rw [hOwner]
  simp only [Action.check_ok_bind]
  cases accesses.head? with
  | none => simp
  | some first =>
      by_cases hBad : first.kind ≠ .write ∧ a.isInput m = false
      · have hNot : ¬(first.kind = .write ∨ a.isInput m = true) := by
          simp [hBad]
        simp [hBad]
      · have hGood : first.kind = .write ∨ a.isInput m = true := by
          by_cases hKind : first.kind = .write
          · exact .inl hKind
          · exact .inr (by simpa [hKind] using hBad)
        simp only [hBad, if_false, Option.some.injEq, exists_eq_left', hGood, iff_true]
        rfl

/-- All variables are defined exactly when each column is touched, and written first by a
command that does not read it unless the matrix is supplied. -/
theorem checkDefined_iff (hWell : p.WellFormed) (ht : p.partition = .ok t)
    (hes : p.effects net t = .ok es) {hs : List MatrixHistory}
    (hHistories : hs = (List.range p.numMatrices).map (p.historyOf net t es)) :
    Analysis.checkDefined ⟨t, es, variableHistories t es, hs⟩ = .ok () ↔
      ∀ m shape col, p.matrix m = .ok shape → col < shape.numCols →
        ∃ i c, p.TouchesFirst i c m col ∧
          (m ∉ p.supplied net → p.WritesColumn net c m col ∧ ¬p.ReadsColumn net c m col) := by
  simp only [Analysis.checkDefined, Action.check_forM_eq_ok_iff, Prod.forall,
    mem_variableHistories_iff]
  constructor
  · intro hAll m shape col hMatrix hCol
    obtain ⟨var, hHas⟩ := hWell.exists_hasColumn ht hMatrix hCol
    have hLt := Partition.exists_matrixOf_iff.mp ⟨m, hHas.1⟩
    obtain ⟨first, hHead, hKind⟩ :=
      (checkDefinedVariable_eq_ok_iff hHas.1).mp (hAll _ var ⟨hLt, rfl⟩)
    obtain ⟨c, hCommand, hAccesses, hFirst⟩ :=
      (hWell.head?_variableHistory_iff ht hes hHas).mp hHead
    obtain ⟨e, -, he⟩ := getElem?_effects hes hCommand
    have hTouches := (exists_accessesColumn_iff he).mp ⟨_, hAccesses⟩
    refine ⟨first.command, c, ⟨hCommand, hTouches, hFirst _ _⟩, ?_⟩
    intro hNot
    rw [isInput_iff hHistories (lt_numMatrices_of_matrix hMatrix)] at hKind
    -- The first access is a plain write, so the command does not read the column.
    have hWrite := hKind.resolve_right hNot
    obtain ⟨hRead, hWritten⟩ := hAccesses
    exact ⟨hWritten.mpr (by simp [hWrite]), fun h => hRead.mp h hWrite⟩
  · rintro hAll _ var ⟨hLt, rfl⟩
    obtain ⟨m, hOwner⟩ := Partition.exists_matrixOf_iff.mpr hLt
    -- Any one column of the variable tells who touches it first.
    obtain ⟨col, hHas⟩ := hWell.exists_column ht hOwner
    obtain ⟨shape, hMatrix, hCol⟩ := hWell.lt_of_hasColumn ht hHas
    obtain ⟨i, c, hFirst, hDefined⟩ := hAll m shape col hMatrix hCol
    obtain ⟨e, -, he⟩ := getElem?_effects hes hFirst.command
    obtain ⟨kind, hAccesses⟩ := (exists_accessesColumn_iff he).mpr hFirst.touches
    refine (checkDefinedVariable_eq_ok_iff hOwner).mpr ⟨⟨i, kind⟩, ?_, ?_⟩
    · exact (hWell.head?_variableHistory_iff ht hes hHas).mpr
        ⟨c, hFirst.command, hAccesses, fun _ _ => hFirst.first⟩
    · rw [isInput_iff hHistories (lt_numMatrices_of_matrix hMatrix)]
      by_cases hSupplied : m ∈ p.supplied net
      · exact .inr hSupplied
      · obtain ⟨hWritten, hNotRead⟩ := hDefined hSupplied
        refine .inl ?_
        cases kind with
        | write => rfl
        | read => exact absurd (hAccesses.1.mpr (by decide)) hNotRead
        | readWrite => exact absurd (hAccesses.1.mpr (by decide)) hNotRead

/-- A variable with a column that is touched passes when it does not change after a pure
read. -/
theorem WellFormed.checkUnchangedVariable_eq_ok_iff (hWell : p.WellFormed)
    (ht : p.partition = .ok t) (hes : p.effects net t = .ok es) {hs : List MatrixHistory}
    {var i m col : Nat} {c : Command} (hHas : t.HasColumn var m col)
    (hFirst : p.TouchesFirst i c m col) :
    Analysis.checkUnchangedVariable ⟨t, es, variableHistories t es, hs⟩
        (variableHistory es var) var = .ok () ↔
      Analysis.changesAfterRead (variableHistory es var) = false := by
  obtain ⟨e, -, he⟩ := getElem?_effects hes hFirst.command
  obtain ⟨kind, hAccesses⟩ := (exists_accessesColumn_iff he).mpr hFirst.touches
  have hMem : ⟨i, kind⟩ ∈ variableHistory es var :=
    (hWell.mem_variableHistory_iff ht hes hHas).mpr ⟨c, hFirst.command, hAccesses⟩
  have hUsed : variableHistory es var ≠ [] := List.ne_nil_of_mem hMem
  simp only [Analysis.checkUnchangedVariable, hHas.1, Action.check_ok_bind, hUsed, if_false]
  cases Analysis.changesAfterRead (variableHistory es var) <;> simp [pure, Except.pure]

/-- No variable changes after a pure read exactly when no column does, provided that every
column is touched. -/
theorem checkUnchanged_iff (hWell : p.WellFormed) (ht : p.partition = .ok t)
    (hes : p.effects net t = .ok es) {hs : List MatrixHistory}
    (hTouched : ∀ m shape col, p.matrix m = .ok shape → col < shape.numCols →
      ∃ i c, p.TouchesFirst i c m col) :
    Analysis.checkUnchanged ⟨t, es, variableHistories t es, hs⟩ = .ok () ↔
      ∀ {i j m col : Nat} {c d : Command}, i < j → p.commands[i]? = some c →
        p.commands[j]? = some d → p.ReadsColumn net c m col → ¬p.WritesColumn net c m col →
          ¬p.WritesColumn net d m col := by
  have hVariable : ∀ {var m col}, t.HasColumn var m col →
      (Analysis.checkUnchangedVariable ⟨t, es, variableHistories t es, hs⟩
          (variableHistory es var) var = .ok () ↔
        Analysis.changesAfterRead (variableHistory es var) = false) := by
    intro var m col hHas
    obtain ⟨shape, hMatrix, hCol⟩ := hWell.lt_of_hasColumn ht hHas
    obtain ⟨i, c, hFirst⟩ := hTouched m shape col hMatrix hCol
    exact hWell.checkUnchangedVariable_eq_ok_iff ht hes hHas hFirst
  simp only [Analysis.checkUnchanged, Action.check_forM_eq_ok_iff, Prod.forall,
    mem_variableHistories_iff]
  constructor
  · intro hAll i j m col c d hLt hEarlier hLater hRead hNotWritten hWritten
    obtain ⟨e, -, he⟩ := getElem?_effects hes hEarlier
    obtain ⟨e', -, he'⟩ := getElem?_effects hes hLater
    obtain ⟨shape, hMatrix, hCol⟩ :=
      hWell.lt_of_touchesColumn ((touchesColumn_iff he).mpr (.inl hRead))
    obtain ⟨var, hHas⟩ := hWell.exists_hasColumn ht hMatrix hCol
    have hVar := Partition.exists_matrixOf_iff.mp ⟨m, hHas.1⟩
    have hUnchanged := (hVariable hHas).mp (hAll _ var ⟨hVar, rfl⟩)
    obtain ⟨kind, hKind⟩ := (exists_accessesColumn_iff he').mpr
      ((touchesColumn_iff he').mpr (.inr hWritten))
    -- The earlier command only reads the variable of the column, and the later one writes it.
    have hPure : p.AccessesColumn net c m col .read := by
      simp [AccessesColumn, hRead, hNotWritten]
    have hChanges : Analysis.changesAfterRead (variableHistory es var) = true :=
      (changesAfterRead_iff (pairwise_variableHistory es var)).mpr
        ⟨⟨i, .read⟩, (hWell.mem_variableHistory_iff ht hes hHas).mpr ⟨c, hEarlier, hPure⟩,
          ⟨j, kind⟩, (hWell.mem_variableHistory_iff ht hes hHas).mpr ⟨d, hLater, hKind⟩,
          hLt, rfl, hKind.2.mp hWritten⟩
    rw [hUnchanged] at hChanges
    exact absurd hChanges (by decide)
  · rintro hAll _ var ⟨hVar, rfl⟩
    obtain ⟨m, hOwner⟩ := Partition.exists_matrixOf_iff.mpr hVar
    obtain ⟨col, hHas⟩ := hWell.exists_column ht hOwner
    rw [hVariable hHas, ← Bool.not_eq_true,
      changesAfterRead_iff (pairwise_variableHistory es var)]
    rintro ⟨a, hA, b, hB, hLt, hPure, hKind⟩
    -- Two entries of the history are two commands, the first of which only reads.
    obtain ⟨c, hEarlier, hReadOnly⟩ := (hWell.mem_variableHistory_iff ht hes hHas).mp hA
    obtain ⟨d, hLater, hOther⟩ := (hWell.mem_variableHistory_iff ht hes hHas).mp hB
    rw [hPure] at hReadOnly
    exact hAll hLt hEarlier hLater (hReadOnly.1.mpr (by decide))
      (fun hWritten => hReadOnly.2.mp hWritten rfl) (hOther.2.mpr hKind)

end Program

end MatrixProgram
