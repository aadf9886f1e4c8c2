import MatrixProgram.Proofs.Check.Discipline

/-!
# The histories invert the effects

The histories hold the effects of the commands, ordered by variables and matrices instead
of commands, and nothing is lost or added: a variable's history lists a command exactly
when the command reads or writes the variable, with the kind of the access, and a matrix's
history lists a command exactly when the command reads or writes one of its variables.
This holds of every program that can be analysed, whether or not its operands pass a
check.

`Analysis.Inverts` says so in full, and `analysis_inverts` proves it, together with what an
analysis that fails over the life of a matrix has found.
-/

namespace MatrixProgram

/-- How effects access a variable. -/
def Effects.AccessesAs (e : Effects) (var : Nat) : AccessKind → Prop
  | .read => var ∈ e.read ∧ var ∉ e.written
  | .write => var ∉ e.read ∧ var ∈ e.written
  | .readWrite => var ∈ e.read ∧ var ∈ e.written

theorem Effects.kindOf_eq_some_iff {e : Effects} {var : Nat} {kind : AccessKind} :
    e.kindOf var = some kind ↔ e.AccessesAs var kind := by
  unfold kindOf
  by_cases hRead : var ∈ e.read <;> by_cases hWritten : var ∈ e.written <;>
    cases kind <;> simp [AccessesAs, hRead, hWritten]

/-- The histories of an analysis are the effects of the commands, ordered by variables and
by matrices. -/
structure Analysis.Inverts (a : Analysis) (p : Program) (net : Network) : Prop where
  partition : p.partition = .ok a.partition
  length : a.effects.length = p.commands.length
  effects : ∀ {i : Nat} {c}, p.commands[i]? = some c →
    ∃ e, a.effects[i]? = some e ∧ p.commandEffects net a.partition c = .ok e
  /-- What a command reads and what it writes are ascending lists of variables. -/
  ascending : ∀ {i : Nat} {e}, a.effects[i]? = some e →
    e.read.Pairwise (· < ·) ∧ e.written.Pairwise (· < ·) ∧
      ∀ var, var ∈ e.read ∨ var ∈ e.written → var < a.partition.numVariables
  numVariables : a.variableHistories.length = a.partition.numVariables
  /-- The history of a variable lists its accesses in the order of the commands. -/
  ofVariable : ∀ {var : Nat} {accesses}, a.variableHistories[var]? = some accesses →
    accesses.Pairwise (fun x y => x.command < y.command) ∧
      ∀ i kind, ⟨i, kind⟩ ∈ accesses ↔
        ∃ e, a.effects[i]? = some e ∧ e.AccessesAs var kind
  numMatrices : a.matrixHistories.length = p.numMatrices
  /-- The history of a matrix lists the commands that access a variable of it. -/
  ofMatrix : ∀ {m : Nat} {h}, a.matrixHistories[m]? = some h →
    h.accesses.Pairwise (· < ·) ∧
      ∀ i, i ∈ h.accesses ↔ ∃ e var, a.effects[i]? = some e ∧
        (var ∈ e.read ∨ var ∈ e.written) ∧ a.partition.matrixOf var = .ok m
  /-- It names the one command that allocates the matrix and the one that releases it. -/
  lifetime : ∀ {m : Nat} {h}, a.matrixHistories[m]? = some h →
    (∀ i, h.allocation = some i ↔ p.AllocatesAt i m) ∧
      ∀ i, h.release = some i ↔ p.ReleasesAt i m
  /-- It knows whether the matrix is supplied and whether it is produced. -/
  marks : ∀ {m : Nat} {h}, a.matrixHistories[m]? = some h →
    (h.isInput = true ↔ m ∈ p.supplied net) ∧ (h.isOutput = true ↔ m ∈ p.produced net)

namespace Program

variable {p : Program} {net : Network} {t : Partition} {es : List Effects} {i m : Nat}

/-! ## What the histories list -/

theorem pairwise_commandEffects {c : Command} {e : Effects}
    (h : p.commandEffects net t c = .ok e) :
    e.read.Pairwise (· < ·) ∧ e.written.Pairwise (· < ·) := by
  simp only [commandEffects, Action.check_bind_eq_ok_iff] at h
  obtain ⟨touched, -, sideEffects, -, hEq⟩ := h
  cases hEq
  exact ⟨Ascending.pairwise_ofList _, Ascending.pairwise_ofList _⟩

theorem mem_variableHistory_iff_accessesAs {var : Nat} {kind : AccessKind} :
    ⟨i, kind⟩ ∈ variableHistory es var ↔ ∃ e, es[i]? = some e ∧ e.AccessesAs var kind := by
  simp only [variableHistory, mem_filterMap_zipIdx_iff, Option.map_eq_some_iff,
    Access.mk.injEq, ← Effects.kindOf_eq_some_iff]
  constructor
  · rintro ⟨e, _, hEntry, _, hKind, rfl, rfl⟩
    exact ⟨e, hEntry, hKind⟩
  · rintro ⟨e, hEntry, hKind⟩
    exact ⟨e, i, hEntry, kind, hKind, rfl, rfl⟩

theorem mem_matrixAccesses_iff_touched :
    i ∈ matrixAccesses t es m ↔ ∃ e var, es[i]? = some e ∧
      (var ∈ e.read ∨ var ∈ e.written) ∧ t.matrixOf var = .ok m := by
  have hMem : i ∈ matrixAccesses t es m ↔
      ∃ e, es[i]? = some e ∧ (e.touched.any fun var => var ∈ t.ofMatrix m) = true :=
    mem_positions_iff (q := fun e : Effects =>
      (e.touched.any fun var => var ∈ t.ofMatrix m) = true)
  simp only [hMem, List.any_eq_true, decide_eq_true_eq, Partition.mem_ofMatrix_iff,
    Effects.touched, List.mem_append, exists_and_left]

/-- Where a matrix is allocated at most once, the first allocation is the only one. -/
theorem head?_allocations_iff
    (hUnique : ∀ {i j m}, p.AllocatesAt i m → p.AllocatesAt j m → i = j) :
    (allocations p.commands m).head? = some i ↔ p.AllocatesAt i m := by
  rw [head?_allocations_eq_some_iff]
  exact ⟨And.left, fun hAt => ⟨hAt, fun j hOther => Nat.le_of_eq (hUnique hAt hOther)⟩⟩

/-- Where a matrix is released at most once, the first release is the only one. -/
theorem head?_releases_iff
    (hUnique : ∀ {i j m}, p.ReleasesAt i m → p.ReleasesAt j m → i = j) :
    (releases p.commands m).head? = some i ↔ p.ReleasesAt i m := by
  rw [head?_releases_eq_some_iff]
  exact ⟨And.left, fun hAt => ⟨hAt, fun j hOther => Nat.le_of_eq (hUnique hAt hOther)⟩⟩

/-- The histories of an analysis invert its effects. -/
theorem WellFormed.inverts (hWell : p.WellFormed) {a : Analysis}
    (h : p.analysis net = .ok a) : a.Inverts p net := by
  simp only [analysis, Action.check_bind_eq_ok_iff] at h
  obtain ⟨t, ht, es, hes, hs, hHistories, hEq⟩ := h
  cases hEq
  obtain ⟨⟨hAllocations, hReleases⟩, -, rfl⟩ := of_matrixHistories hes hHistories
  have hMatrix : ∀ {m : Nat} {h},
      ((List.range p.numMatrices).map (p.historyOf net t es))[m]? = some h →
        h = p.historyOf net t es m := by
    intro m h hAt
    obtain ⟨hLt, hEq⟩ := List.getElem?_eq_some_iff.mp hAt
    simpa using hEq.symm
  refine ⟨ht, length_effects hes, fun hCommand => getElem?_effects hes hCommand, ?_, ?_, ?_,
    ?_, ?_, ?_, ?_⟩
  · intro i e hEntry
    obtain ⟨c, -, he⟩ := commandEffects_of_getElem? hes hEntry
    obtain ⟨hRead, hWritten⟩ := pairwise_commandEffects he
    refine ⟨hRead, hWritten, fun var hMem => Partition.exists_matrixOf_iff.mp ?_⟩
    exact hWell.exists_matrixOf_of_mem_touched ht he (List.mem_append.mpr hMem)
  · simp [variableHistories]
  · intro var accesses hAt
    obtain ⟨hLt, hEq⟩ := List.getElem?_eq_some_iff.mp hAt
    obtain rfl : variableHistory es var = accesses := by
      simpa [variableHistories] using hEq
    exact ⟨pairwise_variableHistory es var, fun i kind => mem_variableHistory_iff_accessesAs⟩
  · simp
  · intro m h hAt
    rw [hMatrix hAt]
    exact ⟨pairwise_matrixAccesses t es m, fun i => mem_matrixAccesses_iff_touched⟩
  · intro m h hAt
    rw [hMatrix hAt]
    exact ⟨fun i => head?_allocations_iff hAllocations,
      fun i => head?_releases_iff hReleases⟩
  · intro m h hAt
    rw [hMatrix hAt]
    simp [historyOf]

/-! ## What a violation has found -/

/-- Two commands allocate a matrix, or two release it, and the violation names the two in
order. -/
inductive Violates (p : Program) (m : Nat) : LifecycleViolation → Prop where
  | allocatedTwice {i j : Nat} (hLt : i < j) (hFirst : p.AllocatesAt i m)
      (hSecond : p.AllocatesAt j m) : Violates p m (.allocatedTwice i j)
  | releasedTwice {i j : Nat} (hLt : i < j) (hFirst : p.ReleasesAt i m)
      (hSecond : p.ReleasesAt j m) : Violates p m (.releasedTwice i j)

/-- A resize that violates the life of a matrix has found an earlier one of that matrix. -/
private theorem requireFirst_eq_lifecycle {j n m' : Nat} {earlier : Option Nat}
    {violation : Nat → LifecycleViolation} {cause : LifecycleViolation}
    (h : (if m' = 0 then .error (.malformed (some j) .resizeOfEmpty)
      else if n ≤ m' then .error (.malformed (some j) (.matrixIndex m'))
      else
        match earlier with
        | some k => .error (.lifecycle m' (violation k))
        | none => .ok () : Except Error Unit) = .error (.lifecycle m cause)) :
    m' = m ∧ ∃ k, earlier = some k ∧ violation k = cause := by
  by_cases hZero : m' = 0
  · simp [hZero] at h
  · by_cases hPast : n ≤ m'
    · simp [hZero, hPast] at h
    · cases earlier with
      | none => simp [hZero, hPast] at h
      | some k => simpa [hZero, hPast] using h

/-- The first position that is found among the first commands. -/
private theorem of_head?_positions_take {q : Command → Prop} [DecidablePred q] {j : Nat}
    (h : ((p.commands.take j).zipIdx.filterMap fun (c, k) =>
      if q c then some k else none).head? = some i) :
    i < j ∧ ∃ c, p.commands[i]? = some c ∧ q c := by
  obtain ⟨c, hCommand, hProperty⟩ := mem_positions_iff.mp (List.mem_of_mem_head? h)
  rw [List.getElem?_take, Option.ite_none_right_eq_some] at hCommand
  exact ⟨hCommand.1, c, hCommand.2, hProperty⟩

/-- A command that is refused over the life of a matrix is the second to allocate or to
release it. -/
theorem violates_of_requireCommand {e : Effects} {j : Nat} {cause : LifecycleViolation}
    (h : p.requireCommand t e j = .error (.lifecycle m cause)) : p.Violates m cause := by
  rw [requireCommand, Action.check_bind_eq_error_iff] at h
  rcases h with hVars | ⟨-, -, h⟩
  · -- A variable without a matrix is another error.
    obtain ⟨var, -, hVar⟩ := Action.exists_check_forM_eq_error hVars
    rw [Partition.matrixOf] at hVar
    cases hOwner : t.owners[var]? <;> simp [hOwner, pure, Except.pure] at hVar
  · cases hCommand : p.commands[j]? with
    | none => simp [hCommand, throw, throwThe, MonadExceptOf.throw] at h
    | some c =>
        simp only [hCommand] at h
        cases hAllocated : c.allocated? with
        | some m' =>
            simp only [hAllocated] at h
            obtain ⟨rfl, i, hFirst, rfl⟩ := requireFirst_eq_lifecycle h
            obtain ⟨hLt, hEarlier⟩ := of_head?_positions_take
              (q := fun c : Command => c.allocated? = some m') hFirst
            exact .allocatedTwice hLt hEarlier ⟨c, hCommand, hAllocated⟩
        | none =>
            cases hReleased : c.released? with
            | some m' =>
                simp only [hAllocated, hReleased] at h
                obtain ⟨rfl, i, hFirst, rfl⟩ := requireFirst_eq_lifecycle h
                obtain ⟨hLt, hEarlier⟩ := of_head?_positions_take
                  (q := fun c : Command => c.released? = some m') hFirst
                exact .releasedTwice hLt hEarlier ⟨c, hCommand, hReleased⟩
            | none => simp [hAllocated, hReleased, pure, Except.pure] at h

/-- Marking never fails over the life of a matrix. -/
theorem marks_ne_lifecycle {cause : LifecycleViolation} :
    p.marks net ≠ .error (.lifecycle m cause) := by
  intro h
  obtain ⟨marks, ⟨node, b⟩, -, hFails⟩ := Action.exists_check_foldlM_eq_error h
  have hMark : ∀ {side m' marks}, Marks.mark p.numMatrices side m' marks ≠
      .error (.lifecycle m cause) := by
    intro side m' marks
    unfold Marks.mark
    split
    · simp
    · split <;> simp
  rw [markBinding, Action.check_bind_eq_error_iff] at hFails
  rcases hFails with hSides | ⟨⟨valueSide, derivSide⟩, -, hFails⟩
  · unfold boundSides at hSides
    split at hSides
    · cases hSides
    · split at hSides <;> cases hSides
  · rcases Action.check_bind_eq_error_iff.mp hFails with hValue | ⟨marks', -, hDeriv⟩
    · exact hMark hValue
    · cases hBound : b.deriv? with
      | none => simp [hBound, pure, Except.pure] at hDeriv
      | some deriv => exact hMark (by simpa [hBound] using hDeriv)

/-- The effects of the commands never fail over the life of a matrix. -/
theorem effects_ne_lifecycle {cause : LifecycleViolation} :
    p.effects net t ≠ .error (.lifecycle m cause) := by
  intro h
  obtain ⟨⟨c, i⟩, -, hFails⟩ := Action.exists_check_mapM_eq_error h
  obtain ⟨err, -, hEq⟩ := Action.check_mapError_eq_error_iff.mp hFails
  cases hEq

theorem WellFormed.violates (hWell : p.WellFormed) {cause : LifecycleViolation}
    (h : p.analysis net = .error (.lifecycle m cause)) : p.Violates m cause := by
  obtain ⟨t, ht⟩ := hWell.exists_partition
  simp only [analysis, ht, Action.check_ok_bind, Action.check_bind_eq_error_iff] at h
  rcases h with hEffects | ⟨es, -, hHistories | ⟨hs, -, hDone⟩⟩
  · exact absurd hEffects effects_ne_lifecycle
  · simp only [matrixHistories, Action.check_bind_eq_error_iff] at hHistories
    rcases hHistories with hEach | ⟨-, -, hMarks | ⟨marks, -, hDone⟩⟩
    · obtain ⟨⟨e, j⟩, -, hFails⟩ := Action.exists_check_forM_eq_error hEach
      exact violates_of_requireCommand hFails
    · exact absurd hMarks marks_ne_lifecycle
    · cases hDone
  · cases hDone

/-- The histories of a program of the builder invert the effects of its commands, and an
analysis that fails over the life of a matrix has found two commands that allocate it, or two
that release it. -/
theorem analysis_inverts (hBuilt : p.Built) :
    (∀ a, p.analysis net = .ok a → a.Inverts p net) ∧
      ∀ m cause, p.analysis net = .error (.lifecycle m cause) → p.Violates m cause :=
  ⟨fun _ h => hBuilt.wellFormed.inverts h, fun _ _ h => hBuilt.wellFormed.violates h⟩

/-! ## A matrix that is allocated twice -/

/-- The value of the input is copied to a matrix that is then allocated once more. -/
def reallocatedProgram : Program :=
  BuildStep.runAll
    [.matrix 1 2, .matrix 1 2, .bind 0 1 none, .bind 1 2 none, .command (.allocUndefined 2),
      .command (.copy 2 1), .command (.allocZeroed 2), .recordedMarker, .command (.release 1)]
    .empty

/-- The copy alone is analysed; the second allocation is found. -/
theorem throughProgram_inverts :
    (∃ a, throughProgram.analysis throughNetwork = .ok a ∧
      a.Inverts throughProgram throughNetwork) ∧
      reallocatedProgram.analysis throughNetwork
          = .error (.lifecycle 2 (.allocatedTwice 0 2)) ∧
        reallocatedProgram.Violates 2 (.allocatedTwice 0 2) := by
  have hFails : reallocatedProgram.analysis throughNetwork =
      .error (.lifecycle 2 (.allocatedTwice 0 2)) := rfl
  exact ⟨⟨_, rfl, (analysis_inverts throughProgram_built).1 _ rfl⟩, hFails,
    (analysis_inverts ⟨_, rfl⟩).2 _ _ hFails⟩

end Program

end MatrixProgram
