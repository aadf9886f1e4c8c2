import MatrixProgram.Analysis
import MatrixProgram.Check.Bindings
import MatrixProgram.Check.Definedness
import MatrixProgram.Proofs.Analysis.Columns

/-!
# What the histories record

A history is a list of positions of commands, so it is known by its members and its order:
each list below has one membership lemma, in terms of the commands alone, and is strictly
ascending.  The first and the last entry of a history are then the first and the last command
with the property that the history records.

The marks of the bindings are two lists, `supplied` and `produced`.  Marking succeeds exactly
when every bound node is an input or an output and no list has a repetition.
-/

namespace MatrixProgram

/-! ## Lists of positions -/

section Positions

variable {α β : Type} {xs : List α} {f : α × Nat → Option β} {r : β → Nat}

theorem mem_filterMap_zipIdx_iff {y : β} :
    y ∈ xs.zipIdx.filterMap f ↔ ∃ x i, xs[i]? = some x ∧ f (x, i) = some y := by
  simp [List.mem_filterMap, List.mem_zipIdx_iff_getElem?]

/-- A list of entries that name their positions is strictly ascending. -/
theorem pairwise_filterMap_zipIdx (hKey : ∀ x i y, f (x, i) = some y → r y = i) :
    (xs.zipIdx.filterMap f).Pairwise (fun y z => r y < r z) := by
  have hIndexes : xs.zipIdx.Pairwise (fun a b => a.2 < b.2) := by
    rw [← List.pairwise_map, List.zipIdx_map_snd]
    exact List.pairwise_lt_range'
  rw [List.pairwise_filterMap]
  refine hIndexes.imp ?_
  rintro ⟨x, i⟩ ⟨x', j⟩ hLt y hY z hZ
  rw [hKey x i y hY, hKey x' j z hZ]
  exact hLt

/-- The head of a strictly ascending list is its least entry. -/
theorem head?_eq_some_iff {ys : List β} (hSorted : ys.Pairwise (fun y z => r y < r z))
    {y : β} : ys.head? = some y ↔ y ∈ ys ∧ ∀ z ∈ ys, r y ≤ r z := by
  cases ys with
  | nil => simp
  | cons first rest =>
      obtain ⟨hHead, -⟩ := List.pairwise_cons.mp hSorted
      rw [List.head?_cons, Option.some.injEq]
      constructor
      · rintro rfl
        refine ⟨List.mem_cons_self, ?_⟩
        intro z hMem
        rcases List.mem_cons.mp hMem with rfl | hRest
        · exact Nat.le_refl _
        · exact Nat.le_of_lt (hHead z hRest)
      · intro h
        obtain ⟨hMem, hLeast⟩ := h
        rcases List.mem_cons.mp hMem with rfl | hRest
        · rfl
        · have hBefore := hHead y hRest
          have hAfter := hLeast first List.mem_cons_self
          omega

/-- The last entry of a strictly ascending list is its greatest one. -/
theorem getLast?_eq_some_iff {ys : List β}
    (hSorted : ys.Pairwise (fun y z => r y < r z)) {y : β} :
    ys.getLast? = some y ↔ y ∈ ys ∧ ∀ z ∈ ys, r z ≤ r y := by
  induction ys with
  | nil => simp
  | cons first rest ih =>
      obtain ⟨hHead, hRest⟩ := List.pairwise_cons.mp hSorted
      cases rest with
      | nil =>
          simp only [List.getLast?_singleton, Option.some.injEq, List.mem_singleton,
            forall_eq]
          constructor
          · rintro rfl
            exact ⟨rfl, Nat.le_refl _⟩
          · intro h
            obtain ⟨rfl, -⟩ := h
            rfl
      | cons second tail =>
          rw [List.getLast?_cons_cons, ih hRest]
          constructor
          · intro h
            obtain ⟨hMem, hGreatest⟩ := h
            refine ⟨List.mem_cons_of_mem _ hMem, ?_⟩
            intro z hZ
            rcases List.mem_cons.mp hZ with rfl | hTail
            · exact Nat.le_of_lt (hHead y hMem)
            · exact hGreatest z hTail
          · intro h
            obtain ⟨hMem, hGreatest⟩ := h
            refine ⟨?_, fun z hZ => hGreatest z (List.mem_cons_of_mem _ hZ)⟩
            rcases List.mem_cons.mp hMem with rfl | hTail
            · have hBefore := hHead second List.mem_cons_self
              have hAfter := hGreatest second (by simp)
              omega
            · exact hTail

/-- The positions of the members with a property. -/
theorem mem_positions_iff {q : α → Prop} [DecidablePred q] {i : Nat} :
    i ∈ (xs.zipIdx.filterMap fun (x, i) => if q x then some i else none) ↔
      ∃ x, xs[i]? = some x ∧ q x := by
  simp only [mem_filterMap_zipIdx_iff, Option.ite_none_right_eq_some, Option.some.injEq]
  constructor
  · intro h
    obtain ⟨x, _, hGet, hProperty, rfl⟩ := h
    exact ⟨x, hGet, hProperty⟩
  · intro h
    obtain ⟨x, hGet, hProperty⟩ := h
    exact ⟨x, i, hGet, hProperty, rfl⟩

theorem pairwise_positions {q : α → Prop} [DecidablePred q] :
    (xs.zipIdx.filterMap fun (x, i) => if q x then some i else none).Pairwise (· < ·) := by
  refine pairwise_filterMap_zipIdx (r := id) ?_
  intro x i y hEntry
  simp only [Option.ite_none_right_eq_some, Option.some.injEq] at hEntry
  exact hEntry.2.symm

end Positions

namespace Program

variable {p : Program} {net : Network} {t : Partition} {es : List Effects}

/-! ## Allocations, releases and touches -/

/-- The command at a position allocates a matrix. -/
def AllocatesAt (p : Program) (i m : Nat) : Prop :=
  ∃ c, p.commands[i]? = some c ∧ c.allocated? = some m

/-- The command at a position releases a matrix. -/
def ReleasesAt (p : Program) (i m : Nat) : Prop :=
  ∃ c, p.commands[i]? = some c ∧ c.released? = some m

/-- The command at a position touches some column of a matrix. -/
def TouchesAt (p : Program) (i m : Nat) : Prop :=
  ∃ c col, p.commands[i]? = some c ∧ p.TouchesColumn c m col

theorem mem_allocations_iff {m i : Nat} :
    i ∈ allocations p.commands m ↔ p.AllocatesAt i m :=
  mem_positions_iff (q := fun c : Command => c.allocated? = some m)

theorem mem_releases_iff {m i : Nat} : i ∈ releases p.commands m ↔ p.ReleasesAt i m :=
  mem_positions_iff (q := fun c : Command => c.released? = some m)

/-! ## The effects of all commands -/

theorem getElem?_effects (h : p.effects net t = .ok es) {i : Nat} {c : Command}
    (hCommand : p.commands[i]? = some c) :
    ∃ e, es[i]? = some e ∧ p.commandEffects net t c = .ok e := by
  have hAt := congrArg (·[i]?) (Action.check_mapM_eq_ok_iff.mp h)
  simp only [List.getElem?_map, List.getElem?_zipIdx, hCommand, Option.map_some] at hAt
  obtain ⟨e, hEntry, hEffects⟩ := Option.map_eq_some_iff.mp hAt.symm
  exact ⟨e, hEntry, Action.check_mapError_eq_ok_iff.mp hEffects.symm⟩

theorem length_effects (h : p.effects net t = .ok es) : es.length = p.commands.length := by
  have hLength := congrArg List.length (Action.check_mapM_eq_ok_iff.mp h)
  simpa using hLength.symm

/-- The effects at a position are those of the command there. -/
theorem commandEffects_of_getElem? (h : p.effects net t = .ok es) {i : Nat} {e : Effects}
    (hEntry : es[i]? = some e) :
    ∃ c, p.commands[i]? = some c ∧ p.commandEffects net t c = .ok e := by
  have hLt : i < p.commands.length := by
    rw [← length_effects h]
    exact (List.getElem?_eq_some_iff.mp hEntry).1
  obtain ⟨e', hEntry', hEffects⟩ := getElem?_effects h (List.getElem?_eq_getElem hLt)
  rw [hEntry] at hEntry'
  cases hEntry'
  exact ⟨_, List.getElem?_eq_getElem hLt, hEffects⟩

/-- The effects of a program whose operands pass their check exist. -/
theorem exists_effects (t : Partition) (h : p.checkOperands net = .ok ()) :
    ∃ es, p.effects net t = .ok es := by
  refine Action.exists_check_mapM ?_
  rintro ⟨c, i⟩ hMem
  have hCommand := List.mem_zipIdx_iff_getElem?.mp hMem
  obtain ⟨e, hEffects⟩ := exists_commandEffects t (checkOperands_eq_ok_iff.mp h i c hCommand)
  exact ⟨e, Action.check_mapError_eq_ok_iff.mpr hEffects⟩

/-! ## Histories of variables -/

/-- How a command accesses a column that it touches. -/
def AccessesColumn (p : Program) (net : Network) (c : Command) (m col : Nat)
    (kind : AccessKind) : Prop :=
  (p.ReadsColumn net c m col ↔ kind ≠ .write) ∧ (p.WritesColumn net c m col ↔ kind ≠ .read)

theorem WellFormed.kindOf_eq_some_iff (hWell : p.WellFormed) (ht : p.partition = .ok t)
    {c : Command} {e : Effects} (he : p.commandEffects net t c = .ok e) {var m col : Nat}
    (hCol : t.HasColumn var m col) {kind : AccessKind} :
    e.kindOf var = some kind ↔ p.AccessesColumn net c m col kind := by
  rw [AccessesColumn, ← hWell.mem_read_iff ht he hCol, ← hWell.mem_written_iff ht he hCol,
    Effects.kindOf]
  by_cases hRead : var ∈ e.read <;> by_cases hWritten : var ∈ e.written <;>
    cases kind <;> simp [hRead, hWritten]

/-- A column is accessed in some way exactly when it is touched. -/
theorem exists_accessesColumn_iff {c : Command} {e : Effects}
    (he : p.commandEffects net t c = .ok e) {m col : Nat} :
    (∃ kind, p.AccessesColumn net c m col kind) ↔ p.TouchesColumn c m col := by
  rw [touchesColumn_iff he]
  constructor
  · intro h
    obtain ⟨kind, hRead, hWritten⟩ := h
    cases kind with
    | read => exact .inl (hRead.mpr (by decide))
    | write => exact .inr (hWritten.mpr (by decide))
    | readWrite => exact .inl (hRead.mpr (by decide))
  · intro hTouches
    by_cases hRead : p.ReadsColumn net c m col
    · by_cases hWritten : p.WritesColumn net c m col
      · exact ⟨.readWrite, by simp [AccessesColumn, hRead, hWritten]⟩
      · exact ⟨.read, by simp [AccessesColumn, hRead, hWritten]⟩
    · have hWritten := hTouches.resolve_left hRead
      exact ⟨.write, by simp [AccessesColumn, hRead, hWritten]⟩

/-- The history of a variable lists the commands that access any one column of it. -/
theorem WellFormed.mem_variableHistory_iff (hWell : p.WellFormed)
    (ht : p.partition = .ok t) (hes : p.effects net t = .ok es) {var m col : Nat}
    (hCol : t.HasColumn var m col) {a : Access} :
    a ∈ variableHistory es var ↔
      ∃ c, p.commands[a.command]? = some c ∧ p.AccessesColumn net c m col a.kind := by
  obtain ⟨i, kind⟩ := a
  simp only [variableHistory, mem_filterMap_zipIdx_iff, Option.map_eq_some_iff,
    Access.mk.injEq]
  constructor
  · intro h
    obtain ⟨e, _, hEntry, _, hKind, rfl, rfl⟩ := h
    obtain ⟨c, hCommand, he⟩ := commandEffects_of_getElem? hes hEntry
    exact ⟨c, hCommand, (hWell.kindOf_eq_some_iff ht he hCol).mp hKind⟩
  · intro h
    obtain ⟨c, hCommand, hAccesses⟩ := h
    obtain ⟨e, hEntry, he⟩ := getElem?_effects hes hCommand
    exact ⟨e, i, hEntry, kind, (hWell.kindOf_eq_some_iff ht he hCol).mpr hAccesses, rfl, rfl⟩

theorem pairwise_variableHistory (es : List Effects) (var : Nat) :
    (variableHistory es var).Pairwise (fun a b => a.command < b.command) := by
  refine pairwise_filterMap_zipIdx ?_
  rintro e i a hEntry
  obtain ⟨kind, -, rfl⟩ := Option.map_eq_some_iff.mp hEntry
  rfl

/-- The first entry of a variable's history is the first command that touches any one
column of it. -/
theorem WellFormed.head?_variableHistory_iff (hWell : p.WellFormed)
    (ht : p.partition = .ok t) (hes : p.effects net t = .ok es) {var m col : Nat}
    (hCol : t.HasColumn var m col) {a : Access} :
    (variableHistory es var).head? = some a ↔
      ∃ c, p.commands[a.command]? = some c ∧ p.AccessesColumn net c m col a.kind ∧
        ∀ j d, j < a.command → p.commands[j]? = some d → ¬p.TouchesColumn d m col := by
  rw [head?_eq_some_iff (pairwise_variableHistory es var),
    hWell.mem_variableHistory_iff ht hes hCol]
  constructor
  · intro h
    obtain ⟨⟨c, hCommand, hAccesses⟩, hLeast⟩ := h
    refine ⟨c, hCommand, hAccesses, ?_⟩
    intro j d hLt hEarlier hTouches
    obtain ⟨e, -, he⟩ := getElem?_effects hes hEarlier
    obtain ⟨kind, hKind⟩ := (exists_accessesColumn_iff he).mpr hTouches
    have hLe := hLeast ⟨j, kind⟩
      ((hWell.mem_variableHistory_iff ht hes hCol).mpr ⟨d, hEarlier, hKind⟩)
    exact absurd hLt (Nat.not_lt.mpr hLe)
  · intro h
    obtain ⟨c, hCommand, hAccesses, hFirst⟩ := h
    refine ⟨⟨c, hCommand, hAccesses⟩, ?_⟩
    intro b hMem
    obtain ⟨d, hOther, hKind⟩ := (hWell.mem_variableHistory_iff ht hes hCol).mp hMem
    obtain ⟨e, -, he⟩ := getElem?_effects hes hOther
    apply Nat.le_of_not_lt
    intro hLt
    exact hFirst b.command d hLt hOther ((exists_accessesColumn_iff he).mp ⟨b.kind, hKind⟩)

/-- Something changes after a pure read exactly when some access that is not a pure read
stands behind one that is. -/
theorem changesAfterRead_iff {accesses : List Access}
    (hSorted : accesses.Pairwise (fun a b => a.command < b.command)) :
    Analysis.changesAfterRead accesses = true ↔
      ∃ a ∈ accesses, ∃ b ∈ accesses,
        a.command < b.command ∧ a.kind = .read ∧ b.kind ≠ .read := by
  induction accesses with
  | nil => simp [Analysis.changesAfterRead]
  | cons first rest ih =>
      obtain ⟨hHead, hRest⟩ := List.pairwise_cons.mp hSorted
      by_cases hRead : first.kind = .read
      · have hStop : Analysis.changesAfterRead (first :: rest) =
            rest.any fun access => access.kind != .read := by
          simp [Analysis.changesAfterRead, hRead]
        rw [hStop, List.any_eq_true]
        constructor
        · intro h
          obtain ⟨b, hMem, hKind⟩ := h
          exact ⟨first, List.mem_cons_self, b, List.mem_cons_of_mem _ hMem, hHead b hMem,
            hRead, by simpa using hKind⟩
        · intro h
          obtain ⟨a, -, b, hMem, -, -, hKind⟩ := h
          rcases List.mem_cons.mp hMem with rfl | hIn
          · exact absurd hRead hKind
          · exact ⟨b, hIn, by simpa using hKind⟩
      · have hSkip : Analysis.changesAfterRead (first :: rest) =
            Analysis.changesAfterRead rest := by
          simp [Analysis.changesAfterRead, hRead]
        rw [hSkip, ih hRest]
        constructor
        · intro h
          obtain ⟨a, hA, b, hB, hKinds⟩ := h
          exact ⟨a, List.mem_cons_of_mem _ hA, b, List.mem_cons_of_mem _ hB, hKinds⟩
        · intro h
          obtain ⟨a, hA, b, hB, hLt, hPure, hKind⟩ := h
          rcases List.mem_cons.mp hA with rfl | hRestA
          · exact absurd hPure hRead
          · rcases List.mem_cons.mp hB with rfl | hRestB
            · exact absurd (hHead a hRestA) (Nat.lt_asymm hLt)
            · exact ⟨a, hRestA, b, hRestB, hLt, hPure, hKind⟩

/-! ## Accesses of matrices -/

theorem WellFormed.lt_of_touchesColumn (hWell : p.WellFormed) {c : Command} {m col : Nat}
    (h : p.TouchesColumn c m col) : ∃ shape, p.matrix m = .ok shape ∧ col < shape.numCols := by
  rcases h with ⟨-, hShape⟩ | ⟨_, s, -, view, hView, rfl, -, hEnd⟩
  · exact hShape
  · obtain ⟨shape, hMatrix, -, hCols⟩ := hWell.fits hView
    exact ⟨shape, hMatrix, Nat.lt_of_lt_of_le hEnd hCols⟩

/-- The accesses of a matrix are the commands that touch a column of it. -/
theorem WellFormed.mem_matrixAccesses_iff (hWell : p.WellFormed)
    (ht : p.partition = .ok t) (hes : p.effects net t = .ok es) {m i : Nat} :
    i ∈ matrixAccesses t es m ↔ p.TouchesAt i m := by
  have hMem : i ∈ matrixAccesses t es m ↔
      ∃ e, es[i]? = some e ∧ (e.touched.any fun var => var ∈ t.ofMatrix m) = true :=
    mem_positions_iff (q := fun e : Effects =>
      (e.touched.any fun var => var ∈ t.ofMatrix m) = true)
  simp only [hMem, List.any_eq_true, decide_eq_true_eq, Partition.mem_ofMatrix_iff,
    Effects.touched, List.mem_append]
  constructor
  · intro h
    obtain ⟨e, hEntry, var, hVar, hOwner⟩ := h
    obtain ⟨c, hCommand, he⟩ := commandEffects_of_getElem? hes hEntry
    obtain ⟨col, hCol⟩ := hWell.exists_column ht hOwner
    rw [hWell.mem_read_iff ht he hCol, hWell.mem_written_iff ht he hCol] at hVar
    exact ⟨c, col, hCommand, (touchesColumn_iff he).mpr hVar⟩
  · intro h
    obtain ⟨c, col, hCommand, hTouches⟩ := h
    obtain ⟨e, hEntry, he⟩ := getElem?_effects hes hCommand
    obtain ⟨shape, hMatrix, hLt⟩ := hWell.lt_of_touchesColumn hTouches
    obtain ⟨var, hCol⟩ := hWell.exists_hasColumn ht hMatrix hLt
    refine ⟨e, hEntry, var, ?_, hCol.1⟩
    rw [hWell.mem_read_iff ht he hCol, hWell.mem_written_iff ht he hCol]
    exact (touchesColumn_iff he).mp hTouches

/-! ## The marks of the bindings -/

/-- The matrices that a binding supplies: the value of an input node, the derivative of an
output node. -/
def suppliedBy (net : Network) (entry : Nat × Binding) : List Nat :=
  if net.isInputNode entry.1 then [entry.2.value]
  else if net.isOutputNode entry.1 then entry.2.deriv?.toList
  else []

/-- The matrices that a binding produces: the derivative of an input node, the value of an
output node. -/
def producedBy (net : Network) (entry : Nat × Binding) : List Nat :=
  if net.isInputNode entry.1 then entry.2.deriv?.toList
  else if net.isOutputNode entry.1 then [entry.2.value]
  else []

/-- The matrices that the caller supplies. -/
def supplied (p : Program) (net : Network) : List Nat :=
  p.bindings.flatMap (suppliedBy net)

/-- The matrices that the program produces for the caller. -/
def produced (p : Program) (net : Network) : List Nat :=
  p.bindings.flatMap (producedBy net)

theorem mem_boundMatrices_of_suppliedBy {entry : Nat × Binding} {m : Nat}
    (h : m ∈ suppliedBy net entry) : m ∈ boundMatrices entry.2 := by
  unfold suppliedBy at h
  split at h
  · exact List.mem_cons.mpr (.inl (List.mem_singleton.mp h))
  · split at h
    · exact List.mem_cons_of_mem _ h
    · simp at h

theorem mem_boundMatrices_of_producedBy {entry : Nat × Binding} {m : Nat}
    (h : m ∈ producedBy net entry) : m ∈ boundMatrices entry.2 := by
  unfold producedBy at h
  split at h
  · exact List.mem_cons_of_mem _ h
  · split at h
    · exact List.mem_cons.mpr (.inl (List.mem_singleton.mp h))
    · simp at h

/-- A bound node is an input or an output. -/
def IsBoundary (net : Network) (node : Nat) : Prop :=
  net.isInputNode node = true ∨ net.isOutputNode node = true

/-- The matrices of a binding are matrices of the program. -/
def BindsMatrices (p : Program) (entry : Nat × Binding) : Prop :=
  ∀ m ∈ boundMatrices entry.2, m ≠ 0 ∧ m < p.numMatrices

theorem checkBinding_eq_ok_iff {entry : Nat × Binding} :
    p.checkBinding entry = .ok () ↔ p.BindsMatrices entry := by
  rw [checkBinding, Action.check_forM_eq_ok_iff]
  refine forall_congr' fun m => forall_congr' fun _ => ?_
  split <;> simp [*]

/-- More matrices marked on a side. -/
def withMarked (side : Side) (ms : List Nat) (marks : Marks) : Marks :=
  match side with
  | .input => { marks with inputs := marks.inputs ++ ms }
  | .output => { marks with outputs := marks.outputs ++ ms }

theorem nodup_concat_iff {xs : List Nat} {x : Nat} (hNodup : xs.Nodup) :
    (xs ++ [x]).Nodup ↔ x ∉ xs :=
  (List.perm_append_singleton x xs).nodup_iff.trans (List.nodup_cons.trans (and_iff_left hNodup))

/-- Marking a matrix appends it on its side, unless that makes a repetition. -/
theorem mark_eq_ok_iff {n m : Nat} {side : Side} {marks marks' : Marks}
    (hNodup : (marks.on side).Nodup) :
    Marks.mark n side m marks = .ok marks' ↔
      (m ≠ 0 ∧ m < n) ∧ (marks.on side ++ [m]).Nodup ∧ marks' = withMarked side [m] marks := by
  unfold Marks.mark
  by_cases hBad : m = 0 ∨ n ≤ m
  · have hNot : ¬(m ≠ 0 ∧ m < n) := by omega
    simp only [hBad, if_true, reduceCtorEq, hNot, false_and]
  · have hGood : m ≠ 0 ∧ m < n := by omega
    rw [if_neg hBad, nodup_concat_iff hNodup]
    by_cases hTwice : m ∈ marks.on side
    · simp [hTwice]
    · simp only [hTwice, if_false, Except.ok.injEq, not_false_eq_true, true_and]
      exact eq_comm.trans (and_iff_right hGood).symm

/-- Marking a value on one side and a derivative on the other. -/
theorem mark_mark_eq_ok_iff {n value : Nat} {deriv? : Option Nat} {side other : Side}
    {marks marks' : Marks} (hOther : ∀ ms, (withMarked side ms marks).on other = marks.on other)
    (hNodup : (marks.on side).Nodup) (hNodup' : (marks.on other).Nodup) :
    (marks.mark n side value >>= fun marks =>
        match deriv? with
        | some deriv => marks.mark n other deriv
        | none => return marks) = .ok marks' ↔
      (∀ m ∈ value :: deriv?.toList, m ≠ 0 ∧ m < n) ∧ (marks.on side ++ [value]).Nodup ∧
        (marks.on other ++ deriv?.toList).Nodup ∧
          marks' = withMarked other deriv?.toList (withMarked side [value] marks) := by
  rw [Action.check_bind_eq_ok_iff]
  simp only [mark_eq_ok_iff hNodup]
  cases deriv? with
  | none =>
      have hNothing : ∀ marks, withMarked other [] marks = marks := by
        intro marks
        cases other <;> simp [withMarked]
      simp only [Option.toList_none, List.append_nil, hNothing, hNodup', true_and,
        List.mem_singleton, forall_eq]
      constructor
      · rintro ⟨_, ⟨hGood, hNew, rfl⟩, hLast⟩
        exact ⟨hGood, hNew, (Except.ok.inj hLast).symm⟩
      · rintro ⟨hGood, hNew, rfl⟩
        exact ⟨_, ⟨hGood, hNew, rfl⟩, rfl⟩
  | some deriv =>
      have hSecond : ((withMarked side [value] marks).on other).Nodup := hOther [value] ▸ hNodup'
      simp only [Option.toList_some, List.forall_mem_cons, List.not_mem_nil, false_implies,
        implies_true, and_true]
      constructor
      · rintro ⟨_, ⟨hGood, hNew, rfl⟩, hLast⟩
        obtain ⟨hGood', hNew', rfl⟩ := (mark_eq_ok_iff hSecond).mp hLast
        exact ⟨⟨hGood, hGood'⟩, hNew, hOther [value] ▸ hNew', rfl⟩
      · rintro ⟨⟨hGood, hGood'⟩, hNew, hNew', rfl⟩
        exact ⟨_, ⟨hGood, hNew, rfl⟩,
          (mark_eq_ok_iff hSecond).mpr ⟨hGood', (hOther [value]).symm ▸ hNew', rfl⟩⟩

/-- Marking the matrices of one binding appends them to the two lists, unless that makes a
repetition. -/
theorem markBinding_eq_ok_iff {entry : Nat × Binding} {marks marks' : Marks}
    (hInputs : marks.inputs.Nodup) (hOutputs : marks.outputs.Nodup) :
    p.markBinding net marks entry = .ok marks' ↔
      IsBoundary net entry.1 ∧ p.BindsMatrices entry ∧
        (marks.inputs ++ suppliedBy net entry).Nodup ∧
        (marks.outputs ++ producedBy net entry).Nodup ∧
        marks' = ⟨marks.inputs ++ suppliedBy net entry,
          marks.outputs ++ producedBy net entry⟩ := by
  unfold markBinding boundSides suppliedBy producedBy
  by_cases hIn : net.isInputNode entry.1 = true
  · -- The value is marked as an input, the derivative as an output.
    simp only [hIn, if_true, Action.check_ok_bind]
    refine Iff.trans (mark_mark_eq_ok_iff (fun _ => rfl) hInputs hOutputs) ?_
    exact (and_iff_right (Or.inl hIn)).symm
  · by_cases hOut : net.isOutputNode entry.1 = true
    · -- The other way round.
      simp only [hIn, hOut, if_true]
      refine Iff.trans (mark_mark_eq_ok_iff (fun _ => rfl) hOutputs hInputs) ?_
      refine Iff.trans (and_congr_right fun _ => and_left_comm) ?_
      exact (and_iff_right (Or.inr hOut)).symm
    · have hNeither : ¬IsBoundary net entry.1 := not_or.mpr ⟨hIn, hOut⟩
      simp only [hIn, hOut, Action.check_error_bind, hNeither, false_and, if_false, reduceCtorEq]

/-- Marking the matrices of several bindings, after some matrices have been marked. -/
theorem foldlM_markBinding_eq_ok_iff {entries : List (Nat × Binding)} {first marks : Marks}
    (hInputs : first.inputs.Nodup) (hOutputs : first.outputs.Nodup) :
    entries.foldlM (p.markBinding net) first = .ok marks ↔
      (∀ entry ∈ entries, IsBoundary net entry.1 ∧ p.BindsMatrices entry) ∧
        (first.inputs ++ entries.flatMap (suppliedBy net)).Nodup ∧
        (first.outputs ++ entries.flatMap (producedBy net)).Nodup ∧
        marks = ⟨first.inputs ++ entries.flatMap (suppliedBy net),
          first.outputs ++ entries.flatMap (producedBy net)⟩ := by
  induction entries generalizing first with
  | nil =>
      simp only [List.foldlM_nil, pure, Except.pure, Except.ok.injEq, List.not_mem_nil,
        false_implies, implies_true, List.flatMap_nil, List.append_nil, hInputs, hOutputs,
        true_and]
      exact eq_comm
  | cons entry rest ih =>
      rw [List.foldlM_cons, Action.check_bind_eq_ok_iff]
      simp only [markBinding_eq_ok_iff hInputs hOutputs, List.forall_mem_cons,
        List.flatMap_cons, ← List.append_assoc]
      constructor
      · intro h
        obtain ⟨_, ⟨hBoundary, hBinds, hIn, hOut, rfl⟩, hRest⟩ := h
        obtain ⟨hOthers, hInRest, hOutRest, hEq⟩ := (ih hIn hOut).mp hRest
        exact ⟨⟨⟨hBoundary, hBinds⟩, hOthers⟩, hInRest, hOutRest, hEq⟩
      · intro h
        obtain ⟨⟨⟨hBoundary, hBinds⟩, hOthers⟩, hInRest, hOutRest, hEq⟩ := h
        -- What is marked first has no repetition if all of it together has none.
        have hIn := (List.nodup_append.mp hInRest).1
        have hOut := (List.nodup_append.mp hOutRest).1
        exact ⟨_, ⟨hBoundary, hBinds, hIn, hOut, rfl⟩,
          (ih hIn hOut).mpr ⟨hOthers, hInRest, hOutRest, hEq⟩⟩

/-- Marking succeeds exactly when every bound node is an input or an output, every bound
matrix exists, and no matrix is supplied twice or produced twice. -/
theorem marks_eq_ok_iff {marks : Marks} :
    p.marks net = .ok marks ↔
      (∀ entry ∈ p.bindings, IsBoundary net entry.1 ∧ p.BindsMatrices entry) ∧
        (p.supplied net).Nodup ∧ (p.produced net).Nodup ∧
          marks = ⟨p.supplied net, p.produced net⟩ := by
  have hInputs : Marks.none.inputs.Nodup := List.nodup_nil
  have hOutputs : Marks.none.outputs.Nodup := List.nodup_nil
  exact foldlM_markBinding_eq_ok_iff hInputs hOutputs

end Program

end MatrixProgram
