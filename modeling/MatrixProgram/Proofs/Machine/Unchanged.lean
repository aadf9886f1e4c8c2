import MatrixProgram.Proofs.Machine.Lifecycle
import MatrixProgram.Proofs.Machine.Reachable

/-!
# Values that do not change after they are read

The last pass of the check looks at the kinds of the accesses of a variable alone: after a
pure read there are pure reads only.  For a run this means that all who read a variable see
what its first reader has seen: `unchanged_after_first_read`.  From the first pure read on no
element of the variable changes, until its matrix is released.

`Course` is what a run may be: the commands from one position on, carried out one after the
other, and between them whatever a caller does without filling the matrix anew.
-/

namespace MatrixProgram

namespace Program

variable {p : Program} {net : Network} {i k m col : Nat} {c d : Command}

/-- A command that reads a column does not resize its matrix. -/
theorem ReadsColumn.not_resizes (h : p.ReadsColumn net c m col) : c.resized? ≠ some m := by
  intro hResize
  obtain ⟨s, kind, hAccess, hViews, -⟩ := h
  obtain ⟨slot, rule, -, -, hNames⟩ := hAccess
  obtain ⟨view, hView, -⟩ := hViews
  exact not_owns_of_resized hResize ⟨slot, s, view, hNames, hView, rfl⟩

/-- What a command only reads is not written by it, and not by a later command. -/
theorem Disciplined.not_writes_of_read (h : p.Disciplined net true)
    (hEarlier : p.commands[i]? = some c) (hReads : p.ReadsColumn net c m col)
    (hNotWritten : ¬p.WritesColumn net c m col) (hLe : i ≤ k)
    (hLater : p.commands[k]? = some d) : ¬p.WritesColumn net d m col := by
  rcases Nat.lt_or_eq_of_le hLe with hLt | rfl
  · exact h.unchanged rfl hLt hEarlier hLater hReads hNotWritten
  · cases hEarlier.symm.trans hLater
    exact hNotWritten

/-- A matrix that a command reads is not allocated by it, and not by a later command. -/
theorem Disciplined.not_resizes_of_read {b : Bool} (h : p.Disciplined net b)
    (hOperands : p.checkOperands net = .ok ()) (hEarlier : p.commands[i]? = some c)
    (hReads : p.ReadsColumn net c m col) (hLe : i ≤ k) (hLater : p.commands[k]? = some d)
    (hKept : ¬p.ReleasesAt k m) : d.resized? ≠ some m := by
  intro hResize
  have hAllocates : p.AllocatesAt k m := by
    rw [allocatesAt_iff hLater]
    rw [releasesAt_iff hLater] at hKept
    cases d <;> first | exact hResize | exact absurd hResize hKept
  have hBack := h.allocation_le_touch hOperands hAllocates ⟨c, col, hEarlier, hReads.touches⟩
  have hEq : i = k := by omega
  subst hEq
  cases hEarlier.symm.trans hLater
  exact hReads.not_resizes hResize

/-! ## The first pure read -/

variable {t : Partition} {es : List Effects} {var : Nat} {accesses : List Access}
  {first : Access}

/-- The first pure read in a history comes before every other one. -/
theorem first_read_le (hSorted : accesses.Pairwise (fun a b => a.command < b.command))
    (hFirst : accesses.find? (·.kind = .read) = some first) :
    first ∈ accesses ∧ first.kind = .read ∧
      ∀ access ∈ accesses, access.kind = .read → first.command ≤ access.command := by
  obtain ⟨hRead, before, after, rfl, hBefore⟩ := List.find?_eq_some_iff_append.mp hFirst
  refine ⟨by simp, of_decide_eq_true hRead, ?_⟩
  intro access hMem hKind
  rcases List.mem_append.mp hMem with hIn | hIn
  · simpa [hKind] using hBefore access hIn
  · rcases List.mem_cons.mp hIn with rfl | hIn
    · exact Nat.le_refl _
    · have hTail := (List.pairwise_append.mp hSorted).2.1
      exact Nat.le_of_lt ((List.pairwise_cons.mp hTail).1 access hIn)

/-- A pure read of a variable is a command that reads its columns and writes none of them. -/
theorem WellFormed.reads_of_mem_history (hWell : p.WellFormed) (ht : p.partition = .ok t)
    (hes : p.effects net t = .ok es) (hCol : t.HasColumn var m col) {access : Access}
    (hMem : access ∈ variableHistory es var) (hKind : access.kind = .read) :
    ∃ c, p.commands[access.command]? = some c ∧ p.ReadsColumn net c m col ∧
      ¬p.WritesColumn net c m col := by
  obtain ⟨c, hCommand, hReads, hWrites⟩ := (hWell.mem_variableHistory_iff ht hes hCol).mp hMem
  rw [hKind] at hReads hWrites
  exact ⟨c, hCommand, hReads.mpr (by decide), fun hWritten => hWrites.mp hWritten rfl⟩

end Program

namespace Machine

open Program

variable {x : Machine} {m i j k : Nat} {c : Command} {s t u : MachineState}

/-! ## The course of a run -/

/-- Commands are carried out one after the other from a position on, each of them whether or
not it fails.  Between two of them, as between the phases, the caller may do anything that
leaves the slot of a matrix as it is: supply other matrices, and read whatever there is. -/
inductive Course (x : Machine) (m i : Nat) (s : MachineState) : Nat → MachineState → Prop
  | start : Course x m i s i s
  | command {j : Nat} {t : MachineState} {c : Command} (h : Course x m i s j t)
      (hCommand : x.program.commands[j]? = some c) :
      Course x m i s (j + 1) (Action.finalState (x.execute j c t))
  | caller {j : Nat} {t u : MachineState} (h : Course x m i s j t)
      (hFit : u.slots.Fit x.program) (hBuffer : u.slots.buffer? m = t.slots.buffer? m) :
      Course x m i s j u

theorem Course.le (h : x.Course m i s j t) : i ≤ j := by
  induction h with
  | start => exact Nat.le_refl i
  | command _ _ ih => omega
  | caller _ _ _ ih => exact ih

/-- A run of commands, whether or not it gets to its end, is part of a course. -/
theorem Course.executeAll {segment : List (Command × Nat)} (h : x.Course m i s j t)
    (hSegment : x.program.Segment j segment k) :
    ∃ l ≤ k, x.Course m i s l (Action.finalState (x.executeAll segment t)) ∧
      ∀ u, x.executeAll segment t = .ok () u → l = k := by
  have hStep : ∀ l c t u, l < k → x.program.commands[l]? = some c → x.Course m i s l t →
      x.execute l c t = .ok () u → x.Course m i s (l + 1) u := by
    intro l c t u _ hCommand hCourse hRun
    have hNext := hCourse.command hCommand
    rw [hRun, Action.finalState] at hNext
    exact hNext
  rcases executeAll_cases hSegment hStep h with
    ⟨u, hDone, hCourse⟩ | ⟨l, c, u, err, v, hLt, hCommand, hCourse, hFailed, hStopped⟩
  · rw [hDone]
    exact ⟨k, Nat.le_refl k, hCourse, fun _ _ => rfl⟩
  · have hLast := hCourse.command hCommand
    rw [hFailed] at hLast
    rw [hStopped]
    exact ⟨l + 1, hLt, hLast, fun _ hDone => by cases hDone⟩

/-- Placing a buffer in the slot of another matrix is part of a course, whether or not the
buffer is accepted. -/
theorem Course.place {numRows : Nat} {b : Buffer} (h : x.Course m i s j t)
    (hFit : t.slots.Fit x.program) (hNe : k ≠ m) :
    x.Course m i s j (Action.finalState (x.place k numRows b t)) := by
  rcases place_cases x k numRows b t with ⟨err, hRun, -⟩ | ⟨hMatrix, -, -, hRun⟩
  · rw [hRun]
    exact h
  · rw [hRun]
    refine h.caller (hFit.put ?_) ?_
    · intro found hFound
      cases hFound
      exact (matrix_eq_ok_iff.mp hMatrix).2
    · show (t.slots.put k (some b)).buffer? m = _
      rw [Slots.buffer?_put, if_neg fun hBoth => hNe hBoth.1]

section Run

variable (hWell : x.program.WellFormed)
  (hOperands : x.program.checkOperands x.network = .ok ())

include hWell

/-- A command changes an element only if it writes the column or resizes the matrix, even when
it fails. -/
theorem execute_value?_of_not_writes (index : Nat) {row col : Nat}
    (hCheck : x.program.checkCommand x.network c = .ok ()) (hFit : s.slots.Fit x.program)
    (hNotWritten : ¬x.program.WritesColumn x.network c m col) (hResize : c.resized? ≠ some m) :
    (Action.finalState (x.execute index c s)).slots.value? m row col =
      s.slots.value? m row col := by
  cases hCase : c.resized? with
  | some k =>
      obtain ⟨b, hRefills⟩ := exists_refills hCheck hCase
      obtain ⟨journal, hRun⟩ := execute_resize index hRefills hCheck hFit
      rw [hRun]
      refine Slots.value?_put_of_ne ?_
      rintro rfl
      exact hResize hCase
  | none =>
      have hKeeps := execute_keepsRules (A := fun _ _ _ => True) index hWell hCheck hCase
        fun _ _ _ _ => trivial
      exact (hKeeps.frame hFit).value m row col hNotWritten

include hOperands

theorem Course.fit (h : x.Course m i s j t) (hFit : s.slots.Fit x.program) :
    t.slots.Fit x.program := by
  induction h with
  | start => exact hFit
  | @command j t c _ hCommand ih =>
      exact (execute_fit j hWell (checkOperands_eq_ok_iff.mp hOperands j c hCommand) ih).1
  | caller _ hNext _ _ => exact hNext

/-- An element stays as it is along a course none of whose commands writes its column or
resizes its matrix. -/
theorem Course.value? {row col : Nat} (h : x.Course m i s j t) (hFit : s.slots.Fit x.program)
    (hIdle : ∀ l d, i ≤ l → l < j → x.program.commands[l]? = some d →
      ¬x.program.WritesColumn x.network d m col ∧ d.resized? ≠ some m) :
    t.slots.value? m row col = s.slots.value? m row col := by
  induction h with
  | start => rfl
  | @command j t c hBefore hCommand ih =>
      have hFitBefore := hBefore.fit hWell hOperands hFit
      obtain ⟨hNotWritten, hResize⟩ := hIdle j c hBefore.le (by omega) hCommand
      calc
        (Action.finalState (x.execute j c t)).slots.value? m row col
          = t.slots.value? m row col :=
            execute_value?_of_not_writes hWell j (checkOperands_eq_ok_iff.mp hOperands j c hCommand)
              hFitBefore hNotWritten hResize
        _ = s.slots.value? m row col := ih fun l d hFrom hLt => hIdle l d hFrom (by omega)
  | @caller j t u _ _ hBuffer ih =>
      calc
        u.slots.value? m row col = t.slots.value? m row col := by
          simp only [Slots.value?, hBuffer]
        _ = s.slots.value? m row col := ih hIdle

end Run

/-! ## What is read stays -/

/-- In a program that has passed the whole check, the elements of a variable do not change from
the first pure read of the variable on, until its matrix is released: neither by a command,
whether or not it fails, nor by a caller who does not supply the matrix itself anew.  So
every command that only reads the variable finds the values which the first one has found. -/
theorem unchanged_after_first_read {r : Request} {a : Analysis} {var : Nat}
    {accesses : List Access} {first : Access} (hBuilt : x.program.Built)
    (hAccepted : x.program.Accepted x.network r true)
    (hAnalysis : x.program.analysis x.network = .ok a)
    (hMatrix : a.partition.matrixOf var = .ok m)
    (hHistory : a.variableHistories[var]? = some accesses)
    (hFirst : accesses.find? (·.kind = .read) = some first) (hFit : s.slots.Fit x.program) :
    (∀ j t, x.Course m first.command s j t →
      (∀ k, first.command ≤ k → k < j → ¬x.program.ReleasesAt k m) →
        ∀ n row col, a.partition.elements [var] n row col →
          t.slots.value? n row col = s.slots.value? n row col) ∧
      ∀ access ∈ accesses, access.kind = .read → first.command ≤ access.command ∧
        ∀ t, x.Course m first.command s access.command t →
          ∀ n row col, a.partition.elements [var] n row col →
            t.slots.value? n row col = s.slots.value? n row col := by
  have hWell := hBuilt.wellFormed
  have hDisciplined := hAccepted.disciplined hWell
  have hOperands := hAccepted.checkOperands
  obtain ⟨p, es, hs, ht, hes, -, rfl⟩ := analysis_eq_ok_iff.mp hAnalysis
  obtain ⟨-, rfl⟩ := mem_variableHistories_iff.mp (List.mem_zipIdx_iff_getElem?.mpr hHistory)
  obtain ⟨hMem, hKind, hLeast⟩ := first_read_le (pairwise_variableHistory es var) hFirst
  have hStays : ∀ j t, x.Course m first.command s j t →
      (∀ k, first.command ≤ k → k < j → ¬x.program.ReleasesAt k m) →
        ∀ n row col, p.elements [var] n row col →
          t.slots.value? n row col = s.slots.value? n row col := by
    intro j t hCourse hKept n row col hElement
    obtain ⟨var', hVar, hCol⟩ := hElement
    rw [List.mem_singleton.mp hVar] at hCol
    cases hMatrix.symm.trans hCol.1
    obtain ⟨c, hCommand, hReads, hNotWritten⟩ := hWell.reads_of_mem_history ht hes hCol hMem hKind
    refine hCourse.value? hWell hOperands hFit ?_
    intro l d hFrom hLt hLater
    exact ⟨hDisciplined.not_writes_of_read hCommand hReads hNotWritten hFrom hLater,
      hDisciplined.not_resizes_of_read hOperands hCommand hReads hFrom hLater
        (hKept l hFrom hLt)⟩
  refine ⟨hStays, ?_⟩
  intro access hAccess hRead
  refine ⟨hLeast access hAccess hRead, ?_⟩
  intro t hCourse
  refine hStays access.command t hCourse ?_
  -- The matrix is released after everything that touches it, this read among it.
  intro k _ hLt hReleases
  obtain ⟨col, hCol⟩ := hWell.exists_column ht hMatrix
  obtain ⟨c, hCommand, hReads, -⟩ := hWell.reads_of_mem_history ht hes hCol hAccess hRead
  have hLater := hDisciplined.touch_lt_release hOperands hReleases
    ⟨c, col, hCommand, hReads.touches⟩
  omega

/-! ## A program that reads its input in both phases -/

/-- The input is copied to the output, and after the phase marker once more, to where the
derivative of the output is added. -/
def rereadProgram : Program :=
  BuildStep.runAll
    [.matrix 1 1, .matrix 1 1, .matrix 1 1, .matrix 1 1, .bind 0 1 none, .bind 1 2 (some 3),
      .command (.allocUndefined 2), .command (.copy 2 1), .recordedMarker,
      .command (.allocUndefined 4), .command (.copy 4 1), .command (.add 4 3),
      .command (.release 1), .command (.release 3), .command (.release 4)]
    .empty

def rereadMachine : Machine :=
  ⟨rereadProgram, throughNetwork,
    { throughRequest with outputs := [.frames "out" 1 true] }, 2, false, fun _ _ _ => 0⟩

/-- The state before the first copy. -/
def rereadState : MachineState :=
  ⟨⟨[none, some (.ofFn 1 1 fun _ _ => 5), some (.ofFn 1 1 fun _ _ => 0), none, none]⟩, none,
    .created, []⟩

theorem rereadState_fit : rereadState.slots.Fit rereadMachine.program where
  length := rfl
  shape := by
    intro m shape hShape
    match m with
    | 0 => cases hShape
    | 1 => cases hShape; rfl
    | 2 => cases hShape; rfl
    | 3 => cases hShape
    | 4 => cases hShape
    | m + 5 => cases hShape

/-- After the first copy the derivative is supplied, and then the commands go on to the second
copy. -/
theorem rereadMachine_course : ∃ t, rereadMachine.Course 1 1 rereadState 4 t := by
  have hWell : rereadMachine.program.WellFormed := Built.wellFormed ⟨_, rfl⟩
  have hForward : rereadMachine.Course 1 1 rereadState 3 _ :=
    ((Course.start.command (c := .copy 2 1) rfl).command (c := .marker) rfl)
  have hFit := hForward.fit hWell rfl rereadState_fit
  have hSupplied : rereadMachine.Course 1 1 rereadState 3
      (Action.finalState (rereadMachine.place 3 1 (.ofFn 1 1 fun _ _ => 1) _)) :=
    hForward.place hFit (by decide)
  exact ⟨_, hSupplied.command (c := .allocUndefined 4) rfl⟩

/-- The second copy is reached, and finds the input as the first one has found it. -/
theorem rereadMachine_unchanged :
    rereadMachine.program.Accepted rereadMachine.network rereadMachine.request true ∧
      ∃ a accesses first, rereadMachine.program.analysis rereadMachine.network = .ok a ∧
        a.variableHistories[0]? = some accesses ∧
          accesses.find? (·.kind = .read) = some first ∧ first.command = 1 ∧
            (∃ t, rereadMachine.Course 1 first.command rereadState 4 t) ∧
              ∀ t, rereadMachine.Course 1 first.command rereadState 4 t →
                t.slots.value? 1 0 0 = some 5 := by
  have hAccepted : rereadMachine.program.Accepted rereadMachine.network rereadMachine.request
      true := ⟨_, rfl⟩
  refine ⟨hAccepted, _, _, _, rfl, rfl, rfl, rfl, rereadMachine_course, ?_⟩
  intro t hCourse
  have hStays := (unchanged_after_first_read (x := rereadMachine) (m := 1) ⟨_, rfl⟩ hAccepted
    rfl (show Partition.matrixOf _ 0 = .ok 1 from rfl) rfl rfl rereadState_fit).2 ⟨4, .read⟩
      (by decide) rfl
  exact hStays.2 t hCourse 1 0 0 ⟨0, by decide, rfl, ⟨0, 1⟩, rfl, by decide⟩

end Machine

end MatrixProgram
