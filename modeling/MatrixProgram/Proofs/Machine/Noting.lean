import MatrixProgram.Proofs.Machine.Commands

/-!
# Notes in the journal

A machine that traces notes each command after it has carried it out, and the note could fail: it
sums what the command has written, which takes a view of it.  It never does.  A command that has
succeeded leaves the sub-matrix that it writes in view, in whatever state it began and whether or
not the program has passed its check: `exists_journalEntry_of_perform`.

So executing a command is carrying it out, up to the journal, `execute_run_of_perform`, and two
commands that are carried out alike are executed alike, `sameRun_execute`.
-/

namespace MatrixProgram

namespace Machine

variable {x x' : Machine} {c c' : Command} {i j : Nat} {s s' t : MachineState} {α β : Type}

/-! ## What a command leaves in view -/

/-- An action that succeeds leaves a sub-matrix in view. -/
def LeavesInView (x : Machine) (dst : Nat) (act : MachineAction α) : Prop :=
  ∀ ⦃s t : MachineState⦄ ⦃a : α⦄, act s = .ok a t → ∃ v, t.slots.view? x.program dst = .ok v

/-- The last step of a sequence counts. -/
theorem LeavesInView.after {dst : Nat} {first : MachineAction α} {next : α → MachineAction β}
    (h : ∀ a, x.LeavesInView dst (next a)) : x.LeavesInView dst (first >>= next) := by
  intro s u b hRun
  obtain ⟨a, t, -, hNext⟩ := Action.bind_run_eq_ok_iff.mp hRun
  exact h a hNext

/-- A window that has been written is still a window of the buffer, whose shape is kept. -/
theorem write_leavesInView (dst : Nat) (operands : Slots → Except Error α)
    (w : α → {rows cols : Nat} → Region → Write rows cols) :
    x.LeavesInView dst (x.write dst operands w) := by
  intro s t u hRun
  unfold write at hRun
  cases hView : x.program.subMatrix dst with
  | error err => simp [hView] at hRun
  | ok view =>
      rw [hView] at hRun
      dsimp only at hRun
      rcases hEntry : s.slots.entries[view.matrix]? with _ | _ | b
      · simp [hEntry] at hRun
      · simp [hEntry] at hRun
      · rw [hEntry] at hRun
        dsimp only at hRun
        cases hFound : operands s.slots with
        | error err => simp [hFound] at hRun
        | ok a =>
            rw [hFound] at hRun
            dsimp only [Write.inWindow] at hRun
            split at hRun
            · rename_i hFits
              cases hWrite : (w a view.region : Write b.numRows b.numCols) b.values with
              | error err values => simp [hWrite, Action.mapState] at hRun
              | ok v values =>
                  rw [hWrite] at hRun
                  cases hRun
                  have hLt := (List.getElem?_eq_some_iff.mp hEntry).1
                  refine ⟨some ⟨⟨b.numRows, b.numCols, values⟩, view.region, hFits⟩, ?_⟩
                  simp only [Slots.view?, if_neg (Program.subMatrix_eq_ok_iff.mp hView).1, hView,
                    Action.check_ok_bind, Slots.read, Slots.buffer?_put_self hLt, View.of,
                    dif_pos hFits]
                  rfl
            · simp [Action.mapState] at hRun

theorem writeFrom_leavesInView (dst src : Nat) (role : Role)
    (w : View → {rows cols : Nat} → Region → Write rows cols) :
    x.LeavesInView dst (x.writeFrom dst src role w) := by
  rw [writeFrom_eq]
  exact write_leavesInView dst _ _

/-- A command leaves the sub-matrix that it writes in view. -/
theorem perform_leavesInView {dst : Nat} (i : Nat) (hWritten : c.written? = some dst) :
    x.LeavesInView dst (x.perform i c) := by
  cases c with
  | propagate k precomputed input output =>
      cases hWritten
      exact .after fun _ => .after fun _ => writeFrom_leavesInView _ _ _ _
  | backprop node k precomputed inValue outValue outDeriv inDeriv =>
      simp only [Command.written?] at hWritten
      split at hWritten
      · cases hWritten
      · rename_i hPresent
        cases hWritten
        rw [perform, backprop_eq]
        refine .after fun _ => .after fun _ => .after fun _ => ?_
        rw [writeInDeriv, if_pos hPresent]
        exact write_leavesInView _ _ _
  | copy dst' src => cases hWritten; exact writeFrom_leavesInView _ _ _ _
  | add dst' src => cases hWritten; exact writeFrom_leavesInView _ _ _ _
  | gatherAdd dst' src table =>
      cases hWritten
      exact .after fun _ => writeFrom_leavesInView _ _ _ _
  | gatherCopy dst' src table =>
      cases hWritten
      exact .after fun _ => writeFrom_leavesInView _ _ _ _
  | gatherAddMany dst' table =>
      cases hWritten
      rw [perform, gather_eq]
      exact .after fun _ => write_leavesInView _ _ _
  | gatherCopyMany dst' table =>
      cases hWritten
      rw [perform, gather_eq]
      exact .after fun _ => write_leavesInView _ _ _
  | sumRanges dst' src table =>
      cases hWritten
      exact .after fun _ => writeFrom_leavesInView _ _ _ _
  | _ => cases hWritten

/-- A command that has succeeded can be noted. -/
theorem exists_journalEntry_of_perform (hRun : x.perform i c s = .ok () t) (j : Nat) :
    ∃ entry, x.journalEntry j c t.slots = .ok entry := by
  unfold journalEntry
  cases hWritten : c.written? with
  | none => exact ⟨_, rfl⟩
  | some dst =>
      obtain ⟨v, hView⟩ := perform_leavesInView i hWritten hRun
      dsimp only
      rw [hView]
      exact ⟨_, rfl⟩

/-! ## Executing a command -/

/-- After a command that has succeeded, noting it changes the journal alone. -/
theorem execute_run_of_perform (hRun : x.perform i c s = .ok () t) :
    ∃ journal, x.execute i c s = .ok () { t with journal } := by
  unfold execute
  rw [Action.bind_run_ok hRun]
  split
  · obtain ⟨entry, hNoted⟩ := exists_journalEntry_of_perform hRun i
    refine ⟨t.journal ++ [entry], ?_⟩
    rw [Action.bind_run_ok (Action.get_run t), hNoted]
    rfl
  · exact ⟨t.journal, rfl⟩

/-- Noting a command changes the journal alone. -/
theorem perform_of_execute (hRun : x.execute i c s = .ok () t) :
    ∃ u, x.perform i c s = .ok () u ∧ t.slots = u.slots ∧ t.target = u.target ∧
      t.phase = u.phase := by
  obtain ⟨_, u, hPerform, hNote⟩ := Action.bind_run_eq_ok_iff.mp hRun
  refine ⟨u, hPerform, ?_⟩
  change (if x.traces = true then _ else _ : MachineAction Unit) u = _ at hNote
  split at hNote
  · obtain ⟨_, _, hGet, hGot⟩ := Action.bind_run_eq_ok_iff.mp hNote
    cases hGet
    obtain ⟨entry, _, hEntry, hSet⟩ := Action.bind_run_eq_ok_iff.mp hGot
    obtain ⟨-, rfl⟩ := Action.ofExcept_run_eq_ok_iff.mp hEntry
    cases hSet
    exact ⟨rfl, rfl, rfl⟩
  · cases hNote
    exact ⟨rfl, rfl, rfl⟩

/-- Two commands that are carried out alike are executed alike, by machines that trace and by
machines that do not, as far as the journal does not matter. -/
theorem sameRun_execute {R : MachineState → MachineState → Prop}
    (hJournal : ∀ {t t'} journal journal',
      R t t' → R { t with journal } { t' with journal := journal' })
    (h : SameRun R (x.perform i c s) (x'.perform j c' s')) :
    SameRun R (x.execute i c s) (x'.execute j c' s') := by
  generalize hRun : x.perform i c s = r at h
  generalize hRun' : x'.perform j c' s' = r' at h
  cases h with
  | ok hAfter =>
      obtain ⟨journal, hDone⟩ := execute_run_of_perform hRun
      obtain ⟨journal', hDone'⟩ := execute_run_of_perform hRun'
      rw [hDone, hDone']
      exact .ok (hJournal _ _ hAfter)
  | error hAfter =>
      rw [execute, execute, Action.bind_run_error hRun, Action.bind_run_error hRun']
      exact .error hAfter

end Machine

end MatrixProgram
