import MatrixProgram.Proofs.Machine.Rules

/-!
# Commands keep to their rules

Carrying out a command that allocates and releases nothing behaves as its access rules
promise, `perform_keepsRules`; noting it in the journal touches nothing more,
`execute_keepsRules`.

There is one lemma for each scheme of commands: a single source, a table of row pairs to
gather from, one to scatter to, and a component.

The network to update is changed by the update of a backprop and by statistics alone, and
before anything is written.
-/

namespace MatrixProgram

namespace Machine

open Program

variable {x : Machine} {c : Command} {A : ElementSet}

/-- A table that exists is found. -/
theorem tableAt_of_getElem? {α : Type} {tables : List α} {table : Nat} {rows : α}
    (h : tables[table]? = some rows) (index : Nat) (kind : TableKind) :
    tableAt tables table index kind = .ok rows := by
  simp [tableAt, h]

/-! ## Commands of a single source -/

section Single

variable {index dst src : Nat}

theorem copy_keepsRules (hWell : x.program.WellFormed)
    (hCheck : x.program.checkCommand x.network (.copy dst src) = .ok ())
    (hReads : x.ReadsWithin (.copy dst src) A) :
    x.KeepsRules (.copy dst src) A (x.perform index (.copy dst src)) :=
  writeFrom_keepsRules .src hWell hCheck hReads rfl (by simp [Command.opcode, Opcode.rules])
    rfl (fun v _ _ g => Kernel.copy_copied v g) (fun v _ _ g => Kernel.copy_sets v)
    fun _ _ _ _ _ => trivial

theorem add_keepsRules (hWell : x.program.WellFormed)
    (hCheck : x.program.checkCommand x.network (.add dst src) = .ok ())
    (hReads : x.ReadsWithin (.add dst src) A) :
    x.KeepsRules (.add dst src) A (x.perform index (.add dst src)) :=
  writeFrom_keepsRules .src hWell hCheck hReads rfl (by simp [Command.opcode, Opcode.rules])
    rfl (fun v _ _ g => Kernel.add_copied v 1 g) (fun v _ _ g => Kernel.add_sets v 1)
    fun hAccess => (not_accesses_write (by simp [Command.opcode, Opcode.rules]) _ hAccess).elim

theorem gatherCopy_keepsRules {table : Nat} (hWell : x.program.WellFormed)
    (hCheck : x.program.checkCommand x.network (.gatherCopy dst src table) = .ok ())
    (hReads : x.ReadsWithin (.gatherCopy dst src table) A) :
    x.KeepsRules (.gatherCopy dst src table) A
      (x.perform index (.gatherCopy dst src table)) := by
  obtain ⟨_, _, rows, hFits⟩ := checkGather_eq_ok_iff.mp hCheck
  simp only [perform, tableAt_of_getElem? hFits.entries, Action.ofExcept_ok_bind]
  exact writeFrom_keepsRules .src hWell hCheck hReads rfl
    (by simp [Command.opcode, Opcode.rules]) rfl
    (fun v _ _ g => Kernel.gatherCopy_copied v rows g)
    (fun v _ _ g => Kernel.gatherCopy_sets v rows) fun _ _ _ _ _ => trivial

theorem gatherAdd_keepsRules {table : Nat} (hWell : x.program.WellFormed)
    (hCheck : x.program.checkCommand x.network (.gatherAdd dst src table) = .ok ())
    (hReads : x.ReadsWithin (.gatherAdd dst src table) A) :
    x.KeepsRules (.gatherAdd dst src table) A
      (x.perform index (.gatherAdd dst src table)) := by
  obtain ⟨_, _, rows, hFits⟩ := checkGather_eq_ok_iff.mp hCheck
  simp only [perform, tableAt_of_getElem? hFits.entries, Action.ofExcept_ok_bind]
  exact writeFrom_keepsRules .src hWell hCheck hReads rfl
    (by simp [Command.opcode, Opcode.rules]) rfl
    (fun v _ _ g => Kernel.gatherAdd_copied v 1 rows g)
    (fun v _ _ g => Kernel.gatherAdd_sets v 1 rows)
    fun hAccess => (not_accesses_write (by simp [Command.opcode, Opcode.rules]) _ hAccess).elim

theorem sumRanges_keepsRules {table : Nat} (hWell : x.program.WellFormed)
    (hCheck : x.program.checkCommand x.network (.sumRanges dst src table) = .ok ())
    (hReads : x.ReadsWithin (.sumRanges dst src table) A) :
    x.KeepsRules (.sumRanges dst src table) A
      (x.perform index (.sumRanges dst src table)) := by
  obtain ⟨_, _, ranges, hFits⟩ := checkRowRanges_eq_ok_iff.mp hCheck
  simp only [perform, tableAt_of_getElem? hFits.entries, Action.ofExcept_ok_bind]
  exact writeFrom_keepsRules .src hWell hCheck hReads rfl
    (by simp [Command.opcode, Opcode.rules]) rfl
    (fun v _ _ g => Kernel.addRanges_copied v ranges g)
    (fun v _ _ g => Kernel.addRanges_sets v ranges)
    fun hAccess => (not_accesses_write (by simp [Command.opcode, Opcode.rules]) _ hAccess).elim

end Single

/-! ## Commands with a table of row pairs -/

theorem scatterRow_sets {rows cols row srcRow : Nat} {copies : Bool} {g : Region} (v : View) :
    Write.Sets g (fun r => copies = true ∧ r = row)
      (scatterRow copies row v srcRow g : Write rows cols) := by
  cases copies with
  | true => exact (Kernel.copyRow_sets row v srcRow).mono fun _ h => h.2
  | false => exact (Kernel.addRow_sets row v srcRow 1).mono fun _ h => absurd h.1 (by decide)

theorem scatterRow_copied {rows cols row srcRow : Nat} {copies : Bool} {g : Region} (v : View) :
    (scatterRow copies row v.copied srcRow g : Write rows cols) =
      scatterRow copies row v srcRow g := by
  cases copies with
  | true => exact Kernel.copyRow_copied row v srcRow g
  | false => exact Kernel.addRow_copied row v srcRow 1 g

/-- An entry of a table is carried out as a row is scattered, once its view is found. -/
theorem gatherRow_some {rows cols index row s srcRow : Nat} {copies : Bool} {g : Region}
    {views : List (Nat × Option View)} :
    (gatherRow index copies views row g (some (s, srcRow)) : Write rows cols) =
      match views.lookup s with
      | none => throw (.malformed (some index) (.unresolvedSubMatrix s))
      | some operand => required .source operand fun v => scatterRow copies row v srcRow g :=
  rfl

/-- A lookup for each of some keys finds what has been looked up under a key. -/
theorem lookup_of_mapM {β : Type} {find : Nat → Except Error β} {keys : List Nat}
    {found : List (Nat × β)}
    (h : (keys.mapM fun key => do
      let b ← find key
      return (key, b)) = .ok found) {key : Nat} (hMem : key ∈ keys) :
    ∃ b, found.lookup key = some b ∧ find key = .ok b := by
  induction keys generalizing found with
  | nil => cases hMem
  | cons first rest ih =>
      rw [List.mapM_cons] at h
      obtain ⟨entry, hFirst, hRest⟩ := Action.check_bind_eq_ok_iff.mp h
      obtain ⟨others, hOthers, hList⟩ := Action.check_bind_eq_ok_iff.mp hRest
      obtain ⟨b, hFind, hEntry⟩ := Action.check_bind_eq_ok_iff.mp hFirst
      cases hEntry
      cases hList
      by_cases hEq : key = first
      · subst hEq
        exact ⟨b, by simp, hFind⟩
      · have hInRest : key ∈ rest := (List.mem_cons.mp hMem).resolve_left hEq
        obtain ⟨b', hLookup, hFind'⟩ := ih hOthers hInRest
        have hOther : (key == first) = false := beq_eq_false_iff_ne.mpr hEq
        exact ⟨b', by simp only [List.lookup_cons, hOther, hLookup], hFind'⟩

/-- Every sub-matrix that a table names has been viewed. -/
theorem lookup_pairViews {pairs : List (Option (Nat × Nat))} {slots : Slots}
    {views : List (Nat × Option View)} (h : x.pairViews pairs slots = .ok views) {s row : Nat}
    (hEntry : some (s, row) ∈ pairs) :
    ∃ operand, views.lookup s = some operand ∧ slots.view? x.program s = .ok operand :=
  lookup_of_mapM h (mem_pairSubMatrices_iff.mpr ⟨row, hEntry⟩)

/-- A row of a window is set, at most, by the entry of the table for that row, whose
sub-matrix has been viewed. -/
theorem gatherRow_sets {rows cols index row : Nat} {copies : Bool} {g : Region}
    {views : List (Nat × Option View)} (pair : Option (Nat × Nat))
    (hFound : ∀ s srcRow, pair = some (s, srcRow) → ∃ operand, views.lookup s = some operand) :
    Write.Sets g (fun r => copies = true ∧ r = row)
      (gatherRow index copies views row g pair : Write rows cols) := by
  cases pair with
  | none =>
      cases copies with
      | true => exact (Kernel.clearRow_sets row).mono fun _ h => h.2
      | false => exact Write.Sets.pure.mono fun _ h => absurd h.1 (by decide)
  | some entry =>
      obtain ⟨s, srcRow⟩ := entry
      obtain ⟨operand, hOperand⟩ := hFound s srcRow rfl
      rw [gatherRow_some, hOperand]
      exact required_sets scatterRow_sets operand

/-- What is kept of the views of a table. -/
def copiedViews (views : List (Nat × Option View)) : List (Nat × Option View) :=
  views.map fun entry => (entry.1, entry.2.map View.copied)

theorem lookup_copiedViews (views : List (Nat × Option View)) (s : Nat) :
    (copiedViews views).lookup s = (views.lookup s).map (Option.map View.copied) := by
  induction views with
  | nil => rfl
  | cons entry rest ih =>
      obtain ⟨key, operand⟩ := entry
      rw [copiedViews, List.map_cons, List.lookup_cons, List.lookup_cons]
      cases s == key with
      | true => rfl
      | false => exact ih

theorem gatherRow_copied {rows cols index row : Nat} {copies : Bool} {g : Region}
    (views : List (Nat × Option View)) (pair : Option (Nat × Nat)) :
    (gatherRow index copies (copiedViews views) row g pair : Write rows cols) =
      gatherRow index copies views row g pair := by
  cases pair with
  | none => rfl
  | some entry =>
      obtain ⟨s, srcRow⟩ := entry
      rw [gatherRow_some, gatherRow_some, lookup_copiedViews]
      cases views.lookup s with
      | none => rfl
      | some operand => exact required_copied scatterRow_copied operand

/-- The views of the sub-matrices that a table names. -/
theorem pairViews_reads {O : Nat → Prop} {pairs : List (Option (Nat × Nat))}
    (hEach : ∀ s row, some (s, row) ∈ pairs →
      Reads x.program O A (Option.map View.copied) fun slots => slots.view? x.program s) :
    Reads x.program O A copiedViews (x.pairViews pairs) := by
  refine Reads.mapM _ ?_
  intro s hMem
  obtain ⟨row, hEntry⟩ := mem_pairSubMatrices_iff.mp hMem
  exact (hEach s row hEntry).map _ _ fun _ => rfl

/-- A row of a window is set, at most, by the entry of the table for that row. -/
theorem gatherRows_sets {rows cols index : Nat} {copies : Bool} {g : Region}
    {pairs : List (Option (Nat × Nat))} {slots : Slots} {views : List (Nat × Option View)}
    (hViews : x.pairViews pairs slots = .ok views) :
    Write.Sets g (fun r => ∃ entry ∈ pairs.zipIdx, copies = true ∧ r = entry.2)
      (pairs.zipIdx.forM fun (pair, row) => gatherRow index copies views row g pair :
        Write rows cols) := by
  refine Write.Sets.forM _ ?_
  intro entry hMem
  refine gatherRow_sets entry.1 ?_
  intro s srcRow hPair
  have hEntry := List.mem_of_getElem? (List.mem_zipIdx_iff_getElem?.mp hMem)
  obtain ⟨operand, hOperand, -⟩ := lookup_pairViews hViews (hPair ▸ hEntry)
  exact ⟨operand, hOperand⟩

/-- A gathering command sets every row if it copies; otherwise it does not write alone. -/
theorem gather_keepsRules {index dst table : Nat} {copies : Bool} (hWell : x.program.WellFormed)
    (hCheck : x.program.checkCommand x.network c = .ok ()) (hReads : x.ReadsWithin c A)
    (hFits : x.program.checkRowPairs dst table false = .ok ()) (hWritten : c.written? = some dst)
    (hTable : c.pairTable? = some table) (hRule : (.pairRows, .always .read) ∈ c.opcode.rules)
    (hCopies : x.program.Accesses x.network c dst .write → copies = true) :
    x.KeepsRules c A (x.gather index copies dst table) := by
  obtain ⟨view, pairs, hPairs⟩ := checkRowPairs_eq_ok_iff.mp hFits
  rw [gather_eq, tableAt_of_getElem? hPairs.entries, Action.ofExcept_ok_bind]
  have hViews : Reads x.program (x.program.Owns c) A copiedViews (x.pairViews pairs) := by
    refine pairViews_reads ?_
    intro s row hEntry
    have hNames : x.program.Names c .pairRows s := .pairRow hTable hPairs.entries hEntry
    exact view?_reads hWell s (owns_of_names hNames)
      (seen_of_accesses hReads ⟨.pairRows, _, hRule, rfl, hNames⟩ (by decide))
  refine write_keepsRules (fun r => ∃ entry ∈ pairs.zipIdx, copies = true ∧ r = entry.2) hWell
    hCheck hReads hWritten hViews ?_ ?_ ?_
  · intro views _ _ g
    simp only [gatherRow_copied]
  · intro slots views hFound _ _ g
    exact gatherRows_sets hFound
  · intro hAccess view' hView row hRow
    -- The table has an entry for each row of the destination.
    rw [hPairs.ownView] at hView
    cases hView
    rw [← hPairs.length] at hRow
    have hEntry : (pairs[row], row) ∈ pairs.zipIdx :=
      List.mem_zipIdx_iff_getElem?.mpr (List.getElem?_eq_getElem hRow)
    exact ⟨_, hEntry, hCopies hAccess, rfl⟩

/-- Scatter the rows of a view that has been read. -/
def scatterView (x : Machine) (copies : Bool) (pairs : List (Option (Nat × Nat))) :
    Option View → MachineAction Unit
  | none => return ()
  | some v =>
      pairs.zipIdx.forM fun (pair, row) =>
        match pair with
        | none => return ()
        | some (dst, dstRow) =>
            x.write dst (fun _ => .ok ()) fun _ _ _ g => scatterRow copies dstRow v row g

theorem scatterView_copied (x : Machine) (copies : Bool)
    (pairs : List (Option (Nat × Nat))) (operand : Option View) :
    x.scatterView copies pairs (operand.map View.copied) = x.scatterView copies pairs operand := by
  cases operand with
  | none => rfl
  | some v =>
      unfold scatterView
      simp only [Option.map_some, scatterRow_copied]

/-- A scattering command reads its source, and writes rows of the sub-matrices that its table
names. -/
theorem scatter_behaves {O : Nat → Prop} {W : ElementSet} {index src table : Nat}
    {copies : Bool} {source : SubMatrix} {pairs : List (Option (Nat × Nat))}
    (hWell : x.program.WellFormed) (hEntries : x.program.rowPairs[table]? = some pairs)
    (hView : x.program.subMatrix src = .ok source)
    (hSource : Reads x.program O A (Option.map View.copied) fun slots =>
      slots.view? x.program src)
    (hOwner : ∀ s row, some (s, row) ∈ pairs → ∀ view, x.program.subMatrix s = .ok view →
      O view.matrix)
    (hWindow : ∀ s row, some (s, row) ∈ pairs → ∀ view, x.program.subMatrix s = .ok view →
      ∀ row col, view.region.Contains row col → W view.matrix row col) :
    Behaves x.program O A A W (x.scatter index copies src table) := by
  have hPresent : src ≠ noSubMatrix := (subMatrix_eq_ok_iff.mp hView).1
  simp only [scatter, tableAt_of_getElem? hEntries, hView, Action.ofExcept_ok_bind,
    withViews_nil, writeFrom_eq]
  split
  · -- The copy that is taken first is what a view of the source reads.
    refine Behaves.congr (Behaves.withRead hSource (x.scatterView_copied copies pairs) ?_) ?_
    · intro operand
      cases operand with
      | none => exact Behaves.pure ()
      | some v =>
          refine Behaves.forM _ ?_
          intro entry hMem
          obtain ⟨pair, row⟩ := entry
          cases pair with
          | none => exact Behaves.pure ()
          | some target =>
              have hEntry := List.mem_of_getElem? (List.mem_zipIdx_iff_getElem?.mp hMem)
              exact write_behaves hWell (hOwner _ _ hEntry) (hWindow _ _ hEntry) (Reads.ok ())
                (fun _ _ _ _ => rfl) (fun _ _ _ _ _ _ => scatterRow_sets v)
                fun _ _ _ _ _ _ _ hIn => .inl hIn
    · intro s hFit
      cases hBuffer : s.slots.buffer? source.matrix with
      | none => simp [Action.bind_run, Slots.view?, hPresent, hView, Slots.read, hBuffer]
      | some b =>
          have hIn := hFit.fitsIn hWell hView hBuffer
          have hOf : View.of b source.region = .ok ⟨b, source.region, hIn⟩ := by
            simp [View.of, hIn]
          have hFound : s.slots.view? x.program src = .ok (some ⟨b, source.region, hIn⟩) := by
            simp [Slots.view?, hPresent, hView, Slots.read, hBuffer, hOf, pure, Except.pure]
          have hRead : s.slots.read source.matrix = .ok b := by simp [Slots.read, hBuffer]
          rw [hFound, Action.bind_run, Action.get_run]
          simp only [hRead, hOf, Action.ofExcept_ok_bind]
          rfl
  · refine Behaves.forM _ ?_
    intro entry hMem
    obtain ⟨pair, row⟩ := entry
    cases pair with
    | none => exact Behaves.pure ()
    | some target =>
        have hEntry := List.mem_of_getElem? (List.mem_zipIdx_iff_getElem?.mp hMem)
        exact write_behaves hWell (hOwner _ _ hEntry) (hWindow _ _ hEntry) hSource
          (fun operand _ _ g => required_copied scatterRow_copied operand)
          (fun _ operand _ _ _ g => required_sets scatterRow_sets operand)
          fun _ _ _ _ _ _ _ hIn => .inl hIn

/-- A scattering command reads its source once and adds to, or replaces, rows of several
sub-matrices, all of whose elements count as read. -/
theorem scatter_keepsRules {index src table : Nat} {copies : Bool} (hWell : x.program.WellFormed)
    (hReads : x.ReadsWithin c A) (hFits : x.program.checkRowPairs src table true = .ok ())
    (hTable : c.pairTable? = some table) (hOperand : c.operand? .src = some src)
    (hRules : c.opcode.rules = [(.src, .always .read), (.pairRows, .always .readWrite)]) :
    x.KeepsRules c A (x.scatter index copies src table) := by
  obtain ⟨source, pairs, hPairs⟩ := checkRowPairs_eq_ok_iff.mp hFits
  have hSource := operand_reads .src hWell hReads (by simp [hRules]) hOperand
  have hTarget : (.pairRows, .always .readWrite) ∈ c.opcode.rules := by simp [hRules]
  -- All that is written is read as well, so it agrees already.
  have hWritten : ∀ m row col, x.written c m row col → A m row col := by
    intro m row col hIn
    rcases hIn with ⟨rfl, -⟩ | ⟨s, kind, hAccess, hViews, -⟩
    · cases hTable
    · refine hReads m row col ⟨s, kind, hAccess, hViews, .inl ?_⟩
      intro hWrite
      subst hWrite
      refine not_accesses_write ?_ s hAccess
      simp [hRules]
  have hNames : ∀ s row, some (s, row) ∈ pairs → x.program.Names c .pairRows s :=
    fun s row hEntry => .pairRow hTable hPairs.entries hEntry
  refine keepsRules_of_behaves (scatter_behaves hWell hPairs.entries hPairs.ownView hSource
    (fun s row hEntry => owns_of_names (hNames s row hEntry)) ?_) hWritten
  intro s row hEntry view hView r col hIn
  exact .inr ⟨s, .readWrite, ⟨.pairRows, _, hTarget, rfl, hNames s row hEntry⟩,
    viewsColumn_of_contains hView hIn, by decide⟩

/-! ## Commands with a component -/

theorem precomputedRows_allowed (x : Machine) (index : Nat) (precomputed : Option Nat) :
    Action.Allowed True (x.precomputedRows index precomputed) := by
  intro err hErr
  cases precomputed with
  | none => cases hErr
  | some table =>
      simp only [precomputedRows] at hErr
      split at hErr
      · cases hErr
      · cases hErr
        exact trivial

/-- What a rule that depends on a capability of the component amounts to. -/
theorem eq_false_of_accessKind {condition : Condition} {b : Bool}
    (hHolds : x.program.holds x.network c condition = .ok b)
    (hKind : x.program.accessKind x.network c (.writeOrReadWriteIf condition) = .ok .write) :
    b = false := by
  rw [accessKind, hHolds] at hKind
  cases b
  · rfl
  · cases hKind

theorem propagate_keepsRules {index k input output : Nat} {precomputed : Option Nat}
    (hWell : x.program.WellFormed)
    (hCheck : x.program.checkCommand x.network (.propagate k precomputed input output) = .ok ())
    (hReads : x.ReadsWithin (.propagate k precomputed input output) A) :
    x.KeepsRules (.propagate k precomputed input output) A
      (x.perform index (.propagate k precomputed input output)) := by
  obtain ⟨component, _, _, hFits⟩ := checkPropagate_eq_ok_iff.mp hCheck
  have hAdds : x.program.holds x.network (.propagate k precomputed input output)
      .propagateAdds = .ok component.capabilities.propagateAdds := by
    simp only [holds, commandCapabilities, Command.component?, capabilitiesOf, hFits.layer]
    rfl
  simp only [perform, propagate, hFits.layer, Action.ofExcept_ok_bind]
  refine Behaves.bind (Behaves.ofExcept (precomputedRows_allowed x index precomputed)) ?_
  intro rows
  refine writeFrom_keepsRules .input hWell hCheck hReads rfl
    (by simp [Command.opcode, Opcode.rules]) rfl
    (fun v _ _ g => Component.propagate_copied component rows v g)
    (fun v _ _ g => Component.propagate_sets component rows v) ?_
  rintro ⟨slot, rule, hRule, hKind, -⟩ _ _ _ _
  simp only [Command.opcode, Opcode.rules, List.mem_cons, Prod.mk.injEq, List.not_mem_nil,
    or_false] at hRule
  rcases hRule with ⟨-, rfl⟩ | ⟨-, rfl⟩
  · cases hKind
  · exact eq_false_of_accessKind hAdds hKind

/-- A change of the target that does the same in agreeing states. -/
theorem changeTarget_behaves {p : Program} {O : Nat → Prop} {W : ElementSet}
    {change : Network → MachineState → EStateM.Result Error Network Unit}
    (hAllowed : ∀ net s, s.slots.Fit p →
      Action.Allowed (AllAllocated O s.slots) (Action.outcome (change net s)))
    (hWidths : ∀ net s, (Action.finalState (change net s)).widths = net.widths)
    (hAgree : ∀ net s s', s.slots.Fit p → s.Agree A s' → change net s = change net s') :
    Behaves p O A A W (changeTarget change) where
  frame := by
    intro s hFit
    unfold changeTarget
    cases hTarget : s.target with
    | none => exact .refl W s
    | some net =>
        rw [Action.finalState_mapState]
        refine ⟨rfl, fun _ => rfl, fun _ _ _ _ => rfl, ?_, rfl⟩
        rw [hTarget, Option.map_some, Option.map_some, hWidths]
  allowed := by
    intro s hFit
    unfold changeTarget
    cases s.target with
    | none => exact Action.Allowed.ok ()
    | some net =>
        rw [Action.outcome_mapState]
        exact hAllowed net s hFit
  agree := by
    intro s s' hFit hStates
    unfold changeTarget
    rw [← hStates.target]
    cases s.target with
    | none => exact .ok hStates hStates
    | some net =>
        show Matches A A (Action.mapState _ (change net s)) (Action.mapState _ (change net s'))
        rw [← hAgree net s s' hFit hStates]
        cases change net s with
        | ok u net' => exact .ok ⟨hStates.slots, rfl⟩ ⟨hStates.slots, rfl⟩
        | error err net' => exact .error ⟨hStates.slots, rfl⟩

theorem storeStats_behaves {O : Nat → Prop} {W : ElementSet} {index k value : Nat}
    (hValue : Reads x.program O A (Option.map View.copied) fun slots =>
      slots.view? x.program value) :
    Behaves x.program O A A W (x.storeStats index k value) := by
  unfold storeStats
  split
  · refine changeTarget_behaves ?_ ?_ ?_
    · intro net s hFit
      cases hFound : s.slots.view? x.program value with
      | error err =>
          intro err' hErr
          cases hErr
          exact hValue.allowed hFit err hFound
      | ok v? =>
          intro err hErr
          cases v? with
          | none =>
              cases hErr
              exact trivial
          | some v =>
              have hAllowed := Network.changeComponent_allowed
                (Component.storeStats_allowed v) k net
              exact (hAllowed err hErr).imp fun _ => trivial
    · intro net s
      split
      · rfl
      · rfl
      · exact Network.changeComponent_fixes (Component.storeStats_fixes _) k net
    · intro net s s' hFit hAgree
      rcases map_eq_map_cases (hValue.agree hFit hAgree.slots) with
        ⟨err, hErr, hErr'⟩ | ⟨v?, w?, hV, hW, hSame⟩
      · rw [hErr, hErr']
      · rw [hV, hW]
        cases v? with
        -- Both views are absent, or their contents are the same.
        | none =>
            cases w? with
            | none => rfl
            | some w => cases hSame
        | some v =>
            cases w? with
            | none => cases hSame
            | some w =>
                have hCopies : v.copied = w.copied := Option.some.inj hSame
                show Network.changeComponent k (Component.storeStats v) net =
                  Network.changeComponent k (Component.storeStats w) net
                rw [← Component.storeStats_copied v, hCopies, Component.storeStats_copied]
  · exact Behaves.pure ()

theorem storeStats_keepsRules {index k value : Nat} (hWell : x.program.WellFormed)
    (hReads : x.ReadsWithin (.storeStats k value) A) :
    x.KeepsRules (.storeStats k value) A (x.perform index (.storeStats k value)) := by
  have hNotWritten := not_written_of_rules (x := x) (c := .storeStats k value) rfl (by
    intro slot rule hRule
    simp only [Command.opcode, Opcode.rules, List.mem_singleton, Prod.mk.injEq] at hRule
    exact .inl hRule.2)
  have hValue : Reads x.program (x.program.Owns (.storeStats k value)) A
      (Option.map View.copied) (fun slots => slots.view? x.program value) :=
    operand_reads .value hWell hReads (by simp [Command.opcode, Opcode.rules]) rfl
  exact keepsRules_of_behaves (storeStats_behaves hValue)
    fun m row col hIn => absurd hIn (hNotWritten m row col)

/-- Two optional views with the same copies. -/
theorem update_congr {rows : Option (List Nat)} {inView inView' : Option View}
    {outView outView' : View} (hIn : inView.map View.copied = inView'.map View.copied)
    (hOut : outView.copied = outView'.copied) :
    Component.update rows inView outView = Component.update rows inView' outView' := by
  rw [← Component.update_copied rows inView outView, hIn, hOut, Component.update_copied]

theorem updateTarget_behaves {O : Nat → Prop} {W : ElementSet} {index k inValue outDeriv : Nat}
    {rows : Option (List Nat)}
    (hIn : Reads x.program O A (Option.map View.copied) fun slots =>
      slots.view? x.program inValue)
    (hOut : Reads x.program O A (Option.map View.copied) fun slots =>
      slots.view? x.program outDeriv) :
    Behaves x.program O A A W (x.updateTarget index k rows inValue outDeriv) := by
  refine changeTarget_behaves ?_ ?_ ?_
  · intro net s hFit
    cases hInView : s.slots.view? x.program inValue with
    | error err =>
        intro err' hErr
        cases hErr
        exact hIn.allowed hFit err hInView
    | ok v? =>
        cases hOutView : s.slots.view? x.program outDeriv with
        | error err =>
            intro err' hErr
            cases hErr
            exact hOut.allowed hFit err hOutView
        | ok w? =>
            intro err hErr
            cases w? with
            | none =>
                cases hErr
                exact trivial
            | some w =>
                have hAllowed := Network.changeComponent_allowed
                  (Component.update_allowed rows v? w) k net
                exact (hAllowed err hErr).imp fun _ => trivial
  · intro net s
    split
    · rfl
    · rfl
    · rfl
    · exact Network.changeComponent_fixes (Component.update_fixes rows _ _) k net
  · intro net s s' hFit hAgree
    rcases map_eq_map_cases (hIn.agree hFit hAgree.slots) with
      ⟨err, hErr, hErr'⟩ | ⟨v?, v?', hV, hV', hSameIn⟩
    · rw [hErr, hErr']
    · rcases map_eq_map_cases (hOut.agree hFit hAgree.slots) with
        ⟨err, hErr, hErr'⟩ | ⟨w?, w?', hW, hW', hSameOut⟩
      · rw [hV, hV', hErr, hErr']
      · rw [hV, hV', hW, hW']
        cases w? with
        | none =>
            cases w?' with
            | none => rfl
            | some w => cases hSameOut
        | some w =>
            cases w?' with
            | none => cases hSameOut
            | some w' =>
                show Network.changeComponent k (Component.update rows v? w) net =
                  Network.changeComponent k (Component.update rows v?' w') net
                rw [update_congr hSameIn (Option.some.inj hSameOut)]

/-! ### The derivative of the input -/

theorem backpropViews_reads {O : Nat → Prop} {inValue outValue outDeriv : Nat}
    (hIn : Reads x.program O A (Option.map View.copied) fun slots =>
      slots.view? x.program inValue)
    (hOut : Reads x.program O A (Option.map View.copied) fun slots =>
      slots.view? x.program outValue)
    (hDeriv : Reads x.program O A (Option.map View.copied) fun slots =>
      slots.view? x.program outDeriv) :
    Reads x.program O A
      (fun views => (views.1.map View.copied, views.2.1.map View.copied,
        views.2.2.map View.copied))
      (x.backpropViews inValue outValue outDeriv) := by
  have hTriple := hIn.bind (hOut.bind hDeriv)
  simp only [bind_assoc, pure_bind] at hTriple
  exact hTriple

/-- A component that does not add to the derivative of its input sets all of it. -/
theorem writeInDeriv_keepsRules (rows : Option (List Nat)) {component : Component}
    {node k inValue outValue outDeriv inDeriv : Nat} {precomputed : Option Nat}
    (hWell : x.program.WellFormed)
    (hCheck : x.program.checkCommand x.network
      (.backprop node k precomputed inValue outValue outDeriv inDeriv) = .ok ())
    (hReads : x.ReadsWithin
      (.backprop node k precomputed inValue outValue outDeriv inDeriv) A)
    (hLayer : x.network.component k = .ok component)
    (hViews : Reads x.program
      (x.program.Owns (.backprop node k precomputed inValue outValue outDeriv inDeriv)) A
      (fun views => (views.1.map View.copied, views.2.1.map View.copied,
        views.2.2.map View.copied))
      (x.backpropViews inValue outValue outDeriv)) :
    x.KeepsRules (.backprop node k precomputed inValue outValue outDeriv inDeriv) A
      (x.writeInDeriv component rows inValue outValue outDeriv inDeriv) := by
  unfold writeInDeriv
  split
  · rename_i hPresent
    have hAdds : x.program.holds x.network
        (.backprop node k precomputed inValue outValue outDeriv inDeriv) .backpropAdds =
          .ok component.capabilities.backpropAdds := by
      simp only [holds, commandCapabilities, Command.component?, capabilitiesOf, hLayer]
      rfl
    refine write_keepsRules (fun _ => component.capabilities.backpropAdds = false) hWell
      hCheck hReads (if_neg hPresent) hViews ?_ ?_ ?_
    · intro views _ _ g
      obtain ⟨inView, outView, derivView⟩ := views
      cases derivView with
      | none => rfl
      | some d => exact Component.backprop_copied component rows inView outView d g
    · intro _ views _ _ _ g
      exact required_sets
        (fun d => Component.backprop_sets component rows views.1 views.2.1 d) views.2.2
    · intro hAccess _ _ _ _
      obtain ⟨slot, rule, hRule, hKind, -⟩ := hAccess
      simp only [Command.opcode, Opcode.rules, List.mem_cons, Prod.mk.injEq,
        List.not_mem_nil, or_false] at hRule
      rcases hRule with ⟨-, rfl⟩ | ⟨-, rfl⟩ | ⟨-, rfl⟩ | ⟨-, rfl⟩
      · cases hKind
      · cases hKind
      · cases hKind
      · exact eq_false_of_accessKind hAdds hKind
  · rename_i hAbsent
    refine pure_keepsRules rfl ?_
    intro slot rule hRule
    simp only [Command.opcode, Opcode.rules, List.mem_cons, Prod.mk.injEq,
      List.not_mem_nil, or_false] at hRule
    rcases hRule with ⟨-, hRead⟩ | ⟨-, hRead⟩ | ⟨-, hRead⟩ | ⟨rfl, -⟩
    · exact .inl hRead
    · exact .inl hRead
    · exact .inl hRead
    · exact .inr ⟨by decide, congrArg some (Decidable.not_not.mp hAbsent)⟩

theorem backprop_keepsRules {index node k inValue outValue outDeriv inDeriv : Nat}
    {precomputed : Option Nat} (hWell : x.program.WellFormed)
    (hCheck : x.program.checkCommand x.network
      (.backprop node k precomputed inValue outValue outDeriv inDeriv) = .ok ())
    (hReads : x.ReadsWithin
      (.backprop node k precomputed inValue outValue outDeriv inDeriv) A) :
    x.KeepsRules (.backprop node k precomputed inValue outValue outDeriv inDeriv) A
      (x.perform index (.backprop node k precomputed inValue outValue outDeriv inDeriv)) := by
  obtain ⟨component, _, _, _, _, hFits⟩ := backpropFits_of_check hCheck
  have hIn := operand_reads .inValue hWell hReads
    (by simp [Command.opcode, Opcode.rules]) rfl
  have hOut := operand_reads .outValue hWell hReads
    (by simp [Command.opcode, Opcode.rules]) rfl
  have hDeriv := operand_reads .outDeriv hWell hReads
    (by simp [Command.opcode, Opcode.rules]) rfl
  rw [perform, backprop_eq, hFits.layer, Action.ofExcept_ok_bind]
  refine Behaves.bind (Behaves.ofExcept (precomputedRows_allowed x index precomputed)) ?_
  intro rows
  have hWrite := writeInDeriv_keepsRules rows hWell hCheck hReads hFits.layer
    (backpropViews_reads hIn hOut hDeriv)
  split
  · exact Behaves.bind (updateTarget_behaves hIn hDeriv) fun _ => hWrite
  · exact hWrite

/-! ## All commands -/

/-- Every command that allocates and releases nothing keeps to its rules. -/
theorem perform_keepsRules (index : Nat) (hWell : x.program.WellFormed)
    (hCheck : x.program.checkCommand x.network c = .ok ()) (hResize : c.resized? = none)
    (hReads : x.ReadsWithin c A) : x.KeepsRules c A (x.perform index c) := by
  cases c with
  | allocZeroed m => cases hResize
  | allocUndefined m => cases hResize
  | release m => cases hResize
  | propagate => exact propagate_keepsRules hWell hCheck hReads
  | storeStats => exact storeStats_keepsRules hWell hReads
  | backprop => exact backprop_keepsRules hWell hCheck hReads
  | copy => exact copy_keepsRules hWell hCheck hReads
  | add => exact add_keepsRules hWell hCheck hReads
  | gatherAdd => exact gatherAdd_keepsRules hWell hCheck hReads
  | gatherCopy => exact gatherCopy_keepsRules hWell hCheck hReads
  | gatherAddMany dst table =>
      refine gather_keepsRules hWell hCheck hReads hCheck rfl rfl
        (by simp [Command.opcode, Opcode.rules]) ?_
      intro hAccess
      exact (not_accesses_write (by simp [Command.opcode, Opcode.rules]) dst hAccess).elim
  | gatherCopyMany =>
      exact gather_keepsRules hWell hCheck hReads hCheck rfl rfl
        (by simp [Command.opcode, Opcode.rules]) fun _ => rfl
  | scatterAdd => exact scatter_keepsRules hWell hReads hCheck rfl rfl rfl
  | scatterCopy => exact scatter_keepsRules hWell hReads hCheck rfl rfl rfl
  | sumRanges => exact sumRanges_keepsRules hWell hCheck hReads
  | skip => exact pure_keepsRules rfl (by simp [Command.opcode, Opcode.rules])
  | marker => exact pure_keepsRules rfl (by simp [Command.opcode, Opcode.rules])

/-- What is noted of a command depends on what it has written. -/
theorem journalEntry_reads {O : Nat → Prop} (index : Nat) (c : Command)
    (hView : ∀ dst, c.written? = some dst →
      Reads x.program O A (Option.map View.copied) fun slots => slots.view? x.program dst) :
    Reads x.program O A id (x.journalEntry index c) := by
  cases hWritten : c.written? with
  | none =>
      have hEntry : x.journalEntry index c =
          fun _ => .ok ⟨index, x.program.statement x.network c, none⟩ := by
        funext slots
        simp only [journalEntry, hWritten]
        rfl
      rw [hEntry]
      exact Reads.ok _
  | some dst =>
      have hEntry : x.journalEntry index c = fun slots =>
          (fun v => ⟨index, x.program.statement x.network c,
            some ((v.map View.sum).getD 0)⟩) <$> slots.view? x.program dst := by
        funext slots
        simp only [journalEntry, hWritten]
        rfl
      rw [hEntry]
      refine (hView dst hWritten).map id _ ?_
      intro v
      cases v with
      | none => rfl
      | some v => simp [View.sum_copied]

/-- Noting something in the journal touches nothing. -/
theorem note_behaves {p : Program} {O : Nat → Prop} {W : ElementSet} (entry : JournalEntry) :
    Behaves p O A A W (modify fun s => { s with journal := s.journal ++ [entry] }) where
  frame := fun _ => ⟨rfl, fun _ => rfl, fun _ _ _ _ => rfl, rfl, rfl⟩
  allowed := fun _ => Action.Allowed.ok _
  agree := fun _ hAgree => .ok ⟨hAgree.slots, hAgree.target⟩ ⟨hAgree.slots, hAgree.target⟩

/-- Tracing a command touches no more than the command itself. -/
theorem execute_behaves {O : Nat → Prop} {B W : ElementSet} {index : Nat}
    (hPerform : Behaves x.program O A B W (x.perform index c))
    (hSub : ∀ m row col, A m row col → B m row col)
    (hView : ∀ dst, c.written? = some dst →
      Reads x.program O B (Option.map View.copied) fun slots => slots.view? x.program dst) :
    Behaves x.program O A B W (x.execute index c) := by
  unfold execute
  refine hPerform.andThen ?_ hSub
  intro _
  split
  · refine Behaves.congr (Behaves.withRead (journalEntry_reads index c hView)
      (fun _ => rfl) fun entry => note_behaves entry) ?_
    intro s _
    rw [Action.bind_run, Action.get_run]
    simp only [Action.bind_run]
    cases x.journalEntry index c s.slots with
    | error err => rfl
    | ok entry => rfl
  · exact Behaves.pure ()

theorem execute_keepsRules (index : Nat) (hWell : x.program.WellFormed)
    (hCheck : x.program.checkCommand x.network c = .ok ()) (hResize : c.resized? = none)
    (hReads : x.ReadsWithin c A) : x.KeepsRules c A (x.execute index c) := by
  refine execute_behaves (perform_keepsRules index hWell hCheck hResize hReads)
    (fun _ _ _ => .inl) ?_
  intro dst hWritten
  obtain ⟨kind, hAccess, hKind⟩ := exists_accesses_of_written hCheck hWritten
  obtain ⟨slot, _, _, _, hNames⟩ := id hAccess
  exact view?_reads hWell dst (owns_of_names hNames) fun view hView row col hIn =>
    .inr (.inr ⟨dst, kind, hAccess, viewsColumn_of_contains hView hIn, hKind⟩)

/-! ## The network to update -/

section Target

variable {index : Nat} {s : MachineState} {α β : Type}

theorem target_finalState_write {dst : Nat} {operands : Slots → Except Error α}
    {w : α → {rows cols : Nat} → Region → Write rows cols} :
    (Action.finalState (x.write dst operands w s)).target = s.target := by
  unfold write
  cases x.program.subMatrix dst with
  | error err => rfl
  | ok view =>
      dsimp only
      rcases s.slots.entries[view.matrix]? with _ | _ | b
      · rfl
      · rfl
      · dsimp only
        cases operands s.slots with
        | error err => rfl
        | ok a => simp only [Action.finalState_mapState]

/-- What follows a first part keeps something if it keeps it in every state. -/
theorem finalState_bind {γ : Type} {f : MachineState → γ} {first : MachineAction α}
    {next : α → MachineAction β}
    (h : ∀ a t, f (Action.finalState (next a t)) = f t) :
    f (Action.finalState ((first >>= next) s)) = f (Action.finalState (first s)) := by
  rw [Action.bind_run]
  cases first s with
  | ok a t => exact h a t
  | error err t => rfl

theorem target_finalState_execute :
    (Action.finalState (x.execute index c s)).target =
      (Action.finalState (x.perform index c s)).target := by
  refine finalState_bind fun _ t => ?_
  show (Action.finalState ((if x.traces = true then _ else _ : MachineAction Unit) t)).target = _
  split
  · simp only [Action.bind_run, Action.get_run]
    cases x.journalEntry index c t.slots <;> rfl
  · rfl

/-- A backprop of an updatable component changes the network to update as the component's
update does before anything is written. -/
theorem target_finalState_backprop {node k inValue outValue outDeriv inDeriv : Nat}
    {precomputed : Option Nat} {component : Component} {rows : Option (List Nat)}
    (hComponent : x.network.component k = .ok component)
    (hUpdatable : component.capabilities.updatable = true)
    (hRows : x.precomputedRows index precomputed = .ok rows) :
    (Action.finalState (x.execute index
        (.backprop node k precomputed inValue outValue outDeriv inDeriv) s)).target =
      (Action.finalState (x.updateTarget index k rows inValue outDeriv s)).target := by
  rw [target_finalState_execute, perform, backprop_eq, hComponent, hRows]
  simp only [Action.ofExcept_ok_bind, if_pos hUpdatable]
  refine finalState_bind (f := MachineState.target) fun _ t => ?_
  unfold writeInDeriv
  split
  · exact target_finalState_write
  · rfl

end Target

end Machine

/-! ## Runs side by side -/

/-- Two runs with the same answer or error, which lead to related states. -/
inductive SameRun {α : Type} (R : MachineState → MachineState → Prop) :
    EStateM.Result Error MachineState α → EStateM.Result Error MachineState α → Prop
  | ok {a : α} {s s' : MachineState} (h : R s s') : SameRun R (.ok a s) (.ok a s')
  | error {err : Error} {s s' : MachineState} (h : R s s') :
      SameRun R (.error err s) (.error err s')

namespace SameRun

variable {α β : Type} {R : MachineState → MachineState → Prop} {s s' : MachineState}
  {r r' : EStateM.Result Error MachineState α}

theorem bind {first first' : MachineAction α} {next next' : α → MachineAction β}
    (hFirst : SameRun R (first s) (first' s'))
    (hNext : ∀ a t t', first s = .ok a t → R t t' → SameRun R (next a t) (next' a t')) :
    SameRun R ((first >>= next) s) ((first' >>= next') s') := by
  rw [Action.bind_run, Action.bind_run]
  generalize hRun : first s = r at hFirst
  generalize first' s' = r' at hFirst
  cases hFirst with
  | ok h => exact hNext _ _ _ hRun h
  | error h => exact .error h

theorem imp {R' : MachineState → MachineState → Prop} (h : SameRun R r r')
    (hImp : ∀ s s', R s s' → R' s s') : SameRun R' r r' := by
  cases h with
  | ok h => exact .ok (hImp _ _ h)
  | error h => exact .error (hImp _ _ h)

/-- The same lookup goes first in both runs. -/
theorem lookup (check : Except Error α) {next next' : α → MachineAction β} (h : R s s')
    (hNext : ∀ a, SameRun R (next a s) (next' a s')) :
    SameRun R ((Action.ofExcept check >>= next) s) ((Action.ofExcept check >>= next') s') := by
  cases check with
  | ok a => exact hNext a
  | error err => exact .error h

theorem map (f : α → β) {act act' : MachineAction α} (h : SameRun R (act s) (act' s')) :
    SameRun R ((f <$> act) s) ((f <$> act') s') := by
  rw [Action.map_run, Action.map_run]
  generalize act s = r at h
  generalize act' s' = r' at h
  cases h with
  | ok h => exact .ok h
  | error h => exact .error h

theorem outcome_eq (h : SameRun R r r') : Action.outcome r' = Action.outcome r := by
  cases h <;> rfl

theorem finalState (h : SameRun R r r') :
    R (Action.finalState r) (Action.finalState r') := by
  cases h <;> assumption

end SameRun

end MatrixProgram
