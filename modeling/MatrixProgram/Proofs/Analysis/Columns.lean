import MatrixProgram.Analysis.Effects
import MatrixProgram.Proofs.Analysis.Partition
import MatrixProgram.Proofs.Check.Operands

/-!
# The columns that a command reads and writes

A command touches a column of a matrix when it fills the matrix with zeros or names a
sub-matrix that views the column.  This file says so without any partition: from the
operands, the tables of row pairs and the rules of the operation alone.

The effects that the analysis computes are exactly that, one variable for all the columns
it stands for: `mem_read_iff` and `mem_written_iff`.  A column is touched exactly when it is
read or written, so the rules leave out no operand: `touchesColumn_iff`.
-/

namespace MatrixProgram

namespace Program

/-- A sub-matrix views a column of a matrix. -/
def ViewsColumn (p : Program) (s m col : Nat) : Prop :=
  ∃ view, p.subMatrix s = .ok view ∧ view.matrix = m ∧
    view.region.colOffset ≤ col ∧ col < view.region.colEnd

/-- A sub-matrix views all rows of its matrix. -/
def ViewsAllRows (p : Program) (s : Nat) : Prop :=
  ∃ view shape, p.subMatrix s = .ok view ∧ p.matrix view.matrix = .ok shape ∧
    view.region.SpansRows shape.numRows

/-- A command names a sub-matrix in a slot: as its operand there, or in an entry of its
table of row pairs. -/
inductive Names (p : Program) (c : Command) : Slot → Nat → Prop
  | operand {slot : Slot} {s : Nat} (h : c.operand? slot = some s) : Names p c slot s
  | pairRow {table s row : Nat} {pairs : List (Option (Nat × Nat))}
      (hTable : c.pairTable? = some table) (hPairs : p.rowPairs[table]? = some pairs)
      (hEntry : some (s, row) ∈ pairs) : Names p c .pairRows s

/-- A command accesses a sub-matrix that it names, as the rule of the slot says. -/
def Accesses (p : Program) (net : Network) (c : Command) (s : Nat) (kind : AccessKind) :
    Prop :=
  ∃ slot rule, (slot, rule) ∈ c.opcode.rules ∧ p.accessKind net c rule = .ok kind ∧
    p.Names c slot s

/-- A command fills a column with zeros. -/
def FillsColumn (p : Program) (c : Command) (m col : Nat) : Prop :=
  c = .allocZeroed m ∧ ∃ shape, p.matrix m = .ok shape ∧ col < shape.numCols

/-- A command touches a column: it fills it, or names a sub-matrix that views it. -/
def TouchesColumn (p : Program) (c : Command) (m col : Nat) : Prop :=
  p.FillsColumn c m col ∨ ∃ slot s, p.Names c slot s ∧ p.ViewsColumn s m col

/-- A command writes a column: it fills it, or accesses a view of it otherwise than for
reading. -/
def WritesColumn (p : Program) (net : Network) (c : Command) (m col : Nat) : Prop :=
  p.FillsColumn c m col ∨
    ∃ s kind, p.Accesses net c s kind ∧ p.ViewsColumn s m col ∧ kind ≠ .read

/-- A command reads a column: it accesses a view of it otherwise than for writing, or
writes it through a view that misses some rows, whose old values it keeps. -/
def ReadsColumn (p : Program) (net : Network) (c : Command) (m col : Nat) : Prop :=
  ∃ s kind, p.Accesses net c s kind ∧ p.ViewsColumn s m col ∧
    (kind ≠ .write ∨ ¬p.ViewsAllRows s)

variable {p : Program} {net : Network} {t : Partition}

/-! ## What a list of accesses records -/

theorem mem_recordTarget_written_iff {e : Effects} {access : Target × AccessKind}
    {var : Nat} :
    var ∈ (t.recordTarget e access).written ↔
      var ∈ e.written ∨
        (∃ m, access.1 = .matrix m ∧ var ∈ t.ofMatrix m) ∨
          ∃ s, access.1 = .subMatrix s ∧ s ≠ noSubMatrix ∧ access.2 ≠ .read ∧
            var ∈ t.ofSubMatrix s := by
  obtain ⟨target, kind⟩ := access
  cases target with
  | matrix m => simp [Partition.recordTarget]
  | subMatrix s =>
      by_cases hZero : s = noSubMatrix
      · simp [Partition.recordTarget, Partition.record, hZero]
      · cases kind <;> simp [Partition.recordTarget, Partition.record, hZero]

theorem mem_recordTarget_read_iff {e : Effects} {access : Target × AccessKind} {var : Nat} :
    var ∈ (t.recordTarget e access).read ↔
      var ∈ e.read ∨
        ∃ s, access.1 = .subMatrix s ∧ s ≠ noSubMatrix ∧ var ∈ t.ofSubMatrix s ∧
          (access.2 ≠ .write ∨ t.spansRows s = false) := by
  obtain ⟨target, kind⟩ := access
  cases target with
  | matrix m => simp [Partition.recordTarget]
  | subMatrix s =>
      by_cases hZero : s = noSubMatrix
      · simp [Partition.recordTarget, Partition.record, hZero]
      · cases kind with
        | read => simp [Partition.recordTarget, Partition.record, hZero]
        | readWrite => simp [Partition.recordTarget, Partition.record, hZero]
        | write =>
            cases hRows : t.spansRows s <;>
              simp [Partition.recordTarget, Partition.record, hZero, hRows]

theorem mem_foldl_recordTarget_written_iff {touched : List (Target × AccessKind)}
    {e : Effects} {var : Nat} :
    var ∈ (touched.foldl t.recordTarget e).written ↔
      var ∈ e.written ∨
        (∃ m kind, (.matrix m, kind) ∈ touched ∧ var ∈ t.ofMatrix m) ∨
          ∃ s kind, (.subMatrix s, kind) ∈ touched ∧ s ≠ noSubMatrix ∧ kind ≠ .read ∧
            var ∈ t.ofSubMatrix s := by
  induction touched generalizing e with
  | nil => simp
  | cons access rest ih =>
      obtain ⟨target, kind⟩ := access
      rw [List.foldl_cons, ih, mem_recordTarget_written_iff]
      cases target <;> grind

theorem mem_foldl_recordTarget_read_iff {touched : List (Target × AccessKind)}
    {e : Effects} {var : Nat} :
    var ∈ (touched.foldl t.recordTarget e).read ↔
      var ∈ e.read ∨
        ∃ s kind, (.subMatrix s, kind) ∈ touched ∧ s ≠ noSubMatrix ∧
          var ∈ t.ofSubMatrix s ∧ (kind ≠ .write ∨ t.spansRows s = false) := by
  induction touched generalizing e with
  | nil => simp
  | cons access rest ih =>
      obtain ⟨target, kind⟩ := access
      rw [List.foldl_cons, ih, mem_recordTarget_read_iff]
      cases target <;> grind

/-! ## The accesses of a command -/

theorem mem_pairSubMatrices_iff {pairs : List (Option (Nat × Nat))} {s : Nat} :
    s ∈ pairSubMatrices pairs ↔ ∃ row, some (s, row) ∈ pairs := by
  simp [pairSubMatrices]

/-- The sub-matrices that a slot touches are those that the command names there. -/
theorem mem_targets_subMatrix_iff {c : Command} {slot : Slot} {touched : List Target}
    {s : Nat} (h : p.targets c slot = .ok touched) :
    .subMatrix s ∈ touched ↔ p.Names c slot s := by
  -- The table of row pairs is never an operand by itself.
  have hOperand : ∀ slot', c.operand? slot' = some s → slot' ≠ .pairRows := by
    rintro slot' hNamed rfl
    cases c <;> simp [Command.operand?] at hNamed
  cases slot with
  | pairRows =>
      cases hTable : c.pairTable? with
      | none =>
          simp only [targets, hTable, Except.ok.injEq] at h
          subst h
          constructor
          · simp
          · rintro (hNamed | hPair)
            · exact absurd rfl (hOperand _ hNamed)
            · simp_all
      | some table =>
          cases hPairs : p.rowPairs[table]? with
          | none => simp [targets, hTable, hPairs] at h
          | some pairs =>
              simp only [targets, hTable, hPairs, Except.ok.injEq] at h
              subst h
              simp only [List.mem_map, Target.subMatrix.injEq, exists_eq_right,
                mem_pairSubMatrices_iff]
              constructor
              · rintro ⟨row, hEntry⟩
                exact .pairRow hTable hPairs hEntry
              · rintro (hNamed | ⟨hTable', hPairs', hEntry⟩)
                · exact absurd rfl (hOperand _ hNamed)
                · rw [hTable] at hTable'
                  cases hTable'
                  rw [hPairs] at hPairs'
                  cases hPairs'
                  exact ⟨_, hEntry⟩
  | wholeMatrix =>
      simp only [targets, Except.ok.injEq] at h
      subst h
      constructor
      · simp
      · rintro (hNamed | _)
        cases c <;> simp [Command.operand?] at hNamed
  | _ =>
      simp only [targets, Except.ok.injEq] at h
      subst h
      constructor
      · intro hMem
        exact .operand (by simpa using hMem)
      · rintro (hNamed | _)
        simpa using hNamed

/-- A slot touches a whole matrix only if it stands for the one that is allocated or
released. -/
theorem mem_targets_matrix_iff {c : Command} {slot : Slot} {touched : List Target}
    {m : Nat} (h : p.targets c slot = .ok touched) :
    .matrix m ∈ touched ↔ slot = .wholeMatrix ∧ c.resized? = some m := by
  cases slot with
  | wholeMatrix =>
      simp only [targets, Except.ok.injEq] at h
      subst h
      simp
  | pairRows =>
      simp only [targets] at h
      split at h
      · cases h
        simp
      · split at h
        · cases h
          simp
        · cases h
  | _ =>
      simp only [targets, Except.ok.injEq] at h
      subst h
      simp

/-- The accesses of a command are those of its rules. -/
theorem mem_accesses_iff {c : Command} {touched : List (Target × AccessKind)}
    {target : Target} {kind : AccessKind} (h : p.accesses net c = .ok touched) :
    (target, kind) ∈ touched ↔
      ∃ slot rule found, (slot, rule) ∈ c.opcode.rules ∧
        p.accessKind net c rule = .ok kind ∧ p.targets c slot = .ok found ∧
          target ∈ found := by
  obtain ⟨perRule, hRules, hFlat⟩ := Action.check_bind_eq_ok_iff.mp h
  cases hFlat
  simp only [List.mem_flatten, Action.mem_check_mapM_iff hRules, Prod.exists,
    Action.check_bind_eq_ok_iff]
  constructor
  · rintro ⟨_, ⟨slot, rule, hRule, kind', hKind, found, hFound, hEq⟩, hMem⟩
    cases hEq
    obtain ⟨target', hTarget, hPair⟩ := List.mem_map.mp hMem
    cases hPair
    exact ⟨slot, rule, found, hRule, hKind, hFound, hTarget⟩
  · rintro ⟨slot, rule, found, hRule, hKind, hFound, hTarget⟩
    exact ⟨_, ⟨slot, rule, hRule, kind, hKind, found, hFound, rfl⟩,
      List.mem_map.mpr ⟨target, hTarget, rfl⟩⟩

theorem exists_of_accesses {c : Command} {touched : List (Target × AccessKind)}
    {slot : Slot} {rule : Rule} (h : p.accesses net c = .ok touched)
    (hRule : (slot, rule) ∈ c.opcode.rules) :
    ∃ kind found, p.accessKind net c rule = .ok kind ∧ p.targets c slot = .ok found := by
  obtain ⟨perRule, hRules, -⟩ := Action.check_bind_eq_ok_iff.mp h
  have hEach := Action.check_mapM_eq_ok_iff.mp hRules
  have hMem : (p.accessKind net c rule >>= fun kind => p.targets c slot >>= fun found =>
      pure (found.map fun target => (target, kind))) ∈ perRule.map Except.ok := by
    rw [← hEach]
    exact List.mem_map_of_mem hRule
  obtain ⟨answer, -, hAnswer⟩ := List.mem_map.mp hMem
  obtain ⟨kind, hKind, found, hFound, -⟩ := by
    simpa only [Action.check_bind_eq_ok_iff] using hAnswer.symm
  exact ⟨kind, found, hKind, hFound⟩

/-- The sub-matrices among the accesses of a command are those that it accesses. -/
theorem mem_accesses_subMatrix_iff {c : Command} {touched : List (Target × AccessKind)}
    {s : Nat} {kind : AccessKind} (h : p.accesses net c = .ok touched) :
    (.subMatrix s, kind) ∈ touched ↔ p.Accesses net c s kind := by
  rw [mem_accesses_iff h]
  constructor
  · rintro ⟨slot, rule, found, hRule, hKind, hFound, hMem⟩
    exact ⟨slot, rule, hRule, hKind, (mem_targets_subMatrix_iff hFound).mp hMem⟩
  · rintro ⟨slot, rule, hRule, hKind, hNames⟩
    obtain ⟨_, found, -, hFound⟩ := exists_of_accesses h hRule
    exact ⟨slot, rule, found, hRule, hKind, hFound,
      (mem_targets_subMatrix_iff hFound).mpr hNames⟩

/-- The only whole matrix among the accesses of a command is one that it fills. -/
theorem mem_accesses_matrix_iff {c : Command} {touched : List (Target × AccessKind)}
    {m : Nat} (h : p.accesses net c = .ok touched) :
    (∃ kind, (.matrix m, kind) ∈ touched) ↔ c = .allocZeroed m := by
  simp only [mem_accesses_iff h]
  constructor
  · rintro ⟨kind, slot, rule, found, hRule, -, hFound, hMem⟩
    obtain ⟨rfl, hMatrix⟩ := (mem_targets_matrix_iff hFound).mp hMem
    -- Only one opcode has a rule for a whole matrix.
    cases c <;> simp [Command.opcode, Opcode.rules] at hRule
    simpa [Command.resized?, Command.allocated?] using hMatrix
  · rintro rfl
    exact ⟨.write, .wholeMatrix, .always .write, [.matrix m], by
      simp [Command.opcode, Opcode.rules], rfl, rfl, by simp⟩

/-! ## The effects of a command, column by column -/

/-- A view covers a variable exactly when it views any one column of it. -/
theorem WellFormed.mem_ofSubMatrix_iff_viewsColumn (hWell : p.WellFormed)
    (ht : p.partition = .ok t) {var m col s : Nat} (hCol : t.HasColumn var m col) :
    var ∈ t.ofSubMatrix s ↔ p.ViewsColumn s m col := by
  cases hView : p.subMatrix s with
  | error err =>
      have hNone : ∀ view, p.subMatrix s ≠ .ok view := by simp [hView]
      constructor
      · exact fun hMem => absurd hMem (ofSubMatrix_of_no_view ht hNone var)
      · intro h
        obtain ⟨view, hFound, -⟩ := h
        exact absurd hFound (hNone view)
  | ok view =>
      rw [hWell.mem_ofSubMatrix_iff ht hCol hView]
      constructor
      · exact fun hRange => ⟨view, hView, hRange⟩
      · intro h
        obtain ⟨view', hFound, hRange⟩ := h
        rw [hView] at hFound
        cases hFound
        exact hRange

theorem WellFormed.spansRows_eq_false_iff (hWell : p.WellFormed) (ht : p.partition = .ok t)
    {s m col : Nat} (hViews : p.ViewsColumn s m col) :
    t.spansRows s = false ↔ ¬p.ViewsAllRows s := by
  obtain ⟨view, hView, -⟩ := hViews
  obtain ⟨shape, hMatrix, -⟩ := hWell.fits hView
  rw [← Bool.not_eq_true, hWell.spansRows_iff ht hView hMatrix]
  refine not_congr ?_
  constructor
  · exact fun hSpans => ⟨view, shape, hView, hMatrix, hSpans⟩
  · intro h
    obtain ⟨view', shape', hView', hMatrix', hSpans⟩ := h
    rw [hView] at hView'
    cases hView'
    rw [hMatrix] at hMatrix'
    cases hMatrix'
    exact hSpans

theorem ViewsColumn.ne_noSubMatrix {s m col : Nat} (h : p.ViewsColumn s m col) :
    s ≠ noSubMatrix := by
  obtain ⟨view, hView, -⟩ := h
  exact (subMatrix_eq_ok_iff.mp hView).1

/-- A variable is written exactly when the command writes any one column of it. -/
theorem WellFormed.mem_written_iff (hWell : p.WellFormed) (ht : p.partition = .ok t)
    {c : Command} {e : Effects} (he : p.commandEffects net t c = .ok e)
    {var m col : Nat} (hCol : t.HasColumn var m col) :
    var ∈ e.written ↔ p.WritesColumn net c m col := by
  obtain ⟨touched, hTouched, updates, -, hEq⟩ := by
    simpa only [commandEffects, Action.check_bind_eq_ok_iff] using he
  cases hEq
  simp only [Effects.ascending, Ascending.mem_ofList_iff,
    mem_foldl_recordTarget_written_iff, Effects.none, List.not_mem_nil, false_or,
    mem_accesses_subMatrix_iff hTouched]
  refine or_congr ?_ ?_
  · constructor
    · intro h
      obtain ⟨m', kind, hMem, hVar⟩ := h
      have hSame := hCol.1.symm.trans (Partition.mem_ofMatrix_iff.mp hVar)
      cases hSame
      exact ⟨(mem_accesses_matrix_iff hTouched).mp ⟨kind, hMem⟩,
        hWell.lt_of_hasColumn ht hCol⟩
    · intro h
      obtain ⟨hFills, -⟩ := h
      obtain ⟨kind, hMem⟩ := (mem_accesses_matrix_iff hTouched).mpr hFills
      exact ⟨m, kind, hMem, Partition.mem_ofMatrix_iff.mpr hCol.1⟩
  · constructor
    · intro h
      obtain ⟨s, kind, hAccess, -, hKind, hVar⟩ := h
      exact ⟨s, kind, hAccess, (hWell.mem_ofSubMatrix_iff_viewsColumn ht hCol).mp hVar, hKind⟩
    · intro h
      obtain ⟨s, kind, hAccess, hViews, hKind⟩ := h
      exact ⟨s, kind, hAccess, hViews.ne_noSubMatrix, hKind,
        (hWell.mem_ofSubMatrix_iff_viewsColumn ht hCol).mpr hViews⟩

/-- A variable is read exactly when the command reads any one column of it. -/
theorem WellFormed.mem_read_iff (hWell : p.WellFormed) (ht : p.partition = .ok t)
    {c : Command} {e : Effects} (he : p.commandEffects net t c = .ok e)
    {var m col : Nat} (hCol : t.HasColumn var m col) :
    var ∈ e.read ↔ p.ReadsColumn net c m col := by
  obtain ⟨touched, hTouched, updates, -, hEq⟩ := by
    simpa only [commandEffects, Action.check_bind_eq_ok_iff] using he
  cases hEq
  simp only [Effects.ascending, Ascending.mem_ofList_iff,
    mem_foldl_recordTarget_read_iff, Effects.none, List.not_mem_nil, false_or,
    mem_accesses_subMatrix_iff hTouched]
  constructor
  · intro h
    obtain ⟨s, kind, hAccess, -, hVar, hKind⟩ := h
    have hViews := (hWell.mem_ofSubMatrix_iff_viewsColumn ht hCol).mp hVar
    exact ⟨s, kind, hAccess, hViews,
      hKind.imp_right (hWell.spansRows_eq_false_iff ht hViews).mp⟩
  · intro h
    obtain ⟨s, kind, hAccess, hViews, hKind⟩ := h
    exact ⟨s, kind, hAccess, hViews.ne_noSubMatrix,
      (hWell.mem_ofSubMatrix_iff_viewsColumn ht hCol).mpr hViews,
      hKind.imp_right (hWell.spansRows_eq_false_iff ht hViews).mpr⟩

/-- The effects of a command are variables of the partition. -/
theorem WellFormed.exists_matrixOf_of_mem_touched (hWell : p.WellFormed)
    (ht : p.partition = .ok t) {c : Command} {e : Effects}
    (he : p.commandEffects net t c = .ok e) {var : Nat} (hMem : var ∈ e.read ++ e.written) :
    ∃ m, t.matrixOf var = .ok m := by
  obtain ⟨touched, -, updates, -, hEq⟩ := by
    simpa only [commandEffects, Action.check_bind_eq_ok_iff] using he
  cases hEq
  simp only [Effects.ascending, List.mem_append, Ascending.mem_ofList_iff,
    mem_foldl_recordTarget_read_iff, mem_foldl_recordTarget_written_iff, Effects.none,
    List.not_mem_nil, false_or] at hMem
  have hOfView : ∀ s, var ∈ t.ofSubMatrix s → ∃ m, t.matrixOf var = .ok m := by
    intro s hVar
    cases hView : p.subMatrix s with
    | error err =>
        exact absurd hVar (ofSubMatrix_of_no_view ht (by simp [hView]) var)
    | ok view => exact ⟨_, hWell.matrixOf_of_mem_ofSubMatrix ht hView hVar⟩
  rcases hMem with ⟨s, _, -, -, hVar, -⟩ | ⟨m, _, -, hVar⟩ | ⟨s, _, -, -, -, hVar⟩
  · exact hOfView s hVar
  · exact ⟨m, Partition.mem_ofMatrix_iff.mp hVar⟩
  · exact hOfView s hVar

/-! ## Every operand has a rule -/

theorem exists_rule_of_operand {c : Command} {slot : Slot} {s : Nat}
    (h : c.operand? slot = some s) : ∃ rule, (slot, rule) ∈ c.opcode.rules := by
  cases c <;> cases slot <;> simp [Command.operand?] at h <;>
    simp [Command.opcode, Opcode.rules]

theorem exists_rule_of_pairTable {c : Command} {table : Nat}
    (h : c.pairTable? = some table) : ∃ rule, (.pairRows, rule) ∈ c.opcode.rules := by
  cases c <;> simp [Command.pairTable?] at h <;> simp [Command.opcode, Opcode.rules]

theorem ReadsColumn.touches {c : Command} {m col : Nat} (h : p.ReadsColumn net c m col) :
    p.TouchesColumn c m col := by
  obtain ⟨s, kind, ⟨slot, rule, -, -, hNames⟩, hViews, -⟩ := h
  exact .inr ⟨slot, s, hNames, hViews⟩

theorem WritesColumn.touches {c : Command} {m col : Nat} (h : p.WritesColumn net c m col) :
    p.TouchesColumn c m col := by
  rcases h with hFills | ⟨s, kind, ⟨slot, rule, -, -, hNames⟩, hViews, -⟩
  · exact .inl hFills
  · exact .inr ⟨slot, s, hNames, hViews⟩

/-- A command touches a column exactly when it reads or writes it: no operand is without a
rule. -/
theorem touchesColumn_iff {c : Command} {e : Effects} {m col : Nat}
    (he : p.commandEffects net t c = .ok e) :
    p.TouchesColumn c m col ↔ p.ReadsColumn net c m col ∨ p.WritesColumn net c m col := by
  obtain ⟨touched, hTouched, -⟩ := Action.check_bind_eq_ok_iff.mp he
  constructor
  · rintro (hFills | ⟨slot, s, hNames, hViews⟩)
    · exact .inr (.inl hFills)
    · have hRule : ∃ rule, (slot, rule) ∈ c.opcode.rules := by
        cases hNames with
        | operand hOperand => exact exists_rule_of_operand hOperand
        | pairRow hTable => exact exists_rule_of_pairTable hTable
      obtain ⟨rule, hRule⟩ := hRule
      obtain ⟨kind, _, hKind, -⟩ := exists_of_accesses hTouched hRule
      have hAccess : p.Accesses net c s kind := ⟨slot, rule, hRule, hKind, hNames⟩
      by_cases hWrite : kind = .write
      · exact .inr (.inr ⟨s, kind, hAccess, hViews, by simp [hWrite]⟩)
      · exact .inl ⟨s, kind, hAccess, hViews, .inl hWrite⟩
  · intro h
    rcases h with hReads | hWrites
    · exact hReads.touches
    · exact hWrites.touches

/-! ## The effects exist -/

theorem exists_component_of_check {c : Command} {k : Nat}
    (h : p.checkCommand net c = .ok ()) (hComponent : c.component? = some k) :
    ∃ component, net.component k = .ok component := by
  cases c with
  | propagate =>
      cases hComponent
      obtain ⟨component, _, _, hFits⟩ := checkPropagate_eq_ok_iff.mp h
      exact ⟨component, hFits.layer⟩
  | storeStats =>
      cases hComponent
      obtain ⟨component, _, hFits⟩ := checkStoreStats_eq_ok_iff.mp h
      exact ⟨component, hFits.layer⟩
  | backprop =>
      cases hComponent
      obtain ⟨component, _, _, _, _, hFits⟩ := backpropFits_of_check h
      exact ⟨component, hFits.layer⟩
  | _ => cases hComponent

theorem exists_capabilitiesOf {c : Command} {k : Nat} (h : p.checkCommand net c = .ok ())
    (hComponent : c.component? = some k) : ∃ caps, capabilitiesOf net k = .ok caps := by
  obtain ⟨component, hFound⟩ := exists_component_of_check h hComponent
  exact ⟨component.capabilities, by simp [capabilitiesOf, hFound]⟩

theorem exists_accessKind {c : Command} (rule : Rule)
    (h : p.checkCommand net c = .ok ()) : ∃ kind, p.accessKind net c rule = .ok kind := by
  have hCaps : ∃ caps, commandCapabilities net c = .ok caps := by
    unfold commandCapabilities
    split
    · exact exists_capabilitiesOf h ‹_›
    · exact ⟨_, rfl⟩
  obtain ⟨caps, hCaps⟩ := hCaps
  cases rule with
  | always kind => exact ⟨kind, rfl⟩
  | writeOrReadWriteIf condition =>
      have hHolds : ∃ b, p.holds net c condition = .ok b := by
        cases condition with
        | propagateAdds => exact ⟨_, by rw [holds, hCaps]; rfl⟩
        | backpropAdds => exact ⟨_, by rw [holds, hCaps]; rfl⟩
        | indexAbsent =>
            cases c with
            | gatherCopy dst src table =>
                obtain ⟨_, _, rows, hFits⟩ := checkGather_eq_ok_iff.mp h
                exact ⟨rows.any Option.isNone, by simp [holds, hFits.entries]⟩
            | _ => exact ⟨false, rfl⟩
      obtain ⟨b, hHolds⟩ := hHolds
      rw [accessKind, hHolds]
      cases b
      · exact ⟨.write, rfl⟩
      · exact ⟨.readWrite, rfl⟩

theorem exists_targets {c : Command} (slot : Slot) (h : p.checkCommand net c = .ok ()) :
    ∃ found, p.targets c slot = .ok found := by
  cases slot with
  | pairRows =>
      cases hTable : c.pairTable? with
      | none => exact ⟨[], by simp [targets, hTable]⟩
      | some table =>
          obtain ⟨pairs, hPairs⟩ := exists_rowPairs_of_check h hTable
          exact ⟨_, by simp only [targets, hTable, hPairs]; rfl⟩
  | _ => exact ⟨_, rfl⟩

/-- A command that passes the operand check has effects, whatever the partition. -/
theorem exists_commandEffects (t : Partition) {c : Command}
    (h : p.checkCommand net c = .ok ()) : ∃ e, p.commandEffects net t c = .ok e := by
  have hEach : ∀ entry ∈ c.opcode.rules, ∃ found,
      (p.accessKind net c entry.2 >>= fun kind => p.targets c entry.1 >>= fun touched =>
        pure (touched.map fun target => (target, kind))) = .ok found := by
    intro entry _
    obtain ⟨kind, hKind⟩ := exists_accessKind entry.2 h
    obtain ⟨found, hFound⟩ := exists_targets entry.1 h
    refine ⟨found.map fun target => (target, kind), ?_⟩
    rw [hKind, Action.check_ok_bind, hFound]
    rfl
  obtain ⟨perRule, hRules⟩ := Action.exists_check_mapM hEach
  have hUpdates : ∃ updates, hasSideEffects net c = .ok updates := by
    cases c with
    | backprop =>
        obtain ⟨caps, hCaps⟩ := exists_capabilitiesOf h rfl
        refine ⟨caps.updatable, ?_⟩
        rw [hasSideEffects, hCaps]
        rfl
    | _ => exact ⟨false, rfl⟩
  obtain ⟨updates, hUpdates⟩ := hUpdates
  have hAccesses : p.accesses net c = .ok perRule.flatten :=
    Action.check_bind_eq_ok_iff.mpr ⟨perRule, hRules, rfl⟩
  exact ⟨_, Action.check_bind_eq_ok_iff.mpr ⟨_, hAccesses,
    Action.check_bind_eq_ok_iff.mpr ⟨updates, hUpdates, rfl⟩⟩⟩

/-! ## The sub-matrix that a command writes -/

/-- The sub-matrix that a command writes is one of its operands, with a rule that is not for
reading. -/
theorem exists_rule_of_written {c : Command} {dst : Nat} (hWritten : c.written? = some dst) :
    ∃ slot rule, (slot, rule) ∈ c.opcode.rules ∧ rule ≠ .always .read ∧
      c.operand? slot = some dst := by
  cases c with
  | propagate =>
      exact ⟨.output, .writeOrReadWriteIf .propagateAdds,
        by simp [Command.opcode, Opcode.rules], by decide, hWritten⟩
  | backprop node c precomputed inValue outValue outDeriv inDeriv =>
      have hOperand : some inDeriv = some dst := by
        simp only [Command.written?] at hWritten
        split at hWritten
        · cases hWritten
        · exact hWritten
      exact ⟨.inDeriv, .writeOrReadWriteIf .backpropAdds,
        by simp [Command.opcode, Opcode.rules], by decide, hOperand⟩
  | copy =>
      exact ⟨.dst, .always .write, by simp [Command.opcode, Opcode.rules], by decide, hWritten⟩
  | add =>
      exact ⟨.dst, .always .readWrite, by simp [Command.opcode, Opcode.rules], by decide, hWritten⟩
  | gatherAdd =>
      exact ⟨.dst, .always .readWrite, by simp [Command.opcode, Opcode.rules], by decide, hWritten⟩
  | gatherCopy =>
      exact ⟨.dst, .writeOrReadWriteIf .indexAbsent,
        by simp [Command.opcode, Opcode.rules], by decide, hWritten⟩
  | gatherAddMany =>
      exact ⟨.dst, .always .readWrite, by simp [Command.opcode, Opcode.rules], by decide, hWritten⟩
  | gatherCopyMany =>
      exact ⟨.dst, .always .write, by simp [Command.opcode, Opcode.rules], by decide, hWritten⟩
  | sumRanges =>
      exact ⟨.dst, .always .readWrite, by simp [Command.opcode, Opcode.rules], by decide, hWritten⟩
  | _ => cases hWritten

theorem ne_read_of_accessKind {c : Command} {rule : Rule} {kind : AccessKind}
    (hRule : rule ≠ .always .read) (hKind : p.accessKind net c rule = .ok kind) :
    kind ≠ .read := by
  cases rule with
  | always kind' =>
      cases hKind
      rintro rfl
      exact hRule rfl
  | writeOrReadWriteIf condition =>
      obtain ⟨b, -, hEq⟩ := Action.check_bind_eq_ok_iff.mp hKind
      cases b <;> cases hEq <;> decide

/-- The sub-matrix that a checked command writes is accessed, and not for reading. -/
theorem exists_accesses_of_written {c : Command} {dst : Nat}
    (hCheck : p.checkCommand net c = .ok ()) (hWritten : c.written? = some dst) :
    ∃ kind, p.Accesses net c dst kind ∧ kind ≠ .read := by
  obtain ⟨slot, rule, hRule, hNotRead, hOperand⟩ := exists_rule_of_written hWritten
  obtain ⟨kind, hKind⟩ := exists_accessKind rule hCheck
  exact ⟨kind, ⟨slot, rule, hRule, hKind, .operand hOperand⟩,
    ne_read_of_accessKind hNotRead hKind⟩

end Program

end MatrixProgram
