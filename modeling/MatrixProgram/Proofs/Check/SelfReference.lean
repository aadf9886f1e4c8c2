import MatrixProgram.Proofs.Check.Discipline

/-!
# Commands that must not refer to themselves

A propagation or a backprop may work in place only if its component can, and the commands
that move rows may never read what they write.  The check compares the indexes of the
sub-matrices for that, so in an accepted program they differ.  Where no two sub-matrices of
a program view the same region, that keeps the regions different as well.

The builder numbers every view, also one of a region that has a number already.  Through
such a view a command can still read the region that it writes.  The analysis does know of
it: every column of the region counts as read and as written, so some earlier command has
written it, unless it is supplied, and no earlier command that the rewrite pass has seen
merely reads it.
-/

namespace MatrixProgram

namespace Program

variable {p : Program} {net : Network} {c : Command} {read written : Nat}

/-- Two sub-matrices view the same region of the same matrix. -/
def SameRegion (p : Program) (s s' : Nat) : Prop :=
  ∃ view, p.subMatrix s = .ok view ∧ p.subMatrix s' = .ok view

/-- Where no sub-matrix occurs twice, every region has one index. -/
theorem SameRegion.eq_of_nodup {s s' : Nat} (h : p.SameRegion s s')
    (hNodup : p.subMatrices.Nodup) : s = s' := by
  obtain ⟨view, hView, hView'⟩ := h
  have hAt := (subMatrix_eq_ok_iff.mp hView).2
  have hAt' := (subMatrix_eq_ok_iff.mp hView').2
  exact (List.getElem?_inj (List.getElem?_eq_some_iff.mp hAt).1 hNodup).mp
    (hAt.trans hAt'.symm)

/-- A command may not read a sub-matrix and write it, both at once: it applies a component
that cannot work in place, or it moves rows. -/
inductive KeepsApart (p : Program) (net : Network) : Command → Nat → Nat → Prop where
  | propagate {k input output : Nat} {precomputed : Option Nat} {component : Component}
      (hLayer : net.component k = .ok component)
      (hNot : component.capabilities.propagateInPlace = false) :
      KeepsApart p net (.propagate k precomputed input output) input output
  | backprop {node k inValue outValue outDeriv inDeriv : Nat} {precomputed : Option Nat}
      {component : Component} (hLayer : net.component k = .ok component)
      (hNot : component.capabilities.backpropInPlace = false) :
      KeepsApart p net (.backprop node k precomputed inValue outValue outDeriv inDeriv)
        outDeriv inDeriv
  | move {c : Command} {dst src : Nat} (hDst : c.operand? .dst = some dst)
      (hSrc : c.operand? .src = some src) : KeepsApart p net c src dst
  | gather {c : Command} {dst s : Nat} (hDst : c.operand? .dst = some dst)
      (hRow : p.Names c .pairRows s) : KeepsApart p net c s dst
  | scatter {c : Command} {src s : Nat} (hSrc : c.operand? .src = some src)
      (hRow : p.Names c .pairRows s) : KeepsApart p net c src s

/-! ## Different sub-matrices -/

/-- A command with a table of row pairs is checked against its own sub-matrix. -/
private theorem checkRowPairs_of_checkCommand {own table : Nat}
    (hCheck : p.checkCommand net c = .ok ()) (hTable : c.pairTable? = some table)
    (hOwn : c.operand? .dst = some own ∨ c.operand? .src = some own) :
    ∃ scatters, p.checkRowPairs own table scatters = .ok () := by
  cases c <;> simp [Command.pairTable?] at hTable <;> simp [Command.operand?] at hOwn <;>
    subst hTable hOwn <;> exact ⟨_, hCheck⟩

/-- The rows that a command gathers or scatters are not of its own sub-matrix. -/
private theorem ne_of_names_pairRows {own s : Nat} (hCheck : p.checkCommand net c = .ok ())
    (hOwn : c.operand? .dst = some own ∨ c.operand? .src = some own)
    (hRow : p.Names c .pairRows s) : s ≠ own := by
  cases hRow with
  | operand hOperand => cases c <;> cases hOperand
  | @pairRow table _ row pairs hTable hPairs hEntry =>
      obtain ⟨scatters, hRows⟩ := checkRowPairs_of_checkCommand hCheck hTable hOwn
      obtain ⟨view, pairs', hFits⟩ := checkRowPairs_eq_ok_iff.mp hRows
      obtain rfl : pairs = pairs' := Option.some.inj (hPairs.symm.trans hFits.entries)
      obtain ⟨other, -, -, hNe, -⟩ := hFits.pair s row hEntry
      exact hNe

/-- A command does not move rows of a sub-matrix to itself. -/
private theorem ne_of_moves {dst src : Nat} (hCheck : p.checkCommand net c = .ok ())
    (hDst : c.operand? .dst = some dst) (hSrc : c.operand? .src = some src) : dst ≠ src := by
  cases c <;> cases hDst <;> cases hSrc
  case copy | add =>
    obtain ⟨_, _, hFits⟩ := checkCopy_eq_ok_iff.mp hCheck
    exact hFits.ne
  case gatherAdd | gatherCopy =>
    obtain ⟨_, _, _, hFits⟩ := checkGather_eq_ok_iff.mp hCheck
    exact hFits.ne
  case sumRanges =>
    obtain ⟨_, _, _, hFits⟩ := checkRowRanges_eq_ok_iff.mp hCheck
    exact hFits.ne

/-- A command that passes the check of its operands reads and writes different
sub-matrices. -/
theorem KeepsApart.ne (hCheck : p.checkCommand net c = .ok ())
    (h : p.KeepsApart net c read written) : read ≠ written := by
  cases h with
  | @propagate k input output precomputed component hLayer hNot =>
      obtain ⟨component', _, _, hFits⟩ := checkPropagate_eq_ok_iff.mp hCheck
      obtain rfl : component = component' := Except.ok.inj (hLayer.symm.trans hFits.layer)
      intro hEq
      simpa [hNot] using hFits.inPlace hEq
  | @backprop node k inValue outValue outDeriv inDeriv precomputed component hLayer hNot =>
      obtain ⟨component', _, _, _, _, hFits⟩ := backpropFits_of_check hCheck
      obtain rfl : component = component' := Except.ok.inj (hLayer.symm.trans hFits.layer)
      intro hEq
      simpa [hNot] using hFits.inPlace hEq
  | move hDst hSrc => exact (ne_of_moves hCheck hDst hSrc).symm
  | gather hDst hRow => exact ne_of_names_pairRows hCheck (.inl hDst) hRow
  | scatter hSrc hRow => exact (ne_of_names_pairRows hCheck (.inr hSrc) hRow).symm

/-! ## What the analysis knows of a region that is read and written -/

theorem exists_pairTable_of_names {s : Nat} (hRow : p.Names c .pairRows s) :
    ∃ table, c.pairTable? = some table := by
  cases hRow with
  | operand hOperand => cases c <;> cases hOperand
  | @pairRow table _ _ _ hTable _ _ => exact ⟨table, hTable⟩

/-- The one sub-matrix is accessed for reading, also if it is written too. -/
theorem KeepsApart.accesses_read (h : p.KeepsApart net c read written) :
    ∃ kind, p.Accesses net c read kind ∧ kind ≠ .write := by
  have hAlways : ∀ slot, (slot, .always .read) ∈ c.opcode.rules → p.Names c slot read →
      ∃ kind, p.Accesses net c read kind ∧ kind ≠ .write := fun slot hRule hNames =>
    ⟨.read, ⟨_, _, hRule, rfl, hNames⟩, by decide⟩
  cases h with
  | propagate => exact hAlways .input (by simp [Command.opcode, Opcode.rules]) (.operand rfl)
  | backprop => exact hAlways .outDeriv (by simp [Command.opcode, Opcode.rules]) (.operand rfl)
  | move hDst hSrc =>
      refine hAlways .src ?_ (.operand hSrc)
      cases c <;> cases hDst <;> cases hSrc <;>
        simp [Command.opcode, Opcode.rules]
  | gather hDst hRow =>
      refine hAlways .pairRows ?_ hRow
      obtain ⟨table, hTable⟩ := exists_pairTable_of_names hRow
      cases c <;> cases hTable <;> cases hDst <;>
        simp [Command.opcode, Opcode.rules]
  | scatter hSrc hRow =>
      refine hAlways .src ?_ (.operand hSrc)
      obtain ⟨table, hTable⟩ := exists_pairTable_of_names hRow
      cases c <;> cases hTable <;> cases hSrc <;>
        simp [Command.opcode, Opcode.rules]

/-- The other one, if it is there, is accessed for writing. -/
theorem KeepsApart.accesses_written (hCheck : p.checkCommand net c = .ok ())
    (h : p.KeepsApart net c read written) (hPresent : written ≠ noSubMatrix) :
    ∃ kind, p.Accesses net c written kind ∧ kind ≠ .read := by
  cases h with
  | propagate => exact exists_accesses_of_written hCheck rfl
  | backprop => exact exists_accesses_of_written hCheck (if_neg hPresent)
  | move hDst hSrc =>
      refine exists_accesses_of_written hCheck ?_
      cases c <;> cases hDst <;> cases hSrc <;> rfl
  | gather hDst hRow =>
      refine exists_accesses_of_written hCheck ?_
      obtain ⟨table, hTable⟩ := exists_pairTable_of_names hRow
      cases c <;> cases hTable <;> cases hDst <;> rfl
  | scatter hSrc hRow =>
      refine ⟨.readWrite, ⟨.pairRows, .always .readWrite, ?_, rfl, hRow⟩, by decide⟩
      obtain ⟨table, hTable⟩ := exists_pairTable_of_names hRow
      cases c <;> cases hTable <;> cases hSrc <;>
        simp [Command.opcode, Opcode.rules]

/-- A region that a command reads and writes through two sub-matrices counts as read and as
written, column by column. -/
theorem KeepsApart.reads_writes (hCheck : p.checkCommand net c = .ok ())
    (h : p.KeepsApart net c read written) {view : SubMatrix}
    (hRead : p.subMatrix read = .ok view) (hWritten : p.subMatrix written = .ok view) {col : Nat}
    (hCol : view.region.colOffset ≤ col ∧ col < view.region.colEnd) :
    p.ReadsColumn net c view.matrix col ∧ p.WritesColumn net c view.matrix col := by
  obtain ⟨kind, hAccess, hKind⟩ := h.accesses_read
  obtain ⟨kind', hAccess', hKind'⟩ :=
    h.accesses_written hCheck (subMatrix_eq_ok_iff.mp hWritten).1
  exact ⟨⟨read, kind, hAccess, ⟨view, hRead, rfl, hCol⟩, .inl hKind⟩,
    .inr ⟨written, kind', hAccess', ⟨view, hWritten, rfl, hCol⟩, hKind'⟩⟩

/-- A column that a command reads and writes has been written by an earlier command, unless
its matrix is supplied. -/
theorem Disciplined.written_before {b : Bool} (h : p.Disciplined net b) (hWell : p.WellFormed)
    {i m col : Nat} (hCommand : p.commands[i]? = some c)
    (hTouches : p.TouchesColumn c m col) (hReads : p.ReadsColumn net c m col)
    (hNotSupplied : m ∉ p.supplied net) :
    ∃ j d, j < i ∧ p.commands[j]? = some d ∧ p.WritesColumn net d m col := by
  obtain ⟨shape, hMatrix, hLt⟩ := hWell.lt_of_touchesColumn hTouches
  obtain ⟨j, d, hFirst, hWrites⟩ := h.touched hMatrix hLt
  obtain ⟨hWritten, hNotRead⟩ := hWrites hNotSupplied
  refine ⟨j, d, ?_, hFirst.command, hWritten⟩
  rcases Nat.lt_trichotomy j i with hBefore | rfl | hAfter
  · exact hBefore
  · -- The first command on the column reads nothing, so it is another one.
    obtain rfl : d = c := Option.some.inj (hFirst.command.symm.trans hCommand)
    exact absurd hReads hNotRead
  · exact absurd hTouches (hFirst.first hAfter hCommand)

/-- In an accepted program a command that must not refer to itself names two different
sub-matrices, and so two different regions, unless a region has two sub-matrices.  If it does
read the region that it writes, an earlier command has written all of it, unless it is
supplied, and no earlier command merely reads a column of it where that is checked. -/
theorem named_apart {r : Request} {unchangedAfterRead : Bool} (hBuilt : p.Built)
    (hAccepted : p.Accepted net r unchangedAfterRead) {i : Nat}
    (hCommand : p.commands[i]? = some c) (h : p.KeepsApart net c read written) :
    read ≠ written ∧
      (p.subMatrices.Nodup → ¬p.SameRegion read written) ∧
      ∀ view, p.subMatrix read = .ok view → p.subMatrix written = .ok view →
        ∀ col, view.region.colOffset ≤ col → col < view.region.colEnd →
          p.ReadsColumn net c view.matrix col ∧ p.WritesColumn net c view.matrix col ∧
          (view.matrix ∉ p.supplied net → ∃ j d, j < i ∧ p.commands[j]? = some d ∧
            p.WritesColumn net d view.matrix col) ∧
          (unchangedAfterRead = true → ∀ j d, j < i → p.commands[j]? = some d →
            p.ReadsColumn net d view.matrix col → p.WritesColumn net d view.matrix col) := by
  have hCheck := checkOperands_eq_ok_iff.mp hAccepted.checkOperands i c hCommand
  have hNe := h.ne hCheck
  refine ⟨hNe, fun hNodup hSame => hNe (hSame.eq_of_nodup hNodup), ?_⟩
  intro view hRead hWritten col hFrom hTo
  have hDisciplined := hAccepted.disciplined hBuilt.wellFormed
  obtain ⟨hReads, hWrites⟩ := h.reads_writes hCheck hRead hWritten ⟨hFrom, hTo⟩
  refine ⟨hReads, hWrites, ?_, ?_⟩
  · exact hDisciplined.written_before hBuilt.wellFormed hCommand hReads.touches hReads
  · intro hFlag j d hLt hEarlier hReadsEarlier
    apply Classical.byContradiction
    intro hNotWritten
    exact hDisciplined.unchanged hFlag hLt hEarlier hCommand hReadsEarlier hNotWritten hWrites

/-! ## A region with two sub-matrices -/

/-- One affine component, from an input node to an output node. -/
def scaleNetwork : Network :=
  { components := [("affine", .affine
      ⟨1, 1, Dense.ofFn fun _ _ => 2, Dense.ofFn fun _ _ => 0, 0⟩)]
    nodes := [⟨"in", .input⟩, ⟨"layer", .component 0⟩, ⟨"out", .output⟩] }

/-- The input is the output.  The component reads it through one sub-matrix and writes it
through another, and one is copied to the other. -/
def aliasProgram : Program :=
  BuildStep.runAll
    [.matrix 1 1, .subMatrix 1 ⟨0, 1, 0, 1⟩, .bind 0 1 none, .bind 2 1 none,
      .command (.propagate 0 none 1 2), .command (.copy 1 2), .recordedMarker]
    .empty

theorem aliasProgram_accepted (unchangedAfterRead : Bool) :
    aliasProgram.Accepted scaleNetwork throughRequest unchangedAfterRead := by
  cases unchangedAfterRead with
  | false => exact ⟨_, rfl⟩
  | true => exact ⟨_, rfl⟩

theorem aliasProgram_keepsApart :
    aliasProgram.KeepsApart scaleNetwork (.propagate 0 none 1 2) 1 2 :=
  .propagate rfl rfl

/-- The program is accepted, though its component cannot work in place and both of its commands
read the region that they write. -/
theorem aliasProgram_inPlace :
    aliasProgram.Built ∧
      (∀ unchangedAfterRead,
        aliasProgram.Accepted scaleNetwork throughRequest unchangedAfterRead) ∧
      aliasProgram.commands[0]? = some (.propagate 0 none 1 2) ∧
      aliasProgram.commands[1]? = some (.copy 1 2) ∧
      aliasProgram.KeepsApart scaleNetwork (.propagate 0 none 1 2) 1 2 ∧
      aliasProgram.KeepsApart scaleNetwork (.copy 1 2) 2 1 ∧
      aliasProgram.SameRegion 1 2 ∧ aliasProgram.SameRegion 2 1 :=
  ⟨⟨_, rfl⟩, aliasProgram_accepted, rfl, rfl, aliasProgram_keepsApart, .move rfl rfl,
    ⟨_, rfl, rfl⟩, ⟨_, rfl, rfl⟩⟩

/-- A program that copies one matrix to another names two regions.  Where a region has two
sub-matrices, the analysis records that the command reads and writes it. -/
theorem throughProgram_named_apart :
    ¬throughProgram.SameRegion 1 2 ∧
      aliasProgram.ReadsColumn scaleNetwork (.propagate 0 none 1 2) 1 0 ∧
        aliasProgram.WritesColumn scaleNetwork (.propagate 0 none 1 2) 1 0 := by
  have hCopy : throughProgram.KeepsApart throughNetwork (.copy 2 1) 1 2 := .move rfl rfl
  have hThrough :=
    named_apart throughProgram_built throughProgram_accepted (i := 1) rfl hCopy
  have hAlias := named_apart (i := 0) ⟨_, rfl⟩ (aliasProgram_accepted true) rfl
    aliasProgram_keepsApart
  obtain ⟨hReads, hWrites, -⟩ := hAlias.2.2 _ rfl rfl 0 (by decide) (by decide)
  exact ⟨hThrough.2.1 (by decide), hReads, hWrites⟩

end Program

end MatrixProgram
