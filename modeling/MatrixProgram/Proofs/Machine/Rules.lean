import MatrixProgram.Proofs.Analysis.Columns
import MatrixProgram.Proofs.Machine.Footprint

/-!
# Keeping to the rules

The table of access rules says of each operand how a command accesses it.  `KeepsRules` says
of an action that it behaves as the rules of a command promise: it changes the columns that
the command writes only, and the columns that it reads are all that the result can depend on.

A command that writes one sub-matrix keeps to its rules if it sets every row of it wherever
the rule says `write`, `write_keepsRules`.  Where some rows could keep their old values, the
rule says `readWrite`, or the analysis counts the write as a read as well.
-/

namespace MatrixProgram

namespace Program

/-- The matrices of the sub-matrices that a command names. -/
def Owns (p : Program) (c : Command) (m : Nat) : Prop :=
  ∃ slot s view, p.Names c slot s ∧ p.subMatrix s = .ok view ∧ view.matrix = m

variable {p : Program} {net : Network} {c : Command}

theorem names_iff {slot : Slot} {s : Nat} (hSlot : slot ≠ .pairRows) :
    p.Names c slot s ↔ c.operand? slot = some s := by
  constructor
  · intro h
    cases h with
    | operand hOperand => exact hOperand
    | pairRow => exact absurd rfl hSlot
  · exact .operand

/-- An operand views some column, so the command touches a column of its matrix. -/
theorem exists_touchesColumn_of_owns {m : Nat} (hWell : p.WellFormed) (h : p.Owns c m) :
    ∃ col, p.TouchesColumn c m col := by
  obtain ⟨slot, operand, view, hNames, hView, rfl⟩ := h
  have hColumn := (hWell.nonempty hView).2
  exact ⟨view.region.colOffset, .inr ⟨slot, operand, hNames, view, hView, rfl, Nat.le_refl _, by
    simp only [Region.colEnd]; omega⟩⟩

theorem viewsColumn_of_contains {s row col : Nat} {view : SubMatrix}
    (hView : p.subMatrix s = .ok view) (hIn : view.region.Contains row col) :
    p.ViewsColumn s view.matrix col :=
  ⟨view, hView, rfl, hIn.2⟩

/-- The rules of a command that writes a single sub-matrix are for reading, but for the one
of that sub-matrix. -/
theorem rule_of_written {dst : Nat} {slot : Slot} {rule : Rule}
    (hWritten : c.written? = some dst) (hRule : (slot, rule) ∈ c.opcode.rules) :
    rule = .always .read ∨ slot ≠ .pairRows ∧ c.operand? slot = some dst := by
  cases c <;> simp [Command.written?] at hWritten <;>
    cases slot <;> simp [Command.opcode, Opcode.rules] at hRule <;>
    simp [Command.operand?, hRule, hWritten]

/-- A command that writes a single sub-matrix accesses all others for reading. -/
theorem eq_of_accesses {dst s : Nat} {kind : AccessKind} (hWritten : c.written? = some dst)
    (hAccess : p.Accesses net c s kind) (hKind : kind ≠ .read) : s = dst := by
  obtain ⟨slot, rule, hRule, hResolved, hNames⟩ := hAccess
  rcases rule_of_written hWritten hRule with rfl | ⟨hSlot, hOperand⟩
  · cases hResolved
    exact absurd rfl hKind
  · rw [names_iff hSlot, hOperand] at hNames
    exact (Option.some.inj hNames).symm

end Program

namespace Machine

open Program

variable {x : Machine} {c : Command} {A : ElementSet}

/-- The elements that a command may change. -/
def written (x : Machine) (c : Command) : ElementSet :=
  fun m _ col => x.program.WritesColumn x.network c m col

/-- The elements that a command may depend on are among those in `A`. -/
def ReadsWithin (x : Machine) (c : Command) (A : ElementSet) : Prop :=
  ∀ m row col, x.program.ReadsColumn x.network c m col → A m row col

/-- An action behaves as the rules of a command promise. -/
def KeepsRules (x : Machine) (c : Command) (A : ElementSet) {α : Type}
    (act : MachineAction α) : Prop :=
  Behaves x.program (x.program.Owns c) A (fun m row col => A m row col ∨ x.written c m row col)
    (x.written c) act

/-! ## Reading the operands -/

theorem owns_of_names {slot : Slot} {s : Nat} (hNames : x.program.Names c slot s)
    (view : SubMatrix) (hView : x.program.subMatrix s = .ok view) :
    x.program.Owns c view.matrix :=
  ⟨slot, s, view, hNames, hView, rfl⟩

/-- A sub-matrix that is not accessed for writing alone is read with all its elements. -/
theorem seen_of_accesses (hReads : x.ReadsWithin c A) {s : Nat} {kind : AccessKind}
    (hAccess : x.program.Accesses x.network c s kind) (hKind : kind ≠ .write)
    (view : SubMatrix) (hView : x.program.subMatrix s = .ok view) (row col : Nat)
    (hIn : view.region.Contains row col) : A view.matrix row col :=
  hReads view.matrix row col ⟨s, kind, hAccess, viewsColumn_of_contains hView hIn, .inl hKind⟩

/-- An operand with a rule for reading is found in all states that agree on what is read. -/
theorem operand_reads (slot : Slot) {s : Nat} (hWell : x.program.WellFormed)
    (hReads : x.ReadsWithin c A) (hRule : (slot, .always .read) ∈ c.opcode.rules)
    (hOperand : c.operand? slot = some s) :
    Reads x.program (x.program.Owns c) A (Option.map View.copied)
      (fun slots => slots.view? x.program s) :=
  view?_reads hWell s (owns_of_names (.operand hOperand))
    (seen_of_accesses hReads ⟨slot, _, hRule, rfl, .operand hOperand⟩ (by decide))

/-! ## Commands that write one sub-matrix -/

/-- Writing the destination of a command keeps to its rules, if all rows are set where the
rule says `write`. -/
theorem write_keepsRules {α : Type} {dst : Nat} {operands : Slots → Except Error α}
    {norm : α → α} {w : α → {rows cols : Nat} → Region → Write rows cols} (set : Nat → Prop)
    (hWell : x.program.WellFormed) (hCheck : x.program.checkCommand x.network c = .ok ())
    (hReads : x.ReadsWithin c A) (hWritten : c.written? = some dst)
    (hOperands : Reads x.program (x.program.Owns c) A norm operands)
    (hNorm : ∀ a (rows cols : Nat) g, (w (norm a) g : Write rows cols) = w a g)
    (hSets : ∀ slots a, operands slots = .ok a → ∀ (rows cols : Nat) g,
      Write.Sets g set (w a g : Write rows cols))
    (hRows : x.program.Accesses x.network c dst .write → ∀ view,
      x.program.subMatrix dst = .ok view → ∀ row, row < view.region.numRows → set row) :
    x.KeepsRules c A (x.write dst operands w) := by
  obtain ⟨kind, hAccess, hKind⟩ := exists_accesses_of_written hCheck hWritten
  have hNoFill : ∀ m col, ¬x.program.FillsColumn c m col := by
    rintro m col ⟨rfl, -⟩
    cases hWritten
  -- What the command writes is the one sub-matrix, which is not for reading alone.
  obtain ⟨slot, _, _, _, hNames⟩ := id hAccess
  refine write_behaves hWell (owns_of_names hNames) ?_ hOperands hNorm hSets ?_
  · intro view hView row col hIn
    exact .inr ⟨dst, kind, hAccess, viewsColumn_of_contains hView hIn, hKind⟩
  · intro view shape hView hMatrix m row col hIn
    rcases hIn with hOld | hFills | ⟨s, kind', hAccess', hViews, hKind'⟩
    · exact .inl hOld
    · exact absurd hFills (hNoFill m col)
    · have hSame := eq_of_accesses hWritten hAccess' hKind'
      subst hSame
      -- A column that keeps some old values is read, and so agrees already.
      by_cases hPlain : kind' = .write ∧ x.program.ViewsAllRows s
      · obtain ⟨rfl, view', shape', hView', hMatrix', hFirst, hCount⟩ := hPlain
        obtain ⟨found, hFound, rfl, hFrom, hTo⟩ := hViews
        rw [hView] at hView' hFound
        cases hView'
        cases hFound
        rw [hMatrix] at hMatrix'
        -- The view spans all rows, so every row of the column is in its window.
        cases hMatrix'
        refine .inr ⟨rfl, fun hRow => ⟨⟨⟨by omega, ?_⟩, hFrom, hTo⟩, ?_⟩⟩
        · simp only [Region.rowEnd]
          omega
        · exact hRows hAccess' view hView _ (by omega)
      · refine .inl (hReads m row col ⟨s, kind', hAccess', hViews, ?_⟩)
        by_cases hWrite : kind' = .write
        · exact .inr fun hAll => hPlain ⟨hWrite, hAll⟩
        · exact .inl hWrite

theorem required_copied {rows cols : Nat} {role : Role} {w : View → Write rows cols}
    (hCopied : ∀ v, w v.copied = w v) (operand : Option View) :
    required role (operand.map View.copied) w = required role operand w := by
  cases operand with
  | none => rfl
  | some v => exact hCopied v

theorem required_sets {rows cols : Nat} {role : Role} {w : View → Write rows cols}
    {g : Region} {set : Nat → Prop} (hSets : ∀ v, Write.Sets g set (w v))
    (operand : Option View) : Write.Sets g set (required role operand w) := by
  cases operand with
  | none => exact Write.Sets.failed _ _
  | some v => exact hSets v

/-- Writing the destination of a command from a single source keeps to its rules. -/
theorem writeFrom_keepsRules (slot : Slot) {dst src : Nat} {role : Role}
    {w : View → {rows cols : Nat} → Region → Write rows cols} {set : Nat → Prop}
    (hWell : x.program.WellFormed) (hCheck : x.program.checkCommand x.network c = .ok ())
    (hReads : x.ReadsWithin c A) (hWritten : c.written? = some dst)
    (hRule : (slot, .always .read) ∈ c.opcode.rules) (hOperand : c.operand? slot = some src)
    (hCopied : ∀ v (rows cols : Nat) g, (w v.copied g : Write rows cols) = w v g)
    (hSets : ∀ v (rows cols : Nat) g, Write.Sets g set (w v g : Write rows cols))
    (hRows : x.program.Accesses x.network c dst .write → ∀ view,
      x.program.subMatrix dst = .ok view → ∀ row, row < view.region.numRows → set row) :
    x.KeepsRules c A (x.writeFrom dst src role w) := by
  rw [writeFrom_eq]
  exact write_keepsRules set hWell hCheck hReads hWritten
    (operand_reads slot hWell hReads hRule hOperand)
    (fun operand _ _ g => required_copied (fun v => hCopied v _ _ g) operand)
    (fun _ operand _ _ _ g => required_sets (fun v => hSets v _ _ g) operand) hRows

/-- A command all of whose rules are for reading, or for reading and writing, accesses
nothing for writing alone. -/
theorem not_accesses_write (hRules : ∀ entry ∈ c.opcode.rules,
      entry.2 = .always .read ∨ entry.2 = .always .readWrite) (s : Nat) :
    ¬x.program.Accesses x.network c s .write := by
  rintro ⟨slot, rule, hRule, hKind, -⟩
  rcases hRules (slot, rule) hRule with hRead | hUpdate
  · obtain rfl : rule = .always .read := hRead
    cases hKind
  · obtain rfl : rule = .always .readWrite := hUpdate
    cases hKind

/-- An action that changes nothing on which a command's rules would let it differ. -/
theorem keepsRules_of_behaves {α : Type} {act : MachineAction α}
    (h : Behaves x.program (x.program.Owns c) A A (x.written c) act)
    (hSub : ∀ m row col, x.written c m row col → A m row col) : x.KeepsRules c A act :=
  h.weaken fun m row col hIn => hIn.elim id (hSub m row col)

/-- A command whose rules are for reading, up to those of absent operands, writes nothing. -/
theorem not_written_of_rules (hNoFill : c.resized? = none)
    (hRules : ∀ slot rule, (slot, rule) ∈ c.opcode.rules →
      rule = .always .read ∨ slot ≠ .pairRows ∧ c.operand? slot = some noSubMatrix)
    (m row col : Nat) : ¬x.written c m row col := by
  rintro (⟨rfl, -⟩ | ⟨s, kind, ⟨slot, rule, hRule, hKind, hNames⟩, hViews, hNotRead⟩)
  · cases hNoFill
  · rcases hRules slot rule hRule with rfl | ⟨hSlot, hOperand⟩
    · cases hKind
      exact hNotRead rfl
    · rw [names_iff hSlot, hOperand] at hNames
      exact hViews.ne_noSubMatrix (Option.some.inj hNames).symm

/-- Such a command may do nothing. -/
theorem pure_keepsRules (hNoFill : c.resized? = none)
    (hRules : ∀ slot rule, (slot, rule) ∈ c.opcode.rules →
      rule = .always .read ∨ slot ≠ .pairRows ∧ c.operand? slot = some noSubMatrix) :
    x.KeepsRules c A (pure () : MachineAction Unit) := by
  refine keepsRules_of_behaves (Behaves.pure ()) ?_
  intro m row col hWritten
  exact absurd hWritten (not_written_of_rules hNoFill hRules m row col)

end Machine

end MatrixProgram
