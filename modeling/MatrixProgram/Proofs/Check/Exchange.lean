import MatrixProgram.Proofs.Check.Discipline

/-!
# Exchanging neighbouring commands

Two commands are independent if neither writes a variable that the other one reads or writes,
neither allocates or releases a matrix that the other one resizes or touches, and they do not
both change the same component of the network to update.

A program that passes the check still does so after two independent neighbours have been
exchanged, as long as none of them is the phase marker: `Accepted.exchange`.  What the check
decides is a matter of which command touches a column first, and of which commands touch a
matrix before it is allocated or after it is released.  The exchange reverses the order of the
two neighbours only, and it is there that their independence is used.
-/

namespace MatrixProgram

/-- A command changes a component of the network to update: it stores statistics in it, or it
is a backprop of it and the component is updatable. -/
def Command.Updates (net : Network) (k : Nat) : Command → Prop
  | .storeStats c _ => c = k
  | .backprop _ c .. =>
      c = k ∧ ∃ component, net.component c = .ok component ∧
        component.capabilities.updatable = true
  | _ => False

/-- A command leaves alone what another one works with: it writes none of its variables, and
it allocates or releases none of its matrices. -/
structure LeavesAlone (t : Partition) (c : Command) (e : Effects) (d : Command) (f : Effects) :
    Prop where
  written : ∀ var ∈ e.written, var ∉ f.read ++ f.written
  resized : ∀ m, c.resized? = some m →
    d.resized? ≠ some m ∧ ∀ var ∈ f.read ++ f.written, t.matrixOf var ≠ .ok m

/-- Two commands with these effects are independent. -/
structure Independent (net : Network) (t : Partition) (c : Command) (e : Effects) (d : Command)
    (f : Effects) : Prop where
  left : LeavesAlone t c e d f
  right : LeavesAlone t d f c e
  updates : ∀ k, ¬(c.Updates net k ∧ d.Updates net k)

namespace Program

variable {p : Program} {net : Network} {t : Partition} {c d : Command} {e f : Effects}
  {cs before after : List Command} {b : Bool} {i m col : Nat}

/-! ## Independence by columns -/

/-- A command leaves alone the columns that another one touches and the matrices that it
resizes. -/
structure Apart (p : Program) (net : Network) (c d : Command) : Prop where
  written : ∀ {m col}, p.WritesColumn net c m col → ¬p.TouchesColumn d m col
  resized : ∀ {m}, c.resized? = some m →
    d.resized? ≠ some m ∧ ∀ col, ¬p.TouchesColumn d m col

theorem mem_touched_iff (hWell : p.WellFormed) (ht : p.partition = .ok t)
    (he : p.commandEffects net t c = .ok e) {var : Nat} (hCol : t.HasColumn var m col) :
    var ∈ e.read ++ e.written ↔ p.TouchesColumn c m col := by
  rw [List.mem_append, hWell.mem_read_iff ht he hCol, hWell.mem_written_iff ht he hCol,
    touchesColumn_iff he]

theorem apart_of_leavesAlone (h : LeavesAlone t c e d f)
    (hWell : p.WellFormed) (ht : p.partition = .ok t) (he : p.commandEffects net t c = .ok e)
    (hf : p.commandEffects net t d = .ok f) : p.Apart net c d where
  written := by
    intro m col hWrites hTouches
    obtain ⟨shape, hMatrix, hLt⟩ := hWell.lt_of_touchesColumn hTouches
    obtain ⟨var, hCol⟩ := hWell.exists_hasColumn ht hMatrix hLt
    exact h.written var ((hWell.mem_written_iff ht he hCol).mpr hWrites)
      ((mem_touched_iff hWell ht hf hCol).mpr hTouches)
  resized := by
    intro m hResize
    obtain ⟨hOther, hVars⟩ := h.resized m hResize
    refine ⟨hOther, fun col hTouches => ?_⟩
    obtain ⟨shape, hMatrix, hLt⟩ := hWell.lt_of_touchesColumn hTouches
    obtain ⟨var, hCol⟩ := hWell.exists_hasColumn ht hMatrix hLt
    exact hVars var ((mem_touched_iff hWell ht hf hCol).mpr hTouches) hCol.1

/-! ## Programs that differ in their commands -/

/-- A program with other commands. -/
def withCommands (p : Program) (cs : List Command) : Program :=
  { p with commands := cs }

/-- A program with other commands and another record of the phase marker. -/
def withSchedule (p : Program) (cs : List Command) (forwardEnd : Option Nat) : Program :=
  { p with commands := cs, forwardEnd := forwardEnd }

section Schedule

variable (forwardEnd : Option Nat)

theorem names_withSchedule {slot : Slot} {s : Nat} :
    (p.withSchedule cs forwardEnd).Names c slot s ↔ p.Names c slot s := by
  constructor
  · rintro (hOperand | ⟨hTable, hPairs, hEntry⟩)
    · exact .operand hOperand
    · exact .pairRow hTable hPairs hEntry
  · rintro (hOperand | ⟨hTable, hPairs, hEntry⟩)
    · exact .operand hOperand
    · exact .pairRow hTable hPairs hEntry

theorem accesses_withSchedule {s : Nat} {kind : AccessKind} :
    (p.withSchedule cs forwardEnd).Accesses net c s kind ↔ p.Accesses net c s kind := by
  unfold Accesses
  simp only [names_withSchedule]
  rfl

theorem touchesColumn_withSchedule :
    (p.withSchedule cs forwardEnd).TouchesColumn c m col ↔ p.TouchesColumn c m col := by
  unfold TouchesColumn
  simp only [names_withSchedule]
  rfl

theorem writesColumn_withSchedule :
    (p.withSchedule cs forwardEnd).WritesColumn net c m col ↔ p.WritesColumn net c m col := by
  unfold WritesColumn
  simp only [accesses_withSchedule]
  rfl

theorem readsColumn_withSchedule :
    (p.withSchedule cs forwardEnd).ReadsColumn net c m col ↔ p.ReadsColumn net c m col := by
  unfold ReadsColumn
  simp only [accesses_withSchedule]
  rfl

end Schedule

theorem touchesColumn_withCommands :
    (p.withCommands cs).TouchesColumn c m col ↔ p.TouchesColumn c m col :=
  touchesColumn_withSchedule p.forwardEnd

theorem writesColumn_withCommands :
    (p.withCommands cs).WritesColumn net c m col ↔ p.WritesColumn net c m col :=
  writesColumn_withSchedule p.forwardEnd

theorem readsColumn_withCommands :
    (p.withCommands cs).ReadsColumn net c m col ↔ p.ReadsColumn net c m col :=
  readsColumn_withSchedule p.forwardEnd

theorem Apart.withCommands (h : p.Apart net c d) : (p.withCommands cs).Apart net c d where
  written := by
    intro m col hWrites hTouches
    exact h.written (writesColumn_withCommands.mp hWrites)
      (touchesColumn_withCommands.mp hTouches)
  resized := fun hResize =>
    ⟨(h.resized hResize).1, fun col hTouches =>
      (h.resized hResize).2 col (touchesColumn_withCommands.mp hTouches)⟩

/-! ## Positions -/

/-- Where a command stands before, or after, the neighbours from a position are exchanged. -/
def exchangedPosition (i k : Nat) : Nat :=
  if k = i then i + 1 else if k = i + 1 then i else k

/-- Only the neighbours themselves change their order. -/
theorem neighbours_of_exchangedPosition {i k l : Nat} (hLt : k < l)
    (h : ¬exchangedPosition i k < exchangedPosition i l) : k = i ∧ l = i + 1 := by
  grind [exchangedPosition]

theorem exchangedPosition_exchangedPosition (i k : Nat) :
    exchangedPosition i (exchangedPosition i k) = k := by
  grind [exchangedPosition]

theorem exchangedPosition_eq_iff {k l : Nat} :
    exchangedPosition i k = l ↔ k = exchangedPosition i l := by
  constructor
  · rintro rfl
    exact (exchangedPosition_exchangedPosition i k).symm
  · rintro rfl
    exact exchangedPosition_exchangedPosition i l

/-- Which command stands at a position after the exchange. -/
theorem getElem?_exchanged (k : Nat) :
    (before ++ d :: c :: after)[k]? =
      (before ++ c :: d :: after)[exchangedPosition before.length k]? := by
  by_cases hFirst : k = before.length
  · subst hFirst
    simp [exchangedPosition]
  · by_cases hSecond : k = before.length + 1
    · subst hSecond
      simp [exchangedPosition]
    · rw [exchangedPosition, if_neg hFirst, if_neg hSecond]
      by_cases hBefore : k < before.length
      · rw [List.getElem?_append_left hBefore, List.getElem?_append_left hBefore]
      · obtain ⟨j, rfl⟩ : ∃ j, k = before.length + (j + 2) := ⟨k - before.length - 2, by omega⟩
        rw [List.getElem?_append_right (by omega), List.getElem?_append_right (by omega)]
        simp

section Exchange

variable (hCommands : p.commands = before ++ c :: d :: after)

include hCommands

theorem getElem?_commands_exchange (k : Nat) :
    (p.withCommands (before ++ d :: c :: after)).commands[k]? =
      p.commands[exchangedPosition before.length k]? := by
  rw [hCommands]
  exact getElem?_exchanged k

theorem allocatesAt_exchange {k : Nat} :
    (p.withCommands (before ++ d :: c :: after)).AllocatesAt k m ↔
      p.AllocatesAt (exchangedPosition before.length k) m := by
  unfold AllocatesAt
  rw [getElem?_commands_exchange hCommands]

theorem releasesAt_exchange {k : Nat} :
    (p.withCommands (before ++ d :: c :: after)).ReleasesAt k m ↔
      p.ReleasesAt (exchangedPosition before.length k) m := by
  unfold ReleasesAt
  rw [getElem?_commands_exchange hCommands]

theorem touchesAt_exchange {k : Nat} :
    (p.withCommands (before ++ d :: c :: after)).TouchesAt k m ↔
      p.TouchesAt (exchangedPosition before.length k) m := by
  unfold TouchesAt
  simp only [getElem?_commands_exchange hCommands, touchesColumn_withCommands]

/-- The neighbours, by their positions. -/
theorem eq_of_neighbour {k : Nat} {a : Command} (hCommand : p.commands[k]? = some a) :
    (k = before.length → a = c) ∧ (k = before.length + 1 → a = d) := by
  rw [hCommands] at hCommand
  constructor
  · rintro rfl
    simpa using hCommand.symm
  · rintro rfl
    simpa using hCommand.symm

end Exchange

/-! ## The passes -/

section Passes

variable (hCommands : p.commands = before ++ c :: d :: after)

include hCommands

theorem SplitAt.exchange {marker : Nat} (h : p.SplitAt marker)
    (hSide : before.length + 1 < marker ∨ marker < before.length) :
    (p.withCommands (before ++ d :: c :: after)).SplitAt marker := by
  have hMarker : exchangedPosition before.length marker = marker := by
    grind [exchangedPosition]
  have hOrder : ∀ k, (k < marker → exchangedPosition before.length k < marker) ∧
      (marker < k → marker < exchangedPosition before.length k) := by
    grind [exchangedPosition]
  refine ⟨?_, ?_, ?_⟩
  · intro k
    rw [getElem?_commands_exchange hCommands, h.only, exchangedPosition_eq_iff, hMarker]
  · intro k a hCommand hLt
    rw [getElem?_commands_exchange hCommands] at hCommand
    exact h.before hCommand ((hOrder k).1 hLt)
  · intro k a hCommand hLt
    rw [getElem?_commands_exchange hCommands] at hCommand
    exact h.after hCommand ((hOrder k).2 hLt)

/-- The allocation of a matrix stays in front of the commands that touch it. -/
theorem allocated_exchange (hApart : p.Apart net c d) {a : Nat}
    (hOnly : ∀ k, p.AllocatesAt k m ↔ k = a) (hTouches : ∀ k, p.TouchesAt k m → a ≤ k) :
    ∃ a, (∀ k, (p.withCommands (before ++ d :: c :: after)).AllocatesAt k m ↔ k = a) ∧
      ∀ k, (p.withCommands (before ++ d :: c :: after)).TouchesAt k m → a ≤ k := by
  refine ⟨exchangedPosition before.length a, ?_, ?_⟩
  · intro k
    rw [allocatesAt_exchange hCommands, hOnly, exchangedPosition_eq_iff]
  · intro k hTouchesAt
    rw [touchesAt_exchange hCommands] at hTouchesAt
    have hLe := hTouches _ hTouchesAt
    -- The first neighbour does not allocate what the second one touches.
    have hNot : ¬(a = before.length ∧ exchangedPosition before.length k = before.length + 1) := by
      rintro ⟨rfl, hSecond⟩
      obtain ⟨c', hAt, hAllocated⟩ := (hOnly before.length).mpr rfl
      obtain rfl := (eq_of_neighbour hCommands hAt).1 rfl
      rw [hSecond] at hTouchesAt
      obtain ⟨d', col, hAt', hTouches'⟩ := hTouchesAt
      obtain rfl := (eq_of_neighbour hCommands hAt').2 rfl
      have hResize : c'.resized? = some m := by simp [Command.resized?, hAllocated]
      exact (hApart.resized hResize).2 col hTouches'
    grind [exchangedPosition]

/-- The release of a matrix stays behind the commands that touch it. -/
theorem released_exchange (hApart : p.Apart net d c) {r : Nat}
    (hOnly : ∀ k, p.ReleasesAt k m ↔ k = r) (hTouches : ∀ k, p.TouchesAt k m → k < r) :
    ∃ r, (∀ k, (p.withCommands (before ++ d :: c :: after)).ReleasesAt k m ↔ k = r) ∧
      ∀ k, (p.withCommands (before ++ d :: c :: after)).TouchesAt k m → k < r := by
  refine ⟨exchangedPosition before.length r, ?_, ?_⟩
  · intro k
    rw [releasesAt_exchange hCommands, hOnly, exchangedPosition_eq_iff]
  · intro k hTouchesAt
    rw [touchesAt_exchange hCommands] at hTouchesAt
    have hLt := hTouches _ hTouchesAt
    -- The second neighbour does not release what the first one touches.
    have hNot : ¬(exchangedPosition before.length k = before.length ∧ r = before.length + 1) := by
      rintro ⟨hFirst, rfl⟩
      obtain ⟨d', hAt, hReleased⟩ := (hOnly (before.length + 1)).mpr rfl
      obtain rfl := (eq_of_neighbour hCommands hAt).2 rfl
      rw [hFirst] at hTouchesAt
      obtain ⟨c', col, hAt', hTouches'⟩ := hTouchesAt
      obtain rfl := (eq_of_neighbour hCommands hAt').1 rfl
      have hResize : d'.resized? = some m := by
        cases d' <;> simp [Command.released?] at hReleased
        simp [Command.resized?, Command.allocated?, Command.released?, hReleased]
      exact (hApart.resized hResize).2 col hTouches'
    grind [exchangedPosition]

/-- The first command that touches a column is the same as before, or both neighbours touch
the column and neither of them writes it. -/
theorem touchesFirst_exchange {k : Nat} {a : Command} (hFirst : p.TouchesFirst k a m col) :
    (∃ k, (p.withCommands (before ++ d :: c :: after)).TouchesFirst k a m col) ∨
      a = c ∧ p.TouchesColumn d m col ∧
        (p.withCommands (before ++ d :: c :: after)).TouchesFirst before.length d m col := by
  by_cases hBoth : k = before.length ∧ p.TouchesColumn d m col
  · obtain ⟨rfl, hTouches⟩ := hBoth
    refine .inr ⟨(eq_of_neighbour hCommands hFirst.command).1 rfl, hTouches, ?_, ?_, ?_⟩
    · simp [withCommands]
    · exact touchesColumn_withCommands.mpr hTouches
    · intro j a' hLt hCommand
      rw [getElem?_commands_exchange hCommands,
        show exchangedPosition before.length j = j by grind [exchangedPosition]] at hCommand
      rw [touchesColumn_withCommands]
      exact hFirst.first hLt hCommand
  · refine .inl ⟨exchangedPosition before.length k, ?_, ?_, ?_⟩
    · rw [getElem?_commands_exchange hCommands, exchangedPosition_exchangedPosition]
      exact hFirst.command
    · exact touchesColumn_withCommands.mpr hFirst.touches
    · intro j a' hLt hCommand hTouches
      rw [getElem?_commands_exchange hCommands] at hCommand
      rw [touchesColumn_withCommands] at hTouches
      by_cases hEarlier : exchangedPosition before.length j < k
      · exact hFirst.first hEarlier hCommand hTouches
      · -- The neighbours have passed each other.
        have hPassed : k = before.length ∧
            exchangedPosition before.length j = before.length + 1 := by
          grind [exchangedPosition]
        rw [hPassed.2] at hCommand
        obtain rfl := (eq_of_neighbour hCommands hCommand).2 rfl
        exact hBoth ⟨hPassed.1, hTouches⟩

/-- A disciplined program is disciplined after the exchange. -/
theorem Disciplined.exchange (h : p.Disciplined net b)
    (hTouches : ∀ {m col}, p.TouchesColumn d m col →
      p.ReadsColumn net d m col ∨ p.WritesColumn net d m col)
    (hLeft : p.Apart net c d) (hRight : p.Apart net d c) {marker : Nat}
    (hMarker : p.forwardEnd = some marker)
    (hSide : before.length + 1 < marker ∨ marker < before.length) :
    (p.withCommands (before ++ d :: c :: after)).Disciplined net b where
  boundary := h.boundary
  suppliedOnce := h.suppliedOnce
  producedOnce := h.producedOnce
  split := by
    obtain ⟨found, hFound, hSplit⟩ := h.split
    cases hMarker.symm.trans hFound
    exact ⟨marker, hMarker, hSplit.exchange hCommands hSide⟩
  notAllocated := fun hMem k hAllocates =>
    h.notAllocated hMem _ ((allocatesAt_exchange hCommands).mp hAllocates)
  allocated := by
    intro m shape hMatrix hNot
    obtain ⟨a, hOnly, hBefore⟩ := h.allocated hMatrix hNot
    exact allocated_exchange hCommands hLeft hOnly hBefore
  notReleased := fun hMem k hReleases =>
    h.notReleased hMem _ ((releasesAt_exchange hCommands).mp hReleases)
  released := by
    intro m shape hMatrix hNot
    obtain ⟨r, hOnly, hAfter⟩ := h.released hMatrix hNot
    exact released_exchange hCommands hRight hOnly hAfter
  touched := by
    intro m shape col hMatrix hCol
    obtain ⟨k, a, hFirst, hWrites⟩ := h.touched hMatrix hCol
    rcases touchesFirst_exchange hCommands hFirst with ⟨k', hFirst'⟩ | ⟨rfl, hBoth, hFirst'⟩
    · refine ⟨k', a, hFirst', fun hNot => ?_⟩
      rw [writesColumn_withCommands, readsColumn_withCommands]
      exact hWrites hNot
    · -- The first command writes the column, and the second one touches it: not both.
      refine ⟨before.length, d, hFirst', fun hNot => ?_⟩
      exact absurd hBoth (hLeft.written (hWrites hNot).1)
  unchanged := by
    intro hFlag k l m col a a' hLt hCommand hCommand' hReads hNotWrites hWrites
    rw [getElem?_commands_exchange hCommands] at hCommand hCommand'
    rw [writesColumn_withCommands] at hNotWrites hWrites
    rw [readsColumn_withCommands] at hReads
    by_cases hOrder : exchangedPosition before.length k < exchangedPosition before.length l
    · exact h.unchanged hFlag hOrder hCommand hCommand' hReads hNotWrites hWrites
    · obtain ⟨rfl, rfl⟩ := neighbours_of_exchangedPosition hLt hOrder
      rw [show exchangedPosition before.length (before.length + 1) = before.length by
        grind [exchangedPosition]] at hCommand'
      rw [show exchangedPosition before.length before.length = before.length + 1 by
        grind [exchangedPosition]] at hCommand
      obtain rfl := (eq_of_neighbour hCommands hCommand).2 rfl
      obtain rfl := (eq_of_neighbour hCommands hCommand').1 rfl
      exact hLeft.written hWrites hReads.touches

end Passes

/-- The operands of a command are checked without regard to the other commands. -/
theorem checkOperands_exchange (hCommands : p.commands = before ++ c :: d :: after)
    (h : p.checkOperands net = .ok ()) :
    (p.withCommands (before ++ d :: c :: after)).checkOperands net = .ok () := by
  refine checkOperands_eq_ok_iff.mpr fun k a hCommand => ?_
  rw [getElem?_commands_exchange hCommands] at hCommand
  exact checkOperands_eq_ok_iff.mp h _ a hCommand

/-- A program that passes the check passes it after the exchange of independent neighbours. -/
theorem Accepted.exchange {r : Request} (h : p.Accepted net r b)
    (hWell : p.WellFormed) (hCommands : p.commands = before ++ c :: d :: after)
    (ht : p.partition = .ok t) (he : p.commandEffects net t c = .ok e)
    (hf : p.commandEffects net t d = .ok f) (hIndependent : Independent net t c e d f)
    {marker : Nat} (hMarker : p.forwardEnd = some marker)
    (hSide : before.length + 1 < marker ∨ marker < before.length) :
    (p.withCommands (before ++ d :: c :: after)).Accepted net r b := by
  have hDisciplined := (h.disciplined hWell).exchange hCommands (touchesColumn_iff hf).mp
    (apart_of_leavesAlone hIndependent.left hWell ht he hf)
    (apart_of_leavesAlone hIndependent.right hWell ht hf he) hMarker hSide
  obtain ⟨a, hCheck⟩ := h
  obtain ⟨hOperands, hRequest, -⟩ := check_eq_ok_iff.mp hCheck
  exact hDisciplined.accepted (hWell.congr rfl rfl) (checkOperands_exchange hCommands hOperands)
    hRequest

end Program

end MatrixProgram
