import Mathlib.Order.Monotone.Basic
import MatrixProgram.Proofs.Check.Exchange

/-!
# Inserting commands without effect

A command that does nothing and a further phase marker touch no column and resize no matrix.
Copies of them may stand anywhere between the commands of a program: `insertCopies` puts some in
front of each command and at the end, and `movedPosition` says where the commands are then.

A program that passes the check still does so after commands that do nothing have been inserted
and the record of the marker has been moved along, `Accepted.insertSkips`.  With further markers
every pass in front of the order of commands still passes, so it is this one that fails,
`Accepted.check_insertMarkers`.
-/

namespace MatrixProgram

/-- A command that touches nothing: it does nothing, or it marks the phase. -/
def Command.isIdle : Command → Bool
  | .skip => true
  | .marker => true
  | _ => false

theorem Command.isIdle_iff {c : Command} : c.isIdle = true ↔ c = .skip ∨ c = .marker := by
  cases c <;> simp [Command.isIdle]

namespace Program

/-! ## Inserted copies -/

/-- Commands with copies of one command inserted: `gaps i` of them in front of the command at
position `i`, and `gaps cs.length` at the end. -/
def insertCopies (extra : Command) (gaps : Nat → Nat) : List Command → List Command
  | [] => List.replicate (gaps 0) extra
  | c :: cs =>
      List.replicate (gaps 0) extra ++ c :: insertCopies extra (fun i => gaps (i + 1)) cs

/-- Where the command at a position stands after the insertion. -/
def movedPosition (gaps : Nat → Nat) : Nat → Nat
  | 0 => gaps 0
  | i + 1 => movedPosition gaps i + 1 + gaps (i + 1)

variable {p : Program} {net : Network} {extra c : Command} {gaps : Nat → Nat} {b : Bool}
  {forwardEnd : Option Nat} {i j k m col : Nat} {cs : List Command}

theorem movedPosition_strictMono (gaps : Nat → Nat) : StrictMono (movedPosition gaps) :=
  strictMono_nat_of_lt_succ fun i => by
    rw [movedPosition]
    omega

/-- The positions of the rest of a list are counted from its first command on. -/
theorem movedPosition_succ (gaps : Nat → Nat) (i : Nat) :
    movedPosition gaps (i + 1) = gaps 0 + (movedPosition (fun i => gaps (i + 1)) i + 1) := by
  induction i with
  | zero => simp only [movedPosition]; omega
  | succ i ih =>
      rw [movedPosition, ih, movedPosition]
      omega

theorem length_insertCopies (extra : Command) (gaps : Nat → Nat) (cs : List Command) :
    (insertCopies extra gaps cs).length = movedPosition gaps cs.length := by
  induction cs generalizing gaps with
  | nil => simp [insertCopies, movedPosition]
  | cons c cs ih => simp [insertCopies, ih, movedPosition_succ]

/-- In front of a command and behind it the copies are inserted as in two lists. -/
theorem insertCopies_append (extra : Command) (gaps : Nat → Nat) (pre : List Command)
    (c : Command) (post : List Command) :
    insertCopies extra gaps (pre ++ c :: post) =
      insertCopies extra gaps pre ++
        c :: insertCopies extra (fun i => gaps (i + pre.length + 1)) post := by
  induction pre generalizing gaps with
  | nil => rfl
  | cons d pre ih =>
      rw [List.cons_append, insertCopies, ih, insertCopies, List.append_assoc]
      rfl

/-- A command stands at its new position. -/
theorem getElem?_movedPosition (extra : Command) (gaps : Nat → Nat) (cs : List Command)
    (i : Nat) : (insertCopies extra gaps cs)[movedPosition gaps i]? = cs[i]? := by
  induction cs generalizing gaps i with
  | nil =>
      have hLe : gaps 0 ≤ movedPosition gaps i :=
        (movedPosition_strictMono gaps).monotone i.zero_le
      simpa [insertCopies] using hLe
  | cons c cs ih =>
      cases i with
      | zero => simp [insertCopies, movedPosition]
      | succ i =>
          rw [movedPosition_succ, insertCopies, List.getElem?_append_right (by simp),
            List.length_replicate, Nat.add_sub_cancel_left, List.getElem?_cons_succ, ih,
            List.getElem?_cons_succ]

example : insertCopies .skip (fun i => i) [.release 1, .marker] =
    [.release 1, .skip, .marker, .skip, .skip] :=
  rfl

/-- What stands at a position has been inserted, or it is a command at its new position. -/
theorem eq_or_exists_moved (h : (insertCopies extra gaps cs)[k]? = some c) :
    c = extra ∨ ∃ i, movedPosition gaps i = k ∧ cs[i]? = some c := by
  induction cs generalizing gaps k with
  | nil => exact .inl (List.eq_of_mem_replicate (List.mem_of_getElem? h))
  | cons d cs ih =>
      rw [insertCopies] at h
      by_cases hGap : k < gaps 0
      · rw [List.getElem?_append_left (by simpa using hGap)] at h
        exact .inl (List.eq_of_mem_replicate (List.mem_of_getElem? h))
      · obtain ⟨j, rfl⟩ := Nat.exists_eq_add_of_le (Nat.le_of_not_lt hGap)
        rw [List.getElem?_append_right (by simp), List.length_replicate,
          Nat.add_sub_cancel_left] at h
        cases j with
        | zero => exact .inr ⟨0, rfl, h⟩
        | succ j =>
            refine (ih h).imp_right ?_
            rintro ⟨i, rfl, hCommand⟩
            exact ⟨i + 1, movedPosition_succ gaps i, hCommand⟩

/-- No command stands right in front of a command, or at the end, where copies have been
inserted. -/
theorem movedPosition_ne_of_gap (hGap : 0 < gaps i) (j : Nat) :
    movedPosition gaps j ≠ movedPosition gaps i - 1 := by
  rcases Nat.lt_or_ge j i with hLt | hLe
  · obtain ⟨l, rfl⟩ := Nat.exists_eq_add_one_of_ne_zero (Nat.ne_zero_of_lt hLt)
    have hBefore := (movedPosition_strictMono gaps).monotone (Nat.le_of_lt_succ hLt)
    rw [movedPosition]
    omega
  · have hAfter := (movedPosition_strictMono gaps).monotone hLe
    have hPos : 0 < movedPosition gaps i := by
      cases i with
      | zero => exact hGap
      | succ l => exact Nat.lt_of_lt_of_le hGap (Nat.le_add_left _ _)
    omega

/-- A copy stands where copies have been inserted. -/
theorem getElem?_of_gap (extra : Command) (hLe : i ≤ cs.length) (hGap : 0 < gaps i) :
    (insertCopies extra gaps cs)[movedPosition gaps i - 1]? = some extra := by
  have hInside : movedPosition gaps i - 1 < (insertCopies extra gaps cs).length := by
    have hBefore := (movedPosition_strictMono gaps).monotone hLe
    have hNe := movedPosition_ne_of_gap hGap i
    rw [length_insertCopies]
    omega
  have hFound := List.getElem?_eq_getElem hInside
  rcases eq_or_exists_moved hFound with hEq | ⟨j, hMoved, -⟩
  · rw [hFound, hEq]
  · exact absurd hMoved (movedPosition_ne_of_gap hGap j)

/-! ## Commands that touch nothing -/

theorem not_touchesColumn_of_isIdle (h : extra.isIdle = true) :
    ¬p.TouchesColumn extra m col := by
  rintro (⟨rfl, -⟩ | ⟨slot, s, hOperand | ⟨hTable, -, -⟩, -⟩)
  · cases h
  · rcases Command.isIdle_iff.mp h with rfl | rfl <;> cases slot <;> cases hOperand
  · rcases Command.isIdle_iff.mp h with rfl | rfl <;> cases hTable

theorem checkCommand_of_isIdle (h : extra.isIdle = true) :
    p.checkCommand net extra = .ok () := by
  rcases Command.isIdle_iff.mp h with rfl | rfl <;> rfl

/-! ## The program with inserted copies -/

/-- A program with inserted copies of a command and some record of the phase marker. -/
def withInserted (p : Program) (extra : Command) (gaps : Nat → Nat) (forwardEnd : Option Nat) :
    Program :=
  p.withSchedule (insertCopies extra gaps p.commands) forwardEnd

section Positions

variable (hIdle : extra.isIdle = true)

/-- The commands of some kind are those from before at their new positions, unless the inserted
one is of this kind. -/
theorem exists_command_iff {P : Command → Prop} (hNot : ¬P extra) :
    (∃ c, (p.withInserted extra gaps forwardEnd).commands[k]? = some c ∧ P c) ↔
      ∃ i, movedPosition gaps i = k ∧ ∃ c, p.commands[i]? = some c ∧ P c := by
  constructor
  · rintro ⟨c, hCommand, hHolds⟩
    rcases eq_or_exists_moved hCommand with rfl | ⟨i, hMoved, hBefore⟩
    · exact absurd hHolds hNot
    · exact ⟨i, hMoved, c, hBefore, hHolds⟩
  · rintro ⟨i, rfl, c, hCommand, hHolds⟩
    exact ⟨c, (getElem?_movedPosition extra gaps p.commands i).trans hCommand, hHolds⟩

include hIdle

theorem allocatesAt_withInserted :
    (p.withInserted extra gaps forwardEnd).AllocatesAt k m ↔
      ∃ i, movedPosition gaps i = k ∧ p.AllocatesAt i m :=
  exists_command_iff (P := fun c => c.allocated? = some m) <| by
    rcases Command.isIdle_iff.mp hIdle with rfl | rfl <;> simp [Command.allocated?]

theorem releasesAt_withInserted :
    (p.withInserted extra gaps forwardEnd).ReleasesAt k m ↔
      ∃ i, movedPosition gaps i = k ∧ p.ReleasesAt i m :=
  exists_command_iff (P := fun c => c.released? = some m) <| by
    rcases Command.isIdle_iff.mp hIdle with rfl | rfl <;> simp [Command.released?]

theorem touchesAt_withInserted :
    (p.withInserted extra gaps forwardEnd).TouchesAt k m ↔
      ∃ i, movedPosition gaps i = k ∧ p.TouchesAt i m := by
  simp only [TouchesAt, withInserted, touchesColumn_withSchedule, exists_and_left]
  exact exists_command_iff (P := fun c => ∃ col, p.TouchesColumn c m col)
    fun ⟨_, hTouches⟩ => not_touchesColumn_of_isIdle hIdle hTouches

/-- The first command that touches a column is still the first one. -/
theorem TouchesFirst.withInserted (h : p.TouchesFirst i c m col) :
    (p.withInserted extra gaps forwardEnd).TouchesFirst (movedPosition gaps i) c m col where
  command := (getElem?_movedPosition extra gaps p.commands i).trans h.command
  touches := (touchesColumn_withSchedule forwardEnd).mpr h.touches
  first := by
    intro k d hLt hCommand hTouches
    have hBefore := (touchesColumn_withSchedule forwardEnd).mp hTouches
    rcases eq_or_exists_moved hCommand with rfl | ⟨j, rfl, hMoved⟩
    · exact not_touchesColumn_of_isIdle hIdle hBefore
    · exact h.first ((movedPosition_strictMono gaps).lt_iff_lt.mp hLt) hMoved hBefore

/-- Every command still passes the check of its operands. -/
theorem checkOperands_withInserted (h : p.checkOperands net = .ok ()) :
    (p.withInserted extra gaps forwardEnd).checkOperands net = .ok () := by
  refine checkOperands_eq_ok_iff.mpr fun k c hCommand => ?_
  rcases eq_or_exists_moved hCommand with rfl | ⟨i, rfl, hBefore⟩
  · exact checkCommand_of_isIdle hIdle
  · exact checkOperands_eq_ok_iff.mp h i c hBefore

/-- The analysis of the program succeeds. -/
theorem Accepted.exists_analysis_withInserted {r : Request} (h : p.Accepted net r b)
    (hWell : p.WellFormed) :
    ∃ a, (p.withInserted extra gaps forwardEnd).analysis net = .ok a := by
  have hDisciplined := h.disciplined hWell
  have hOperands := h.checkOperands
  have hOperands' : (p.withInserted extra gaps forwardEnd).checkOperands net = .ok () :=
    checkOperands_withInserted hIdle hOperands
  have hWell' : (p.withInserted extra gaps forwardEnd).WellFormed := hWell.congr rfl rfl
  obtain ⟨t, ht⟩ := hWell'.exists_partition
  obtain ⟨es, hes⟩ := exists_effects t hOperands'
  have hBinds := h.bindsMatrices
  refine ⟨_, analysis_eq_ok_iff.mpr ⟨t, es, _, ht, hes,
    (matrixHistories_eq_ok_iff hWell' ht hes hOperands').mpr ⟨?_, ?_,
      ⟨fun entry hEntry => ⟨hDisciplined.boundary entry hEntry, hBinds entry hEntry⟩,
        hDisciplined.suppliedOnce, hDisciplined.producedOnce⟩, rfl⟩, rfl⟩⟩
  · intro k l m hK hL
    obtain ⟨i, rfl, hI⟩ := (allocatesAt_withInserted hIdle).mp hK
    obtain ⟨j, rfl, hJ⟩ := (allocatesAt_withInserted hIdle).mp hL
    exact congrArg _ (hDisciplined.allocation_unique hOperands hI hJ)
  · intro k l m hK hL
    obtain ⟨i, rfl, hI⟩ := (releasesAt_withInserted hIdle).mp hK
    obtain ⟨j, rfl, hJ⟩ := (releasesAt_withInserted hIdle).mp hL
    exact congrArg _ (hDisciplined.release_unique hOperands hI hJ)

end Positions

/-! ## Commands that do nothing -/

theorem SplitAt.insertSkips {marker : Nat} (h : p.SplitAt marker) :
    (p.withInserted .skip gaps forwardEnd).SplitAt (movedPosition gaps marker) where
  only := by
    intro k
    constructor
    · intro hCommand
      rcases eq_or_exists_moved hCommand with hEq | ⟨i, rfl, hBefore⟩
      · cases hEq
      · rw [(h.only i).mp hBefore]
    · rintro rfl
      exact (getElem?_movedPosition .skip gaps p.commands marker).trans
        ((h.only marker).mpr rfl)
  before := by
    intro k c hCommand hLt
    rcases eq_or_exists_moved hCommand with rfl | ⟨i, rfl, hBefore⟩
    · decide
    · exact h.before hBefore ((movedPosition_strictMono gaps).lt_iff_lt.mp hLt)
  after := by
    intro k c hCommand hLt
    rcases eq_or_exists_moved hCommand with rfl | ⟨i, rfl, hBefore⟩
    · decide
    · exact h.after hBefore ((movedPosition_strictMono gaps).lt_iff_lt.mp hLt)

/-- A disciplined program is disciplined with inserted commands that do nothing. -/
theorem Disciplined.insertSkips (h : p.Disciplined net b) (gaps : Nat → Nat) :
    (p.withInserted .skip gaps (p.forwardEnd.map (movedPosition gaps))).Disciplined net b where
  boundary := h.boundary
  suppliedOnce := h.suppliedOnce
  producedOnce := h.producedOnce
  split := by
    obtain ⟨marker, hMarker, hSplit⟩ := h.split
    exact ⟨movedPosition gaps marker, congrArg (Option.map _) hMarker, hSplit.insertSkips⟩
  notAllocated := by
    intro m hMem k hAllocates
    obtain ⟨i, -, hBefore⟩ := (allocatesAt_withInserted rfl).mp hAllocates
    exact h.notAllocated hMem i hBefore
  allocated := by
    intro m shape hMatrix hNot
    obtain ⟨a, hOnly, hTouches⟩ := h.allocated hMatrix hNot
    refine ⟨movedPosition gaps a, fun k => ?_, fun k hTouchesAt => ?_⟩
    · rw [allocatesAt_withInserted rfl]
      simp only [hOnly, exists_eq_right]
      exact eq_comm
    · obtain ⟨i, rfl, hBefore⟩ := (touchesAt_withInserted rfl).mp hTouchesAt
      exact (movedPosition_strictMono gaps).monotone (hTouches i hBefore)
  notReleased := by
    intro m hMem k hReleases
    obtain ⟨i, -, hBefore⟩ := (releasesAt_withInserted rfl).mp hReleases
    exact h.notReleased hMem i hBefore
  released := by
    intro m shape hMatrix hNot
    obtain ⟨r, hOnly, hTouches⟩ := h.released hMatrix hNot
    refine ⟨movedPosition gaps r, fun k => ?_, fun k hTouchesAt => ?_⟩
    · rw [releasesAt_withInserted rfl]
      simp only [hOnly, exists_eq_right]
      exact eq_comm
    · obtain ⟨i, rfl, hBefore⟩ := (touchesAt_withInserted rfl).mp hTouchesAt
      exact movedPosition_strictMono gaps (hTouches i hBefore)
  touched := by
    intro m shape col hMatrix hCol
    obtain ⟨i, c, hFirst, hWrites⟩ := h.touched hMatrix hCol
    refine ⟨movedPosition gaps i, c, hFirst.withInserted rfl, fun hNot => ?_⟩
    obtain ⟨hWritten, hUnread⟩ := hWrites hNot
    exact ⟨(writesColumn_withSchedule _).mpr hWritten,
      fun hRead => hUnread ((readsColumn_withSchedule _).mp hRead)⟩
  unchanged := by
    intro hFlag k l m col c d hLt hCommand hCommand' hReads hNotWrites hWrites
    have hRead := (readsColumn_withSchedule _).mp hReads
    have hWritten := (writesColumn_withSchedule _).mp hWrites
    -- Neither of the two commands has been inserted, since both touch the column.
    rcases eq_or_exists_moved hCommand with rfl | ⟨i, rfl, hBefore⟩
    · exact not_touchesColumn_of_isIdle rfl hRead.touches
    rcases eq_or_exists_moved hCommand' with rfl | ⟨j, rfl, hBefore'⟩
    · exact not_touchesColumn_of_isIdle rfl hWritten.touches
    exact h.unchanged hFlag ((movedPosition_strictMono gaps).lt_iff_lt.mp hLt) hBefore hBefore'
      hRead (fun hOld => hNotWrites ((writesColumn_withSchedule _).mpr hOld)) hWritten

/-- A program that passes the check passes it with inserted commands that do nothing. -/
theorem Accepted.insertSkips {r : Request} (h : p.Accepted net r b) (hWell : p.WellFormed)
    (gaps : Nat → Nat) :
    (p.withInserted .skip gaps (p.forwardEnd.map (movedPosition gaps))).Accepted net r b := by
  have hDisciplined := (h.disciplined hWell).insertSkips gaps
  obtain ⟨a, hCheck⟩ := h
  obtain ⟨hOperands, hRequest, -⟩ := check_eq_ok_iff.mp hCheck
  exact hDisciplined.accepted (hWell.congr rfl rfl) (checkOperands_withInserted rfl hOperands)
    hRequest

/-! ## Further markers -/

/-- The positions of the markers begin with two of them once there are several. -/
theorem exists_markers_eq_cons_cons (hI : p.commands[i]? = some .marker)
    (hJ : p.commands[j]? = some .marker) (hNe : i ≠ j) :
    ∃ first second rest, p.markers = first :: second :: rest := by
  have hMemI := mem_markers_iff.mpr hI
  have hMemJ := mem_markers_iff.mpr hJ
  match hMarkers : p.markers with
  | [] =>
      rw [hMarkers] at hMemI
      exact absurd hMemI List.not_mem_nil
  | [marker] =>
      rw [hMarkers, List.mem_singleton] at hMemI hMemJ
      exact absurd (hMemI.trans hMemJ.symm) hNe
  | first :: second :: rest => exact ⟨first, second, rest, rfl⟩

/-- With further markers the check fails with the positions of all of them, at the second one. -/
theorem Accepted.check_insertMarkers {r : Request} (h : p.Accepted net r b)
    (hWell : p.WellFormed) (hLe : i ≤ p.commands.length) (hGap : 0 < gaps i)
    (forwardEnd : Option Nat) :
    ∃ first second rest,
      (p.withInserted .marker gaps forwardEnd).markers = first :: second :: rest ∧
        (p.withInserted .marker gaps forwardEnd).check net r b =
          .error (.ordering (some second) (.severalMarkers (first :: second :: rest))) := by
  obtain ⟨marker, -, hSplit⟩ := (h.disciplined hWell).split
  have hOld : (p.withInserted .marker gaps forwardEnd).commands[movedPosition gaps marker]? =
      some .marker :=
    (getElem?_movedPosition .marker gaps p.commands marker).trans ((hSplit.only marker).mpr rfl)
  have hNew : (p.withInserted .marker gaps forwardEnd).commands[movedPosition gaps i - 1]? =
      some .marker := getElem?_of_gap .marker hLe hGap
  obtain ⟨first, second, rest, hMarkers⟩ := exists_markers_eq_cons_cons hOld hNew
    (movedPosition_ne_of_gap hGap marker)
  refine ⟨first, second, rest, hMarkers, ?_⟩
  obtain ⟨a, hAnalysis⟩ :
      ∃ a, (p.withInserted .marker gaps forwardEnd).analysis net = .ok a :=
    h.exists_analysis_withInserted rfl hWell
  have hOperands : (p.withInserted .marker gaps forwardEnd).checkOperands net = .ok () :=
    checkOperands_withInserted rfl h.checkOperands
  obtain ⟨_, hCheck⟩ := h
  have hRequest : (p.withInserted .marker gaps forwardEnd).checkRequest net r = .ok () :=
    (check_eq_ok_iff.mp hCheck).2.1
  rw [check, hOperands, Action.check_ok_bind, hRequest, Action.check_ok_bind, hAnalysis,
    Action.check_ok_bind, checkOrder, hMarkers, Action.check_error_bind]

end Program

end MatrixProgram
