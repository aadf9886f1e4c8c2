import Mathlib.Data.List.Induction
import MatrixProgram.Proofs.Analysis.Inversion

/-!
# Histories by loops

A history can be read off the list of all effects, as `variableHistory` and `matrixHistories` do,
or it can be built up by going through the commands once.  Here is the second way.  The variables
that a command touches are sorted and freed of repetitions, how one of them is accessed is found
by bisection, and each access is appended to the history of its variable or matrix.  A matrix
takes note of a command only if the command is not the last one that it has taken note of.

Both ways give the same: `accessLoop_effects` for variables, and `matrixLoop_eq` for matrices,
errors included.  The lists of histories that occur on the way are tables, lists of the values of a
function below a bound, and what a loop has built up after some commands is the table of what can
be read off the effects of these commands.
-/

namespace MatrixProgram

namespace Loops

/-! ## Sorted lists -/

/-- Leave out each number that is followed by itself. -/
def dropRepeats : List Nat → List Nat
  | x :: y :: rest => if x = y then dropRepeats (y :: rest) else x :: dropRepeats (y :: rest)
  | xs => xs

theorem mem_dropRepeats_iff {x : Nat} {xs : List Nat} : x ∈ dropRepeats xs ↔ x ∈ xs := by
  fun_induction dropRepeats xs with
  | case1 y rest ih => simp [ih]
  | case2 y z rest hNe ih => simp [ih]
  | case3 xs hShort => exact Iff.rfl

theorem pairwise_dropRepeats {xs : List Nat} (h : xs.Pairwise (· ≤ ·)) :
    (dropRepeats xs).Pairwise (· < ·) := by
  fun_induction dropRepeats xs with
  | case1 y rest ih => exact ih (List.pairwise_cons.mp h).2
  | case2 y z rest hNe ih =>
      obtain ⟨hHead, hRest⟩ := List.pairwise_cons.mp h
      refine List.pairwise_cons.mpr ⟨fun x hMem => ?_, ih hRest⟩
      -- The next number is larger, and none behind it is smaller.
      have hNext : y < z := Nat.lt_of_le_of_ne (hHead z List.mem_cons_self) hNe
      rcases List.mem_cons.mp (mem_dropRepeats_iff.mp hMem) with rfl | hLater
      · exact hNext
      · exact Nat.lt_of_lt_of_le hNext ((List.pairwise_cons.mp hRest).1 x hLater)
  | case3 xs hShort =>
      match xs, hShort with
      | [], _ => exact List.Pairwise.nil
      | [x], _ => exact List.pairwise_singleton _ x
      | x :: y :: rest, hShort => exact absurd rfl (hShort x y rest)

/-- Sorting a list and leaving out repetitions brings it into ascending form. -/
theorem dropRepeats_mergeSort (xs : List Nat) :
    dropRepeats (xs.mergeSort (· ≤ ·)) = Ascending.ofList xs := by
  have hSorted : (xs.mergeSort (· ≤ ·)).Pairwise (· ≤ ·) := by
    have hBy := @List.pairwise_mergeSort Nat (fun a b => decide (a ≤ b))
      (by intro a b c; simp; omega) (by intro a b; simp; omega) xs
    simpa using hBy
  refine Ascending.eq_of_mem_iff (pairwise_dropRepeats hSorted) (Ascending.pairwise_ofList xs) ?_
  intro x
  rw [mem_dropRepeats_iff, Ascending.mem_ofList_iff, List.mem_mergeSort]

/-- Search for a number by bisection of the positions from `low` up to `high`. -/
def searchBetween (xs : List Nat) (x low high : Nat) : Bool :=
  if low < high then
    let mid := low + (high - low) / 2
    if xs.getD mid 0 = x then
      true
    else if xs.getD mid 0 < x then
      searchBetween xs x (mid + 1) high
    else
      searchBetween xs x low mid
  else
    false
termination_by high - low

/-- Search for a number in a list by bisection. -/
def search (xs : List Nat) (x : Nat) : Bool :=
  searchBetween xs x 0 xs.length

theorem searchBetween_iff {xs : List Nat} (hSorted : xs.Pairwise (· < ·)) {x low high : Nat}
    (hHigh : high ≤ xs.length) :
    searchBetween xs x low high = true ↔ ∃ i, low ≤ i ∧ i < high ∧ xs.getD i 0 = x := by
  fun_induction searchBetween xs x low high with
  | case1 low high hLt mid hEq =>
      exact iff_of_true rfl ⟨mid, Nat.le_add_right _ _, by omega, hEq⟩
  | case2 low high hLt mid hNe hBelow ih =>
      -- What stands at or before the middle is smaller.
      rw [ih hHigh]
      constructor
      · rintro ⟨i, hLow, hLt', hAt⟩
        exact ⟨i, by omega, hLt', hAt⟩
      · rintro ⟨i, hLow, hLt', rfl⟩
        refine ⟨i, Nat.lt_of_not_le fun hLe => ?_, hLt', rfl⟩
        have := getD_le_getD hSorted hLe (show mid < xs.length by omega)
        omega
  | case3 low high hLt mid hNe hAbove ih =>
      -- What stands at or behind the middle is larger.
      rw [ih (by omega)]
      constructor
      · rintro ⟨i, hLow, hLt', hAt⟩
        exact ⟨i, hLow, by omega, hAt⟩
      · rintro ⟨i, hLow, hLt', rfl⟩
        refine ⟨i, hLow, Nat.lt_of_not_le fun hLe => ?_, rfl⟩
        have := getD_le_getD hSorted hLe (show i < xs.length by omega)
        omega
  | case4 low high hGe =>
      exact iff_of_false Bool.false_ne_true fun ⟨i, hLow, hLt, _⟩ => hGe (by omega)

/-- Bisection finds the members of an ascending list. -/
theorem search_iff {xs : List Nat} (hSorted : xs.Pairwise (· < ·)) {x : Nat} :
    search xs x = true ↔ x ∈ xs := by
  rw [search, searchBetween_iff hSorted (Nat.le_refl _), List.mem_iff_getElem]
  constructor
  · rintro ⟨i, -, hLt, hAt⟩
    exact ⟨i, hLt, by rw [← hAt, List.getD_eq_getElem?_getD, List.getElem?_eq_getElem hLt]; rfl⟩
  · rintro ⟨i, hLt, rfl⟩
    exact ⟨i, Nat.zero_le i, hLt,
      by rw [List.getD_eq_getElem?_getD, List.getElem?_eq_getElem hLt]; rfl⟩

/-! ## Tables -/

variable {α : Type} {n : Nat}

/-- The values of a function below a bound. -/
def table (n : Nat) (f : Nat → α) : List α :=
  (List.range n).map f

theorem table_congr {f f' : Nat → α} (h : ∀ k < n, f k = f' k) : table n f = table n f' :=
  List.map_congr_left fun k hMem => h k (List.mem_range.mp hMem)

theorem replicate_eq_table (n : Nat) (a : α) : List.replicate n a = table n fun _ => a := by
  simp [table]

theorem getElem?_table (f : Nat → α) (k : Nat) :
    (table n f)[k]? = if k < n then some (f k) else none := by
  by_cases hLt : k < n <;> simp [table, hLt]

/-- A change of one entry; there is none to change past the bound. -/
theorem modify_table (f : Nat → α) (k : Nat) (change : α → α) :
    (table n f).modify k change = table n fun j => if j = k then change (f j) else f j := by
  refine List.ext_getElem? fun j => ?_
  rw [List.getElem?_modify, getElem?_table, getElem?_table]
  by_cases hLt : j < n
  · by_cases hSame : k = j
    · simp [hLt, hSame]
    · simp [hLt, hSame, Ne.symm hSame]
  · simp [hLt]

/-! ## The histories of the variables -/

/-- How a variable is accessed that is known to be. -/
def kindBySearch (e : Effects) (var : Nat) : AccessKind :=
  match search e.read var, search e.written var with
  | true, true => .readWrite
  | true, false => .read
  | _, _ => .write

/-- Append an access to the history of a variable. -/
def noteAccess (e : Effects) (command : Nat) (histories : List (List Access)) (var : Nat) :
    List (List Access) :=
  histories.modify var fun own => own ++ [⟨command, kindBySearch e var⟩]

/-- Append the accesses of a command to the histories of the variables. -/
def noteAccesses (histories : List (List Access)) (entry : Effects × Nat) : List (List Access) :=
  (dropRepeats (entry.1.touched.mergeSort (· ≤ ·))).foldl (noteAccess entry.1 entry.2) histories

/-- The accesses of every variable, command by command. -/
def accessLoop (t : Partition) (effects : List Effects) : List (List Access) :=
  effects.zipIdx.foldl noteAccesses (List.replicate t.numVariables [])

theorem kindOf_eq {e : Effects} (hRead : e.read.Pairwise (· < ·))
    (hWritten : e.written.Pairwise (· < ·)) (var : Nat) :
    e.kindOf var = if var ∈ e.touched then some (kindBySearch e var) else none := by
  rw [Effects.kindOf, Effects.touched, kindBySearch]
  simp only [List.mem_append, ← search_iff hRead, ← search_iff hWritten]
  cases search e.read var <;> cases search e.written var <;> rfl

/-- Each variable that a command touches gets the access. -/
theorem foldl_noteAccess (e : Effects) (command : Nat) {vars : List Nat} (hNodup : vars.Nodup)
    (f : Nat → List Access) :
    vars.foldl (noteAccess e command) (table n f) =
      table n fun var => f var ++ if var ∈ vars then [⟨command, kindBySearch e var⟩] else [] := by
  induction vars generalizing f with
  | nil => simp
  | cons first rest ih =>
      obtain ⟨hNew, hRest⟩ := List.nodup_cons.mp hNodup
      rw [List.foldl_cons, noteAccess, modify_table, ih hRest]
      refine table_congr fun var _ => ?_
      by_cases hSame : var = first
      · subst hSame
        simp [hNew]
      · simp [hSame]

theorem variableHistory_concat (done : List Effects) (e : Effects) (var : Nat) :
    variableHistory (done ++ [e]) var =
      variableHistory done var ++ ((e.kindOf var).map (⟨done.length, ·⟩)).toList := by
  simp only [variableHistory, List.zipIdx_append, List.filterMap_append]
  cases hKind : e.kindOf var <;> simp [hKind]

/-- Going through the commands builds up the histories of the variables. -/
theorem accessLoop_eq (t : Partition) {effects : List Effects}
    (hRead : ∀ e ∈ effects, e.read.Pairwise (· < ·))
    (hWritten : ∀ e ∈ effects, e.written.Pairwise (· < ·)) :
    accessLoop t effects = variableHistories t effects := by
  change effects.zipIdx.foldl noteAccesses _ = table t.numVariables (variableHistory effects)
  induction effects using List.reverseRecOn with
  | nil => exact replicate_eq_table _ _
  | append_singleton done e ih =>
      have hOwn : e ∈ done ++ [e] := List.mem_append_right done List.mem_cons_self
      have hVars : (Ascending.ofList e.touched).Nodup :=
        (Ascending.pairwise_ofList e.touched).imp Nat.ne_of_lt
      rw [List.zipIdx_append, List.foldl_append,
        ih (fun e' hMem => hRead e' (List.mem_append_left _ hMem))
          fun e' hMem => hWritten e' (List.mem_append_left _ hMem)]
      change noteAccesses _ (e, 0 + done.length) = _
      rw [Nat.zero_add, noteAccesses, dropRepeats_mergeSort, foldl_noteAccess e _ hVars]
      refine table_congr fun var _ => ?_
      rw [variableHistory_concat, kindOf_eq (hRead e hOwn) (hWritten e hOwn)]
      simp only [Ascending.mem_ofList_iff]
      split <;> rfl

/-- The effects of a program are ascending, so its histories are those of the loop. -/
theorem accessLoop_effects {p : Program} {net : Network} {t : Partition} {effects : List Effects}
    (h : p.effects net t = .ok effects) : accessLoop t effects = variableHistories t effects := by
  have hAscending : ∀ e ∈ effects, e.read.Pairwise (· < ·) ∧ e.written.Pairwise (· < ·) := by
    intro e hMem
    obtain ⟨i, hGet⟩ := List.mem_iff_getElem?.mp hMem
    obtain ⟨c, -, hEffects⟩ := Program.commandEffects_of_getElem? h hGet
    exact Program.pairwise_commandEffects hEffects
  exact accessLoop_eq t (fun e hMem => (hAscending e hMem).1) fun e hMem => (hAscending e hMem).2

/-! ## The histories of the matrices -/

variable {p : Program} {t : Partition}

/-- Note that a command accesses a matrix, unless it is the last one noted. -/
def noteOnce (command : Nat) (own : MatrixHistory) : MatrixHistory :=
  if own.accesses.getLast? = some command then
    own
  else
    { own with accesses := own.accesses ++ [command] }

/-- Note that a command accesses the matrix of a variable. -/
def noteMatrix (t : Partition) (command : Nat) (histories : List MatrixHistory) (var : Nat) :
    Except Error (List MatrixHistory) := do
  let m ← t.matrixOf var
  return histories.modify m (noteOnce command)

/-- The history of a matrix that a command allocates or releases. -/
def entryFor (histories : List MatrixHistory) (m command : Nat) : Except Error MatrixHistory :=
  if m = 0 then
    .error (.malformed (some command) .resizeOfEmpty)
  else
    match histories[m]? with
    | some own => .ok own
    | none => .error (.malformed (some command) (.matrixIndex m))

/-- Note that a command allocates or releases a matrix. -/
def noteResize (histories : List MatrixHistory) (command : Nat) (c : Command) :
    Except Error (List MatrixHistory) :=
  match c.allocated?, c.released? with
  | some m, _ => do
      match (← entryFor histories m command).allocation with
      | some first => throw (.lifecycle m (.allocatedTwice first command))
      | none => return histories.modify m fun own => { own with allocation := some command }
  | none, some m => do
      match (← entryFor histories m command).release with
      | some first => throw (.lifecycle m (.releasedTwice first command))
      | none => return histories.modify m fun own => { own with release := some command }
  | none, none => return histories

/-- Note what a command does. -/
def noteCommand (p : Program) (t : Partition) (histories : List MatrixHistory)
    (entry : Effects × Nat) : Except Error (List MatrixHistory) := do
  let histories ← entry.1.touched.foldlM (noteMatrix t entry.2) histories
  match p.commands[entry.2]? with
  | none => throw (.failed (.unknownCommand entry.2))
  | some c => noteResize histories entry.2 c

/-- A matrix is marked on a side. -/
def marked (own : MatrixHistory) : Side → Bool
  | .input => own.isInput
  | .output => own.isOutput

/-- Mark a matrix on a side. -/
def setMarked (own : MatrixHistory) : Side → MatrixHistory
  | .input => { own with isInput := true }
  | .output => { own with isOutput := true }

/-- Mark a matrix that a binding names, at most once on each side. -/
def noteMark (side : Side) (m : Nat) (histories : List MatrixHistory) :
    Except Error (List MatrixHistory) :=
  match if m = 0 then none else histories[m]? with
  | none => .error (.malformed none (.markedMatrix m))
  | some own =>
      if marked own side then
        .error (.malformed none (.markedTwice m side))
      else
        .ok (histories.modify m (setMarked · side))

/-- Mark the matrices of a binding. -/
def noteBinding (net : Network) (histories : List MatrixHistory) (entry : Nat × Binding) :
    Except Error (List MatrixHistory) := do
  let (valueSide, derivSide) ← Program.boundSides net entry.1
  let histories ← noteMark valueSide entry.2.value histories
  match entry.2.deriv? with
  | some deriv => noteMark derivSide deriv histories
  | none => return histories

/-- The histories of the matrices, command by command and then binding by binding. -/
def matrixLoop (p : Program) (net : Network) (t : Partition) (effects : List Effects) :
    Except Error (List MatrixHistory) := do
  let start := List.replicate p.numMatrices ⟨none, none, [], false, false⟩
  let histories ← effects.zipIdx.foldlM (noteCommand p t) start
  p.bindings.foldlM (noteBinding net) histories

/-- What can be read off the effects of the commands so far and the marks so far. -/
def historyOf (p : Program) (t : Partition) (effects : List Effects) (marks : Marks) (m : Nat) :
    MatrixHistory where
  allocation := (allocations (p.commands.take effects.length) m).head?
  release := (releases (p.commands.take effects.length) m).head?
  accesses := matrixAccesses t effects m
  isInput := decide (m ∈ marks.inputs)
  isOutput := decide (m ∈ marks.outputs)

/-- A history with one more command noted, if it is to be. -/
def withCommand (own : MatrixHistory) (command : Nat) (noted : Bool) : MatrixHistory :=
  if noted then { own with accesses := own.accesses ++ [command] } else own

theorem noteOnce_withCommand {command : Nat} {own : MatrixHistory}
    (hLast : own.accesses.getLast? ≠ some command) (noted : Bool) :
    noteOnce command (withCommand own command noted) = withCommand own command true := by
  cases noted <;> simp [noteOnce, withCommand, hLast]

/-- A matrix takes note of a command with a variable of its own, once. -/
theorem noteMatrix_table {command : Nat} {f : Nat → MatrixHistory}
    (hLast : ∀ m, (f m).accesses.getLast? ≠ some command) {seen : List Nat} {var m : Nat}
    (hOwner : t.matrixOf var = .ok m) :
    noteMatrix t command
        (table n fun k => withCommand (f k) command (seen.any (· ∈ t.ofMatrix k))) var =
      .ok (table n fun k =>
        withCommand (f k) command ((seen ++ [var]).any (· ∈ t.ofMatrix k))) := by
  rw [noteMatrix, hOwner, Action.check_ok_bind, modify_table]
  refine congrArg Except.ok (table_congr fun k _ => ?_)
  have hOwn : decide (var ∈ t.ofMatrix k) = decide (k = m) := by
    refine decide_eq_decide.mpr ?_
    rw [Partition.mem_ofMatrix_iff, hOwner, Except.ok.injEq]
    exact eq_comm
  rw [List.any_append, List.any_cons, List.any_nil, Bool.or_false, hOwn]
  by_cases hSame : k = m
  · rw [if_pos hSame, noteOnce_withCommand (hLast k), decide_eq_true hSame, Bool.or_true]
  · rw [if_neg hSame, decide_eq_false hSame, Bool.or_false]

/-- A command is noted in the history of each matrix that it touches. -/
theorem foldlM_noteMatrix {command : Nat} {f : Nat → MatrixHistory}
    (hLast : ∀ m, (f m).accesses.getLast? ≠ some command) (seen vars : List Nat) :
    vars.foldlM (noteMatrix t command)
        (table n fun m => withCommand (f m) command (seen.any (· ∈ t.ofMatrix m))) = (do
      vars.forM fun var => do
        let _ ← t.matrixOf var
      return table n fun m =>
        withCommand (f m) command ((seen ++ vars).any (· ∈ t.ofMatrix m))) := by
  induction vars generalizing seen with
  | nil => simp
  | cons var rest ih =>
      rw [List.foldlM_cons]
      simp only [List.forM]
      cases hOwner : t.matrixOf var with
      | error err => simp [noteMatrix, hOwner, Action.check_error_bind]
      | ok m =>
          rw [noteMatrix_table hLast hOwner, Action.check_ok_bind, ih]
          simp [Action.check_ok_bind]

/-! ### One command more -/

/-- The first position of a matrix among some commands, with one command more. -/
theorem head?_positions_concat (q : Command → Option Nat) (done : List Command) (c : Command)
    (m : Nat) :
    ((done ++ [c]).zipIdx.filterMap fun (c, index) =>
        if q c = some m then some index else none).head? =
      (done.zipIdx.filterMap fun (c, index) => if q c = some m then some index else none).head?.or
        (if q c = some m then some done.length else none) := by
  rw [List.zipIdx_append, List.filterMap_append, List.head?_append]
  by_cases hNamed : q c = some m <;> simp [hNamed]

theorem matrixAccesses_concat (done : List Effects) (e : Effects) (m : Nat) :
    matrixAccesses t (done ++ [e]) m =
      matrixAccesses t done m ++
        if e.touched.any (· ∈ t.ofMatrix m) then [done.length] else [] := by
  rw [matrixAccesses, List.zipIdx_append, List.filterMap_append]
  refine congrArg (matrixAccesses t done m ++ ·) ?_
  by_cases hTouched : e.touched.any (· ∈ t.ofMatrix m) = true
  · simp only [List.zipIdx_cons, List.zipIdx_nil, List.filterMap_cons, List.filterMap_nil,
      Nat.zero_add, if_pos hTouched]
  · simp only [List.zipIdx_cons, List.zipIdx_nil, List.filterMap_cons, List.filterMap_nil,
      Nat.zero_add, if_neg hTouched]

/-- The commands noted so far come before the next one. -/
theorem getLast?_matrixAccesses_ne (done : List Effects) (m : Nat) :
    (matrixAccesses t done m).getLast? ≠ some done.length := by
  intro hLast
  obtain ⟨e, i, hGet, hNoted⟩ := mem_filterMap_zipIdx_iff.mp (List.mem_of_getLast? hLast)
  have hLt := (List.getElem?_eq_some_iff.mp hGet).1
  obtain ⟨-, hSame⟩ := Option.ite_none_right_eq_some.mp hNoted
  exact Nat.ne_of_lt hLt (Option.some.inj hSame)

variable {net : Network} {marks : Marks} {done : List Effects} {e : Effects} {c : Command}

/-- The histories once the accesses of a command have been noted, but no resize. -/
def touchedBy (p : Program) (t : Partition) (done : List Effects) (e : Effects) (marks : Marks)
    (m : Nat) : MatrixHistory :=
  withCommand (historyOf p t done marks m) done.length (e.touched.any (· ∈ t.ofMatrix m))

/-- To note the accesses of a command changes neither allocations nor releases. -/
theorem touchedBy_eq (m : Nat) :
    (touchedBy p t done e marks m).allocation =
        (allocations (p.commands.take done.length) m).head? ∧
      (touchedBy p t done e marks m).release =
        (releases (p.commands.take done.length) m).head? := by
  unfold touchedBy withCommand
  split <;> exact ⟨rfl, rfl⟩

/-- What is read off the effects of one command more. -/
theorem historyOf_concat (hCommand : p.commands[done.length]? = some c) (m : Nat) :
    historyOf p t (done ++ [e]) marks m =
      { touchedBy p t done e marks m with
        allocation := (touchedBy p t done e marks m).allocation.or
          (if c.allocated? = some m then some done.length else none)
        release := (touchedBy p t done e marks m).release.or
          (if c.released? = some m then some done.length else none) } := by
  have hTake : p.commands.take (done ++ [e]).length = p.commands.take done.length ++ [c] := by
    rw [List.length_append, List.length_singleton, List.take_add_one, hCommand,
      Option.toList_some]
  have hLength : (p.commands.take done.length).length = done.length :=
    List.length_take_of_le (Nat.le_of_lt (List.getElem?_eq_some_iff.mp hCommand).1)
  have hAllocation := head?_positions_concat Command.allocated? (p.commands.take done.length) c m
  have hRelease := head?_positions_concat Command.released? (p.commands.take done.length) c m
  rw [hLength] at hAllocation hRelease
  simp only [historyOf, touchedBy, hTake, matrixAccesses_concat, allocations, releases,
    hAllocation, hRelease]
  cases e.touched.any (· ∈ t.ofMatrix m) <;> simp [withCommand]

/-- The histories of all matrices, as they can be read off. -/
def historiesOf (p : Program) (t : Partition) (effects : List Effects) (marks : Marks) :
    List MatrixHistory :=
  table p.numMatrices (historyOf p t effects marks)

theorem entryFor_table (f : Nat → MatrixHistory) (m command : Nat) :
    entryFor (table n f) m command =
      if m = 0 then .error (.malformed (some command) .resizeOfEmpty)
      else if n ≤ m then .error (.malformed (some command) (.matrixIndex m))
      else .ok (f m) := by
  rw [entryFor, getElem?_table]
  by_cases hZero : m = 0
  · rw [if_pos hZero, if_pos hZero]
  · by_cases hLt : m < n
    · rw [if_neg hZero, if_neg hZero, if_pos hLt, if_neg (Nat.not_le.mpr hLt)]
    · rw [if_neg hZero, if_neg hZero, if_neg hLt, if_pos (Nat.le_of_not_lt hLt)]

/-- What a command does to a matrix is noted exactly if the matrix is there and no earlier command
has done so. -/
theorem noteFirst_table {f f' : Nat → MatrixHistory} {a command : Nat}
    {first? : MatrixHistory → Option Nat} {twice : Nat → Error}
    {change : MatrixHistory → MatrixHistory}
    (hNoted : first? (f a) = none → ∀ m, (if m = a then change (f m) else f m) = f' m) :
    (entryFor (table n f) a command >>= fun own =>
        match first? own with
        | some first => throw (twice first)
        | none => return (table n f).modify a change) =
      (fun _ => table n f') <$>
        (if a = 0 then
          .error (.malformed (some command) .resizeOfEmpty)
        else if n ≤ a then
          .error (.malformed (some command) (.matrixIndex a))
        else
          match first? (f a) with
          | some first => .error (twice first)
          | none => .ok () : Except Error Unit) := by
  rw [entryFor_table]
  split
  · rfl
  · split
    · rfl
    · rw [Action.check_ok_bind]
      cases hFirst : first? (f a) with
      | some first => rfl
      | none =>
          exact congrArg Except.ok
            ((modify_table _ _ _).trans (table_congr fun m _ => hNoted hFirst m))

/-- An allocation is noted exactly if it may be. -/
theorem noteResize_of_allocated (hCommand : p.commands[done.length]? = some c) {a : Nat}
    (hAllocated : c.allocated? = some a) :
    noteResize (table p.numMatrices (touchedBy p t done e marks)) done.length c =
      (fun _ => historiesOf p t (done ++ [e]) marks) <$>
        p.requireFirstAllocation done.length a := by
  have hReleased : c.released? = none := by
    cases c <;> simp [Command.allocated?, Command.released?] at hAllocated ⊢
  rw [noteResize, hAllocated, Program.requireFirstAllocation, ← (touchedBy_eq a).1]
  refine noteFirst_table fun hFirst m => ?_
  rw [historyOf_concat hCommand, hAllocated, hReleased]
  by_cases hSame : m = a
  · subst hSame
    simp [hFirst]
  · simp [hSame, Ne.symm hSame]

/-- A release is noted exactly if it may be. -/
theorem noteResize_of_released (hCommand : p.commands[done.length]? = some c) {a : Nat}
    (hAllocated : c.allocated? = none) (hReleased : c.released? = some a) :
    noteResize (table p.numMatrices (touchedBy p t done e marks)) done.length c =
      (fun _ => historiesOf p t (done ++ [e]) marks) <$>
        p.requireFirstRelease done.length a := by
  rw [noteResize, hAllocated, hReleased, Program.requireFirstRelease, ← (touchedBy_eq a).2]
  refine noteFirst_table fun hFirst m => ?_
  rw [historyOf_concat hCommand, hAllocated, hReleased]
  by_cases hSame : m = a
  · subst hSame
    simp [hFirst]
  · simp [hSame, Ne.symm hSame]

theorem noteResize_of_neither (hCommand : p.commands[done.length]? = some c)
    (hAllocated : c.allocated? = none) (hReleased : c.released? = none) :
    noteResize (table p.numMatrices (touchedBy p t done e marks)) done.length c =
      .ok (historiesOf p t (done ++ [e]) marks) := by
  rw [noteResize, hAllocated, hReleased]
  refine congrArg Except.ok (table_congr fun m _ => ?_)
  rw [historyOf_concat hCommand, hAllocated, hReleased]
  simp

/-- A command is noted exactly if it may be, and then the histories are those with its effects. -/
theorem noteCommand_historiesOf :
    noteCommand p t (historiesOf p t done marks) (e, done.length) =
      (fun _ => historiesOf p t (done ++ [e]) marks) <$> p.requireCommand t e done.length := by
  have hStart : historiesOf p t done marks = table p.numMatrices fun m =>
      withCommand (historyOf p t done marks m) done.length
        (([] : List Nat).any (· ∈ t.ofMatrix m)) := rfl
  rw [noteCommand, hStart, foldlM_noteMatrix (getLast?_matrixAccesses_ne done),
    Program.requireCommand]
  cases e.touched.forM fun var => do let _ ← t.matrixOf var with
  | error err => rfl
  | ok u =>
      cases hCommand : p.commands[done.length]? with
      | none => rfl
      | some c =>
          cases hAllocated : c.allocated? with
          | some a =>
              simp only [hAllocated]
              exact noteResize_of_allocated hCommand hAllocated
          | none =>
              cases hReleased : c.released? with
              | some a =>
                  simp only [hAllocated, hReleased]
                  exact noteResize_of_released hCommand hAllocated hReleased
              | none =>
                  simp only [hAllocated, hReleased]
                  exact noteResize_of_neither hCommand hAllocated hReleased

/-- Going through more commands notes all of them, or fails where one may not be noted. -/
theorem foldlM_noteCommand (done rest : List Effects) :
    (rest.zipIdx done.length).foldlM (noteCommand p t) (historiesOf p t done marks) =
      (fun _ => historiesOf p t (done ++ rest) marks) <$>
        (rest.zipIdx done.length).forM fun (e, command) => p.requireCommand t e command := by
  induction rest generalizing done with
  | nil =>
      rw [List.append_nil]
      rfl
  | cons e rest ih =>
      have hRest := ih (done ++ [e])
      rw [List.length_append, List.length_singleton, List.append_assoc, List.singleton_append]
        at hRest
      rw [List.zipIdx_cons, List.foldlM_cons, noteCommand_historiesOf]
      simp only [List.forM]
      cases p.requireCommand t e done.length with
      | error err => rfl
      | ok u => exact hRest

/-! ### Marks -/

/-- A matrix is marked exactly if it may be. -/
theorem noteMark_historiesOf (effects : List Effects) (side : Side) (m : Nat) :
    noteMark side m (historiesOf p t effects marks) =
      historiesOf p t effects <$> marks.mark p.numMatrices side m := by
  have hAt : (if m = 0 then none else (historiesOf p t effects marks)[m]?) =
      if m = 0 ∨ p.numMatrices ≤ m then none else some (historyOf p t effects marks m) := by
    rw [historiesOf, getElem?_table]
    by_cases hZero : m = 0 <;> by_cases hLt : m < p.numMatrices <;> simp [hZero, hLt]
  have hMarked : marked (historyOf p t effects marks m) side = decide (m ∈ marks.on side) := by
    cases side <;> rfl
  unfold noteMark Marks.mark
  rw [hAt]
  by_cases hNone : m = 0 ∨ p.numMatrices ≤ m
  · rw [if_pos hNone, if_pos hNone]
    rfl
  · rw [if_neg hNone, if_neg hNone]
    dsimp only
    rw [hMarked]
    by_cases hIn : m ∈ marks.on side
    · simp only [hIn, decide_true, if_true]
      rfl
    · simp only [hIn, decide_false, Bool.false_eq_true, if_false]
      refine congrArg Except.ok ((modify_table _ _ _).trans (table_congr fun k _ => ?_))
      cases side <;> by_cases hSame : k = m <;> simp [setMarked, historyOf, hSame]

theorem noteBinding_historiesOf (net : Network) (effects : List Effects) (entry : Nat × Binding) :
    noteBinding net (historiesOf p t effects marks) entry =
      historiesOf p t effects <$> p.markBinding net marks entry := by
  unfold noteBinding Program.markBinding
  cases Program.boundSides net entry.1 with
  | error err => rfl
  | ok sides =>
      simp only [Action.check_ok_bind, noteMark_historiesOf]
      cases marks.mark p.numMatrices sides.1 entry.2.value with
      | error err => rfl
      | ok marks' =>
          cases entry.2.deriv? with
          | none => rfl
          | some deriv => exact noteMark_historiesOf effects sides.2 deriv

theorem foldlM_noteBinding (net : Network) (effects : List Effects)
    (entries : List (Nat × Binding)) (marks : Marks) :
    entries.foldlM (noteBinding net) (historiesOf p t effects marks) =
      historiesOf p t effects <$> entries.foldlM (p.markBinding net) marks := by
  induction entries generalizing marks with
  | nil => rfl
  | cons entry rest ih =>
      rw [List.foldlM_cons, List.foldlM_cons, noteBinding_historiesOf]
      cases p.markBinding net marks entry with
      | error err => rfl
      | ok marks' => exact ih marks'

/-- Going through the commands and the bindings builds up the histories of the matrices. -/
theorem matrixLoop_eq (p : Program) (net : Network) (t : Partition) (effects : List Effects) :
    matrixLoop p net t effects = p.matrixHistories net t effects := by
  have hStart : List.replicate p.numMatrices ⟨none, none, [], false, false⟩ =
      historiesOf p t [] .none := by
    rw [replicate_eq_table]
    refine table_congr fun m _ => ?_
    simp [historyOf, allocations, releases, matrixAccesses, Marks.none]
  have hCommands : effects.zipIdx.foldlM (noteCommand p t) (historiesOf p t [] .none) =
      (fun _ => historiesOf p t effects .none) <$>
        effects.zipIdx.forM fun (e, command) => p.requireCommand t e command :=
    foldlM_noteCommand [] effects
  rw [matrixLoop, hStart, hCommands, Program.matrixHistories]
  cases effects.zipIdx.forM fun (e, command) => p.requireCommand t e command with
  | error err => rfl
  | ok u =>
      refine (foldlM_noteBinding net effects p.bindings .none).trans ?_
      change historiesOf p t effects <$> p.marks net = _
      cases p.marks net <;> rfl

end Loops

end MatrixProgram
