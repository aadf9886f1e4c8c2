import MatrixProgram.Proofs.Check.Discipline
import MatrixProgram.Proofs.Machine.Noting

/-!
# Steps of a run

A command either allocates or releases one matrix, or it keeps to its access rules.  The
commands of the first kind never fail in slots that fit the program, and all they change is
one slot: `execute_resize`.  Those of the second kind are the subject of `execute_keepsRules`.

`Segment` lists commands that follow one another in a program, with their positions.  It is
what inductions over a run go along.
-/

namespace MatrixProgram

namespace Slots

variable {slots : Slots} {p : Program} {m : Nat} {b : Option Buffer}

/-- Filling or freeing one slot leaves slots that fit, if the new buffer has the declared
shape. -/
theorem Fit.put (h : slots.Fit p)
    (hShape : ∀ found, b = some found → p.matrices[m]? = some found.shape) :
    (slots.put m b).Fit p where
  length := (length_put slots m b).trans h.length
  shape := by
    intro k shape hFound
    by_cases hEq : m = k
    · subst hEq
      obtain ⟨found, hBuffer, hSame⟩ := exists_buffer?_of_shape? hFound
      rw [buffer?_put] at hBuffer
      by_cases hLt : m < slots.entries.length
      · rw [if_pos ⟨rfl, hLt⟩] at hBuffer
        rw [← hSame]
        exact hShape found hBuffer
      · rw [if_neg fun hBoth => hLt hBoth.2] at hBuffer
        exact absurd (lt_length_of_buffer? hBuffer) hLt
    · rw [shape?_put_of_ne hEq] at hFound
      exact h.shape hFound

theorem occupied_put_self (hLt : m < slots.entries.length) :
    (slots.put m b).occupied m = b.isSome := by
  rw [occupied, buffer?_put_self hLt]

theorem occupied_put_of_ne {k : Nat} (hNe : m ≠ k) :
    (slots.put m b).occupied k = slots.occupied k :=
  occupied_congr (shape?_put_of_ne hNe)

end Slots

/-! ## Commands that follow one another -/

/-- Commands of a program, with their positions, from one position to before another. -/
inductive Program.Segment (p : Program) : Nat → List (Command × Nat) → Nat → Prop
  | nil {i : Nat} : Segment p i [] i
  | cons {i j : Nat} {c : Command} {rest : List (Command × Nat)}
      (hCommand : p.commands[i]? = some c) (hRest : Segment p (i + 1) rest j) :
      Segment p i ((c, i) :: rest) j

namespace Program

variable {p : Program}

theorem Segment.le {i j : Nat} {segment : List (Command × Nat)} (h : p.Segment i segment j) :
    i ≤ j := by
  induction h with
  | nil => exact Nat.le_refl _
  | cons _ _ ih => omega

/-- The first command of a segment, if there is one, is the one at its first position. -/
theorem Segment.uncons {i j : Nat} {segment : List (Command × Nat)} {c : Command}
    (h : p.Segment i segment j) (hLt : i < j) (hCommand : p.commands[i]? = some c) :
    ∃ rest, segment = (c, i) :: rest ∧ p.Segment (i + 1) rest j := by
  cases h with
  | nil => exact absurd hLt (Nat.lt_irrefl i)
  | cons hFirst hRest =>
      cases hFirst.symm.trans hCommand
      exact ⟨_, rfl, hRest⟩

theorem Segment.eq_nil {i : Nat} {segment : List (Command × Nat)} (h : p.Segment i segment i) :
    segment = [] := by
  cases h with
  | nil => rfl
  | cons _ hRest => exact absurd hRest.le (Nat.not_succ_le_self i)

theorem segment_of_drop {cs rest : List Command} {i : Nat} (h : p.commands.drop i = cs ++ rest) :
    p.Segment i (cs.zipIdx i) (i + cs.length) := by
  induction cs generalizing i with
  | nil => exact .nil
  | cons c cs ih =>
      have hCommand : p.commands[i]? = some c := by
        have hHead := congrArg (·[0]?) h
        simpa [List.getElem?_drop] using hHead
      have hRest : p.commands.drop (i + 1) = cs ++ rest := by
        rw [← List.tail_drop, h]
        rfl
      rw [List.zipIdx_cons, List.length_cons, show i + (cs.length + 1) = i + 1 + cs.length by omega]
      exact .cons hCommand (ih hRest)

/-- The commands before a position. -/
theorem segment_take {i : Nat} (h : i ≤ p.commands.length) :
    p.Segment 0 (p.commands.zipIdx.take i) i := by
  have hTake : p.commands.zipIdx.take i = (p.commands.take i).zipIdx := by
    apply List.ext_getElem?
    intro k
    rw [List.getElem?_take, List.getElem?_zipIdx, List.getElem?_zipIdx, List.getElem?_take]
    split <;> rfl
  have hSegment := segment_of_drop (p := p) (i := 0)
    (List.take_append_drop i p.commands).symm
  rw [List.length_take, Nat.zero_add, Nat.min_eq_left h] at hSegment
  rw [hTake]
  exact hSegment

/-- The commands from a position on. -/
theorem segment_drop {i : Nat} (h : i ≤ p.commands.length) :
    p.Segment i (p.commands.zipIdx.drop i) p.commands.length := by
  have hDrop : p.commands.zipIdx.drop i = (p.commands.drop i).zipIdx i := by
    apply List.ext_getElem?
    intro k
    rw [List.getElem?_drop, List.getElem?_zipIdx, List.getElem?_zipIdx, List.getElem?_drop]
    simp
  have hSegment := segment_of_drop (p := p) (i := i) (List.append_nil (p.commands.drop i)).symm
  rw [List.length_drop, show i + (p.commands.length - i) = p.commands.length by omega]
    at hSegment
  rw [hDrop]
  exact hSegment

end Program

namespace Machine

variable {x : Machine} {c : Command} {m : Nat} {b : Option Buffer} {s t : MachineState}

/-! ## Commands that allocate or release -/

/-- What a command puts into the slot of the matrix that it allocates or releases. -/
inductive Refills (x : Machine) : Command → Nat → Option Buffer → Prop
  | zeroed {m : Nat} {shape : Shape} (h : x.program.matrix m = .ok shape) :
      Refills x (.allocZeroed m) m (some (.zeros shape.numRows shape.numCols))
  | undefined {m : Nat} {shape : Shape} (h : x.program.matrix m = .ok shape) :
      Refills x (.allocUndefined m) m
        (some (.ofFn shape.numRows shape.numCols (x.undefinedContents m)))
  | released {m : Nat} : Refills x (.release m) m none

theorem exists_refills (hCheck : x.program.checkCommand x.network c = .ok ())
    (hResize : c.resized? = some m) : ∃ b, x.Refills c m b := by
  have hMatrix : c.allocated? = some m ∨ c.released? = some m → ∃ shape,
      x.program.matrix m = .ok shape := by
    intro hEither
    obtain ⟨hZero, hLt⟩ := Program.resize_of_check hCheck hEither
    exact Program.exists_matrix hZero hLt
  cases c with
  | allocZeroed =>
      cases hResize
      obtain ⟨shape, hShape⟩ := hMatrix (.inl rfl)
      exact ⟨_, .zeroed hShape⟩
  | allocUndefined =>
      cases hResize
      obtain ⟨shape, hShape⟩ := hMatrix (.inl rfl)
      exact ⟨_, .undefined hShape⟩
  | release =>
      cases hResize
      exact ⟨_, .released⟩
  | _ => cases hResize

/-- A command that refills a slot either allocates the matrix or releases it. -/
theorem Refills.allocated_or_released (h : x.Refills c m b) :
    c.allocated? = some m ∧ b.isSome = true ∨ c.released? = some m ∧ b.isSome = false := by
  cases h with
  | zeroed => exact .inl ⟨rfl, rfl⟩
  | undefined => exact .inl ⟨rfl, rfl⟩
  | released => exact .inr ⟨rfl, rfl⟩

theorem Refills.lt (h : x.Refills c m b) (hCheck : x.program.checkCommand x.network c = .ok ())
    (hFit : s.slots.Fit x.program) : m < s.slots.entries.length := by
  rw [hFit.length]
  cases h with
  | zeroed => exact (Program.resize_of_check hCheck (.inl rfl)).2
  | undefined => exact (Program.resize_of_check hCheck (.inl rfl)).2
  | released => exact (Program.resize_of_check hCheck (.inr rfl)).2

/-- What is put into a slot has the declared shape. -/
theorem Refills.declared (h : x.Refills c m b) {found : Buffer} (hSome : b = some found) :
    x.program.matrix m = .ok found.shape := by
  cases h with
  | zeroed hMatrix =>
      cases hSome
      exact hMatrix
  | undefined hMatrix =>
      cases hSome
      exact hMatrix
  | released => cases hSome

theorem Refills.shape (h : x.Refills c m b) (found : Buffer) (hSome : b = some found) :
    x.program.matrices[m]? = some found.shape :=
  (Program.matrix_eq_ok_iff.mp (h.declared hSome)).2

theorem perform_resize (index : Nat) (h : x.Refills c m b)
    (hCheck : x.program.checkCommand x.network c = .ok ()) (hFit : s.slots.Fit x.program) :
    x.perform index c s = .ok () { s with slots := s.slots.put m b } := by
  have hLt := h.lt hCheck hFit
  cases h with
  | zeroed hMatrix => simp [perform, allocate, hMatrix, Buffer.zeros]
  | undefined hMatrix => simp [perform, allocate, hMatrix]
  | released => simp [perform, release, Action.bind_run, hLt]

/-- A command that allocates or releases a matrix changes the slot of that matrix and no
other one. -/
theorem execute_resize (index : Nat) (h : x.Refills c m b)
    (hCheck : x.program.checkCommand x.network c = .ok ()) (hFit : s.slots.Fit x.program) :
    ∃ journal, x.execute index c s = .ok () ⟨s.slots.put m b, s.target, s.phase, journal⟩ :=
  execute_run_of_perform (perform_resize index h hCheck hFit)

/-! ## What every step keeps -/

/-- A command leaves slots that fit the program, whether or not it fails, and the phase. -/
theorem execute_fit (index : Nat) (hWell : x.program.WellFormed)
    (hCheck : x.program.checkCommand x.network c = .ok ()) (hFit : s.slots.Fit x.program) :
    (Action.finalState (x.execute index c s)).slots.Fit x.program ∧
      (Action.finalState (x.execute index c s)).phase = s.phase := by
  cases hResize : c.resized? with
  | some m =>
      obtain ⟨b, hRefills⟩ := exists_refills hCheck hResize
      obtain ⟨journal, hRun⟩ := execute_resize index hRefills hCheck hFit
      rw [hRun]
      exact ⟨hFit.put hRefills.shape, rfl⟩
  | none =>
      have hKeeps := execute_keepsRules (A := fun _ _ _ => True) index hWell hCheck hResize
        fun _ _ _ _ => trivial
      have hFrame := hKeeps.frame hFit
      exact ⟨hFrame.fit hFit, hFrame.phase⟩

theorem executeAll_cons_run (x : Machine) (c : Command) (i : Nat) (rest : List (Command × Nat))
    (s : MachineState) :
    x.executeAll ((c, i) :: rest) s =
      match x.execute i c s with
      | .ok _ t => x.executeAll rest t
      | .error err t => .error err t := by
  show (x.execute i c >>= fun _ => x.executeAll rest) s = _
  rw [Action.bind_run]
  cases x.execute i c s <;> rfl

/-- A run either gets to its end, or stops at a command that fails.  What holds before the
first command and is passed on by each one that succeeds holds where it ends. -/
theorem executeAll_cases {I : Nat → MachineState → Prop} {segment : List (Command × Nat)}
    {i j : Nat} (hSegment : x.program.Segment i segment j)
    (hStep : ∀ k c s t, k < j → x.program.commands[k]? = some c → I k s →
      x.execute k c s = .ok () t → I (k + 1) t) (h : I i s) :
    (∃ t, x.executeAll segment s = .ok () t ∧ I j t) ∨
      ∃ k c u err t, k < j ∧ x.program.commands[k]? = some c ∧ I k u ∧
        x.execute k c u = .error err t ∧ x.executeAll segment s = .error err t := by
  -- By induction along the segment, up to the first failure.
  induction hSegment generalizing s with
  | nil => exact .inl ⟨s, rfl, h⟩
  | @cons i j c rest hCommand hRest ih =>
      have hLt : i < j := hRest.le
      rw [executeAll_cons_run]
      cases hRun : x.execute i c s with
      | error err t => exact .inr ⟨i, c, s, err, t, hLt, hCommand, h, hRun, rfl⟩
      | ok u t => exact ih hStep (hStep i c s t hLt hCommand h hRun)

/-- A run of checked commands leaves slots that fit the program, and the phase. -/
theorem executeAll_fit {segment : List (Command × Nat)} {i j : Nat}
    (hWell : x.program.WellFormed) (hOperands : x.program.checkOperands x.network = .ok ())
    (hSegment : x.program.Segment i segment j) (hFit : s.slots.Fit x.program) :
    (Action.finalState (x.executeAll segment s)).slots.Fit x.program ∧
      (Action.finalState (x.executeAll segment s)).phase = s.phase := by
  -- By induction along the segment, up to the first failure.
  induction hSegment generalizing s with
  | nil => exact ⟨hFit, rfl⟩
  | @cons i j c rest hCommand _ ih =>
      have hCheck := Program.checkOperands_eq_ok_iff.mp hOperands i c hCommand
      have hStep := execute_fit i hWell hCheck hFit
      rw [executeAll_cons_run]
      cases hRun : x.execute i c s with
      | error err t =>
          rw [hRun] at hStep
          exact hStep
      | ok u t =>
          rw [hRun] at hStep
          obtain ⟨hRestFit, hRestPhase⟩ := ih hStep.1
          exact ⟨hRestFit, hRestPhase.trans hStep.2⟩

end Machine

end MatrixProgram
