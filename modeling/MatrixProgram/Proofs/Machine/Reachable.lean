import MatrixProgram.Proofs.Machine.Storage

/-!
# Reachable states

A machine starts with free slots, and its state changes by calls and, during a call, by
commands.  `Reachable` takes in all of these states, those that a failed call or command
leaves among them.  Every one of them keeps the invariant of the storage, `Reachable.kept`, so
the storage is contained: `storage_contained`.
-/

namespace MatrixProgram

namespace Machine

open Program

variable {x : Machine} {s : MachineState} {target : Option Network}

/-! ## The lookups of calls -/

theorem boundNode_allowed (x : Machine) (name : String) :
    Action.Allowed True (x.boundNode name) := by
  intro err hErr
  unfold boundNode at hErr
  split at hErr
  · cases hErr
    exact trivial
  · split at hErr
    · cases hErr
      exact trivial
    · cases hErr

theorem valueMatrix_allowed (x : Machine) (name : String) :
    Action.Allowed True (x.valueMatrix name) :=
  (boundNode_allowed x name).map _

theorem derivMatrix_allowed (x : Machine) (name : String) :
    Action.Allowed True (x.derivMatrix name) := by
  refine (boundNode_allowed x name).bind fun b => ?_
  intro err hErr
  split at hErr
  · cases hErr
  · cases hErr
    exact trivial

theorem requestedInput_allowed (x : Machine) (name : String) :
    Action.Allowed True (x.requestedInput name) := by
  intro err hErr
  unfold requestedInput at hErr
  split at hErr
  · cases hErr
  · cases hErr
    exact trivial

theorem requestedOutput_allowed (x : Machine) (name : String) :
    Action.Allowed True (x.requestedOutput name) := by
  intro err hErr
  unfold requestedOutput at hErr
  split at hErr
  · cases hErr
  · cases hErr
    exact trivial

theorem requireInput_allowed (x : Machine) (slots : Slots) (spec : IoRequest) :
    Action.Allowed True (x.requireInput slots spec) :=
  (valueMatrix_allowed x spec.name).bind fun _ => Action.Allowed.require trivial

theorem requireOutputDeriv_allowed (x : Machine) (slots : Slots) (spec : IoRequest) :
    Action.Allowed True (x.requireOutputDeriv slots spec) :=
  (derivMatrix_allowed x spec.name).bind fun _ => Action.Allowed.require trivial

theorem firstUpdate_allowed (net : Network) (commands : List (Command × Nat)) :
    Action.Allowed True (firstUpdate net commands) := by
  induction commands with
  | nil => exact Action.Allowed.ok none
  | cons entry rest ih =>
      obtain ⟨c, index⟩ := entry
      cases c with
      | backprop =>
          refine (component_allowed net _).bind fun component => ?_
          cases component.capabilities.updatable with
          | true => exact Action.Allowed.ok (some index)
          | false => exact ih
      | _ => exact ih

theorem requireTarget_allowed (x : Machine) (target : Option Network) :
    Action.Allowed True (x.requireTarget target) := by
  cases target with
  | some net => exact Action.Allowed.ok ()
  | none =>
      refine (firstUpdate_allowed _ _).bind fun first => ?_
      cases first with
      | none => exact Action.Allowed.ok ()
      | some index =>
          intro err hErr
          cases hErr
          exact trivial

/-! ## Calls -/

/-- Placing a buffer fails and changes nothing, or fills the slot of a matrix with a buffer of
its shape. -/
theorem place_cases (x : Machine) (m numRows : Nat) (b : Buffer) (s : MachineState) :
    (∃ err, x.place m numRows b s = .error err s ∧ err.AllowedWhen True) ∨
      x.program.matrix m = .ok b.shape ∧ b.numRows = numRows ∧ m < s.slots.entries.length ∧
        x.place m numRows b s = .ok () { s with slots := s.slots.put m (some b) } := by
  cases hMatrix : x.program.matrix m with
  | error err =>
      refine .inl ⟨err, ?_, matrix_allowed _ _ err hMatrix⟩
      simp [place, hMatrix, Action.bind_run]
  | ok shape =>
      by_cases hBad : b.shape ≠ ⟨numRows, shape.numCols⟩ ∨ shape.numRows ≠ numRows
      · refine .inl ⟨.shapeMismatch shape b.shape, ?_, trivial⟩
        simp [place, hMatrix, Action.bind_run, hBad]
      · by_cases hPast : s.slots.entries.length ≤ m
        · refine .inl ⟨.failed (.slotIndex m), ?_, trivial⟩
          simp [place, hMatrix, Action.bind_run, hBad, hPast]
        · obtain ⟨hSame, hRows⟩ := not_or.mp hBad
          have hShape : b.shape = shape := by
            rw [Decidable.not_not.mp hSame, ← Decidable.not_not.mp hRows]
          refine .inr ⟨congrArg _ hShape.symm, ?_, Nat.lt_of_not_le hPast, ?_⟩
          · exact congrArg Shape.numRows (Decidable.not_not.mp hSame)
          · simp [place, hMatrix, Action.bind_run, hBad, hPast]

theorem place_keeps (x : Machine) (m numRows : Nat) (b : Buffer) :
    Keeps (x.Kept target) (x.place m numRows b) := by
  intro s hKept
  rcases place_cases x m numRows b s with ⟨err, hRun, hAllowed⟩ | ⟨hMatrix, -, -, hRun⟩
  · rw [hRun]
    refine ⟨hKept, ?_⟩
    intro err' hErr
    cases hErr
    exact hAllowed.imp fun _ => trivial
  · rw [hRun]
    refine ⟨hKept.put ?_, Action.Allowed.ok ()⟩
    intro found hFound
    cases hFound
    exact hMatrix

/-- Reading a slot fails only if nothing is allocated there. -/
theorem read_keeps (m : Nat) :
    Keeps (x.Kept target) (get >>= fun s : MachineState => Action.ofExcept (s.slots.read m)) := by
  refine Keeps.get fun t => ?_
  intro s hKept
  cases hRead : t.slots.read m with
  | ok b => exact ⟨hKept, Action.Allowed.ok b⟩
  | error err =>
      refine ⟨hKept, ?_⟩
      intro err' hErr
      cases hErr
      unfold Slots.read at hRead
      split at hRead
      · cases hRead
      · cases hRead
        exact id

section Calls

variable (hWell : x.program.WellFormed)

include hWell

/-- A run of commands keeps the invariant, and so does going on to the next phase. -/
theorem runTo_keeps (segment : List (Command × Nat)) (after : Phase) :
    Keeps (x.Kept target) (x.runTo segment after) := by
  refine Keeps.bind (Keeps.forM _ fun entry => execute_keeps hWell entry.2 entry.1) fun _ => ?_
  exact fun s hKept => ⟨hKept.restate rfl rfl, Action.Allowed.ok ()⟩

/-- Every call keeps the invariant, in every phase and whatever its arguments are. -/
theorem call_keeps (c : Call) : Keeps (x.Kept target) (x.call c) := by
  cases c with
  | supplyInput name b =>
      refine Keeps.map _ (Keeps.bind (Keeps.requirePhase _) fun _ => ?_)
      refine Keeps.bind (Keeps.ofExcept (requestedInput_allowed x name)) fun spec => ?_
      refine Keeps.bind (Keeps.ofExcept (valueMatrix_allowed x name)) fun m => ?_
      exact place_keeps x m spec.numRows b
  | supplyOutputDeriv name b =>
      refine Keeps.map _ (Keeps.bind (Keeps.requirePhase _) fun _ => ?_)
      refine Keeps.bind (Keeps.ofExcept (requestedOutput_allowed x name)) fun spec => ?_
      refine Keeps.bind (Keeps.ofExcept (Action.Allowed.require trivial)) fun _ => ?_
      refine Keeps.bind (Keeps.ofExcept (derivMatrix_allowed x name)) fun m => ?_
      exact place_keeps x m spec.numRows b
  | forward =>
      refine Keeps.map _ (Keeps.bind (Keeps.requirePhase _) fun _ => Keeps.get fun s => ?_)
      refine Keeps.bind (Keeps.ofExcept (Action.Allowed.forM
        (fun spec => requireInput_allowed x s.slots spec) _)) fun _ => ?_
      exact runTo_keeps hWell x.forwardCommands .forwardDone
  | backward =>
      refine Keeps.map _ (Keeps.bind (Keeps.requirePhase _) fun _ => Keeps.get fun s => ?_)
      refine Keeps.bind (Keeps.ofExcept (requireTarget_allowed x s.target)) fun _ => ?_
      refine Keeps.bind (Keeps.ofExcept (Action.Allowed.forM
        (fun spec => requireOutputDeriv_allowed x s.slots spec) _)) fun _ => ?_
      exact runTo_keeps hWell x.backwardCommands .backwardDone
  | readOutput name =>
      refine Keeps.map _ (Keeps.bind (Keeps.requirePhase _) fun _ => ?_)
      refine Keeps.bind (Keeps.ofExcept (requestedOutput_allowed x name)) fun _ => ?_
      exact Keeps.bind (Keeps.ofExcept (valueMatrix_allowed x name)) fun m => read_keeps m
  | readInputDeriv name =>
      refine Keeps.map _ (Keeps.bind (Keeps.requirePhase _) fun _ => ?_)
      refine Keeps.bind (Keeps.ofExcept (requestedInput_allowed x name)) fun spec => ?_
      refine Keeps.bind (Keeps.ofExcept (Action.Allowed.require trivial)) fun _ => ?_
      exact Keeps.bind (Keeps.ofExcept (derivMatrix_allowed x name)) fun m => read_keeps m
  | phase => exact fun s hKept => ⟨hKept, Action.Allowed.ok _⟩

end Calls

/-! ## Reachable states -/

/-- The states that a machine can be in: the first one, those after a call, and those after a
command of a call that is going on.  Calls and commands that fail are taken in. -/
inductive Reachable (x : Machine) (target : Option Network) : MachineState → Prop
  | start : Reachable x target (x.start target)
  | call {s : MachineState} (c : Call) (h : Reachable x target s) :
      Reachable x target (Action.finalState (x.call c s))
  | command {s : MachineState} (index : Nat) (c : Command) (h : Reachable x target s) :
      Reachable x target (Action.finalState (x.execute index c s))

theorem Reachable.callAll (calls : List Call) (h : x.Reachable target s) :
    x.Reachable target (x.callAll calls s).2 := by
  induction calls generalizing s with
  | nil => exact h
  | cons c rest ih => exact ih (h.call c)

theorem Reachable.kept (hWell : x.program.WellFormed) (h : x.Reachable target s) :
    x.Kept target s := by
  induction h with
  | start => exact kept_start x target
  | call c _ ih => exact (call_keeps hWell c _ ih).1
  | command index c _ ih => exact (execute_keeps hWell index c _ ih).1

/-- An error that says that a region or a row pair lies outside of what is stored. -/
def OutOfBounds (err : Error) : Prop :=
  (∃ g rows cols, err = .regionOutOfBounds g rows cols) ∨
    ∃ index sub, err = .malformed index (.unresolvedSubMatrix sub)

theorem not_outOfBounds_of_allowed {err : Error} {a : Prop} (h : err.AllowedWhen a) :
    ¬OutOfBounds err := by
  rintro (⟨g, rows, cols, rfl⟩ | ⟨index, sub, rfl⟩)
  · exact h
  · exact h

/-- What is guaranteed of the storage in a state of a machine. -/
structure Contained (x : Machine) (s : MachineState) : Prop where
  /-- The slot of the empty matrix is free. -/
  empty : s.slots.buffer? 0 = none
  /-- A stored buffer has the declared shape, and one element for each position. -/
  declared : ∀ m b, s.slots.buffer? m = some b →
    x.program.matrix m = .ok b.shape ∧ b.toArray.size = b.numRows * b.numCols
  /-- A command that allocates and releases nothing leaves the same matrices allocated, even
  when it fails. -/
  occupied : ∀ index c, c.resized? = none → ∀ m,
    (Action.finalState (x.execute index c s)).slots.occupied m = s.slots.occupied m
  /-- Each element of a stored sub-matrix has an offset inside the storage. -/
  offset : ∀ sub view b, x.program.subMatrix sub = .ok view →
    s.slots.buffer? view.matrix = some b → ∀ row col, row < view.region.numRows →
      col < view.region.numCols →
        view.region.storageOffset b.numCols row col < b.toArray.size
  /-- No command fails because something is out of bounds. -/
  command : ∀ index c err, Action.outcome (x.execute index c s) = .error err →
    ¬OutOfBounds err
  /-- And no call does. -/
  call : ∀ c err, Action.outcome (x.call c s) = .error err → ¬OutOfBounds err

theorem Kept.contained (hWell : x.program.WellFormed) (h : x.Kept target s) :
    x.Contained s where
  empty := h.empty
  declared := by
    intro m b hBuffer
    refine ⟨matrix_eq_ok_iff.mpr ⟨?_, h.fit.shape (Slots.shape?_of_buffer? hBuffer)⟩,
      b.size_toArray⟩
    rintro rfl
    rw [h.empty] at hBuffer
    cases hBuffer
  occupied := by
    intro index c hResize m
    have hShapes := execute_keepsShapes hWell index hResize
    exact Slots.occupied_congr ((hShapes.frame h.fit).shape m)
  offset := by
    intro sub view b hView hBuffer row col hRow hCol
    rw [Buffer.size_toArray]
    exact Region.storageOffset_lt (h.fit.fitsIn hWell hView hBuffer) hRow hCol
  command := fun index c err hErr =>
    not_outOfBounds_of_allowed ((execute_keeps hWell index c s h).2 err hErr)
  call := fun c err hErr => not_outOfBounds_of_allowed ((call_keeps hWell c s h).2 err hErr)

/-- In every reachable state of a machine for a built program, whatever its commands are, the
storage is contained, and no view or primitive indexes outside of a buffer. -/
theorem storage_contained (hBuilt : x.program.Built) (hReachable : x.Reachable target s) :
    x.Contained s ∧ (∀ v : View, v.InBounds) ∧ ∀ prim : Kernel.Primitive, prim.InBounds := by
  have hWell := hBuilt.wellFormed
  exact ⟨(hReachable.kept hWell).contained hWell, View.inBounds, Kernel.Primitive.inBounds⟩

/-- The storage of the machine that copies its input is contained when all its calls are done. -/
theorem throughMachine_contained :
    (throughMachine.Contained (throughMachine.callAll throughCalls (throughMachine.start none)).2 ∧
        (∀ v : View, v.InBounds) ∧ ∀ prim : Kernel.Primitive, prim.InBounds) ∧
      (throughMachine.callAll throughCalls (throughMachine.start none)).2.phase =
        .backwardDone :=
  ⟨storage_contained throughProgram_built (Reachable.callAll throughCalls .start), rfl⟩

end Machine

end MatrixProgram
