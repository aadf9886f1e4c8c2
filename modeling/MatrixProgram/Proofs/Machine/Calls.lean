import MatrixProgram.Machine.Call
import MatrixProgram.Proofs.Machine.Definedness
import MatrixProgram.Proofs.Machine.Effects

/-!
# Undefined contents never leak

Two machines that differ in the contents of what is allocated without being filled are given
the same calls.  They stay in the same phase, with the same target, and their states agree on
all that is defined in that phase, `Related`: the supplied columns at first, then the columns
that the forward commands touch, and after the backward commands everything.

Each call keeps the two states related, and answers the same from both unless it reads a
buffer before the backward commands are done.  So what is read afterwards does not depend on
undefined contents, and neither does the target: `undefined_never_leaks`.
-/

namespace MatrixProgram

/-- A call asks for a buffer. -/
def Call.Reads : Call → Prop
  | .readOutput _ => True
  | .readInputDeriv _ => True
  | _ => False

namespace Machine

open Program

variable {x : Machine} {f g : Nat → Nat → Nat → Float32} {s s' : MachineState}
  {α β : Type} {phases : List Phase}

/-! ## Related states -/

/-- The elements that have defined values in a phase. -/
def definedIn (x : Machine) : Phase → ElementSet
  | .created => x.program.DefinedAt x.network 0
  | .forwardDone => x.program.DefinedAt x.network (x.forwardEnd + 1)
  | .backwardDone => x.program.DefinedAt x.network x.program.commands.length

/-- Two states of machines that differ in undefined contents only. -/
structure Related (x : Machine) (s s' : MachineState) : Prop where
  phase : s.phase = s'.phase
  fit : s.slots.Fit x.program
  agree : s.Agree (x.definedIn s.phase) s'

theorem related_start (x : Machine) (target : Option Network) :
    x.Related (x.start target) (x.start target) where
  phase := rfl
  fit :=
    { length := List.length_replicate
      shape := by
        intro m shape hFound
        obtain ⟨b, hBuffer, -⟩ := Slots.exists_buffer?_of_shape? hFound
        have hLt := Slots.lt_length_of_buffer? hBuffer
        simp only [start, Slots.free, List.length_replicate] at hLt
        simp [start, Slots.buffer?, Slots.free, hLt] at hBuffer }
  agree := ⟨⟨rfl, fun _ => rfl, fun _ _ _ _ => rfl⟩, rfl⟩

/-- Two results with the same answer or error, from which the states are related again. -/
inductive Same (x : Machine) :
    EStateM.Result Error MachineState α → EStateM.Result Error MachineState α → Prop
  | ok {a : α} {t t' : MachineState} (h : x.Related t t') : Same x (.ok a t) (.ok a t')
  | error {err : Error} {t t' : MachineState} (h : x.Related t t') :
      Same x (.error err t) (.error err t')

theorem Same.related {r r' : EStateM.Result Error MachineState α} (h : x.Same r r') :
    x.Related (Action.finalState r) (Action.finalState r') := by
  cases h with
  | ok hRelated => exact hRelated
  | error hRelated => exact hRelated

theorem Same.outcome {r r' : EStateM.Result Error MachineState α} (h : x.Same r r') :
    Action.outcome r = Action.outcome r' := by
  cases h <;> rfl

/-! ## Coupled actions -/

/-- Two actions do the same from related states, if the phase is one of some phases. -/
def Coupled (x : Machine) (phases : List Phase) (act act' : MachineAction α) : Prop :=
  ∀ ⦃s s' : MachineState⦄, s.phase ∈ phases → x.Related s s' → x.Same (act s) (act' s')

theorem Coupled.throw (err : Error) :
    x.Coupled phases (MonadExcept.throw err : MachineAction α) (MonadExcept.throw err) := by
  intro s s' _ hRelated
  exact .error hRelated

theorem Coupled.ofExcept (check : Except Error α) :
    x.Coupled phases (Action.ofExcept check) (Action.ofExcept check) := by
  intro s s' _ hRelated
  cases check with
  | ok a => exact .ok hRelated
  | error err => exact .error hRelated

theorem Coupled.check {check : Except Error β} {next next' : β → MachineAction α}
    (h : ∀ a, x.Coupled phases (next a) (next' a)) :
    x.Coupled phases (Action.ofExcept check >>= next) (Action.ofExcept check >>= next') := by
  cases check with
  | ok a => exact h a
  | error err => exact Coupled.throw err

theorem Coupled.map {act act' : MachineAction β} (f : β → α) (h : x.Coupled phases act act') :
    x.Coupled phases (f <$> act) (f <$> act') := by
  intro s s' hPhase hRelated
  have hSame := h hPhase hRelated
  rw [Action.map_run, Action.map_run]
  revert hSame
  generalize act s = r
  generalize act' s' = r'
  intro hSame
  cases hSame with
  | ok hAfter => exact .ok hAfter
  | error hAfter => exact .error hAfter

/-- Going on from the state, which is not the same in both runs. -/
theorem Coupled.get {next next' : MachineState → MachineAction α}
    (h : ∀ ⦃s s'⦄, s.phase ∈ phases → x.Related s s' → x.Same (next s s) (next' s' s')) :
    x.Coupled phases (MonadState.get >>= next) (MonadState.get >>= next') :=
  h

/-- After its phase has been checked a call is in one of the phases that allow it. -/
theorem Coupled.requirePhase {call : CallKind} {next next' : MachineAction α}
    {after : List Phase} (hAfter : ∀ phase ∈ phases, phase ∈ call.allowedIn → phase ∈ after)
    (h : x.Coupled after next next') :
    x.Coupled phases (requirePhase call >>= fun _ => next)
      (requirePhase call >>= fun _ => next') := by
  intro s s' hBefore hRelated
  have hPhase := hRelated.phase
  -- Both states are in the same phase, so the call passes in both or in neither.
  by_cases hIn : s.phase ∈ call.allowedIn
  · have hIn' : s'.phase ∈ call.allowedIn := hPhase ▸ hIn
    have hRun : Machine.requirePhase call s = .ok () s := by
      simp [Machine.requirePhase, Action.bind_run, hIn]
    have hRun' : Machine.requirePhase call s' = .ok () s' := by
      simp [Machine.requirePhase, Action.bind_run, hIn']
    rw [Action.bind_run_ok hRun, Action.bind_run_ok hRun']
    exact h (hAfter s.phase hBefore hIn) hRelated
  · have hNotIn' : s'.phase ∉ call.allowedIn := hPhase ▸ hIn
    have hRun : Machine.requirePhase call s = .error (.usage (.outOfPhase call s.phase)) s := by
      simp [Machine.requirePhase, Action.bind_run, hIn]
    have hRun' : Machine.requirePhase call s' =
        .error (.usage (.outOfPhase call s.phase)) s' := by
      simp [Machine.requirePhase, Action.bind_run, hNotIn', hPhase]
    rw [Action.bind_run_error hRun, Action.bind_run_error hRun']
    exact .error hRelated

/-! ## Supplying buffers -/

/-- Placing a buffer keeps related states related: both slots take the same buffer, of the
declared shape. -/
theorem place_coupled (m numRows : Nat) (b : Buffer) :
    x.Coupled phases (x.place m numRows b) (x.place m numRows b) := by
  intro s s' _ hRelated
  have hLength := hRelated.agree.slots.length
  cases hMatrix : x.program.matrix m with
  | error err =>
      have hRun : ∀ t, x.place m numRows b t = .error err t := by
        intro t
        simp [place, hMatrix, Action.bind_run]
      rw [hRun, hRun]
      exact .error hRelated
  | ok shape =>
      by_cases hBad : b.shape ≠ ⟨numRows, shape.numCols⟩ ∨ shape.numRows ≠ numRows
      · have hRun : ∀ t, x.place m numRows b t = .error (.shapeMismatch shape b.shape) t := by
          intro t
          simp [place, hMatrix, Action.bind_run, hBad]
        rw [hRun, hRun]
        exact .error hRelated
      · by_cases hPast : s.slots.entries.length ≤ m
        · have hRun : ∀ t : MachineState, t.slots.entries.length ≤ m →
              x.place m numRows b t = .error (.failed (.slotIndex m)) t := by
            intro t hLe
            simp [place, hMatrix, Action.bind_run, hBad, hLe]
          rw [hRun s hPast, hRun s' (hLength ▸ hPast)]
          exact .error hRelated
        · have hRun : ∀ t : MachineState, ¬t.slots.entries.length ≤ m →
              x.place m numRows b t = .ok () { t with slots := t.slots.put m (some b) } := by
            intro t hNot
            simp [place, hMatrix, Action.bind_run, hBad, hNot]
          rw [hRun s hPast, hRun s' (hLength ▸ hPast)]
          refine .ok ⟨hRelated.phase, ?_, ?_, hRelated.agree.target⟩
          · apply hRelated.fit.put
            intro found hFound
            cases hFound
            have hShape : b.shape = shape := by
              obtain ⟨hSame, hRows⟩ := not_or.mp hBad
              rw [Decidable.not_not.mp hSame, ← Decidable.not_not.mp hRows]
            rw [hShape]
            exact (matrix_eq_ok_iff.mp hMatrix).2
          · exact hRelated.agree.slots.put rfl (fun _ _ _ hIn _ => hIn) (.inl rfl)

/-- Carry out commands, and go on to a phase. -/
def runTo (x : Machine) (segment : List (Command × Nat)) (after : Phase) : MachineAction Unit :=
  x.executeAll segment >>= fun _ => modify fun s => { s with phase := after }

/-- Whether the inputs have been supplied depends on what is allocated. -/
theorem requireInput_congr {slots slots' : Slots}
    (h : ∀ m, slots.occupied m = slots'.occupied m) :
    x.requireInput slots = x.requireInput slots' := by
  funext spec
  have hSome : ∀ m, (slots.buffer? m).isSome = (slots'.buffer? m).isSome := h
  simp only [requireInput, hSome]

theorem requireOutputDeriv_congr {slots slots' : Slots}
    (h : ∀ m, slots.occupied m = slots'.occupied m) :
    x.requireOutputDeriv slots = x.requireOutputDeriv slots' := by
  funext spec
  have hSome : ∀ m, (slots.buffer? m).isSome = (slots'.buffer? m).isSome := h
  simp only [requireOutputDeriv, hSome]

theorem Related.occupied (h : x.Related s s') (m : Nat) :
    s.slots.occupied m = s'.slots.occupied m :=
  Slots.occupied_congr (h.agree.slots.shape m)

/-! ## Calls that change nothing -/

/-- An action that leaves the state as it is, whether or not it fails. -/
def Unchanging (act : MachineAction α) : Prop :=
  ∀ s, Action.finalState (act s) = s

theorem Unchanging.ofExcept (check : Except Error α) : Unchanging (Action.ofExcept check) := by
  intro s
  cases check <;> rfl

theorem Unchanging.bind {first : MachineAction β} {next : β → MachineAction α}
    (hFirst : Unchanging first) (hNext : ∀ b, Unchanging (next b)) :
    Unchanging (first >>= next) := by
  intro s
  have hSame := hFirst s
  rw [Action.bind_run]
  cases hRun : first s with
  | ok b t =>
      rw [hRun, Action.finalState] at hSame
      subst hSame
      exact hNext b t
  | error err t =>
      rw [hRun] at hSame
      exact hSame

theorem requirePhase_eq_ok_iff {kind : CallKind} {u : Unit} {t : MachineState} :
    requirePhase kind s = .ok u t ↔ s.phase ∈ kind.allowedIn ∧ t = s := by
  by_cases hAllowed : s.phase ∈ kind.allowedIn
  · simp [requirePhase, hAllowed, Action.bind_run, eq_comm]
  · simp [requirePhase, hAllowed, Action.bind_run]

theorem requirePhase_unchanging (call : CallKind) : Unchanging (requirePhase call) := by
  intro s
  by_cases hIn : s.phase ∈ call.allowedIn <;>
    simp [requirePhase, Action.bind_run, hIn, Action.finalState]

/-- Reading a buffer leaves the state as it is. -/
theorem call_unchanging (c : Call) (hReads : c.Reads) : Unchanging (x.call c) := by
  have hRead : ∀ m, Unchanging
      (get >>= fun s : MachineState => Action.ofExcept (s.slots.read m)) := by
    intro m s
    exact Unchanging.ofExcept (s.slots.read m) s
  intro s
  cases c with
  | readOutput name =>
      rw [call, Action.finalState_map]
      refine Unchanging.bind (requirePhase_unchanging _) (fun _ => ?_) s
      refine Unchanging.bind (Unchanging.ofExcept _) fun _ => ?_
      exact Unchanging.bind (Unchanging.ofExcept _) hRead
  | readInputDeriv name =>
      rw [call, Action.finalState_map]
      refine Unchanging.bind (requirePhase_unchanging _) (fun _ => ?_) s
      refine Unchanging.bind (Unchanging.ofExcept _) fun _ => ?_
      refine Unchanging.bind (Unchanging.ofExcept _) fun _ => ?_
      exact Unchanging.bind (Unchanging.ofExcept _) hRead
  | _ => exact hReads.elim

theorem finalState_of_outOfPhase {call : CallKind} (next : MachineAction α)
    (hOut : s.phase ∉ call.allowedIn) :
    Action.finalState ((requirePhase call >>= fun _ => next) s) = s := by
  simp [requirePhase, Action.bind_run, hOut, Action.finalState]

/-- After the backward commands no call changes anything. -/
theorem finalState_call_of_done (c : Call) (hPhase : s.phase = .backwardDone) :
    Action.finalState (x.call c s) = s := by
  have hOut : ∀ {call : CallKind}, Phase.backwardDone ∉ call.allowedIn →
      s.phase ∉ call.allowedIn := by
    intro call hNot
    rw [hPhase]
    exact hNot
  cases c with
  | supplyInput =>
      rw [call, Action.finalState_map]
      exact finalState_of_outOfPhase _ (hOut (by decide))
  | supplyOutputDeriv =>
      rw [call, Action.finalState_map]
      exact finalState_of_outOfPhase _ (hOut (by decide))
  | forward =>
      rw [call, Action.finalState_map]
      exact finalState_of_outOfPhase _ (hOut (by decide))
  | backward =>
      rw [call, Action.finalState_map]
      exact finalState_of_outOfPhase _ (hOut (by decide))
  | readOutput name => exact call_unchanging (.readOutput name) trivial s
  | readInputDeriv name => exact call_unchanging (.readInputDeriv name) trivial s
  | phase => rfl

/-- After the backward commands every call is answered in the same state. -/
theorem callAll_of_done (calls : List Call) (hPhase : s.phase = .backwardDone) :
    x.callAll calls s = (calls.map fun c => Action.outcome (x.call c s), s) := by
  induction calls with
  | nil => rfl
  | cons c rest ih => simp only [callAll, finalState_call_of_done c hPhase, ih, List.map_cons]

/-- A backward call that succeeds leads to the last phase. -/
theorem phase_of_backward {a : Answer} (h : Action.outcome (x.call .backward s) = .ok a) :
    (Action.finalState (x.call .backward s)).phase = .backwardDone := by
  rw [call, Action.map_run] at h
  rw [call, Action.finalState_map]
  cases hRun : x.backward s with
  | error err t =>
      rw [hRun] at h
      cases h
  | ok u t =>
      obtain ⟨_, _, -, hChecks⟩ := Action.bind_run_eq_ok_iff.mp hRun
      obtain ⟨_, _, -, hTarget⟩ := Action.bind_run_eq_ok_iff.mp hChecks
      obtain ⟨_, _, -, hDerivs⟩ := Action.bind_run_eq_ok_iff.mp hTarget
      obtain ⟨_, _, -, hCommands⟩ := Action.bind_run_eq_ok_iff.mp hDerivs
      obtain ⟨_, _, -, hLast⟩ := Action.bind_run_eq_ok_iff.mp hCommands
      cases hLast
      rfl

/-! ## Reading buffers -/

variable {b : Bool} {i j : Nat} (hWell : x.program.WellFormed)
  (hDisciplined : x.program.Disciplined x.network b)
  (hOperands : x.program.checkOperands x.network = .ok ())

include hWell hDisciplined

/-- After the backward commands every buffer is the same in both states. -/
theorem Related.buffer?_eq (h : x.Related s s') (hPhase : s.phase = .backwardDone) (m : Nat) :
    s.slots.buffer? m = s'.slots.buffer? m := by
  have hAgree := h.agree.slots
  rw [hPhase] at hAgree
  cases hBuffer : s.slots.buffer? m with
  | none => exact (hAgree.buffer?_eq_none hBuffer).symm
  | some found =>
      obtain ⟨found', hBuffer', hShape, hValue⟩ := hAgree.exists_buffer? hBuffer
      have hDeclared := h.fit.shape (Slots.shape?_of_buffer? hBuffer)
      have hSame : found = found' := by
        refine Buffer.ext_get hShape.symm ?_
        intro row col hRow hCol
        -- The empty matrix has no columns, so this is another one.
        have hZero : m ≠ 0 := by
          intro hEq
          subst hEq
          rw [hWell.emptyMatrix] at hDeclared
          have hEmpty : found.numCols = 0 :=
            (congrArg Shape.numCols (Option.some.inj hDeclared)).symm
          omega
        have hMatrix : x.program.matrix m = .ok found.shape :=
          matrix_eq_ok_iff.mpr ⟨hZero, hDeclared⟩
        have hDefined : x.definedIn .backwardDone m row col :=
          definedAt_length hDisciplined row hMatrix hCol
        exact hValue row col hDefined
      rw [hBuffer', hSame]

/-- Reading a buffer answers the same after the backward commands. -/
theorem read_coupled (m : Nat) :
    x.Coupled [.backwardDone] (get >>= fun s : MachineState => Action.ofExcept (s.slots.read m))
      (get >>= fun s : MachineState => Action.ofExcept (s.slots.read m)) := by
  refine Coupled.get ?_
  intro s s' hPhase hRelated
  have hBuffer := hRelated.buffer?_eq hWell hDisciplined (List.mem_singleton.mp hPhase) m
  have hRead : s.slots.read m = s'.slots.read m := by rw [Slots.read, Slots.read, hBuffer]
  rw [hRead]
  exact Coupled.ofExcept _ hPhase hRelated

/-- After the backward commands a call that reads a buffer does the same from related
states. -/
theorem call_coupled_of_done {c : Call} (hReads : c.Reads) :
    x.Coupled [.backwardDone] ((x.filledWith f).call c) ((x.filledWith g).call c) := by
  cases c with
  | readOutput name =>
      refine Coupled.map _ (Coupled.requirePhase (fun _ hIn _ => hIn) ?_)
      exact Coupled.check fun _ => Coupled.check fun m => read_coupled hWell hDisciplined m
  | readInputDeriv name =>
      refine Coupled.map _ (Coupled.requirePhase (fun _ hIn _ => hIn) ?_)
      refine Coupled.check fun spec => Coupled.check fun _ => Coupled.check fun m => ?_
      exact read_coupled hWell hDisciplined m
  | _ => exact hReads.elim

/-! ## Running commands -/

include hOperands

/-- A run along a segment that belongs to a phase leads to the next phase. -/
theorem run_coupled {segment : List (Command × Nat)} (before after : Phase)
    (hSegment : x.program.Segment i segment j)
    (hBefore : x.definedIn before = x.program.DefinedAt x.network i)
    (hAfter : x.definedIn after = x.program.DefinedAt x.network j) :
    x.Coupled [before] ((x.filledWith f).runTo segment after)
      ((x.filledWith g).runTo segment after) := by
  intro s s' hPhase hRelated
  obtain hIs : s.phase = before := List.mem_singleton.mp hPhase
  have hAgree := hRelated.agree
  rw [hIs, hBefore] at hAgree
  have hFit' := fit_of_agree hRelated.fit hAgree
  -- The runs have the same outcome, and each of them keeps its slots and its phase.
  have hMatch := executeAll_agree (f := f) (g := g) hWell hDisciplined hOperands hSegment
    hRelated.fit hAgree
  have hKept := executeAll_fit (x := x.filledWith f) hWell hOperands hSegment hRelated.fit
  have hKept' := executeAll_fit (x := x.filledWith g) hWell hOperands hSegment hFit'
  rw [runTo, runTo, Action.bind_run, Action.bind_run]
  revert hMatch hKept hKept'
  generalize (x.filledWith f).executeAll segment s = r
  generalize (x.filledWith g).executeAll segment s' = r'
  intro hMatch hKept hKept'
  cases hMatch with
  | error hA =>
      -- A failed run leaves the phase, and what was defined in it.
      refine .error ⟨?_, hKept.1, ?_⟩
      · exact hKept.2.trans (hRelated.phase.trans hKept'.2.symm)
      · have hSame : x.definedIn s.phase = x.program.DefinedAt x.network i := by
          rw [hIs, hBefore]
        have hPhaseKept := hKept.2
        simp only [Action.finalState] at hPhaseKept
        rw [hPhaseKept, hSame]
        exact hA
  | ok hA hB =>
      refine .ok ⟨rfl, hKept.1, ?_⟩
      show MachineState.Agree (x.definedIn after) _ _
      rw [hAfter]
      exact ⟨hB.slots, hB.target⟩

theorem forward_coupled (hEnd : x.forwardEnd < x.program.commands.length) :
    x.Coupled phases (x.filledWith f).forward (x.filledWith g).forward := by
  refine Coupled.requirePhase (fun _ _ hIn => hIn) (Coupled.get ?_)
  intro s s' hPhase hRelated
  have hInputs : x.request.inputs.forM (x.requireInput s.slots) =
      x.request.inputs.forM (x.requireInput s'.slots) := by
    rw [requireInput_congr hRelated.occupied]
  have hRun := run_coupled (f := f) (g := g) hWell hDisciplined hOperands .created .forwardDone
    (segment_take hEnd) rfl rfl
  show x.Same
    ((Action.ofExcept (x.request.inputs.forM (x.requireInput s.slots)) >>= fun _ =>
      (x.filledWith f).runTo x.forwardCommands .forwardDone) s)
    ((Action.ofExcept (x.request.inputs.forM (x.requireInput s'.slots)) >>= fun _ =>
      (x.filledWith g).runTo x.forwardCommands .forwardDone) s')
  rw [← hInputs]
  exact Coupled.check (fun _ => hRun) hPhase hRelated

theorem backward_coupled (hEnd : x.forwardEnd < x.program.commands.length) :
    x.Coupled phases (x.filledWith f).backward (x.filledWith g).backward := by
  refine Coupled.requirePhase (fun _ _ hIn => hIn) (Coupled.get ?_)
  intro s s' hPhase hRelated
  have hOutputs : (x.request.outputs.filter (·.wantsDeriv)).forM (x.requireOutputDeriv s.slots) =
      (x.request.outputs.filter (·.wantsDeriv)).forM (x.requireOutputDeriv s'.slots) := by
    rw [requireOutputDeriv_congr hRelated.occupied]
  have hRun := run_coupled (f := f) (g := g) hWell hDisciplined hOperands .forwardDone .backwardDone
    (segment_drop hEnd) rfl rfl
  show x.Same
    ((Action.ofExcept (x.requireTarget s.target) >>= fun _ =>
      Action.ofExcept ((x.request.outputs.filter (·.wantsDeriv)).forM
        (x.requireOutputDeriv s.slots)) >>= fun _ =>
          (x.filledWith f).runTo x.backwardCommands .backwardDone) s)
    ((Action.ofExcept (x.requireTarget s'.target) >>= fun _ =>
      Action.ofExcept ((x.request.outputs.filter (·.wantsDeriv)).forM
        (x.requireOutputDeriv s'.slots)) >>= fun _ =>
          (x.filledWith g).runTo x.backwardCommands .backwardDone) s')
  rw [← hOutputs, ← hRelated.agree.target]
  exact Coupled.check (fun _ => Coupled.check fun _ => hRun) hPhase hRelated

/-! ## Calls -/

/-- A call that reads no buffer does the same from related states. -/
theorem call_coupled (c : Call) (phases : List Phase)
    (hEnd : x.forwardEnd < x.program.commands.length) (hNot : ¬c.Reads) :
    x.Coupled phases ((x.filledWith f).call c) ((x.filledWith g).call c) := by
  cases c with
  | supplyInput name b =>
      refine Coupled.map _ (Coupled.requirePhase (fun _ _ hIn => hIn) ?_)
      refine Coupled.check fun spec => ?_
      exact Coupled.check fun m => place_coupled m spec.numRows b
  | supplyOutputDeriv name b =>
      refine Coupled.map _ (Coupled.requirePhase (fun _ _ hIn => hIn) ?_)
      refine Coupled.check fun spec => ?_
      refine Coupled.check fun _ => Coupled.check fun m => ?_
      exact place_coupled m spec.numRows b
  | forward => exact Coupled.map _ (forward_coupled hWell hDisciplined hOperands hEnd)
  | backward => exact Coupled.map _ (backward_coupled hWell hDisciplined hOperands hEnd)
  | readOutput name => exact absurd trivial hNot
  | readInputDeriv name => exact absurd trivial hNot
  | phase =>
      intro s s' _ hRelated
      show x.Same (.ok (Answer.phase s.phase) s) (.ok (Answer.phase s'.phase) s')
      rw [← hRelated.phase]
      exact .ok hRelated

/-- Every call keeps related states related. -/
theorem call_related (c : Call) (hEnd : x.forwardEnd < x.program.commands.length)
    (h : x.Related s s') :
    x.Related (Action.finalState ((x.filledWith f).call c s))
      (Action.finalState ((x.filledWith g).call c s')) := by
  by_cases hReads : c.Reads
  · rw [call_unchanging c hReads, call_unchanging c hReads]
    exact h
  · have hCoupled := call_coupled (f := f) (g := g) hWell hDisciplined hOperands c [s.phase] hEnd
      hReads
    exact (hCoupled (List.mem_singleton.mpr rfl) h).related

/-- So does a sequence of calls. -/
theorem callAll_related (calls : List Call) (hEnd : x.forwardEnd < x.program.commands.length)
    (h : x.Related s s') :
    x.Related ((x.filledWith f).callAll calls s).2 ((x.filledWith g).callAll calls s').2 := by
  induction calls generalizing s s' with
  | nil => exact h
  | cons c rest ih => exact ih (call_related hWell hDisciplined hOperands c hEnd h)

/-- After the backward commands all calls are answered in the same way. -/
theorem callAll_answers_of_done (calls : List Call)
    (hEnd : x.forwardEnd < x.program.commands.length) (h : x.Related s s')
    (hPhase : s.phase = .backwardDone) :
    ((x.filledWith f).callAll calls s).1 = ((x.filledWith g).callAll calls s').1 := by
  have hPhase' : s'.phase = .backwardDone := h.phase.symm.trans hPhase
  rw [callAll_of_done calls hPhase, callAll_of_done calls hPhase']
  apply List.map_congr_left
  intro c _
  have hIn : s.phase ∈ [Phase.backwardDone] := List.mem_singleton.mpr hPhase
  by_cases hReads : c.Reads
  · exact (call_coupled_of_done hWell hDisciplined hReads hIn h).outcome
  · exact (call_coupled hWell hDisciplined hOperands c _ hEnd hReads hIn h).outcome

/-- From a backward call on that succeeds, all calls are answered in the same way. -/
theorem callAll_answers (calls : List Call) (k : Nat)
    (hEnd : x.forwardEnd < x.program.commands.length) (h : x.Related s s')
    (hCall : calls[k]? = some .backward)
    (hDone : ((x.filledWith f).callAll calls s).1[k]? = some (.ok .done)) (j : Nat)
    (hLe : k ≤ j) :
    ((x.filledWith f).callAll calls s).1[j]? = ((x.filledWith g).callAll calls s').1[j]? := by
  induction calls generalizing s s' k j with
  | nil => cases hCall
  | cons c rest ih =>
      have hNext := call_related (f := f) (g := g) hWell hDisciplined hOperands c hEnd h
      cases k with
      | succ k =>
          obtain ⟨l, rfl⟩ := Nat.exists_eq_succ_of_ne_zero (show j ≠ 0 by omega)
          exact ih k hNext hCall hDone l (by omega)
      | zero =>
          cases hCall
          have hCoupled := call_coupled (f := f) (g := g) hWell hDisciplined hOperands .backward
            [s.phase] hEnd id
          have hSame := hCoupled (List.mem_singleton.mpr rfl) h
          cases j with
          | zero => exact congrArg some hSame.outcome
          | succ j =>
              -- The call has succeeded, so the rest begins in the last phase.
              have hAnswer : Action.outcome ((x.filledWith f).call .backward s) = .ok .done :=
                Option.some.inj hDone
              exact congrArg (·[j]?) (callAll_answers_of_done hWell hDisciplined hOperands rest
                hEnd hNext (phase_of_backward hAnswer))

omit hWell hDisciplined hOperands

/-- A machine is made for a program whose recorded phase marker lies inside the commands. -/
theorem of_eq_ok_iff {p : Program} {net : Network} {r : Request} {traces : Bool} :
    Machine.of p net r traces = .ok x ↔ ∃ position, p.forwardEnd = some position ∧
      position < p.commands.length ∧ x = ⟨p, net, r, position, traces, fun _ _ _ => 0⟩ := by
  unfold Machine.of
  cases p.forwardEnd with
  | none => simp
  | some position =>
      by_cases hPast : p.commands.length ≤ position
      · simp [hPast, Nat.not_lt.mpr hPast]
      · simp [hPast, Nat.lt_of_not_le hPast, eq_comm]

theorem of_eq_ok {p : Program} {net : Network} {r : Request} {traces : Bool}
    (h : Machine.of p net r traces = .ok x) :
    x.program = p ∧ x.network = net ∧ x.forwardEnd < p.commands.length := by
  obtain ⟨position, -, hInside, rfl⟩ := of_eq_ok_iff.mp h
  exact ⟨rfl, rfl, hInside⟩

/-- What is answered from a successful backward call on, and what becomes of the network to
update, does not depend on the contents of what is allocated without being filled. -/
theorem undefined_never_leaks {p : Program} {net : Network} {r : Request} {traces : Bool}
    (hBuilt : p.Built) (hAccepted : p.Accepted net r b)
    (hOf : Machine.of p net r traces = .ok x) (f g : Nat → Nat → Nat → Float32)
    (target : Option Network) (calls : List Call) (k : Nat)
    (hCall : calls[k]? = some .backward)
    (hDone : ((x.filledWith f).callAll calls (x.start target)).1[k]? = some (.ok .done)) :
    (∀ j, k ≤ j → ((x.filledWith f).callAll calls (x.start target)).1[j]? =
        ((x.filledWith g).callAll calls (x.start target)).1[j]?) ∧
      ((x.filledWith f).callAll calls (x.start target)).2.target =
        ((x.filledWith g).callAll calls (x.start target)).2.target := by
  obtain ⟨rfl, rfl, hEnd⟩ := of_eq_ok hOf
  have hWell := hBuilt.wellFormed
  have hDisciplined := hAccepted.disciplined hWell
  have hOperands := hAccepted.checkOperands
  have hStart := related_start x target
  constructor
  · exact callAll_answers hWell hDisciplined hOperands calls k hEnd hStart hCall hDone
  · exact (callAll_related hWell hDisciplined hOperands calls hEnd hStart).agree.target

/-- The calls that run the program which copies its input, and then read its output. -/
def throughCalls : List Call :=
  [.supplyInput "in" (.ofFn 1 2 fun _ _ => 1), .forward, .backward, .readOutput "out"]

theorem throughMachine_of :
    Machine.of throughProgram throughNetwork throughRequest false = .ok throughMachine :=
  rfl

/-- The output of that program is what has been put in, whatever its storage held before. -/
theorem throughMachine_never_leaks :
    ((throughMachine.filledWith fun _ _ _ => 2).callAll throughCalls
        (throughMachine.start none)).1[2]? = some (.ok .done) ∧
      (∀ j, 2 ≤ j → ((throughMachine.filledWith fun _ _ _ => 2).callAll throughCalls
          (throughMachine.start none)).1[j]? =
        ((throughMachine.filledWith fun _ _ _ => 3).callAll throughCalls
          (throughMachine.start none)).1[j]?) ∧
      ((throughMachine.filledWith fun _ _ _ => 2).callAll throughCalls
          (throughMachine.start none)).2.target =
        ((throughMachine.filledWith fun _ _ _ => 3).callAll throughCalls
          (throughMachine.start none)).2.target :=
  ⟨rfl, undefined_never_leaks throughProgram_built throughProgram_accepted throughMachine_of
    (fun _ _ _ => 2) (fun _ _ _ => 3) none throughCalls 2 rfl rfl⟩

end Machine

end MatrixProgram
