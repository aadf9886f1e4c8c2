import Mathlib.Order.Monotone.Basic
import MatrixProgram.Proofs.Machine.Exchange
import MatrixProgram.Proofs.Machine.Misuse
import MatrixProgram.Proofs.Machine.Supplies

/-!
# The protocol of calls

A machine goes through its phases in their order, and each call belongs to some of them.  What
one call that succeeds does to the phase is `Call.Steps`, with one case per call, and a
call that fails keeps the phase.  So the phases along a sequence of calls never go back, and a
phase that is reached has been reached by the call that leads to it.

A refused call has not only failed: nothing at all has changed.  Sequences of calls are
therefore the same with and without their refused calls, `callAll_accepted`.

All of this holds of every program, checked or not, and is collected in `calls_keep_protocol`.
-/

namespace MatrixProgram

/-- The position of a phase in the order of phases. -/
def Phase.rank : Phase → Nat
  | .created => 0
  | .forwardDone => 1
  | .backwardDone => 2

/-- The call is refused: it answers with a misuse, or it fails and does not run commands. -/
def Call.refused : Call → Except Error Answer → Bool
  | _, .ok _ => false
  | .forward, .error err => err.isMisuse
  | .backward, .error err => err.isMisuse
  | _, .error _ => true

/-- How a call that succeeds goes from one phase to the next. -/
def Call.Steps : Call → Phase → Phase → Prop
  | .supplyInput _ _, p, q => p = .created ∧ q = p
  | .supplyOutputDeriv _ _, p, q => p ≠ .backwardDone ∧ q = p
  | .forward, p, q => p = .created ∧ q = .forwardDone
  | .backward, p, q => p = .forwardDone ∧ q = .backwardDone
  | .readOutput _, p, q => p ≠ .created ∧ q = p
  | .readInputDeriv _, p, q => p = .backwardDone ∧ q = p
  | .phase, p, q => q = p

theorem Phase.rank_lt_of_ne {p : Phase} (h : p ≠ .backwardDone) :
    p.rank < Phase.backwardDone.rank := by
  cases p with
  | backwardDone => exact absurd rfl h
  | _ => decide

theorem Call.Steps.rank_le {c : Call} {p q : Phase} (h : c.Steps p q) : p.rank ≤ q.rank := by
  cases c with
  | forward | backward =>
      obtain ⟨rfl, rfl⟩ := h
      decide
  | phase => exact Nat.le_of_eq (congrArg Phase.rank h).symm
  | _ => exact Nat.le_of_eq (congrArg Phase.rank h.2).symm

namespace Machine

variable {x : Machine} {c : Call} {calls : List Call} {s t : MachineState} {i j : Nat}
  {α β : Type}

/-! ## Calls that fail -/

/-- An action that changes nothing when it fails. -/
def Atomic (act : MachineAction α) : Prop :=
  ∀ s err t, act s = .error err t → t = s

theorem Unchanging.atomic {act : MachineAction α} (h : Unchanging act) : Atomic act := by
  intro s err t hRun
  have hSame := h s
  rw [hRun] at hSame
  exact hSame

theorem Unchanging.eq_of_ok {act : MachineAction α} {a : α} (h : Unchanging act)
    (hRun : act s = .ok a t) : t = s := by
  have hSame := h s
  rw [hRun] at hSame
  exact hSame

theorem Atomic.bind {first : MachineAction β} {next : β → MachineAction α}
    (hFirst : Unchanging first) (hNext : ∀ b, Atomic (next b)) : Atomic (first >>= next) := by
  intro s err t hRun
  have hSame := hFirst s
  rw [Action.bind_run] at hRun
  cases hStart : first s with
  | ok b u =>
      rw [hStart] at hRun hSame
      cases hSame
      exact hNext b u err t hRun
  | error err' u =>
      rw [hStart] at hRun hSame
      cases hRun
      exact hSame

theorem Atomic.map {act : MachineAction β} (f : β → α) (h : Atomic act) : Atomic (f <$> act) := by
  intro s err t hRun
  rw [Action.map_run] at hRun
  cases hAct : act s with
  | ok b u =>
      rw [hAct] at hRun
      cases hRun
  | error err' u =>
      rw [hAct] at hRun
      cases hRun
      exact h s _ _ hAct

theorem place_atomic (m numRows : Nat) (b : Buffer) : Atomic (x.place m numRows b) := by
  intro s err t hRun
  rcases place_cases x m numRows b s with ⟨err', hFails, -⟩ | ⟨-, -, -, hDone⟩
  · cases hFails.symm.trans hRun
    rfl
  · cases hDone.symm.trans hRun

/-- A call that runs no commands changes nothing when it fails. -/
theorem call_atomic (hNot : ¬c.Runs) : Atomic (x.call c) := by
  cases c with
  | supplyInput name b =>
      refine .map _ (.bind (requirePhase_unchanging _) fun _ => ?_)
      refine .bind (.ofExcept _) fun spec => .bind (.ofExcept _) fun m => ?_
      exact place_atomic m spec.numRows b
  | supplyOutputDeriv name b =>
      refine .map _ (.bind (requirePhase_unchanging _) fun _ => ?_)
      refine .bind (.ofExcept _) fun spec => .bind (.ofExcept _) fun _ => ?_
      exact .bind (.ofExcept _) fun m => place_atomic m spec.numRows b
  | readOutput name => exact (call_unchanging (.readOutput name) trivial).atomic
  | readInputDeriv name => exact (call_unchanging (.readInputDeriv name) trivial).atomic
  | phase => exact fun s err t hRun => by cases hRun
  | forward => exact absurd trivial hNot
  | backward => exact absurd trivial hNot

/-- A call that runs commands keeps the phase when it fails, and changes nothing when it is a
misuse: no command fails with one, so none has been carried out. -/
theorem runPhase_error {kind : CallKind} {check : MachineState → Except Error Unit}
    {entries : List (Command × Nat)} {after : Phase} {err : Error}
    (hRun : x.runPhase kind check entries after s = .error err t) :
    t.phase = s.phase ∧ (err.isMisuse = true → t = s) := by
  rw [runPhase, Action.bind_run] at hRun
  cases hPhase : requirePhase kind s with
  | error err' u =>
      rw [hPhase] at hRun
      cases hRun
      have hSame := (requirePhase_unchanging kind).atomic s _ _ hPhase
      exact ⟨congrArg _ hSame, fun _ => hSame⟩
  | ok a u =>
      obtain ⟨-, rfl⟩ := requirePhase_eq_ok_iff.mp hPhase
      rw [hPhase] at hRun
      change (Action.ofExcept (check u) >>= fun _ => x.runTo entries after) u = _ at hRun
      cases hCheck : check u with
      | error err' =>
          rw [hCheck] at hRun
          cases hRun
          exact ⟨rfl, fun _ => rfl⟩
      | ok _ =>
          rw [hCheck, Action.ofExcept_ok_bind, runTo, Action.bind_run] at hRun
          have hKeeps := (executeAll_internal (x := x) entries).keeps u
          have hClean := (executeAll_internal (x := x) entries).noMisuse u
          cases hCommands : x.executeAll entries u with
          | ok _ v =>
              rw [hCommands] at hRun
              cases hRun
          | error err' v =>
              rw [hCommands] at hRun hKeeps hClean
              cases hRun
              refine ⟨hKeeps, fun hMisuse => ?_⟩
              cases hMisuse.symm.trans (hClean err rfl)

/-- A call that fails keeps the phase, and changes nothing if it is refused. -/
theorem call_error {err : Error} (hRun : x.call c s = .error err t) :
    t.phase = s.phase ∧ (c.refused (.error err) = true → t = s) := by
  have hMap : ∀ {act : MachineAction Unit}, ((fun _ => Answer.done) <$> act) s = .error err t →
      act s = .error err t := by
    intro act hMapped
    rw [Action.map_run] at hMapped
    cases hAct : act s with
    | ok _ u =>
        rw [hAct] at hMapped
        cases hMapped
    | error err' u =>
        rw [hAct] at hMapped
        cases hMapped
        rfl
  cases c with
  | forward => exact runPhase_error (forward_eq x ▸ hMap hRun)
  | backward => exact runPhase_error (backward_eq x ▸ hMap hRun)
  | _ =>
      have hSame := call_atomic (fun hRuns => by exact hRuns) s err t hRun
      exact ⟨congrArg _ hSame, fun _ => hSame⟩

/-- A refused call changes nothing. -/
theorem finalState_of_refused (h : c.refused (Action.outcome (x.call c s)) = true) :
    Action.finalState (x.call c s) = s := by
  cases hRun : x.call c s with
  | ok a t =>
      rw [hRun] at h
      cases c <;> cases h
  | error err t =>
      rw [hRun] at h
      exact (call_error hRun).2 h

/-! ## Calls that succeed -/

/-- A call that begins with a check of the phase succeeds in a phase that allows it. -/
theorem phase_of_requirePhase {kind : CallKind} {next : MachineAction α} {a : α}
    (hRun : (requirePhase kind >>= fun _ => next) s = .ok a t) : s.phase ∈ kind.allowedIn := by
  obtain ⟨_, _, hPhase, -⟩ := Action.bind_run_eq_ok_iff.mp hRun
  exact (requirePhase_eq_ok_iff.mp hPhase).1

/-- A call that succeeds steps from phase to phase. -/
theorem call_steps {a : Answer} (hRun : x.call c s = .ok a t) : c.Steps s.phase t.phase := by
  cases c with
  | supplyInput name b =>
      obtain ⟨_, -, rfl⟩ := Action.map_run_eq_ok_iff.mp hRun
      obtain ⟨hPhase, _, -, _, -, -, -, -, rfl⟩ := call_supplyInput_eq_ok_iff.mp hRun
      exact ⟨hPhase, rfl⟩
  | supplyOutputDeriv name b =>
      obtain ⟨_, -, rfl⟩ := Action.map_run_eq_ok_iff.mp hRun
      obtain ⟨hPhase, _, -, -, _, -, -, -, -, rfl⟩ := call_supplyOutputDeriv_eq_ok_iff.mp hRun
      refine ⟨fun hDone => ?_, rfl⟩
      rcases hPhase with hPhase | hPhase <;> cases hPhase.symm.trans hDone
  | forward =>
      obtain ⟨_, hForward, -⟩ := Action.map_run_eq_ok_iff.mp hRun
      obtain ⟨hIn, -, u, -, rfl⟩ := runPhase_eq_ok (forward_eq x ▸ hForward)
      exact ⟨List.mem_singleton.mp hIn, rfl⟩
  | backward =>
      obtain ⟨_, hBackward, -⟩ := Action.map_run_eq_ok_iff.mp hRun
      obtain ⟨hIn, -, u, -, rfl⟩ := runPhase_eq_ok (backward_eq x ▸ hBackward)
      exact ⟨List.mem_singleton.mp hIn, rfl⟩
  | readOutput name =>
      obtain rfl := (call_unchanging (.readOutput name) trivial).eq_of_ok hRun
      obtain ⟨_, hRead, -⟩ := Action.map_run_eq_ok_iff.mp hRun
      have hIn := phase_of_requirePhase hRead
      refine ⟨fun hCreated => ?_, rfl⟩
      rw [hCreated] at hIn
      exact absurd hIn (by decide)
  | readInputDeriv name =>
      obtain rfl := (call_unchanging (.readInputDeriv name) trivial).eq_of_ok hRun
      obtain ⟨_, hRead, -⟩ := Action.map_run_eq_ok_iff.mp hRun
      exact ⟨List.mem_singleton.mp (phase_of_requirePhase hRead), rfl⟩
  | phase =>
      cases hRun
      exact rfl

/-! ## Sequences of calls -/

/-- The state before the call at a position of a sequence. -/
def stateBefore (x : Machine) (calls : List Call) (s : MachineState) (i : Nat) : MachineState :=
  (x.callAll (calls.take i) s).2

/-- The call at a position of a sequence is a given one, and it succeeds. -/
def Succeeds (x : Machine) (calls : List Call) (s : MachineState) (i : Nat) (c : Call) : Prop :=
  calls[i]? = some c ∧ ∃ a, (x.callAll calls s).1[i]? = some (.ok a)

/-- A sequence of calls is one call after the other. -/
theorem answer_at (h : calls[i]? = some c) :
    (x.callAll calls s).1[i]? = some (Action.outcome (x.call c (x.stateBefore calls s i))) ∧
      x.stateBefore calls s (i + 1) = Action.finalState (x.call c (x.stateBefore calls s i)) := by
  induction calls generalizing s i with
  | nil => cases h
  | cons d rest ih =>
      cases i with
      | zero =>
          cases h
          exact ⟨rfl, rfl⟩
      | succ i => exact ih (s := Action.finalState (x.call d s)) h

theorem Succeeds.steps (h : x.Succeeds calls s i c) :
    c.Steps (x.stateBefore calls s i).phase (x.stateBefore calls s (i + 1)).phase := by
  obtain ⟨hCall, a, hAnswer⟩ := h
  obtain ⟨hOutcome, hNext⟩ := answer_at (x := x) (s := s) hCall
  rw [hNext]
  cases hRun : x.call c (x.stateBefore calls s i) with
  | ok a' t => exact call_steps hRun
  | error err t =>
      rw [hRun] at hOutcome
      cases hOutcome.symm.trans hAnswer

/-- From one position to the next the phase stays, or a call that succeeds steps on. -/
theorem phase_next (x : Machine) (calls : List Call) (s : MachineState) (i : Nat) :
    (x.stateBefore calls s (i + 1)).phase = (x.stateBefore calls s i).phase ∨
      ∃ c, x.Succeeds calls s i c := by
  cases hCall : calls[i]? with
  | none =>
      have hLe := List.getElem?_eq_none_iff.mp hCall
      simp only [stateBefore, List.take_of_length_le hLe,
        List.take_of_length_le (Nat.le_succ_of_le hLe), true_or]
  | some c =>
      obtain ⟨hOutcome, hNext⟩ := answer_at (x := x) (s := s) hCall
      cases hRun : x.call c (x.stateBefore calls s i) with
      | ok a t =>
          rw [hRun] at hOutcome
          exact .inr ⟨c, hCall, a, hOutcome⟩
      | error err t =>
          rw [hNext, hRun]
          exact .inl (call_error hRun).1

/-- The phases along a sequence of calls never go back. -/
theorem rank_monotone (x : Machine) (calls : List Call) (s : MachineState) :
    Monotone fun i => (x.stateBefore calls s i).phase.rank := by
  refine monotone_nat_of_le_succ fun i => ?_
  rcases phase_next x calls s i with hSame | ⟨c, hSucceeds⟩
  · rw [hSame]
  · exact hSucceeds.steps.rank_le

/-- A call in one phase does not come after a call that leads to a later phase. -/
theorem le_of_rank_lt (h : (x.stateBefore calls s i).phase.rank <
    (x.stateBefore calls s (j + 1)).phase.rank) : i ≤ j := by
  apply Nat.le_of_not_lt
  intro hAfter
  exact Nat.not_lt.mpr (rank_monotone x calls s hAfter) h

/-- A call that leads from one phase to a later one succeeds at one position only. -/
theorem Succeeds.position_eq {p q : Phase} (hSteps : ∀ {p' q'}, c.Steps p' q' → p' = p ∧ q' = q)
    (hUp : p.rank < q.rank) (h : x.Succeeds calls s i c) (h' : x.Succeeds calls s j c) :
    i = j := by
  have hLe : ∀ {i j}, x.Succeeds calls s i c → x.Succeeds calls s j c → i ≤ j := by
    intro i j hFirst hSecond
    apply le_of_rank_lt
    rw [(hSteps hFirst.steps).1, (hSteps hSecond.steps).2]
    exact hUp
  exact Nat.le_antisymm (hLe h h') (hLe h' h)

/-- A call in one phase comes before another call that leads to a later phase. -/
theorem Succeeds.lt {d : Call} (h : x.Succeeds calls s i c) (h' : x.Succeeds calls s j d)
    (hNe : c ≠ d) (hRank : (x.stateBefore calls s i).phase.rank <
      (x.stateBefore calls s (j + 1)).phase.rank) : i < j := by
  refine Nat.lt_of_le_of_ne (le_of_rank_lt hRank) ?_
  rintro rfl
  exact hNe (Option.some.inj (h.1.symm.trans h'.1))

/-- What holds of a later phase and not of the first one begins with some call. -/
theorem exists_step_into {P : Phase → Prop} (hStart : ¬P s.phase)
    (hReached : P (x.stateBefore calls s j).phase) :
    ∃ i < j, ∃ c, x.Succeeds calls s i c ∧ ¬P (x.stateBefore calls s i).phase ∧
      P (x.stateBefore calls s (i + 1)).phase := by
  induction j with
  | zero => exact absurd hReached hStart
  | succ j ih =>
      by_cases hEarlier : P (x.stateBefore calls s j).phase
      · obtain ⟨i, hLt, hStep⟩ := ih hEarlier
        exact ⟨i, Nat.lt_succ_of_lt hLt, hStep⟩
      · rcases phase_next x calls s j with hSame | ⟨c, hSucceeds⟩
        · exact absurd (hSame ▸ hReached) hEarlier
        · exact ⟨j, Nat.lt_succ_self j, c, hSucceeds, hEarlier, hReached⟩

/-- After the first phase there has been a forward call. -/
theorem exists_forward (hStart : s.phase = .created)
    (hReached : (x.stateBefore calls s j).phase ≠ .created) :
    ∃ i < j, x.Succeeds calls s i .forward := by
  obtain ⟨i, hLt, c, hSucceeds, hBefore, hAfter⟩ :=
    exists_step_into (P := (· ≠ .created)) (fun hNe => hNe hStart) hReached
  have hSteps := hSucceeds.steps
  rw [Classical.not_not.mp hBefore] at hSteps
  cases c with
  | forward => exact ⟨i, hLt, hSucceeds⟩
  | backward => cases hSteps.1
  | phase => exact absurd hSteps hAfter
  | _ => exact absurd hSteps.2 hAfter

/-- In the last phase there has been a backward call. -/
theorem exists_backward (hStart : s.phase = .created)
    (hReached : (x.stateBefore calls s j).phase = .backwardDone) :
    ∃ i < j, x.Succeeds calls s i .backward := by
  obtain ⟨i, hLt, c, hSucceeds, hBefore, hAfter⟩ :=
    exists_step_into (P := (· = .backwardDone)) (by simp [hStart]) hReached
  have hSteps := hSucceeds.steps
  rw [hAfter] at hSteps
  cases c with
  | forward => cases hSteps.2
  | backward => exact ⟨i, hLt, hSucceeds⟩
  | phase => exact absurd hSteps.symm hBefore
  | _ => exact absurd hSteps.2.symm hBefore

/-! ## Leaving out refused calls -/

/-- The calls of a sequence that are not refused, with their answers. -/
def accepted (x : Machine) (calls : List Call) (s : MachineState) :
    List (Call × Except Error Answer) :=
  (calls.zip (x.callAll calls s).1).filter fun entry => !entry.1.refused entry.2

/-- Without its refused calls a sequence gives the other calls the same answers, and ends in
the same state. -/
theorem callAll_accepted (x : Machine) (calls : List Call) (s : MachineState) :
    x.callAll ((x.accepted calls s).map (·.1)) s =
      ((x.accepted calls s).map (·.2), (x.callAll calls s).2) := by
  induction calls generalizing s with
  | nil => rfl
  | cons c rest ih =>
      have hRest := ih (Action.finalState (x.call c s))
      simp only [accepted, callAll, List.zip_cons_cons, List.filter_cons]
      cases hRefused : c.refused (Action.outcome (x.call c s)) with
      | true =>
          rw [finalState_of_refused hRefused] at hRest ⊢
          exact hRest
      | false =>
          simp only [Bool.not_false, if_true, List.map_cons, callAll]
          simp only [accepted] at hRest
          rw [hRest]

/-! ## The protocol -/

/-- What holds of the answers to a sequence of calls, from a state of a machine on. -/
structure Protocol (x : Machine) (calls : List Call) (s : MachineState) : Prop where
  /-- At most one forward call succeeds. -/
  forward_once : ∀ i j, x.Succeeds calls s i .forward → x.Succeeds calls s j .forward → i = j
  /-- At most one backward call succeeds. -/
  backward_once : ∀ i j, x.Succeeds calls s i .backward → x.Succeeds calls s j .backward → i = j
  /-- It comes after the forward call. -/
  backward_after : ∀ j, x.Succeeds calls s j .backward → ∃ i < j, x.Succeeds calls s i .forward
  /-- An output is read after the forward call. -/
  output_after : ∀ j name, x.Succeeds calls s j (.readOutput name) →
    ∃ i < j, x.Succeeds calls s i .forward
  /-- The derivative of an input is read after the backward call. -/
  deriv_after : ∀ j name, x.Succeeds calls s j (.readInputDeriv name) →
    ∃ i < j, x.Succeeds calls s i .backward
  /-- An input is supplied before the forward call. -/
  input_before : ∀ i j name b, x.Succeeds calls s i (.supplyInput name b) →
    x.Succeeds calls s j .forward → i < j
  /-- The derivative of an output is supplied before the backward call. -/
  deriv_before : ∀ i j name b, x.Succeeds calls s i (.supplyOutputDeriv name b) →
    x.Succeeds calls s j .backward → i < j
  /-- A misuse, and a failing call that supplies or reads a buffer, changes nothing: the
  matrices, the network to update, the phase and the journal are as they were. -/
  refused : ∀ i c a, calls[i]? = some c → (x.callAll calls s).1[i]? = some a →
    c.refused a = true → x.stateBefore calls s (i + 1) = x.stateBefore calls s i
  /-- Without all these calls the other ones have the same answers and lead to the same
  state. -/
  accepted : x.callAll ((x.accepted calls s).map (·.1)) s =
    ((x.accepted calls s).map (·.2), (x.callAll calls s).2)

/-- Every machine keeps the protocol, whatever its program is, for every network to update and
every sequence of calls. -/
theorem calls_keep_protocol (x : Machine) (target : Option Network) (calls : List Call) :
    x.Protocol calls (x.start target) := by
  have hStart : (x.start target).phase = .created := rfl
  exact
    { forward_once := fun i j => Succeeds.position_eq id (by decide)
      backward_once := fun i j => Succeeds.position_eq id (by decide)
      backward_after := by
        intro j hBackward
        refine exists_forward hStart ?_
        rw [hBackward.steps.1]
        decide
      output_after := fun j name hRead => exists_forward hStart hRead.steps.1
      deriv_after := fun j name hRead => exists_backward hStart hRead.steps.1
      input_before := by
        intro i j name b hSupply hForward
        refine hSupply.lt hForward Call.noConfusion ?_
        rw [hSupply.steps.1, hForward.steps.2]
        decide
      deriv_before := by
        intro i j name b hSupply hBackward
        refine hSupply.lt hBackward Call.noConfusion ?_
        rw [hBackward.steps.2]
        exact Phase.rank_lt_of_ne hSupply.steps.1
      refused := by
        intro i c a hCall hAnswer hRefused
        obtain ⟨hOutcome, hNext⟩ := answer_at (x := x) (s := x.start target) hCall
        cases hOutcome.symm.trans hAnswer
        rw [hNext]
        exact finalState_of_refused hRefused
      accepted := callAll_accepted x calls (x.start target) }

end Machine

end MatrixProgram
