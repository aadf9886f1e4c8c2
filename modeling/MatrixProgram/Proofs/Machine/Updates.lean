import MatrixProgram.Proofs.Machine.Exchange
import MatrixProgram.Proofs.Machine.InPlace
import MatrixProgram.Proofs.Machine.Progress

/-!
# Updates of the network

A machine computes with its own network, which is no part of its state.  Backprops and
statistics change another one, the network to update.  Nothing flows back from it: two runs
that succeed with different networks to update answer the same.

What ends up in it is exact.  `componentChange` is what one command asks of a component, from
the operands as they are before the command, and `ChangedBy` says that a network differs from
another one by one change for each component.  A command that succeeds makes just the changes
that it asks for, so a run makes those of its commands in their order, and all calls together
make those of the executed commands: `updates_isolated_and_exact`.
-/

namespace MatrixProgram

open Program

/-! ## Changes of a network -/

namespace Network

/-- The component of an index exists and is updatable. -/
def isUpdatable (net : Network) (k : Nat) : Bool :=
  match net.component k with
  | .ok component => component.capabilities.updatable
  | .error _ => false

/-- A network comes from another one by one change for each component, all of which
succeed. -/
structure ChangedBy (changes : Nat → Action Component Unit) (net net' : Network) : Prop where
  nodes : net'.nodes = net.nodes
  length : net'.components.length = net.components.length
  component : ∀ k name old, net.components[k]? = some (name, old) →
    ∃ new, changes k old = .ok () new ∧ net'.components[k]? = some (name, new)

namespace ChangedBy

variable {f f' : Nat → Action Component Unit} {net net' net'' : Network}

theorem refl (net : Network) : net.ChangedBy (fun _ => pure ()) net where
  nodes := rfl
  length := rfl
  component := fun _ _ old hOld => ⟨old, rfl, hOld⟩

theorem trans (h : net.ChangedBy f net') (h' : net'.ChangedBy f' net'') :
    net.ChangedBy (fun k => f k >>= fun _ => f' k) net'' where
  nodes := h'.nodes.trans h.nodes
  length := h'.length.trans h.length
  component := by
    intro k name old hOld
    obtain ⟨mid, hFirst, hMid⟩ := h.component k name old hOld
    obtain ⟨new, hNext, hNew⟩ := h'.component k name mid hMid
    exact ⟨new, (Action.bind_run_ok hFirst).trans hNext, hNew⟩

/-- A component that is asked for no change is the same in both networks. -/
theorem getElem?_eq {k : Nat} (h : net.ChangedBy f net') (hIdle : f k = pure ()) :
    net'.components[k]? = net.components[k]? := by
  cases hOld : net.components[k]? with
  | none =>
      rw [List.getElem?_eq_none_iff] at hOld ⊢
      rw [h.length]
      exact hOld
  | some entry =>
      obtain ⟨new, hNew, hEntry⟩ := h.component k entry.1 entry.2 hOld
      rw [hIdle] at hNew
      cases hNew
      exact hEntry

end ChangedBy

/-- The change of one component. -/
theorem changedBy_of_changeComponent {j : Nat} {act : Action Component Unit}
    {net net' : Network} (h : changeComponent j act net = .ok () net') :
    net.ChangedBy (fun k => if j = k then act else pure ()) net' := by
  unfold changeComponent at h
  split at h
  · rename_i name component hFound
    cases hChange : act component with
    | error err new => simp [hChange, Action.mapState] at h
    | ok u new =>
        rw [hChange] at h
        cases h
        have hLt := (List.getElem?_eq_some_iff.mp hFound).1
        refine ⟨rfl, List.length_set, ?_⟩
        intro k name' old hOld
        by_cases hEq : j = k
        · subst hEq
          cases hFound.symm.trans hOld
          exact ⟨new, by rw [if_pos rfl]; exact hChange, List.getElem?_set_self hLt⟩
        · refine ⟨old, by rw [if_neg hEq]; rfl, ?_⟩
          rw [List.getElem?_set_ne hEq]
          exact hOld
  · cases h

end Network

namespace Machine

variable {x : Machine} {c : Command} {i k : Nat} {s s' t t' : MachineState} {net : Network}

/-! ## What a command asks of a component -/

/-- What a command, carried out in a state, asks of a component of the network to update: an
update for a backprop of this component if the machine's own component is updatable, and
statistics if the request wants them.  The operands are those of the state. -/
def componentChange (x : Machine) (k : Nat) (c : Command) (s : MachineState) :
    Action Component Unit :=
  match c with
  | .backprop _ j precomputed inValue _ outDeriv _ =>
      if j = k ∧ x.network.isUpdatable j = true then
        match s.slots.view? x.program inValue, s.slots.view? x.program outDeriv with
        | .ok inView, .ok (some outView) =>
            Component.update (precomputed.bind fun table => x.program.precomputed[table]?) inView
              outView
        | _, _ => throw (.failed (.missingOperand .outDeriv))
      else pure ()
  | .storeStats j value =>
      if j = k ∧ x.request.wantsStats = true then
        match s.slots.view? x.program value with
        | .ok (some v) => Component.storeStats v
        | _ => throw (.failed (.missingOperand .source))
      else pure ()
  | _ => pure ()

/-- What executed commands, each with the state before it, ask of a component in their
order. -/
def componentChanges (x : Machine) (k : Nat) (executed : List (Command × MachineState)) :
    Action Component Unit :=
  executed.forM fun (c, s) => x.componentChange k c s

/-- A command asks nothing of components that it does not update. -/
theorem componentChange_of_not_updates (h : ¬c.Updates x.network k) :
    x.componentChange k c s = pure () := by
  cases c with
  | backprop node j precomputed inValue outValue outDeriv inDeriv =>
      refine if_neg ?_
      rintro ⟨rfl, hUpdatable⟩
      unfold Network.isUpdatable at hUpdatable
      split at hUpdatable
      · rename_i component hComponent
        exact h ⟨rfl, component, hComponent, hUpdatable⟩
      · cases hUpdatable
  | storeStats j value => exact if_neg fun hBoth => h hBoth.1
  | _ => rfl

theorem componentChanges_of_not_updates {executed : List (Command × MachineState)}
    (h : ∀ entry ∈ executed, ¬entry.1.Updates x.network k) :
    x.componentChanges k executed = pure () := by
  induction executed with
  | nil => rfl
  | cons entry rest ih =>
      obtain ⟨hFirst, hRest⟩ := List.forall_mem_cons.mp h
      have hStep : x.componentChanges k (entry :: rest) =
          (x.componentChange k entry.1 entry.2 >>= fun _ => x.componentChanges k rest) := rfl
      rw [hStep, componentChange_of_not_updates hFirst, ih hRest]
      rfl

theorem componentChanges_append (before after : List (Command × MachineState)) :
    x.componentChanges k (before ++ after) =
      (x.componentChanges k before >>= fun _ => x.componentChanges k after) :=
  List.forM_append

/-! ## One command -/

/-- A change of the network to update leaves everything else as it is. -/
theorem changeTarget_eq_ok {change : Network → MachineState → EStateM.Result Error Network Unit}
    (hRun : changeTarget change s = .ok () t) :
    t.slots = s.slots ∧ t.phase = s.phase ∧ ∀ net, s.target = some net →
      ∃ net', change net s = .ok () net' ∧ t.target = some net' := by
  unfold changeTarget at hRun
  cases hTarget : s.target with
  | none =>
      rw [hTarget] at hRun
      cases hRun
      exact ⟨rfl, rfl, fun net hSome => by cases hSome⟩
  | some net =>
      rw [hTarget] at hRun
      dsimp only at hRun
      cases hChange : change net s with
      | error err net' => simp [hChange, Action.mapState] at hRun
      | ok u net' =>
          rw [hChange] at hRun
          cases hRun
          refine ⟨rfl, rfl, ?_⟩
          intro net₀ hSome
          cases hSome
          exact ⟨net', hChange, rfl⟩

/-- Statistics change the network to update alone. -/
theorem storeStats_eq_ok {j value : Nat} (hRun : x.storeStats i j value s = .ok () t) :
    t.slots = s.slots ∧ t.phase = s.phase ∧ ∀ net, s.target = some net →
      ∃ net', t.target = some net' ∧
        net.ChangedBy (fun k => x.componentChange k (.storeStats j value) s) net' := by
  unfold storeStats at hRun
  by_cases hWants : x.request.wantsStats = true
  · rw [if_pos hWants] at hRun
    obtain ⟨hSlots, hPhase, hTarget⟩ := changeTarget_eq_ok hRun
    refine ⟨hSlots, hPhase, ?_⟩
    intro net hSome
    obtain ⟨net', hChange, hTarget'⟩ := hTarget net hSome
    refine ⟨net', hTarget', ?_⟩
    cases hView : s.slots.view? x.program value with
    | error err => simp [hView] at hChange
    | ok v =>
        cases v with
        | none => simp [hView] at hChange
        | some v =>
            simp only [hView] at hChange
            simp only [componentChange, hWants, and_true, hView]
            exact Network.changedBy_of_changeComponent hChange
  · rw [if_neg hWants] at hRun
    cases hRun
    refine ⟨rfl, rfl, ?_⟩
    intro net hSome
    refine ⟨net, hSome, ?_⟩
    have hIdle : (fun k => x.componentChange k (.storeStats j value) s) = fun _ => pure () :=
      funext fun k => if_neg fun hBoth => hWants hBoth.2
    rw [hIdle]
    exact .refl net

/-- The update of an updatable component changes the network to update alone. -/
theorem updateTarget_eq_ok {node j inValue outValue outDeriv inDeriv : Nat}
    {precomputed : Option Nat} {rows : Option (List Nat)}
    (hUpdatable : x.network.isUpdatable j = true)
    (hRows : x.precomputedRows i precomputed = .ok rows)
    (hRun : x.updateTarget i j rows inValue outDeriv s = .ok () t) :
    t.slots = s.slots ∧ t.phase = s.phase ∧ ∀ net, s.target = some net →
      ∃ net', t.target = some net' ∧ net.ChangedBy (fun k => x.componentChange k
        (.backprop node j precomputed inValue outValue outDeriv inDeriv) s) net' := by
  obtain ⟨hSlots, hPhase, hTarget⟩ := changeTarget_eq_ok hRun
  refine ⟨hSlots, hPhase, ?_⟩
  intro net hSome
  obtain ⟨net', hChange, hTarget'⟩ := hTarget net hSome
  refine ⟨net', hTarget', ?_⟩
  have hFound : (precomputed.bind fun table => x.program.precomputed[table]?) = rows := by
    cases precomputed with
    | none =>
        cases hRows
        rfl
    | some table =>
        simp only [precomputedRows] at hRows
        split at hRows
        · rename_i found hGet
          cases hRows
          exact hGet
        · cases hRows
  cases hInView : s.slots.view? x.program inValue with
  | error err => simp [hInView] at hChange
  | ok inView =>
      cases hOutView : s.slots.view? x.program outDeriv with
      | error err => simp [hInView, hOutView] at hChange
      | ok outView =>
          cases outView with
          | none => simp [hInView, hOutView] at hChange
          | some outView =>
              simp only [hInView, hOutView] at hChange
              simp only [componentChange, hUpdatable, and_true, hInView, hOutView, hFound]
              exact Network.changedBy_of_changeComponent hChange

/-- A backprop of an updatable component updates first, and then writes. -/
theorem updates_of_backprop {node j inValue outValue outDeriv inDeriv : Nat}
    {precomputed : Option Nat} {component : Component}
    (hComponent : x.network.component j = .ok component)
    (hUpdatable : component.capabilities.updatable = true)
    (hRun : x.execute i (.backprop node j precomputed inValue outValue outDeriv inDeriv) s =
      .ok () t) :
    ∃ rows u v, x.precomputedRows i precomputed = .ok rows ∧
      x.updateTarget i j rows inValue outDeriv s = .ok () u ∧
        x.writeInDeriv component rows inValue outValue outDeriv inDeriv u = .ok () v ∧
          t.slots = v.slots ∧ t.target = v.target ∧ t.phase = v.phase := by
  obtain ⟨v, hPerform, hNoted⟩ := perform_of_execute hRun
  rw [perform, backprop_eq, hComponent, Action.ofExcept_ok_bind] at hPerform
  obtain ⟨rows, _, hLookup, hRest⟩ := Action.bind_run_eq_ok_iff.mp hPerform
  obtain ⟨hRows, rfl⟩ := Action.ofExcept_run_eq_ok_iff.mp hLookup
  rw [if_pos hUpdatable] at hRest
  obtain ⟨_, u, hUpdate, hWrite⟩ := Action.bind_run_eq_ok_iff.mp hRest
  exact ⟨rows, u, v, hRows, hUpdate, hWrite, hNoted⟩

/-- A command that succeeds makes the changes that it asks for. -/
theorem execute_changes (hRun : x.execute i c s = .ok () t) (hTarget : s.target = some net) :
    ∃ net', t.target = some net' ∧ net.ChangedBy (fun k => x.componentChange k c s) net' := by
  by_cases hNone : ∀ k, ¬c.Updates x.network k
  · refine ⟨net, (target_of_not_updates hNone hRun).trans hTarget, ?_⟩
    rw [funext fun k => componentChange_of_not_updates (hNone k)]
    exact .refl net
  · obtain ⟨k, hUpdates⟩ := Classical.not_forall_not.mp hNone
    cases c with
    | storeStats j value =>
        obtain ⟨u, hPerform, -, hSame, -⟩ := perform_of_execute hRun
        rw [hSame]
        exact (storeStats_eq_ok hPerform).2.2 net hTarget
    | backprop node j precomputed inValue outValue outDeriv inDeriv =>
        obtain ⟨rfl, component, hComponent, hUpdatable⟩ := hUpdates
        obtain ⟨rows, u, v, hRows, hUpdate, -⟩ := updates_of_backprop hComponent hUpdatable hRun
        have hSame : t.target = u.target := by
          have hFinal := congrArg MachineState.target (congrArg Action.finalState hRun)
          rw [target_finalState_backprop hComponent hUpdatable hRows, hUpdate] at hFinal
          exact hFinal.symm
        rw [hSame]
        exact (updateTarget_eq_ok (by simp [Network.isUpdatable, hComponent, hUpdatable]) hRows
          hUpdate).2.2 net hTarget
    | _ => exact hUpdates.elim

/-! ## Runs and calls -/

/-- The commands of a run, each with the state before it. -/
def executedAlong (x : Machine) : List (Command × Nat) → MachineState →
    List (Command × MachineState)
  | [], _ => []
  | (c, i) :: rest, s =>
      (c, s) :: x.executedAlong rest (Action.finalState (x.execute i c s))

/-- The commands that a call carries out. -/
def commandsOf (x : Machine) : Call → List (Command × Nat)
  | .forward => x.forwardCommands
  | .backward => x.backwardCommands
  | _ => []

/-- The commands that a sequence of calls carries out, each with the state before it. -/
def executed (x : Machine) : List Call → MachineState → List (Command × MachineState)
  | [], _ => []
  | a :: rest, s =>
      x.executedAlong (x.commandsOf a) s ++ x.executed rest (Action.finalState (x.call a s))

/-- Every call of a sequence succeeds. -/
def AllSucceed (x : Machine) (calls : List Call) (s : MachineState) : Prop :=
  ∀ answer ∈ (x.callAll calls s).1, ∃ a, answer = .ok a

/-- A run that succeeds makes the changes of its commands, one after the other. -/
theorem executeAll_changes {entries : List (Command × Nat)}
    (hRun : x.executeAll entries s = .ok () t) (hTarget : s.target = some net) :
    ∃ net', t.target = some net' ∧
      net.ChangedBy (fun k => x.componentChanges k (x.executedAlong entries s)) net' := by
  induction entries generalizing s net with
  | nil =>
      cases hRun
      exact ⟨net, hTarget, .refl net⟩
  | cons entry rest ih =>
      obtain ⟨c, i⟩ := entry
      rw [executeAll_cons_run] at hRun
      cases hFirst : x.execute i c s with
      | error err u =>
          rw [hFirst] at hRun
          cases hRun
      | ok _ u =>
          rw [hFirst] at hRun
          obtain ⟨mid, hMid, hStep⟩ := execute_changes hFirst hTarget
          obtain ⟨net', hTarget', hSteps⟩ := ih hRun hMid
          refine ⟨net', hTarget', ?_⟩
          rw [executedAlong, hFirst]
          exact hStep.trans hSteps

/-- The phase after a call that runs commands. -/
def phaseAfter : Call → Phase
  | .forward => .forwardDone
  | _ => .backwardDone

/-- A call that runs commands and succeeds has carried out its commands. -/
theorem run_of_call {a : Call} {answer : Answer} (hRuns : a.Runs)
    (hRun : x.call a s = .ok answer t) :
    answer = .done ∧ ∃ u, x.executeAll (x.commandsOf a) s = .ok () u ∧ t.slots = u.slots ∧
      t.target = u.target ∧ t.phase = phaseAfter a := by
  cases a with
  | forward =>
      obtain ⟨_, hCall, rfl⟩ := Action.map_run_eq_ok_iff.mp hRun
      rw [forward_eq] at hCall
      obtain ⟨-, -, u, hCommands, rfl⟩ := runPhase_eq_ok hCall
      exact ⟨rfl, u, hCommands, rfl, rfl, rfl⟩
  | backward =>
      obtain ⟨_, hCall, rfl⟩ := Action.map_run_eq_ok_iff.mp hRun
      rw [backward_eq] at hCall
      obtain ⟨-, -, u, hCommands, rfl⟩ := runPhase_eq_ok hCall
      exact ⟨rfl, u, hCommands, rfl, rfl, rfl⟩
  | _ => exact hRuns.elim

/-- A call that runs no commands does the same whatever the network to update is. -/
theorem call_aside {a : Call} {g : Option Network → Option Network} (hNot : ¬a.Runs)
    (h : (targetAside g).Relates s s') :
    SameRun (targetAside g).Relates (x.call a s) (x.call a s') :=
  call_sameRun x.program.commands hNot h

/-- A call that succeeds makes the changes of the commands that it carries out. -/
theorem call_changes {a : Call} {answer : Answer} (hRun : x.call a s = .ok answer t)
    (hTarget : s.target = some net) :
    ∃ net', t.target = some net' ∧ net.ChangedBy
      (fun k => x.componentChanges k (x.executedAlong (x.commandsOf a) s)) net' := by
  by_cases hRuns : a.Runs
  · obtain ⟨-, u, hCommands, -, hSame, -⟩ := run_of_call hRuns hRun
    rw [hSame]
    exact executeAll_changes hCommands hTarget
  · -- Such a call would also keep a target that is put in the place of this one.
    have hKept : (Action.finalState (x.call a s)).target = s.target :=
      (call_aside (g := fun _ => s.target) hRuns ⟨rfl, rfl, rfl⟩).finalState.target
    rw [hRun] at hKept
    have hNoCommands : x.commandsOf a = [] := by
      cases a <;> first | rfl | exact absurd trivial hRuns
    rw [hNoCommands]
    exact ⟨net, hKept.trans hTarget, .refl net⟩

theorem allSucceed_cons_iff {a : Call} {rest : List Call} :
    x.AllSucceed (a :: rest) s ↔
      ∃ answer t, x.call a s = .ok answer t ∧ x.AllSucceed rest t := by
  unfold AllSucceed
  rw [callAll]
  dsimp only
  rw [List.forall_mem_cons]
  cases hRun : x.call a s with
  | ok answer t =>
      constructor
      · intro h
        exact ⟨answer, t, rfl, h.2⟩
      · rintro ⟨answer', t', hEq, h⟩
        cases hEq
        exact ⟨⟨answer, rfl⟩, h⟩
  | error err t =>
      constructor
      · rintro ⟨⟨answer, hAnswer⟩, -⟩
        cases hAnswer
      · rintro ⟨answer, t', hEq, -⟩
        cases hEq

/-- Calls that all succeed make the changes of all the commands that they carry out. -/
theorem callAll_changes {calls : List Call} (h : x.AllSucceed calls s)
    (hTarget : s.target = some net) :
    ∃ net', (x.callAll calls s).2.target = some net' ∧
      net.ChangedBy (fun k => x.componentChanges k (x.executed calls s)) net' := by
  induction calls generalizing s net with
  | nil => exact ⟨net, hTarget, .refl net⟩
  | cons a rest ih =>
      obtain ⟨answer, t, hRun, hRest⟩ := allSucceed_cons_iff.mp h
      obtain ⟨mid, hMid, hFirst⟩ := call_changes hRun hTarget
      obtain ⟨net', hTarget', hSteps⟩ := ih hRest hMid
      refine ⟨net', ?_, ?_⟩
      · rw [callAll, hRun]
        exact hTarget'
      · simp only [executed, componentChanges_append, hRun, Action.finalState]
        exact hFirst.trans hSteps

/-! ## Two networks to update -/

/-- Two states differ in the network to update and in the journal at most. -/
structure Beside (s s' : MachineState) : Prop where
  slots : s'.slots = s.slots
  phase : s'.phase = s.phase

theorem Beside.relates (h : Beside s s') : (targetAside fun _ => s'.target).Relates s s' :=
  ⟨h.slots, rfl, h.phase⟩

theorem beside_of_relates {g : Option Network → Option Network}
    (h : (targetAside g).Relates s s') : Beside s s' :=
  ⟨h.slots, h.phase⟩

/-- What is written does not depend on the network to update. -/
theorem write_beside {α : Type} {dst : Nat} {operands : Slots → Except Error α}
    {w : α → {rows cols : Nat} → Region → Write rows cols} (h : Beside s s') :
    SameRun Beside (x.write dst operands w s) (x.write dst operands w s') := by
  unfold write
  rw [h.slots]
  cases x.program.subMatrix dst with
  | error err => exact .error h
  | ok view =>
      dsimp only
      rcases s.slots.entries[view.matrix]? with _ | _ | b
      · exact .error h
      · exact .error h
      · dsimp only
        cases operands s.slots with
        | error err => exact .error h
        | ok a =>
            dsimp only
            cases Write.inWindow view.region (w a) b with
            | ok _ b' => exact .ok ⟨rfl, h.phase⟩
            | error err b' => exact .error ⟨rfl, h.phase⟩

theorem writeInDeriv_beside {component : Component} {rows : Option (List Nat)}
    {inValue outValue outDeriv inDeriv : Nat} (h : Beside s s') :
    SameRun Beside (x.writeInDeriv component rows inValue outValue outDeriv inDeriv s)
      (x.writeInDeriv component rows inValue outValue outDeriv inDeriv s') := by
  unfold writeInDeriv
  split
  · exact write_beside h
  · exact .ok h

/-- A command that succeeds with two networks to update does the same to the matrices. -/
theorem execute_beside (h : Beside s s') (hRun : x.execute i c s = .ok () t)
    (hRun' : x.execute i c s' = .ok () t') : Beside t t' := by
  by_cases hNone : ∀ k, ¬c.Updates x.network k
  · obtain ⟨u, hAgain, hStates⟩ := execute_follows (targetAside_spares hNone) i i h.relates hRun
    cases hRun'.symm.trans hAgain
    exact beside_of_relates hStates
  · obtain ⟨k, hUpdates⟩ := Classical.not_forall_not.mp hNone
    cases c with
    | storeStats j value =>
        obtain ⟨u, hPerform, hSlots, -, hPhase⟩ := perform_of_execute hRun
        obtain ⟨u', hPerform', hSlots', -, hPhase'⟩ := perform_of_execute hRun'
        obtain ⟨hKept, hSame, -⟩ := storeStats_eq_ok hPerform
        obtain ⟨hKept', hSame', -⟩ := storeStats_eq_ok hPerform'
        exact ⟨by rw [hSlots', hKept', h.slots, hSlots, hKept],
          by rw [hPhase', hSame', h.phase, hPhase, hSame]⟩
    | backprop node j precomputed inValue outValue outDeriv inDeriv =>
        obtain ⟨rfl, component, hComponent, hUpdatable⟩ := hUpdates
        obtain ⟨rows, u, v, hRows, hUpdate, hWrite, hSlots, -, hPhase⟩ :=
          updates_of_backprop hComponent hUpdatable hRun
        obtain ⟨rows', u', v', hRows', hUpdate', hWrite', hSlots', -, hPhase'⟩ :=
          updates_of_backprop hComponent hUpdatable hRun'
        cases hRows.symm.trans hRows'
        obtain ⟨hKept, hSame, -⟩ := changeTarget_eq_ok hUpdate
        obtain ⟨hKept', hSame', -⟩ := changeTarget_eq_ok hUpdate'
        have hBetween : Beside u u' :=
          ⟨by rw [hKept', h.slots, hKept], by rw [hSame', h.phase, hSame]⟩
        have hWritten : SameRun Beside
            (x.writeInDeriv component rows inValue outValue outDeriv inDeriv u)
            (x.writeInDeriv component rows inValue outValue outDeriv inDeriv u') :=
          writeInDeriv_beside hBetween
        rw [hWrite, hWrite'] at hWritten
        obtain ⟨hLeft, hRight⟩ : Beside v v' := hWritten.finalState
        exact ⟨by rw [hSlots', hSlots, hLeft], by rw [hPhase', hPhase, hRight]⟩
    | _ => exact hUpdates.elim

theorem executeAll_beside {entries : List (Command × Nat)} (h : Beside s s')
    (hRun : x.executeAll entries s = .ok () t) (hRun' : x.executeAll entries s' = .ok () t') :
    Beside t t' := by
  induction entries generalizing s s' with
  | nil =>
      cases hRun
      cases hRun'
      exact h
  | cons entry rest ih =>
      obtain ⟨_, u, hFirst, hRest⟩ := Action.bind_run_eq_ok_iff.mp hRun
      obtain ⟨_, u', hFirst', hRest'⟩ := Action.bind_run_eq_ok_iff.mp hRun'
      exact ih (execute_beside h hFirst hFirst') hRest hRest'

/-- A call that succeeds with two networks to update answers the same. -/
theorem call_beside {a : Call} {answer answer' : Answer} (h : Beside s s')
    (hRun : x.call a s = .ok answer t) (hRun' : x.call a s' = .ok answer' t') :
    answer' = answer ∧ Beside t t' := by
  by_cases hRuns : a.Runs
  · obtain ⟨hDone, u, hCommands, hSlots, -, hPhase⟩ := run_of_call hRuns hRun
    obtain ⟨hDone', u', hCommands', hSlots', -, hPhase'⟩ := run_of_call hRuns hRun'
    have hAfter := executeAll_beside h hCommands hCommands'
    exact ⟨hDone'.trans hDone.symm, by rw [hSlots', hSlots, hAfter.slots], by rw [hPhase', hPhase]⟩
  · have hSame := call_aside (x := x) hRuns h.relates
    rw [hRun, hRun'] at hSame
    cases hSame with
    | ok hStates => exact ⟨rfl, beside_of_relates hStates⟩

theorem callAll_beside {calls : List Call} (h : Beside s s') (hAll : x.AllSucceed calls s)
    (hAll' : x.AllSucceed calls s') : (x.callAll calls s').1 = (x.callAll calls s).1 := by
  induction calls generalizing s s' with
  | nil => rfl
  | cons a rest ih =>
      obtain ⟨answer, t, hRun, hRest⟩ := allSucceed_cons_iff.mp hAll
      obtain ⟨answer', t', hRun', hRest'⟩ := allSucceed_cons_iff.mp hAll'
      obtain ⟨rfl, hAfter⟩ := call_beside h hRun hRun'
      simp only [callAll, hRun, hRun', Action.outcome, Action.finalState, ih hAfter hRest hRest']

/-- Whatever the program, the request and the calls are, and whether or not the program passes
its check: two sequences of the same calls that succeed with different networks to update, or
with none, get the same answers.  And a network to update ends with each component changed by
what the executed commands ask of it in their order, each with its operands as they are just
before the command; a component that none of them updates is as it was. -/
theorem updates_isolated_and_exact (x : Machine) (calls : List Call) :
    (∀ target target' : Option Network, x.AllSucceed calls (x.start target) →
      x.AllSucceed calls (x.start target') →
        (x.callAll calls (x.start target')).1 = (x.callAll calls (x.start target)).1) ∧
      ∀ net : Network, x.AllSucceed calls (x.start (some net)) →
        ∃ net', (x.callAll calls (x.start (some net))).2.target = some net' ∧
          net.ChangedBy
            (fun k => x.componentChanges k (x.executed calls (x.start (some net)))) net' ∧
          ∀ k, (∀ entry ∈ x.executed calls (x.start (some net)),
            ¬entry.1.Updates x.network k) → net'.components[k]? = net.components[k]? := by
  constructor
  · intro target target' hAll hAll'
    exact callAll_beside ⟨rfl, rfl⟩ hAll hAll'
  · intro net hAll
    obtain ⟨net', hTarget, hChanged⟩ := callAll_changes hAll rfl
    refine ⟨net', hTarget, hChanged, ?_⟩
    intro k hNone
    exact hChanged.getElem?_eq (componentChanges_of_not_updates hNone)

/-! ## One step of training -/

/-- A network to update, with some weight and a learning rate of one. -/
def trainedNetwork (weight : Float32) : Network :=
  { updateNetwork with
    components := [("affine", .affine
      ⟨1, 1, Dense.ofFn fun _ _ => weight, Dense.ofFn fun _ _ => 0, 1⟩)] }

/-- All calls of one step of training. -/
def trainingCalls : List Call :=
  [.supplyInput "in" (.ofFn 1 1 fun _ _ => 3), .forward,
    .supplyOutputDeriv "out" (.ofFn 1 1 fun _ _ => 1), .backward, .readOutput "out"]

theorem trainingCalls_succeed {weight : Float32} (hWeight : weight = 2 ∨ weight = 5) :
    (updateMachine 1).AllSucceed trainingCalls
      ((updateMachine 1).start (some (trainedNetwork weight))) := by
  have hAll : ((updateMachine 1).callAll trainingCalls
      ((updateMachine 1).start (some (trainedNetwork weight)))).1.all Except.toBool = true := by
    rcases hWeight with rfl | rfl <;> decide +kernel
  intro answer hMem
  cases answer with
  | ok a => exact ⟨a, rfl⟩
  | error err =>
      have hOk := List.all_eq_true.mp hAll _ hMem
      cases hOk

/-- With the weight 2 and with the weight 5 the same is read, and the second network has its
one component changed by the one backprop. -/
theorem trainingCalls_isolated :
    ((updateMachine 1).callAll trainingCalls
        ((updateMachine 1).start (some (trainedNetwork 5)))).1 =
      ((updateMachine 1).callAll trainingCalls
        ((updateMachine 1).start (some (trainedNetwork 2)))).1 ∧
      ∃ net', ((updateMachine 1).callAll trainingCalls
          ((updateMachine 1).start (some (trainedNetwork 5)))).2.target = some net' ∧
        (trainedNetwork 5).ChangedBy (fun k => (updateMachine 1).componentChanges k
          ((updateMachine 1).executed trainingCalls
            ((updateMachine 1).start (some (trainedNetwork 5))))) net' := by
  obtain ⟨hSame, hExact⟩ := updates_isolated_and_exact (updateMachine 1) trainingCalls
  have hAnswers := hSame (some (trainedNetwork 2)) (some (trainedNetwork 5))
    (trainingCalls_succeed (.inl rfl)) (trainingCalls_succeed (.inr rfl))
  obtain ⟨net', hTarget, hChanged, -⟩ :=
    hExact (trainedNetwork 5) (trainingCalls_succeed (.inr rfl))
  exact ⟨hAnswers, net', hTarget, hChanged⟩

end Machine

end MatrixProgram
