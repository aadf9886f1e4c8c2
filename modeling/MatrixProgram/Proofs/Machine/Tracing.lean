import MatrixProgram.Proofs.Machine.Exchange
import MatrixProgram.Proofs.Machine.Noting

/-!
# Tracing

A machine that traces notes each command in its journal after it has carried it out.  Nothing
reads the journal, and a command that has succeeded can be noted,
`exists_journalEntry_of_perform`, so tracing makes no difference to anything else.

`Parallel` compares runs from states that differ in the journal and, by some relation, in the
network to update.  It is closed under sequencing and under lookups, there is one lemma for each
way in which a command changes a state, and so all commands run in parallel,
`perform_parallel`.  With equality as the relation this gives commands, runs, calls and sequences
of calls of a machine that traces and of one that does not: `tracing_is_transparent`.
-/

namespace MatrixProgram

namespace Machine

variable {x : Machine} {c : Command} {i j : Nat} {s s' t : MachineState} {α β : Type}
  {N : Network → Network → Prop}

/-! ## Runs in parallel -/

/-- Two states with the same slots, in the same phase, and with related networks to update. -/
structure Paired (N : Network → Network → Prop) (s s' : MachineState) : Prop where
  slots : s'.slots = s.slots
  target : Option.Rel N s.target s'.target
  phase : s'.phase = s.phase

theorem paired_eq_iff : Paired Eq s s' ↔ nothingAside.Relates s s' := by
  have hTarget : Option.Rel Eq s.target s'.target ↔ s'.target = s.target := by
    cases s.target <;> cases s'.target <;> simp [eq_comm]
  exact ⟨fun h => ⟨h.slots, hTarget.mp h.target, h.phase⟩,
    fun h => ⟨h.slots, hTarget.mpr h.target, h.phase⟩⟩

/-- From paired states two actions answer alike and lead to paired states. -/
def Parallel (N : Network → Network → Prop) (act act' : MachineAction α) : Prop :=
  ∀ ⦃s s' : MachineState⦄, Paired N s s' → SameRun (Paired N) (act s) (act' s')

namespace Parallel

theorem pure (a : α) : Parallel N (Pure.pure a : MachineAction α) (Pure.pure a) :=
  fun _ _ hStates => .ok hStates

theorem throw (err : Error) :
    Parallel N (MonadExcept.throw err : MachineAction α) (MonadExcept.throw err) :=
  fun _ _ hStates => .error hStates

theorem ofExcept (check : Except Error α) :
    Parallel N (Action.ofExcept check) (Action.ofExcept check) := by
  intro s s' hStates
  cases check with
  | ok a => exact .ok hStates
  | error err => exact .error hStates

theorem bind {first first' : MachineAction α} {next next' : α → MachineAction β}
    (hFirst : Parallel N first first') (hNext : ∀ a, Parallel N (next a) (next' a)) :
    Parallel N (first >>= next) (first' >>= next') :=
  fun _ _ hStates => SameRun.bind (hFirst hStates) fun a _ _ _ hAfter => hNext a hAfter

/-- After the same lookup. -/
theorem lookup (check : Except Error α) {next next' : α → MachineAction β}
    (h : ∀ a, Parallel N (next a) (next' a)) :
    Parallel N (Action.ofExcept check >>= next) (Action.ofExcept check >>= next') :=
  bind (ofExcept check) h

theorem get {next next' : MachineState → MachineAction α}
    (h : ∀ s s', Paired N s s' → Parallel N (next s) (next' s')) :
    Parallel N (MonadState.get >>= next) (MonadState.get >>= next') :=
  fun s s' hStates => h s s' hStates hStates

theorem map {act act' : MachineAction α} (f : α → β) (h : Parallel N act act') :
    Parallel N (f <$> act) (f <$> act') :=
  fun _ _ hStates => SameRun.map f (h hStates)

theorem forM {f f' : β → MachineAction Unit} (xs : List β)
    (h : ∀ b ∈ xs, Parallel N (f b) (f' b)) : Parallel N (xs.forM f) (xs.forM f') := by
  induction xs with
  | nil => exact Parallel.pure ()
  | cons b rest ih =>
      have hRest := ih fun b' hMem => h b' (List.mem_cons_of_mem _ hMem)
      exact Parallel.bind (h b List.mem_cons_self) fun _ => hRest

/-- The same writing of a sub-matrix. -/
theorem write (dst : Nat) (operands : Slots → Except Error α)
    (w : α → {rows cols : Nat} → Region → Write rows cols) :
    Parallel N (x.write dst operands w) (x.write dst operands w) := by
  intro s s' hStates
  unfold Machine.write
  cases x.program.subMatrix dst with
  | error err => exact .error hStates
  | ok view =>
      dsimp only
      rw [hStates.slots]
      rcases s.slots.entries[view.matrix]? with _ | _ | b
      · exact .error hStates
      · exact .error hStates
      · dsimp only
        cases operands s.slots with
        | error err => exact .error hStates
        | ok a =>
            dsimp only
            cases Write.inWindow view.region (w a) b with
            | ok u b' => exact .ok ⟨rfl, hStates.target, hStates.phase⟩
            | error err b' => exact .error ⟨rfl, hStates.target, hStates.phase⟩

theorem writeFrom (dst src : Nat) (role : Role)
    (w : View → {rows cols : Nat} → Region → Write rows cols) :
    Parallel N (x.writeFrom dst src role w) (x.writeFrom dst src role w) := by
  rw [writeFrom_eq]
  exact write dst _ _

theorem withViews (dst : Nat) (reads : List Nat)
    (w : List (Option View) → {rows cols : Nat} → Region → Write rows cols) :
    Parallel N (x.withViews dst reads w) (x.withViews dst reads w) := by
  rw [withViews_eq_write]
  exact write dst _ _

/-- A change of the network to update that depends on the slots alone. -/
theorem changeTarget {change : Network → MachineState → EStateM.Result Error Network Unit}
    (hSlots : ∀ net {s s' : MachineState}, s'.slots = s.slots → change net s' = change net s)
    (hChange : ∀ s {net net'}, N net net' →
      Action.outcome (change net' s) = Action.outcome (change net s) ∧
        N (Action.finalState (change net s)) (Action.finalState (change net' s))) :
    Parallel N (Machine.changeTarget change) (Machine.changeTarget change) := by
  intro s s' hStates
  unfold Machine.changeTarget
  have hTarget := hStates.target
  generalize s.target = target at hTarget
  generalize s'.target = target' at hTarget
  cases hTarget with
  | none => exact .ok hStates
  | @some net net' hNets =>
      obtain ⟨hOutcome, hAfter⟩ := hChange s hNets
      dsimp only
      rw [hSlots net' hStates.slots]
      cases hRun : change net s with
      | ok u n =>
          cases hRun' : change net' s with
          | ok u' n' =>
              rw [hRun, hRun'] at hAfter
              exact .ok ⟨hStates.slots, .some hAfter, hStates.phase⟩
          | error err n' =>
              rw [hRun, hRun'] at hOutcome
              cases hOutcome
      | error err n =>
          cases hRun' : change net' s with
          | ok u' n' =>
              rw [hRun, hRun'] at hOutcome
              cases hOutcome
          | error err' n' =>
              rw [hRun, hRun'] at hOutcome hAfter
              cases hOutcome
              exact .error ⟨hStates.slots, .some hAfter, hStates.phase⟩

theorem allocate (m : Nat) (contents : Nat → Nat → Float32) :
    Parallel N (x.allocate m contents) (x.allocate m contents) := by
  refine Parallel.lookup (x.program.matrix m) fun shape => ?_
  intro s s' hStates
  exact .ok ⟨congrArg (Slots.put · m _) hStates.slots, hStates.target, hStates.phase⟩

theorem release (i m : Nat) : Parallel N (Machine.release i m) (Machine.release i m) := by
  refine Parallel.get fun s s' hStates => ?_
  rw [hStates.slots]
  split
  · exact fun _ _ _ => .ok ⟨rfl, hStates.target, hStates.phase⟩
  · exact Parallel.throw _

end Parallel

/-- Related networks stay related when the components of one index are changed, and the changes
answer alike. -/
def Respects (N : Network → Network → Prop) (change : Action Component Unit) : Prop :=
  ∀ k {net net' : Network}, N net net' →
    Action.outcome (Network.changeComponent k change net') =
        Action.outcome (Network.changeComponent k change net) ∧
      N (Action.finalState (Network.changeComponent k change net))
        (Action.finalState (Network.changeComponent k change net'))

/-- A relation between networks is kept by everything that commands do to a component. -/
structure Admits (N : Network → Network → Prop) : Prop where
  storeStats : ∀ v, Respects N (Component.storeStats v)
  update : ∀ rows inView outView, Respects N (Component.update rows inView outView)

theorem admits_eq : Admits Eq :=
  ⟨fun _ _ _ _ hNets => hNets ▸ ⟨rfl, rfl⟩, fun _ _ _ _ _ _ hNets => hNets ▸ ⟨rfl, rfl⟩⟩

section Commands

variable (hAdmits : Admits N)

include hAdmits

theorem storeStats_parallel (i k value : Nat) :
    Parallel N (x.storeStats i k value) (x.storeStats i k value) := by
  unfold storeStats
  split
  · refine Parallel.changeTarget (fun net s s' hSlots => by rw [hSlots]) fun s net net' hNets => ?_
    rcases s.slots.view? x.program value with err | _ | v
    · exact ⟨rfl, hNets⟩
    · exact ⟨rfl, hNets⟩
    · exact hAdmits.storeStats v k hNets
  · exact Parallel.pure ()

theorem updateTarget_parallel (i k : Nat) (rows : Option (List Nat)) (inValue outDeriv : Nat) :
    Parallel N (x.updateTarget i k rows inValue outDeriv)
      (x.updateTarget i k rows inValue outDeriv) := by
  refine Parallel.changeTarget (fun net s s' hSlots => by rw [hSlots]) fun s net net' hNets => ?_
  rcases s.slots.view? x.program inValue with err | inView
  · exact ⟨rfl, hNets⟩
  · rcases s.slots.view? x.program outDeriv with err | _ | outView
    · exact ⟨rfl, hNets⟩
    · exact ⟨rfl, hNets⟩
    · exact hAdmits.update rows inView outView k hNets

omit hAdmits in
theorem scatter_parallel (i : Nat) (copies : Bool) (src table : Nat) :
    Parallel N (x.scatter i copies src table) (x.scatter i copies src table) := by
  refine Parallel.lookup _ fun pairs => Parallel.lookup _ fun source => ?_
  split
  · refine Parallel.get fun s s' hStates => ?_
    rw [hStates.slots]
    refine Parallel.lookup _ fun b => Parallel.forM _ fun entry _ => ?_
    obtain ⟨_ | target, row⟩ := entry
    · exact Parallel.pure ()
    · exact Parallel.lookup _ fun v => Parallel.withViews _ _ _
  · refine Parallel.forM _ fun entry _ => ?_
    obtain ⟨_ | target, row⟩ := entry
    · exact Parallel.pure ()
    · exact Parallel.writeFrom _ _ _ _

/-- The update of the component of a backprop comes before the derivative of its input. -/
theorem backprop_parallel (i k : Nat) (precomputed : Option Nat)
    (inValue outValue outDeriv inDeriv : Nat) :
    Parallel N (x.backprop i k precomputed inValue outValue outDeriv inDeriv)
      (x.backprop i k precomputed inValue outValue outDeriv inDeriv) := by
  rw [backprop_eq]
  refine Parallel.lookup _ fun component => Parallel.lookup _ fun rows => ?_
  refine Parallel.bind ?_ fun _ => ?_
  · split
    · exact updateTarget_parallel hAdmits i k rows inValue outDeriv
    · exact Parallel.pure ()
  · unfold writeInDeriv
    split
    · exact Parallel.write _ _ _
    · exact Parallel.pure ()

/-- A command does the same from paired states. -/
theorem perform_parallel (i : Nat) (c : Command) :
    Parallel N (x.perform i c) (x.perform i c) := by
  cases c with
  | allocZeroed m => exact Parallel.allocate _ _
  | allocUndefined m => exact Parallel.allocate _ _
  | release m => exact Parallel.release _ _
  | propagate k precomputed input output =>
      refine Parallel.lookup _ fun component => Parallel.lookup _ fun rows => ?_
      exact Parallel.writeFrom _ _ _ _
  | storeStats k value => exact storeStats_parallel hAdmits i k value
  | backprop node k precomputed inValue outValue outDeriv inDeriv =>
      exact backprop_parallel hAdmits i k precomputed inValue outValue outDeriv inDeriv
  | copy dst src => exact Parallel.writeFrom _ _ _ _
  | add dst src => exact Parallel.writeFrom _ _ _ _
  | gatherAdd dst src table => exact Parallel.lookup _ fun rows => Parallel.writeFrom _ _ _ _
  | gatherCopy dst src table => exact Parallel.lookup _ fun rows => Parallel.writeFrom _ _ _ _
  | gatherAddMany dst table => exact Parallel.lookup _ fun pairs => Parallel.withViews _ _ _
  | gatherCopyMany dst table => exact Parallel.lookup _ fun pairs => Parallel.withViews _ _ _
  | scatterAdd src table => exact scatter_parallel i false src table
  | scatterCopy src table => exact scatter_parallel i true src table
  | sumRanges dst src table => exact Parallel.lookup _ fun ranges => Parallel.writeFrom _ _ _ _
  | skip => exact Parallel.pure ()
  | marker => exact Parallel.pure ()

end Commands

/-- A call that runs no commands does the same in parallel, whatever the commands are, since it
keeps the network to update. -/
theorem call_paired {a : Call} (cs : List Command) (hNot : ¬a.Runs) (hStates : Paired N s s') :
    SameRun (Paired N) (x.call a s) ((x.withCommands cs).call a s') := by
  have hKept : (Action.finalState (x.call a s)).target = s.target :=
    (call_sameRun (g := fun _ => s.target) x.program.commands hNot
      ⟨rfl, rfl, rfl⟩).finalState.target
  have hSame : SameRun (targetAside fun _ => s'.target).Relates (x.call a s)
      ((x.withCommands cs).call a s') :=
    call_sameRun cs hNot ⟨hStates.slots, rfl, hStates.phase⟩
  generalize x.call a s = r at hSame hKept
  generalize (x.withCommands cs).call a s' = r' at hSame
  have hTarget : Option.Rel N (Action.finalState r).target (Action.finalState r').target := by
    rw [hKept, hSame.finalState.target]
    exact hStates.target
  cases hSame with
  | ok h => exact .ok ⟨h.slots, hTarget, h.phase⟩
  | error h => exact .error ⟨h.slots, hTarget, h.phase⟩

/-! ## Machines that trace and machines that do not -/

/-- The machine that traces, or the one that does not. -/
def withTraces (x : Machine) (traces : Bool) : Machine :=
  { x with traces }

theorem perform_withTraces (traces : Bool) (i : Nat) (c : Command) :
    (x.withTraces traces).perform i c = x.perform i c := by
  cases c <;> rfl

/-- A call that runs commands does the same in parallel if its check and its commands do. -/
theorem runPhase_parallel {x' : Machine} (kind : CallKind)
    {check check' : MachineState → Except Error Unit} {entries entries' : List (Command × Nat)}
    (after : Phase) (hCheck : ∀ {s s'}, Paired N s s' → check' s' = check s)
    (hCommands : Parallel N (x.executeAll entries) (x'.executeAll entries')) :
    Parallel N (x.runPhase kind check entries after) (x'.runPhase kind check' entries' after) := by
  refine Parallel.bind (Parallel.get fun s s' hStates => ?_) fun _ =>
    Parallel.get fun s s' hStates => ?_
  · rw [hStates.phase]
    split
    · exact Parallel.throw _
    · exact Parallel.pure ()
  · rw [hCheck hStates]
    refine Parallel.lookup _ fun _ => Parallel.bind hCommands fun _ => ?_
    exact fun _ _ h => .ok ⟨h.slots, h.target, rfl⟩

section Traces

variable (traces : Bool)

theorem executeAll_withTraces (entries : List (Command × Nat)) :
    Parallel Eq (x.executeAll entries) ((x.withTraces traces).executeAll entries) := by
  refine Parallel.forM entries fun entry _ => fun s s' hStates => ?_
  refine sameRun_execute (fun _ _ h => ⟨h.slots, h.target, h.phase⟩) ?_
  rw [perform_withTraces]
  exact perform_parallel admits_eq entry.2 entry.1 hStates

/-- A call does the same with or without notes. -/
theorem call_withTraces (a : Call) : Parallel Eq (x.call a) ((x.withTraces traces).call a) := by
  by_cases hRuns : a.Runs
  · cases a with
    | forward =>
        refine Parallel.map _ ?_
        rw [forward_eq, forward_eq]
        refine runPhase_parallel _ _ (fun {s s'} hStates => ?_) (executeAll_withTraces traces _)
        rw [hStates.slots]
        rfl
    | backward =>
        refine Parallel.map _ ?_
        rw [backward_eq, backward_eq]
        refine runPhase_parallel _ _ (fun {s s'} hStates => ?_) (executeAll_withTraces traces _)
        rw [hStates.slots, (paired_eq_iff.mp hStates).target]
        rfl
    | _ => exact hRuns.elim
  · intro s s' hStates
    have hSame : SameRun (Paired Eq) (x.call a s) ((x.withCommands x.program.commands).call a s') :=
      call_paired _ hRuns hStates
    cases a with
    | forward => exact absurd trivial hRuns
    | backward => exact absurd trivial hRuns
    | _ => exact hSame

/-- A sequence of calls gets the same answers with or without notes, and leads to the same state
up to the journal. -/
theorem callAll_withTraces (calls : List Call) (hStates : Paired Eq s s') :
    ((x.withTraces traces).callAll calls s').1 = (x.callAll calls s).1 ∧
      Paired Eq (x.callAll calls s).2 ((x.withTraces traces).callAll calls s').2 := by
  induction calls generalizing s s' with
  | nil => exact ⟨rfl, hStates⟩
  | cons a calls ih =>
      have hSame := call_withTraces (x := x) traces a hStates
      obtain ⟨hAnswers, hLast⟩ := ih hSame.finalState
      exact ⟨List.cons_eq_cons.mpr ⟨hSame.outcome_eq, hAnswers⟩, hLast⟩

end Traces

/-- Whether a machine traces makes no difference to anything but the journal: what it notes can
always be noted, all calls are answered alike, and they lead to the same matrices, the same phase
and the same network to update. -/
structure TracesTransparently (x : Machine) : Prop where
  noted : ∀ {i c s t}, x.perform i c s = .ok () t →
    ∃ entry, x.journalEntry i c t.slots = .ok entry
  answers : ∀ target calls,
    ((x.withTraces true).callAll calls (x.start target)).1 =
      ((x.withTraces false).callAll calls (x.start target)).1
  slots : ∀ target calls,
    ((x.withTraces true).callAll calls (x.start target)).2.slots =
      ((x.withTraces false).callAll calls (x.start target)).2.slots
  phase : ∀ target calls,
    ((x.withTraces true).callAll calls (x.start target)).2.phase =
      ((x.withTraces false).callAll calls (x.start target)).2.phase
  target : ∀ target calls,
    ((x.withTraces true).callAll calls (x.start target)).2.target =
      ((x.withTraces false).callAll calls (x.start target)).2.target

theorem tracesTransparently (x : Machine) : x.TracesTransparently := by
  have hSame : ∀ target calls,
      ((x.withTraces true).callAll calls (x.start target)).1 =
          ((x.withTraces false).callAll calls (x.start target)).1 ∧
        nothingAside.Relates ((x.withTraces false).callAll calls (x.start target)).2
          ((x.withTraces true).callAll calls (x.start target)).2 := by
    intro target calls
    have hStates : Paired Eq (x.start target) (x.start target) :=
      paired_eq_iff.mpr ⟨rfl, rfl, rfl⟩
    obtain ⟨hAnswers, hLast⟩ :=
      callAll_withTraces (x := x.withTraces false) true calls hStates
    exact ⟨hAnswers, paired_eq_iff.mp hLast⟩
  exact
    { noted := fun hRun => exists_journalEntry_of_perform hRun _
      answers := fun target calls => (hSame target calls).1
      slots := fun target calls => (hSame target calls).2.slots
      phase := fun target calls => (hSame target calls).2.phase
      target := fun target calls => (hSame target calls).2.target }

/-- A machine is made in the same way whether or not it is to trace. -/
theorem of_withTraces (p : Program) (net : Network) (r : Request) (traces : Bool) :
    Machine.of p net r traces = (·.withTraces traces) <$> Machine.of p net r false := by
  unfold Machine.of
  cases p.forwardEnd with
  | none => rfl
  | some position =>
      dsimp only
      split <;> rfl

/-- For every program, network and request, with or without a passed check: either no machine is
made, whether or not it is to trace, or tracing makes no difference to the machine, whatever the
contents of matrices that are allocated without being filled. -/
theorem tracing_is_transparent (p : Program) (net : Network) (r : Request) :
    (∃ err, ∀ traces, Machine.of p net r traces = .error err) ∨
      ∃ x : Machine, (∀ traces, Machine.of p net r traces = .ok (x.withTraces traces)) ∧
        ∀ contents, TracesTransparently { x with undefinedContents := contents } := by
  cases hOf : Machine.of p net r false with
  | error err => exact .inl ⟨err, fun traces => by rw [of_withTraces, hOf]; rfl⟩
  | ok x =>
      exact .inr ⟨x, fun traces => by rw [of_withTraces, hOf]; rfl,
        fun contents => tracesTransparently _⟩

end Machine

end MatrixProgram
