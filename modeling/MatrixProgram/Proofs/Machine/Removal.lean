import MatrixProgram.Proofs.Machine.Insertion
import MatrixProgram.Proofs.Machine.Updates

/-!
# Commands that may be left out

A checked command that writes no variable and has no side effects changes no slot and updates no
component, so it may be left out of its program.  What the record of its effects does not show
are the statistics of a component: a command that stores them changes the network to update.

States are therefore compared up to the statistics of one component, `SameButStatistics`.
Nothing reads statistics, `admits_sameButStatistics`, so all commands run in parallel from such
states, and the one that is left out leads from a state to such a state,
`execute_of_unrecorded`.  By induction along the commands this carries over to the runs of both
phases, `executeAll_thinned`, and from there to sequences of calls:
`unrecorded_command_removable`.  The example at the end shows that the statistics do differ.
-/

namespace MatrixProgram

open Program

/-! ## Statistics -/

namespace Component

variable {c c' : Component} {v : View}

/-- A component before any statistics. -/
def withoutStatistics : Component → Component
  | .nonlinear n => .nonlinear (.fresh n.op n.dim)
  | c => c

/-- To store statistics of an output changes the statistics alone, whether or not it fails. -/
theorem withoutStatistics_storeStats (v : View) (c : Component) :
    (Action.finalState (storeStats v c)).withoutStatistics = c.withoutStatistics := by
  cases c with
  | nonlinear n =>
      by_cases hWidth : v.numCols = n.dim
      · simp [storeStats, Nonlinear.storeStats, Action.bind_run, hWidth, Action.mapState,
          Action.finalState, withoutStatistics]
      · simp [storeStats, Nonlinear.storeStats, Action.bind_run, hWidth, Action.mapState,
          Action.finalState, withoutStatistics]
  | _ => rfl

/-- Components that differ in their statistics alone are the same, or elementwise functions of
the same width. -/
theorem eq_or_nonlinear_of_withoutStatistics (h : c'.withoutStatistics = c.withoutStatistics) :
    c' = c ∨ ∃ n n' : Nonlinear, c = .nonlinear n ∧ c' = .nonlinear n' ∧ n'.dim = n.dim := by
  cases c with
  | nonlinear n =>
      cases c' with
      | nonlinear n' =>
          refine .inr ⟨n, n', rfl, rfl, ?_⟩
          exact congrArg Component.inputDim h
      | _ => cases h
  | _ =>
      cases c' with
      | nonlinear n' => cases h
      | _ => exact .inl h

/-- A change of a component does not see its statistics. -/
def IgnoresStatistics (change : Action Component Unit) : Prop :=
  ∀ ⦃c c' : Component⦄, c'.withoutStatistics = c.withoutStatistics →
    Action.outcome (change c') = Action.outcome (change c) ∧
      (Action.finalState (change c')).withoutStatistics =
        (Action.finalState (change c)).withoutStatistics

theorem storeStats_ignoresStatistics (v : View) : IgnoresStatistics (storeStats v) := by
  intro c c' h
  refine ⟨?_, by rw [withoutStatistics_storeStats, withoutStatistics_storeStats, h]⟩
  obtain rfl | ⟨n, n', rfl, rfl, hDim⟩ := eq_or_nonlinear_of_withoutStatistics h
  · rfl
  · simp only [storeStats, Action.outcome_mapState, Nonlinear.storeStats, Action.bind_run,
      Action.get_run, hDim]
    split <;> rfl

theorem update_ignoresStatistics (rows : Option (List Nat)) (inView : Option View)
    (outView : View) : IgnoresStatistics (update rows inView outView) := by
  intro c c' h
  obtain rfl | ⟨n, n', rfl, rfl, -⟩ := eq_or_nonlinear_of_withoutStatistics h
  · exact ⟨rfl, rfl⟩
  · exact ⟨rfl, h⟩

end Component

namespace Network

variable {net net' : Network} {k? : Option Nat} {change : Action Component Unit}

/-- A named component, without its statistics if it is the one of an index. -/
def clearedEntry (k? : Option Nat) (j : Nat) (entry : String × Component) : String × Component :=
  (entry.1, if k? = some j then entry.2.withoutStatistics else entry.2)

/-- A network without the statistics of a component, if there is one to clear. -/
def clearStatistics (net : Network) (k? : Option Nat) : Network :=
  { net with components := net.components.mapIdx (clearedEntry k?) }

theorem clearStatistics_none (net : Network) : net.clearStatistics none = net := by
  have hKept : net.components.mapIdx (clearedEntry none) = net.components :=
    List.ext_getElem? fun j => by
      rw [List.getElem?_mapIdx]
      exact Option.map_id'
  rw [clearStatistics, hKept]

/-- Two networks are the same but for the statistics of a component. -/
def SameButStatistics (k? : Option Nat) (net net' : Network) : Prop :=
  net'.clearStatistics k? = net.clearStatistics k?

namespace SameButStatistics

theorem nodes_eq (h : SameButStatistics k? net net') : net'.nodes = net.nodes := by
  have hNodes := congrArg Network.nodes h
  exact hNodes

theorem components_eq (h : SameButStatistics k? net net') :
    net'.components.mapIdx (clearedEntry k?) = net.components.mapIdx (clearedEntry k?) :=
  congrArg Network.components h

theorem length_eq (h : SameButStatistics k? net net') :
    net'.components.length = net.components.length := by
  simpa using congrArg List.length h.components_eq

/-- A component of one of the two networks is one of the other. -/
theorem exists_component (h : SameButStatistics k? net net') {j : Nat} {name : String}
    {c : Component} (hFound : net.components[j]? = some (name, c)) :
    ∃ c', net'.components[j]? = some (name, c') ∧
      clearedEntry k? j (name, c') = clearedEntry k? j (name, c) := by
  have hAt := congrArg (·[j]?) h.components_eq
  simp only [List.getElem?_mapIdx, hFound, Option.map_some] at hAt
  obtain ⟨⟨name', c'⟩, hFound', hSame⟩ := Option.map_eq_some_iff.mp hAt
  obtain rfl : name' = name := congrArg Prod.fst hSame
  exact ⟨c', hFound', hSame⟩

/-- Replacing a component of both networks. -/
theorem set (h : SameButStatistics k? net net') {j : Nat} {entry entry' : String × Component}
    (hEntry : clearedEntry k? j entry' = clearedEntry k? j entry) :
    SameButStatistics k? { net with components := net.components.set j entry }
      { net' with components := net'.components.set j entry' } := by
  simp only [SameButStatistics, clearStatistics, List.mapIdx_set, h.components_eq, hEntry,
    h.nodes_eq]

/-- A change that does not see statistics does the same to both networks. -/
theorem respects (hIgnores : Component.IgnoresStatistics change) :
    Machine.Respects (SameButStatistics k?) change := by
  intro j net net' h
  unfold changeComponent
  cases hFound : net.components[j]? with
  | none =>
      have hNone : net'.components[j]? = none := by
        rw [List.getElem?_eq_none_iff] at hFound ⊢
        rwa [h.length_eq]
      rw [hNone, h.length_eq]
      exact ⟨rfl, h⟩
  | some entry =>
      obtain ⟨name, c⟩ := entry
      obtain ⟨c', hFound', hSame⟩ := h.exists_component hFound
      rw [hFound']
      simp only [Action.outcome_mapState, Action.finalState_mapState]
      have hBoth : Action.outcome (change c') = Action.outcome (change c) ∧
          clearedEntry k? j (name, Action.finalState (change c')) =
            clearedEntry k? j (name, Action.finalState (change c)) := by
        by_cases hCleared : k? = some j
        · simp only [clearedEntry, if_pos hCleared, Prod.mk.injEq, true_and] at hSame ⊢
          exact hIgnores hSame
        · simp only [clearedEntry, if_neg hCleared, Prod.mk.injEq, true_and] at hSame
          rw [hSame]
          exact ⟨rfl, rfl⟩
      exact ⟨hBoth.1, h.set hBoth.2⟩

end SameButStatistics

theorem admits_sameButStatistics (k? : Option Nat) : Machine.Admits (SameButStatistics k?) where
  storeStats := fun v =>
    SameButStatistics.respects (Component.storeStats_ignoresStatistics v)
  update := fun rows inView outView =>
    SameButStatistics.respects (Component.update_ignoresStatistics rows inView outView)

/-- To store statistics of a component changes its statistics alone. -/
theorem sameButStatistics_of_storeStats {k : Nat} {v : View}
    (h : changeComponent k (Component.storeStats v) net = .ok () net') :
    SameButStatistics (some k) net net' := by
  unfold changeComponent at h
  split at h
  · rename_i name c hFound
    have hCleared := Component.withoutStatistics_storeStats v c
    cases hChange : Component.storeStats v c with
    | error err c' => simp [hChange, Action.mapState] at h
    | ok u c' =>
        rw [hChange] at h hCleared
        cases h
        obtain ⟨hLt, hAt⟩ := List.getElem?_eq_some_iff.mp hFound
        have hSelf : net.components.set k (name, c) = net.components := by
          rw [← hAt, List.set_getElem_self]
        have hEntry : clearedEntry (some k) k (name, c') = clearedEntry (some k) k (name, c) := by
          simpa [clearedEntry, Action.finalState] using hCleared
        have hSet := SameButStatistics.set (show SameButStatistics (some k) net net from rfl) hEntry
        rwa [hSelf] at hSet
  · cases h

/-- The networks to update are the same but for the statistics of a component. -/
theorem rel_sameButStatistics_iff {target target' : Option Network} :
    Option.Rel (SameButStatistics k?) target target' ↔
      target'.map (·.clearStatistics k?) = target.map (·.clearStatistics k?) := by
  cases target <;> cases target' <;> simp [SameButStatistics]

end Network

open Network

/-- A position after the removal of a command, which may have been in front of it. -/
def positionWithout (i position : Nat) : Nat :=
  if i < position then position - 1 else position

/-- A program without the command at a position, and the record of its phase marker moved
along. -/
def Program.without (p : Program) (i : Nat) : Program :=
  p.withSchedule (p.commands.eraseIdx i) (p.forwardEnd.map (positionWithout i))

/-- The component whose statistics a command stores, if the request asks for statistics. -/
def Command.statistics? (r : Request) : Command → Option Nat
  | .storeStats k _ => if r.wantsStats then some k else none
  | _ => none

namespace Machine

variable {x x' : Machine} {c d : Command} {i j : Nat} {s s' t u : MachineState} {k? : Option Nat}

theorem paired_sameButStatistics_iff :
    Paired (SameButStatistics k?) s s' ↔ s'.slots = s.slots ∧
      s'.target.map (·.clearStatistics k?) = s.target.map (·.clearStatistics k?) ∧
        s'.phase = s.phase :=
  ⟨fun h => ⟨h.slots, rel_sameButStatistics_iff.mp h.target, h.phase⟩,
    fun ⟨hSlots, hTarget, hPhase⟩ => ⟨hSlots, rel_sameButStatistics_iff.mpr hTarget, hPhase⟩⟩

/-- What differs from a state in statistics alone differs from each other in them alone. -/
theorem Paired.of_left (h : Paired (SameButStatistics k?) s t)
    (h' : Paired (SameButStatistics k?) s u) : Paired (SameButStatistics k?) t u := by
  obtain ⟨hSlots, hTarget, hPhase⟩ := paired_sameButStatistics_iff.mp h
  obtain ⟨hSlots', hTarget', hPhase'⟩ := paired_sameButStatistics_iff.mp h'
  exact paired_sameButStatistics_iff.mpr
    ⟨hSlots'.trans hSlots.symm, hTarget'.trans hTarget.symm, hPhase'.trans hPhase.symm⟩

/-! ## A command without recorded effects -/

/-- Storing statistics changes the statistics of one component of the network to update, if the
request asks for them. -/
theorem target_of_storeStats {k value : Nat} (hRun : x.storeStats i k value s = .ok () t) :
    Option.Rel (SameButStatistics ((Command.storeStats k value).statistics? x.request)) s.target
      t.target := by
  rw [rel_sameButStatistics_iff]
  by_cases hWants : x.request.wantsStats = true
  · rw [storeStats, if_pos hWants] at hRun
    simp only [Command.statistics?, if_pos hWants]
    cases hTarget : s.target with
    | none =>
        simp only [changeTarget, hTarget] at hRun
        cases hRun
        rw [hTarget]
    | some net =>
        obtain ⟨-, -, hNext⟩ := changeTarget_eq_ok hRun
        obtain ⟨net', hChange, hTarget'⟩ := hNext net hTarget
        rw [hTarget']
        split at hChange
        · cases hChange
        · cases hChange
        · exact congrArg some (sameButStatistics_of_storeStats hChange)
  · simp only [storeStats, if_neg hWants] at hRun
    cases hRun
    rfl

/-- A command that has no side effects and is no command for statistics updates no component. -/
theorem not_updates_of_sideEffects {net : Network} {k : Nat}
    (hEffects : hasSideEffects net c = .ok false) (hOther : ∀ k value, c ≠ .storeStats k value) :
    ¬c.Updates net k := by
  intro hUpdates
  cases c with
  | storeStats k' value => exact hOther k' value rfl
  | backprop node k' precomputed inValue outValue outDeriv inDeriv =>
      obtain ⟨-, component, hComponent, hUpdatable⟩ := hUpdates
      simp only [hasSideEffects, capabilitiesOf, hComponent] at hEffects
      cases hUpdatable.symm.trans (Except.ok.inj hEffects)
  | _ => exact hUpdates

/-- A command that writes no variable and has no side effects changes nothing but statistics. -/
theorem execute_of_unrecorded {parts : Partition} {e : Effects} (hWell : x.program.WellFormed)
    (hParts : x.program.partition = .ok parts)
    (he : x.program.commandEffects x.network parts c = .ok e) (hWritten : e.written = [])
    (hEffects : e.sideEffects = false)
    (hCheck : x.program.checkCommand x.network c = .ok ()) (hResize : c.resized? = none)
    (hFit : s.slots.Fit x.program) (hRun : x.execute i c s = .ok () t) :
    Paired (SameButStatistics (c.statistics? x.request)) s t := by
  have hFrame := execute_frame hWell hCheck hResize hFit hRun
  have hNowhere : ∀ m row col, ¬x.written c m row col := by
    intro m row col hWrites
    have hElement : parts.elements e.written m row col :=
      (elements_written_iff hWell hParts he).mpr hWrites
    obtain ⟨var, hMem, -⟩ := hElement
    rw [hWritten] at hMem
    cases hMem
  refine ⟨?_, ?_, hFrame.phase⟩
  · exact Slots.eq_of_agree ⟨hFrame.length, hFrame.shape, fun m row col _ =>
      hFrame.value m row col (hNowhere m row col)⟩
  · by_cases hStores : ∃ k value, c = .storeStats k value
    · obtain ⟨k, value, rfl⟩ := hStores
      obtain ⟨u, hPerform, -, hTarget, -⟩ := perform_of_execute hRun
      rw [hTarget]
      exact target_of_storeStats hPerform
    · have hNone : hasSideEffects x.network c = .ok false := by
        obtain ⟨_, -, hRest⟩ := Action.check_bind_eq_ok_iff.mp he
        obtain ⟨sideEffects, hSide, hEq⟩ := Action.check_bind_eq_ok_iff.mp hRest
        cases hEq
        exact hSide.trans (congrArg Except.ok hEffects)
      have hOther : ∀ k value, c ≠ .storeStats k value :=
        fun k value hEq => hStores ⟨k, value, hEq⟩
      rw [target_of_not_updates (fun k => not_updates_of_sideEffects hNone hOther) hRun,
        rel_sameButStatistics_iff]

/-! ## Runs -/

/-- Commands of which some that equal a given one have been left out. -/
inductive Thinned (c : Command) : List Command → List Command → Prop
  | nil : Thinned c [] []
  | keep (d : Command) {cs ds : List Command} (h : Thinned c cs ds) :
      Thinned c (d :: cs) (d :: ds)
  | drop {cs ds : List Command} (h : Thinned c cs ds) : Thinned c (c :: cs) ds

namespace Thinned

variable {cs ds cs' ds' : List Command}

theorem refl (cs : List Command) : Thinned c cs cs := by
  induction cs with
  | nil => exact .nil
  | cons d cs ih => exact .keep d ih

theorem append (h : Thinned c cs ds) (h' : Thinned c cs' ds') :
    Thinned c (cs ++ cs') (ds ++ ds') := by
  induction h with
  | nil => exact h'
  | keep d _ ih => exact .keep d ih
  | drop _ ih => exact .drop ih

theorem eraseIdx (h : cs[i]? = some c) : Thinned c cs (cs.eraseIdx i) := by
  induction cs generalizing i with
  | nil => cases h
  | cons d cs ih =>
      cases i with
      | zero =>
          cases h
          exact .drop (refl cs)
      | succ i => exact .keep d (ih h)

theorem subset (h : Thinned c cs ds) : ds ⊆ cs := by
  induction h with
  | nil => exact List.Subset.refl []
  | keep d _ ih => exact List.cons_subset_cons d ih
  | drop _ ih => exact List.subset_cons_of_subset c ih

end Thinned

/-- A command changes nothing but the statistics of a component. -/
def ChangesStatisticsOnly (x : Machine) (k? : Option Nat) (c : Command) : Prop :=
  ∀ {i s t}, s.slots.Fit x.program → x.execute i c s = .ok () t →
    Paired (SameButStatistics k?) s t

/-- A run of commands that succeeds does so without some that change nothing but statistics, and
ends in the same way but for these. -/
theorem executeAll_thinned {cs ds : List Command} (hWell : x.program.WellFormed)
    (hChecks : ∀ d ∈ cs, x.program.checkCommand x.network d = .ok ())
    (hOnly : x.ChangesStatisticsOnly k? c) (h : Thinned c cs ds) (i j : Nat)
    (hFit : s.slots.Fit x.program) (hStates : Paired (SameButStatistics k?) s s')
    (hRun : x.executeAll (cs.zipIdx i) s = .ok () t) :
    ∃ t', x.executeAll (ds.zipIdx j) s' = .ok () t' ∧ Paired (SameButStatistics k?) t t' := by
  -- By induction along the commands; a command that is left out is a step of the first run alone.
  induction h generalizing i j s s' with
  | nil =>
      cases hRun
      exact ⟨s', rfl, hStates⟩
  | @keep d cs ds h ih =>
      obtain ⟨hCheck, hRest⟩ := List.forall_mem_cons.mp hChecks
      obtain ⟨_, u, hFirst, hTail⟩ := Action.bind_run_eq_ok_iff.mp hRun
      have hFirst : x.execute i d s = .ok () u := hFirst
      have hSame := execute_paired (admits_sameButStatistics k?) hCheck i j hFit hStates
      have hFit' := (execute_fit i hWell hCheck hFit).1
      rw [hFirst] at hSame hFit'
      generalize hFirst' : x.execute j d s' = r at hSame
      cases hSame with
      | ok hBetween =>
          rw [List.zipIdx_cons, executeAll_cons_run, hFirst']
          exact ih hRest _ _ hFit' hBetween hTail
  | drop h ih =>
      obtain ⟨hCheck, hRest⟩ := List.forall_mem_cons.mp hChecks
      obtain ⟨_, u, hFirst, hTail⟩ := Action.bind_run_eq_ok_iff.mp hRun
      have hFirst : x.execute i c s = .ok () u := hFirst
      have hFit' := (execute_fit i hWell hCheck hFit).1
      rw [hFirst] at hFit'
      exact ih hRest _ _ hFit' ((hOnly hFit hFirst).of_left hStates) hTail

/-! ## Calls -/

/-- The machine for the program without the command at a position. -/
def without (x : Machine) (i : Nat) : Machine :=
  { x with
    program := x.program.without i
    forwardEnd := positionWithout i x.forwardEnd }

section Removed

variable {pre pre' post post' : List Command} {boundary : Command} {target : Option Network}

/-- What is left of the commands in front of the phase marker and behind it. -/
theorem exists_splits_without (hSplits : x.Splits pre boundary post)
    (hCommand : x.program.commands[i]? = some c) (hNe : i ≠ x.forwardEnd) :
    ∃ pre' post', (x.without i).Splits pre' boundary post' ∧ Thinned c pre pre' ∧
      Thinned c post post' := by
  have hCommands : (x.without i).program.commands = (pre ++ boundary :: post).eraseIdx i := by
    rw [← hSplits.commands]
    rfl
  have hEnd : (x.without i).forwardEnd = positionWithout i pre.length := by
    rw [← hSplits.length]
    rfl
  rw [hSplits.commands] at hCommand
  rw [hSplits.length] at hNe
  rcases Nat.lt_or_gt_of_ne hNe with hBefore | hBehind
  · rw [List.getElem?_append_left hBefore] at hCommand
    refine ⟨pre.eraseIdx i, post, ⟨?_, ?_⟩, .eraseIdx hCommand, .refl post⟩
    · rw [hCommands, List.eraseIdx_append_of_lt_length hBefore]
    · rw [hEnd, positionWithout, if_pos hBefore, List.length_eraseIdx_of_lt hBefore]
  · obtain ⟨k, rfl⟩ : ∃ k, i = pre.length + (k + 1) := ⟨i - pre.length - 1, by omega⟩
    rw [List.getElem?_append_right (Nat.le_add_right _ _), Nat.add_sub_cancel_left,
      List.getElem?_cons_succ] at hCommand
    refine ⟨pre, post.eraseIdx k, ⟨?_, ?_⟩, .refl pre, .eraseIdx hCommand⟩
    · rw [hCommands, List.eraseIdx_append_of_length_le (Nat.le_add_right _ _),
        Nat.add_sub_cancel_left, List.eraseIdx_cons_succ]
    · rw [hEnd, positionWithout, if_neg (by omega)]

/-- A call that runs commands succeeds in parallel if its check passes and its commands do. -/
theorem runPhase_paired {kind : CallKind} {check check' : MachineState → Except Error Unit}
    {entries entries' : List (Command × Nat)} {after : Phase} {N : Network → Network → Prop}
    (hStates : Paired N s s') (hCheck : check s = .ok () → check' s' = .ok ())
    (hCommands : ∀ u, x.executeAll entries s = .ok () u →
      ∃ u', x'.executeAll entries' s' = .ok () u' ∧ Paired N u u')
    (hRun : x.runPhase kind check entries after s = .ok () t) :
    ∃ t', x'.runPhase kind check' entries' after s' = .ok () t' ∧ Paired N t t' := by
  obtain ⟨hIn, hPassed, u, hRunAll, rfl⟩ := runPhase_eq_ok hRun
  obtain ⟨u', hRunAll', hAfter⟩ := hCommands u hRunAll
  have hPhase' : requirePhase kind s' = .ok () s' :=
    requirePhase_eq_ok_iff.mpr ⟨hStates.phase ▸ hIn, rfl⟩
  refine ⟨{ u' with phase := after }, ?_, hAfter.slots, hAfter.target, rfl⟩
  rw [runPhase, Action.bind_run_ok hPhase', Action.bind_run_ok (Action.get_run s'),
    hCheck hPassed, Action.ofExcept_ok_bind, runTo, Action.bind_run_ok hRunAll']
  rfl

section Calls

variable (hWell : x.program.WellFormed) (hOperands : x.program.checkOperands x.network = .ok ())
  (hSplits : x.Splits pre boundary post) (hSplits' : (x.without i).Splits pre' boundary post')
  (hPre : Thinned c pre pre') (hPost : Thinned c post post')
  (hOnly : x.ChangesStatisticsOnly k? c) (hStates : Paired (SameButStatistics k?) s s')

include hWell hOperands hSplits hSplits' hOnly hStates

include hPre in
theorem forward_without (hFit : s.slots.Fit x.program) (hRun : x.forward s = .ok () t) :
    ∃ t', (x.without i).forward s' = .ok () t' ∧ Paired (SameButStatistics k?) t t' := by
  rw [forward_eq] at hRun ⊢
  refine runPhase_paired hStates (fun hPassed => ?_) (fun u hRunAll => ?_) hRun
  · rw [hStates.slots]
    exact hPassed
  · obtain ⟨hChecks, hMarker, -⟩ := check_of_splits hOperands hSplits
    have hSegment : ∀ cs : List Command,
        cs.zipIdx ++ [(boundary, cs.length)] = (cs ++ [boundary]).zipIdx := fun cs => by
      simp [List.zipIdx_append]
    rw [hSplits.forwardCommands_eq, hSegment] at hRunAll
    rw [hSplits'.forwardCommands_eq, hSegment]
    refine executeAll_thinned hWell ?_ hOnly (hPre.append (.refl [boundary])) 0 0 hFit hStates
      hRunAll
    rw [List.forall_mem_append, List.forall_mem_singleton]
    exact ⟨hChecks, hMarker⟩

include hPost in
theorem backward_without (hFit : s.slots.Fit x.program) (hRun : x.backward s = .ok () t) :
    ∃ t', (x.without i).backward s' = .ok () t' ∧ Paired (SameButStatistics k?) t t' := by
  rw [backward_eq] at hRun ⊢
  refine runPhase_paired hStates (fun hPassed => ?_) (fun u hRunAll => ?_) hRun
  · obtain ⟨_, hTarget, hOutputs⟩ := Action.check_bind_eq_ok_iff.mp hPassed
    have hTarget' : (x.without i).requireTarget s'.target = .ok () := by
      rw [requireTarget_eq_ok_iff] at hTarget ⊢
      intro hNone d hMem
      have hNone' : s.target = none := by
        have hRel := hStates.target
        rw [hNone] at hRel
        generalize s.target = target at hRel
        cases hRel
        rfl
      exact hTarget hNone' d ((List.eraseIdx_sublist _ i).subset hMem)
    rw [hStates.slots, hTarget']
    exact hOutputs
  · obtain ⟨-, -, hChecks⟩ := check_of_splits hOperands hSplits
    rw [hSplits.backwardCommands_eq] at hRunAll
    rw [hSplits'.backwardCommands_eq]
    exact executeAll_thinned hWell hChecks hOnly hPost _ _ hFit hStates hRunAll

include hPre hPost

/-- A call is answered alike after the removal, as long as those that run commands succeed. -/
theorem call_without {a : Call} (hFit : s.slots.Fit x.program)
    (hDone : a.Runs → Action.outcome (x.call a s) = .ok .done) :
    SameRun (Paired (SameButStatistics k?)) (x.call a s) ((x.without i).call a s') := by
  by_cases hRuns : a.Runs
  · cases a with
    | forward =>
        exact sameRun_done (hDone hRuns) fun t hRun =>
          forward_without hWell hOperands hSplits hSplits' hPre hOnly hStates hFit hRun
    | backward =>
        exact sameRun_done (hDone hRuns) fun t hRun =>
          backward_without hWell hOperands hSplits hSplits' hPost hOnly hStates hFit hRun
    | _ => exact hRuns.elim
  · have hSame : SameRun (Paired (SameButStatistics k?)) (x.call a s)
        ((x.withCommands x.program.commands).call a s') := call_paired _ hRuns hStates
    cases a with
    | forward => exact absurd trivial hRuns
    | backward => exact absurd trivial hRuns
    | _ => exact hSame

/-- A sequence of calls is answered alike after the removal, and leads to the same network to
update but for statistics. -/
theorem callAll_without (calls : List Call) (hKept : x.Kept target s)
    (hDone : x.RunsSucceed calls s) :
    ((x.without i).callAll calls s').1 = (x.callAll calls s).1 ∧
      Option.Rel (SameButStatistics k?) (x.callAll calls s).2.target
        ((x.without i).callAll calls s').2.target := by
  induction calls generalizing s s' with
  | nil => exact ⟨rfl, hStates.target⟩
  | cons a calls ih =>
      obtain ⟨hFirst, hRest⟩ := List.forall_mem_cons.mp hDone
      have hSame := call_without hWell hOperands hSplits hSplits' hPre hPost hOnly hStates
        (a := a) hKept.fit hFirst
      obtain ⟨hAnswers, hTarget⟩ := ih hSame.finalState (call_keeps hWell a s hKept).1 hRest
      exact ⟨List.cons_eq_cons.mpr ⟨hSame.outcome_eq, hAnswers⟩, hTarget⟩

end Calls

/-- A machine is made for the program without a command as it is for the program, if the command
is not the recorded one. -/
theorem of_without {p : Program} {net : Network} {r : Request} {traces : Bool}
    (hOf : Machine.of p net r traces = .ok x) (hLt : i < p.commands.length)
    (hNe : i ≠ x.forwardEnd) : Machine.of (p.without i) net r traces = .ok (x.without i) := by
  obtain ⟨position, hMarker, hInside, rfl⟩ := of_eq_ok_iff.mp hOf
  refine of_eq_ok_iff.mpr ⟨positionWithout i position, ?_, ?_, rfl⟩
  · show p.forwardEnd.map (positionWithout i) = _
    rw [hMarker]
    rfl
  · show positionWithout i position < (p.commands.eraseIdx i).length
    have hNe : i ≠ position := hNe
    rw [List.length_eraseIdx_of_lt hLt, positionWithout]
    split <;> omega

/-- The recorded position is that of the phase marker. -/
theorem ne_forwardEnd {flag : Bool} (hWell : x.program.WellFormed)
    (hAccepted : x.program.Accepted x.network x.request flag)
    (hRecorded : x.program.forwardEnd = some x.forwardEnd)
    (hCommand : x.program.commands[i]? = some c) (hMarker : c ≠ .marker) :
    i ≠ x.forwardEnd := by
  obtain ⟨position, hPosition, hSplit⟩ := (hAccepted.disciplined hWell).split
  cases hRecorded.symm.trans hPosition
  intro hAt
  exact hMarker (Option.some.inj (hCommand.symm.trans ((hSplit.only i).mpr hAt)))

/-- A sequence of calls for an accepted program is answered alike without a command that has no
recorded effect. -/
theorem callAll_of_unrecorded {flag : Bool} {a : Analysis} {e : Effects} {calls : List Call}
    (hWell : x.program.WellFormed)
    (hChecked : x.program.check x.network x.request flag = .ok a)
    (hCommand : x.program.commands[i]? = some c) (hResize : c.resized? = none)
    (hEffects : a.effects[i]? = some e) (hWritten : e.written = [])
    (hNoEffect : e.sideEffects = false) (hInside : x.forwardEnd < x.program.commands.length)
    (hNe : i ≠ x.forwardEnd) (hDone : x.RunsSucceed calls (x.start target)) :
    ((x.without i).callAll calls (x.start target)).1 = (x.callAll calls (x.start target)).1 ∧
      Option.Rel (SameButStatistics (c.statistics? x.request))
        (x.callAll calls (x.start target)).2.target
        ((x.without i).callAll calls (x.start target)).2.target := by
  obtain ⟨hOperands, -, hAnalysis, -⟩ := check_eq_ok_iff.mp hChecked
  obtain ⟨parts, es, _, hParts, hes, -, rfl⟩ := analysis_eq_ok_iff.mp hAnalysis
  obtain ⟨c', hCommand', he⟩ := commandEffects_of_getElem? hes hEffects
  cases hCommand.symm.trans hCommand'
  have hOnly : x.ChangesStatisticsOnly (c.statistics? x.request) c := fun hFit hRun =>
    execute_of_unrecorded hWell hParts he hWritten hNoEffect
      (checkOperands_eq_ok_iff.mp hOperands i c hCommand) hResize hFit hRun
  obtain ⟨pre, boundary, post, hSplits⟩ := exists_splits hInside
  obtain ⟨pre', post', hSplits', hPre, hPost⟩ := exists_splits_without hSplits hCommand hNe
  exact callAll_without hWell hOperands hSplits hSplits' hPre hPost hOnly
    (paired_sameButStatistics_iff.mpr ⟨rfl, rfl, rfl⟩) calls (kept_start x target) hDone

/-- In an accepted program, take a command that allocates and releases nothing, is not the phase
marker, and has no recorded effect: it writes no variable and has no side effects.  There are
machines for the program and for the program without this command, and in every sequence of calls
in which the forward and backward calls succeed they answer every call alike, and they end with
the same network to update.  There is one exception: a command that stores statistics of a
component, for a request that asks for them.  The networks to update may then differ in these
statistics, and in nothing else. -/
theorem unrecorded_command_removable {p : Program} {net : Network} {r : Request} {flag : Bool}
    {a : Analysis} {e : Effects} (hBuilt : p.Built) (hChecked : p.check net r flag = .ok a)
    (hCommand : p.commands[i]? = some c) (hResize : c.resized? = none) (hMarker : c ≠ .marker)
    (hEffects : a.effects[i]? = some e) (hWritten : e.written = [])
    (hNoEffect : e.sideEffects = false) (traces : Bool) :
    ∃ x x', Machine.of p net r traces = .ok x ∧ Machine.of (p.without i) net r traces = .ok x' ∧
      ∀ target calls, x.RunsSucceed calls (x.start target) →
        (x'.callAll calls (x'.start target)).1 = (x.callAll calls (x.start target)).1 ∧
          (x'.callAll calls (x'.start target)).2.target.map
              (·.clearStatistics (c.statistics? r)) =
            (x.callAll calls (x.start target)).2.target.map
              (·.clearStatistics (c.statistics? r)) ∧
          (c.statistics? r = none →
            (x'.callAll calls (x'.start target)).2.target =
              (x.callAll calls (x.start target)).2.target) := by
  have hWell := hBuilt.wellFormed
  have hAccepted : p.Accepted net r flag := ⟨a, hChecked⟩
  obtain ⟨x, hOf⟩ := exists_machine hAccepted hWell traces
  have hRequest : x.request = r := by
    obtain ⟨position, -, -, hEq⟩ := of_eq_ok_iff.mp hOf
    rw [hEq]
  have hRecorded : p.forwardEnd = some x.forwardEnd := by
    obtain ⟨position, hPosition, -, hEq⟩ := of_eq_ok_iff.mp hOf
    rw [hEq, hPosition]
  obtain ⟨rfl, rfl, hInside⟩ := of_eq_ok hOf
  subst hRequest
  have hNe := ne_forwardEnd hWell hAccepted hRecorded hCommand hMarker
  refine ⟨x, x.without i, hOf, of_without hOf (List.getElem?_eq_some_iff.mp hCommand).1 hNe,
    fun target calls hDone => ?_⟩
  obtain ⟨hAnswers, hTarget⟩ := callAll_of_unrecorded hWell hChecked hCommand hResize hEffects
    hWritten hNoEffect hInside hNe hDone
  refine ⟨hAnswers, rel_sameButStatistics_iff.mp hTarget, fun hNone => ?_⟩
  simp only [hNone, rel_sameButStatistics_iff, clearStatistics_none, Option.map_id'] at hTarget
  exact hTarget

end Removed

/-! ## Statistics are no recorded effect -/

/-- One elementwise component, from an input node to an output node. -/
def statisticsNetwork : Network :=
  { components := [("relu", .nonlinear (.fresh .relu 1))]
    nodes := [⟨"in", .input⟩, ⟨"layer", .component 0⟩, ⟨"out", .output⟩] }

/-- One row goes in, one row comes out, and statistics are asked for. -/
def statisticsRequest : Request :=
  { inputs := [.frames "in" 1 false]
    outputs := [.frames "out" 1 false]
    wantsModelDeriv := false
    wantsStats := true }

/-- The component computes the output, and then stores statistics of it. -/
def statisticsProgram : Program :=
  BuildStep.runAll
    [.matrix 1 1, .matrix 1 1, .bind 0 1 none, .bind 2 2 none, .command (.allocUndefined 2),
      .command (.propagate 0 none 1 2), .command (.storeStats 0 2), .recordedMarker,
      .command (.release 1)]
    .empty

/-- A machine for that program. -/
def statisticsMachine : Machine :=
  ⟨statisticsProgram, statisticsNetwork, statisticsRequest, 3, false, fun _ _ _ => 0⟩

/-- All calls of one run. -/
def statisticsCalls : List Call :=
  [.supplyInput "in" (.ofFn 1 1 fun _ _ => 3), .forward, .readOutput "out", .backward]

/-- The numbers of rows of which the components of a network have statistics. -/
def rowCounts (net : Network) : List Float :=
  net.components.filterMap fun entry =>
    match entry.2 with
    | .nonlinear n => some n.count
    | _ => none

theorem statisticsMachine_runsSucceed :
    statisticsMachine.RunsSucceed statisticsCalls
      (statisticsMachine.start (some statisticsNetwork)) :=
  List.forall_mem_cons.mpr ⟨fun hRuns => hRuns.elim, List.forall_mem_cons.mpr ⟨fun _ => rfl,
    List.forall_mem_cons.mpr ⟨fun hRuns => hRuns.elim, List.forall_mem_cons.mpr ⟨fun _ => rfl,
      fun _ hMem => absurd hMem List.not_mem_nil⟩⟩⟩⟩

/-- The command that stores statistics may be left out, but for the statistics. -/
theorem statisticsMachine_removable :
    ∃ a, statisticsProgram.check statisticsNetwork statisticsRequest true = .ok a ∧
      a.effects[2]? = some ⟨[1], [], false⟩ ∧
      ∃ x', Machine.of (statisticsProgram.without 2) statisticsNetwork statisticsRequest
          false = .ok x' ∧
        (x'.callAll statisticsCalls (x'.start (some statisticsNetwork))).1 =
          (statisticsMachine.callAll statisticsCalls
            (statisticsMachine.start (some statisticsNetwork))).1 ∧
        (x'.callAll statisticsCalls (x'.start (some statisticsNetwork))).2.target.map
            (·.clearStatistics (some 0)) =
          (statisticsMachine.callAll statisticsCalls
            (statisticsMachine.start (some statisticsNetwork))).2.target.map
            (·.clearStatistics (some 0)) := by
  obtain ⟨a, hChecked, hEffects⟩ :
      ∃ a, statisticsProgram.check statisticsNetwork statisticsRequest true = .ok a ∧
        a.effects[2]? = some ⟨[1], [], false⟩ := ⟨_, rfl, rfl⟩
  obtain ⟨x, x', hOf, hOf', hSame⟩ := unrecorded_command_removable (p := statisticsProgram)
    (c := .storeStats 0 2) ⟨_, rfl⟩ hChecked rfl rfl (by decide) hEffects rfl rfl false
  obtain rfl : statisticsMachine = x := Except.ok.inj hOf
  obtain ⟨hAnswers, hTarget, -⟩ := hSame _ _ statisticsMachine_runsSucceed
  exact ⟨a, hChecked, hEffects, x', hOf', hAnswers, hTarget⟩

/-- Of the statistics themselves the record says nothing: the command that stores them writes no
variable and has no side effects, and without it the network to update has seen no row in the
end, not one. -/
theorem statisticsMachine_target_changed :
    statisticsProgram.Built ∧
      statisticsProgram.commands[2]? = some (.storeStats 0 2) ∧
      (∃ a, statisticsProgram.check statisticsNetwork statisticsRequest true = .ok a ∧
        a.effects[2]? = some ⟨[1], [], false⟩) ∧
      Machine.of statisticsProgram statisticsNetwork statisticsRequest false =
        .ok statisticsMachine ∧
      Machine.of (statisticsProgram.without 2) statisticsNetwork statisticsRequest false =
        .ok (statisticsMachine.without 2) ∧
      statisticsMachine.RunsSucceed statisticsCalls
        (statisticsMachine.start (some statisticsNetwork)) ∧
      ((statisticsMachine.without 2).callAll statisticsCalls
          ((statisticsMachine.without 2).start (some statisticsNetwork))).2.target ≠
        (statisticsMachine.callAll statisticsCalls
          (statisticsMachine.start (some statisticsNetwork))).2.target := by
  refine ⟨⟨_, rfl⟩, rfl, ⟨_, rfl, rfl⟩, rfl, rfl, statisticsMachine_runsSucceed, ?_⟩
  have hSeen : ((statisticsMachine.callAll statisticsCalls
      (statisticsMachine.start (some statisticsNetwork))).2.target.map rowCounts ==
        some [1]) = true := by
    decide +kernel
  have hUnseen : (((statisticsMachine.without 2).callAll statisticsCalls
      ((statisticsMachine.without 2).start (some statisticsNetwork))).2.target.map rowCounts ==
        some [1]) = false := by
    decide +kernel
  intro hEq
  rw [hEq, hSeen] at hUnseen
  cases hUnseen

end Machine

end MatrixProgram
