import MatrixProgram.Proofs.Check.Insertion
import MatrixProgram.Proofs.Machine.Misuse
import MatrixProgram.Proofs.Machine.Progress
import MatrixProgram.Proofs.Machine.Tracing

/-!
# Commands that do nothing

To insert commands that do nothing moves the other commands of a program to later positions.
A command that passes its check does the same at every position: what its position enters is the
journal, and errors that the check excludes, `execute_upToJournal`.

So a run of commands does the same with the inserted ones, `executeAll_insertSkips`, and so do
calls and sequences of calls.  There is one answer that names a command by its position, the
misuse of a missing network to update: after the insertion it is the new position,
`callAll_withSkips`.
-/

namespace MatrixProgram

open Program

/-- Two actions that are the same for each member of a list are the same for the list. -/
theorem Action.forM_congr {σ β : Type} {f g : β → Action σ PUnit} {xs : List β}
    (h : ∀ b ∈ xs, f b = g b) : xs.forM f = xs.forM g := by
  induction xs with
  | nil => rfl
  | cons b rest ih =>
      obtain ⟨hFirst, hRest⟩ := List.forall_mem_cons.mp h
      change (f b >>= fun _ => rest.forM f) = (g b >>= fun _ => rest.forM g)
      rw [hFirst, ih hRest]

/-- The error after commands have moved.  The misuse of a missing network to update names the
first command that needs one by its position. -/
def Error.moved (f : Nat → Nat) : Error → Error
  | .usage (.noUpdateTarget command) => .usage (.noUpdateTarget (f command))
  | err => err

namespace Machine

variable {x : Machine} {c : Command} {s s' : MachineState} {α β : Type}
  {gaps : Nat → Nat} {cs : List Command}

/-- The machine for the program with inserted commands that do nothing, and the record of the
phase marker moved along. -/
def withSkips (x : Machine) (gaps : Nat → Nat) : Machine :=
  { x with
    program := x.program.withInserted .skip gaps (some (movedPosition gaps x.forwardEnd))
    forwardEnd := movedPosition gaps x.forwardEnd }

/-! ## The position of a command -/

theorem tableAt_position {tables : List α} {table : Nat} {rows : α}
    (h : tables[table]? = some rows) (i j : Nat) (kind : TableKind) :
    tableAt tables table i kind = tableAt tables table j kind := by
  rw [tableAt_of_getElem? h, tableAt_of_getElem? h]

theorem precomputedRows_position {precomputed : Option Nat} (i j : Nat)
    (h : ∀ table, precomputed = some table → table < x.program.precomputed.length) :
    x.precomputedRows i precomputed = x.precomputedRows j precomputed := by
  cases precomputed with
  | none => rfl
  | some table => simp only [precomputedRows, List.getElem?_eq_getElem (h table rfl)]

/-- The view of a sub-matrix that exists is not absent. -/
theorem view?_ne_none {p : Program} {slots : Slots} {sub : Nat} {view : SubMatrix}
    (h : p.subMatrix sub = .ok view) : slots.view? p sub ≠ .ok none := by
  intro hNone
  rw [Slots.view?, if_neg (subMatrix_eq_ok_iff.mp h).1] at hNone
  obtain ⟨_, -, hRest⟩ := Action.check_bind_eq_ok_iff.mp hNone
  obtain ⟨_, -, hRest⟩ := Action.check_bind_eq_ok_iff.mp hRest
  obtain ⟨_, -, hSome⟩ := Action.check_bind_eq_ok_iff.mp hRest
  cases hSome

theorem storeStats_position {k value : Nat} {view : SubMatrix}
    (h : x.program.subMatrix value = .ok view) (i j : Nat) :
    x.storeStats i k value = x.storeStats j k value := by
  unfold storeStats
  split
  · refine congrArg changeTarget (funext fun net => funext fun s => ?_)
    cases hView : s.slots.view? x.program value with
    | error err => rfl
    | ok v =>
        cases v with
        | none => exact absurd hView (view?_ne_none h)
        | some v => rfl
  · rfl

theorem updateTarget_position {k inValue outDeriv : Nat} {rows : Option (List Nat)}
    {view : SubMatrix} (h : x.program.subMatrix outDeriv = .ok view) (i j : Nat) :
    x.updateTarget i k rows inValue outDeriv = x.updateTarget j k rows inValue outDeriv := by
  refine congrArg changeTarget (funext fun net => funext fun s => ?_)
  cases s.slots.view? x.program inValue with
  | error err => rfl
  | ok inView =>
      cases hView : s.slots.view? x.program outDeriv with
      | error err => rfl
      | ok v =>
          cases v with
          | none => exact absurd hView (view?_ne_none h)
          | some v => rfl

/-- Writing depends on the change of the window for operands that are found. -/
theorem write_congr {dst : Nat} {operands : Slots → Except Error α}
    {w w' : α → {rows cols : Nat} → Region → Write rows cols}
    (h : ∀ slots a, operands slots = .ok a → @w a = @w' a) :
    x.write dst operands w = x.write dst operands w' := by
  funext s
  unfold write
  cases hFound : operands s.slots with
  | error err => rfl
  | ok a => simp only [h s.slots a hFound]

theorem gather_position {dst table : Nat} {copies : Bool} {pairs : List (Option (Nat × Nat))}
    (h : x.program.rowPairs[table]? = some pairs) (i j : Nat) :
    x.gather i copies dst table = x.gather j copies dst table := by
  rw [gather_eq, gather_eq, tableAt_of_getElem? h, tableAt_of_getElem? h,
    Action.ofExcept_ok_bind, Action.ofExcept_ok_bind]
  refine write_congr fun slots views hViews => ?_
  funext rows cols g
  refine Action.forM_congr fun entry hMem => ?_
  obtain ⟨pair, row⟩ := entry
  cases pair with
  | none => rfl
  | some source =>
      have hEntry := List.mem_of_getElem? (List.mem_zipIdx_iff_getElem?.mp hMem)
      obtain ⟨operand, hLookup, -⟩ := lookup_pairViews hViews hEntry
      show gatherRow i copies views row g (some source) =
        gatherRow j copies views row g (some source)
      rw [gatherRow_some, gatherRow_some, hLookup]

/-- A command that passes its check and resizes nothing is carried out in the same way at every
position. -/
theorem perform_position (hCheck : x.program.checkCommand x.network c = .ok ())
    (hResize : c.resized? = none) (i j : Nat) : x.perform i c = x.perform j c := by
  cases c with
  | allocZeroed m => cases hResize
  | allocUndefined m => cases hResize
  | release m => cases hResize
  | propagate k precomputed input output =>
      obtain ⟨_, _, _, hFits⟩ := checkPropagate_eq_ok_iff.mp hCheck
      simp only [perform, propagate,
        precomputedRows_position i j fun table hTable => (hFits.rowsGiven table hTable).1]
  | storeStats k value =>
      obtain ⟨_, _, hFits⟩ := checkStoreStats_eq_ok_iff.mp hCheck
      exact storeStats_position hFits.valueView i j
  | backprop node k precomputed inValue outValue outDeriv inDeriv =>
      obtain ⟨_, _, _, _, _, hFits⟩ := backpropFits_of_check hCheck
      simp only [perform, backprop_eq, updateTarget_position hFits.outDerivView i j,
        precomputedRows_position i j fun table hTable => (hFits.rowsGiven table hTable).1]
  | gatherCopy dst src table =>
      obtain ⟨_, _, _, hFits⟩ := checkGather_eq_ok_iff.mp hCheck
      simp only [perform, tableAt_position hFits.entries i j]
  | gatherAdd dst src table =>
      obtain ⟨_, _, _, hFits⟩ := checkGather_eq_ok_iff.mp hCheck
      simp only [perform, tableAt_position hFits.entries i j]
  | gatherCopyMany dst table =>
      obtain ⟨_, _, hFits⟩ := checkRowPairs_eq_ok_iff.mp hCheck
      exact gather_position hFits.entries i j
  | gatherAddMany dst table =>
      obtain ⟨_, _, hFits⟩ := checkRowPairs_eq_ok_iff.mp hCheck
      exact gather_position hFits.entries i j
  | scatterCopy src table =>
      obtain ⟨_, _, hFits⟩ := checkRowPairs_eq_ok_iff.mp hCheck
      simp only [perform, scatter, tableAt_position hFits.entries i j]
  | scatterAdd src table =>
      obtain ⟨_, _, hFits⟩ := checkRowPairs_eq_ok_iff.mp hCheck
      simp only [perform, scatter, tableAt_position hFits.entries i j]
  | sumRanges dst src table =>
      obtain ⟨_, _, _, hFits⟩ := checkRowRanges_eq_ok_iff.mp hCheck
      simp only [perform, tableAt_position hFits.entries i j]
  | copy dst src => rfl
  | add dst src => rfl
  | skip => rfl
  | marker => rfl

/-! ## States that are the same up to the journal -/

theorem slots_of_relates (h : nothingAside.Relates s s') : s'.slots = s.slots :=
  h.slots

/-- A command that passes its check does the same at every position in paired states. -/
theorem execute_paired {N : Network → Network → Prop} (hAdmits : Admits N)
    (hCheck : x.program.checkCommand x.network c = .ok ()) (i j : Nat)
    (hFit : s.slots.Fit x.program) (hStates : Paired N s s') :
    SameRun (Paired N) (x.execute i c s) (x.execute j c s') := by
  cases hResize : c.resized? with
  | some m =>
      obtain ⟨b, hRefills⟩ := exists_refills hCheck hResize
      obtain ⟨_, hRun⟩ := execute_resize i hRefills hCheck hFit
      obtain ⟨_, hRun'⟩ := execute_resize j hRefills hCheck (hStates.slots ▸ hFit)
      rw [hRun, hRun']
      exact .ok ⟨congrArg (Slots.put · m b) hStates.slots, hStates.target, hStates.phase⟩
  | none =>
      refine sameRun_execute (fun _ _ h => ⟨h.slots, h.target, h.phase⟩) ?_
      rw [perform_position hCheck hResize j i]
      exact perform_parallel hAdmits i c hStates

/-- A command that passes its check does the same at every position, up to the journal. -/
theorem execute_upToJournal (hCheck : x.program.checkCommand x.network c = .ok ()) (i j : Nat)
    (hFit : s.slots.Fit x.program) (hStates : nothingAside.Relates s s') :
    SameRun nothingAside.Relates (x.execute i c s) (x.execute j c s') :=
  (execute_paired admits_eq hCheck i j hFit (paired_eq_iff.mpr hStates)).imp
    fun _ _ => paired_eq_iff.mp

/-! ## Runs -/

/-- Commands that do nothing leave everything but the journal as it is. -/
theorem executeAll_skips (n k : Nat) (s : MachineState) :
    ∃ t, x.executeAll ((List.replicate n .skip).zipIdx k) s = .ok () t ∧
      nothingAside.Relates s t := by
  induction n generalizing k s with
  | zero => exact ⟨s, rfl, rfl, rfl, rfl⟩
  | succ n ih =>
      obtain ⟨journal, hFirst⟩ := execute_run_of_perform (x := x) (c := .skip) (i := k)
        (Action.pure_run () s)
      obtain ⟨t, hRest, hStates⟩ := ih (k + 1) { s with journal }
      refine ⟨t, ?_, hStates.slots, hStates.target, hStates.phase⟩
      rw [List.replicate_succ, List.zipIdx_cons, executeAll_cons_run, hFirst]
      exact hRest

/-- A run of commands does the same, up to the journal, with inserted commands that do nothing,
wherever the two runs stand among all commands. -/
theorem executeAll_insertSkips (hWell : x.program.WellFormed) (gaps : Nat → Nat)
    (hChecks : ∀ c ∈ cs, x.program.checkCommand x.network c = .ok ()) (i j : Nat)
    (hFit : s.slots.Fit x.program) (hStates : nothingAside.Relates s s') :
    SameRun nothingAside.Relates (x.executeAll (cs.zipIdx i) s)
      (x.executeAll ((insertCopies .skip gaps cs).zipIdx j) s') := by
  -- By induction along the commands; the slots fit the program all the way.
  induction cs generalizing gaps i j s s' with
  | nil =>
      obtain ⟨t, hRun, hAfter⟩ := executeAll_skips (x := x) (gaps 0) j s'
      rw [insertCopies, hRun]
      exact .ok (hStates.trans hAfter)
  | cons c cs ih =>
      obtain ⟨hCheck, hRest⟩ := List.forall_mem_cons.mp hChecks
      obtain ⟨u, hSkips, hBetween⟩ := executeAll_skips (x := x) (gaps 0) j s'
      rw [insertCopies, List.zipIdx_append, executeAll_append, Action.bind_run_ok hSkips]
      refine SameRun.bind (execute_upToJournal hCheck _ _ hFit (hStates.trans hBetween))
        fun _ t t' hRun hAfter => ih _ hRest _ _ ?_ hAfter
      have hRun : x.execute i c s = .ok () t := hRun
      have hKept := (execute_fit i hWell hCheck hFit).1
      rwa [hRun] at hKept

/-! ## Errors that name no command -/

/-- A check does not fail for want of a network to update. -/
def NeedsNoTarget (check : Except Error α) : Prop :=
  ∀ command, check ≠ .error (.usage (.noUpdateTarget command))

namespace NeedsNoTarget

theorem moved_eq {err : Error} (h : NeedsNoTarget (.error err : Except Error α))
    (f : Nat → Nat) : err.moved f = err := by
  unfold Error.moved
  split
  · exact absurd rfl (h _)
  · rfl

theorem mapError_eq {check : Except Error α} (h : NeedsNoTarget check) (f : Nat → Nat) :
    check.mapError (Error.moved f) = check := by
  cases check with
  | ok a => rfl
  | error err => exact congrArg Except.error (h.moved_eq f)

/-- Which value a check that fails would have given does not matter. -/
theorem of_error {err : Error} (h : NeedsNoTarget (.error err : Except Error α)) :
    NeedsNoTarget (.error err : Except Error β) :=
  fun command hFails => h command (congrArg _ (Except.error.inj hFails))

theorem of_noMisuse {check : Except Error α} (h : Action.NoMisuse check) :
    NeedsNoTarget check := by
  intro command hFails
  cases h _ hFails

theorem require {p : Prop} [Decidable p] {err : Error}
    (h : NeedsNoTarget (.error err : Except Error Unit)) :
    NeedsNoTarget (Action.require p err) := by
  unfold Action.require
  split
  · exact nofun
  · exact h

theorem bind {check : Except Error α} {next : α → Except Error β}
    (hFirst : NeedsNoTarget check) (hNext : ∀ a, NeedsNoTarget (next a)) :
    NeedsNoTarget (check >>= next) := by
  cases check with
  | ok a => exact hNext a
  | error err => exact hFirst.of_error

theorem forM {check : α → Except Error Unit} (xs : List α)
    (h : ∀ a, NeedsNoTarget (check a)) : NeedsNoTarget (xs.forM check) := by
  induction xs with
  | nil => exact nofun
  | cons a rest ih => exact .bind (h a) fun _ => ih

/-- A lookup in an action. -/
theorem run_lookup {check : Except Error α} {next : α → MachineAction β}
    (hCheck : NeedsNoTarget check)
    (hNext : ∀ a s, NeedsNoTarget (Action.outcome (next a s))) (s : MachineState) :
    NeedsNoTarget (Action.outcome ((Action.ofExcept check >>= next) s)) := by
  cases check with
  | ok a => exact hNext a s
  | error err => exact hCheck.of_error

theorem run_map {act : MachineAction α} (f : α → β)
    (h : NeedsNoTarget (Action.outcome (act s))) :
    NeedsNoTarget (Action.outcome ((f <$> act) s)) := by
  rw [Action.map_run]
  cases hRun : act s with
  | ok a t => exact nofun
  | error err t =>
      rw [hRun] at h
      exact h.of_error

end NeedsNoTarget

theorem requirePhase_needsNoTarget {kind : CallKind} {next : MachineAction α}
    (hNext : ∀ s, NeedsNoTarget (Action.outcome (next s))) (s : MachineState) :
    NeedsNoTarget (Action.outcome ((requirePhase kind >>= fun _ => next) s)) := by
  by_cases hIn : s.phase ∈ kind.allowedIn
  · have hRun : requirePhase kind s = .ok () s := requirePhase_eq_ok_iff.mpr ⟨hIn, rfl⟩
    rw [Action.bind_run_ok hRun]
    exact hNext s
  · simp only [requirePhase, Action.bind_run, Action.get_run, hIn, not_false_eq_true, if_true]
    intro command hFails
    cases hFails

theorem boundNode_needsNoTarget (x : Machine) (name : String) :
    NeedsNoTarget (x.boundNode name) := by
  intro command hFails
  unfold boundNode at hFails
  repeat' split at hFails
  all_goals cases hFails

theorem valueMatrix_needsNoTarget (x : Machine) (name : String) :
    NeedsNoTarget (x.valueMatrix name) :=
  (boundNode_needsNoTarget x name).bind fun _ => nofun

theorem derivMatrix_needsNoTarget (x : Machine) (name : String) :
    NeedsNoTarget (x.derivMatrix name) := by
  refine (boundNode_needsNoTarget x name).bind fun b => ?_
  split
  · exact nofun
  · exact nofun

theorem requestedInput_needsNoTarget (x : Machine) (name : String) :
    NeedsNoTarget (x.requestedInput name) := by
  unfold requestedInput
  split
  · exact nofun
  · exact nofun

theorem requestedOutput_needsNoTarget (x : Machine) (name : String) :
    NeedsNoTarget (x.requestedOutput name) := by
  unfold requestedOutput
  split
  · exact nofun
  · exact nofun

theorem requireDerivative_needsNoTarget (side : Side) (spec : IoRequest) :
    NeedsNoTarget (requireDerivative side spec) :=
  .require nofun

theorem requireInputs_needsNoTarget (slots : Slots) :
    NeedsNoTarget (x.request.inputs.forM (x.requireInput slots)) :=
  .forM _ fun spec => (valueMatrix_needsNoTarget x spec.name).bind fun _ => .require nofun

theorem requireOutputDerivs_needsNoTarget (slots : Slots) :
    NeedsNoTarget
      ((x.request.outputs.filter (·.wantsDeriv)).forM (x.requireOutputDeriv slots)) :=
  .forM _ fun spec => (derivMatrix_needsNoTarget x spec.name).bind fun _ => .require nofun

theorem place_needsNoTarget (m numRows : Nat) (b : Buffer) (s : MachineState) :
    NeedsNoTarget (Action.outcome (x.place m numRows b s)) := by
  refine .run_lookup (.of_noMisuse (x.program.matrix_noMisuse m)) (fun shape s => ?_) s
  by_cases hBad : b.shape ≠ ⟨numRows, shape.numCols⟩ ∨ shape.numRows ≠ numRows
  · rw [if_pos hBad]
    exact nofun
  · rw [if_neg hBad]
    by_cases hPast : s.slots.entries.length ≤ m
    · simp only [Action.bind_run, Action.get_run, hPast]
      exact nofun
    · simp only [Action.bind_run, Action.get_run, hPast]
      exact nofun

theorem read_needsNoTarget (m : Nat) (s : MachineState) :
    NeedsNoTarget (Action.outcome
      ((get >>= fun s : MachineState => Action.ofExcept (s.slots.read m)) s)) := by
  rw [Action.bind_run, Action.get_run]
  dsimp only
  have hRead := NeedsNoTarget.of_noMisuse (s.slots.read_noMisuse m)
  cases hFound : s.slots.read m with
  | ok b => exact nofun
  | error err =>
      rw [hFound] at hRead
      exact hRead.of_error

/-- A call that runs no commands does not ask for a network to update. -/
theorem call_needsNoTarget {a : Call} (hNot : ¬a.Runs) (s : MachineState) :
    NeedsNoTarget (Action.outcome (x.call a s)) := by
  cases a with
  | supplyInput name b =>
      refine .run_map _ (requirePhase_needsNoTarget (fun s => ?_) s)
      refine .run_lookup (requestedInput_needsNoTarget x name) (fun spec s => ?_) s
      refine .run_lookup (valueMatrix_needsNoTarget x name) (fun m s => ?_) s
      exact place_needsNoTarget m spec.numRows b s
  | supplyOutputDeriv name b =>
      refine .run_map _ (requirePhase_needsNoTarget (fun s => ?_) s)
      refine .run_lookup (requestedOutput_needsNoTarget x name) (fun spec s => ?_) s
      refine .run_lookup (requireDerivative_needsNoTarget _ spec) (fun _ s => ?_) s
      refine .run_lookup (derivMatrix_needsNoTarget x name) (fun m s => ?_) s
      exact place_needsNoTarget m spec.numRows b s
  | readOutput name =>
      refine .run_map _ (requirePhase_needsNoTarget (fun s => ?_) s)
      refine .run_lookup (requestedOutput_needsNoTarget x name) (fun _ s => ?_) s
      exact .run_lookup (valueMatrix_needsNoTarget x name) (fun m s => read_needsNoTarget m s) s
  | readInputDeriv name =>
      refine .run_map _ (requirePhase_needsNoTarget (fun s => ?_) s)
      refine .run_lookup (requestedInput_needsNoTarget x name) (fun spec s => ?_) s
      refine .run_lookup (requireDerivative_needsNoTarget _ spec) (fun _ s => ?_) s
      exact .run_lookup (derivMatrix_needsNoTarget x name) (fun m s => read_needsNoTarget m s) s
  | phase => exact nofun
  | forward => exact absurd trivial hNot
  | backward => exact absurd trivial hNot

/-! ## The network to update -/

/-- Whether a command updates a component, and so needs a network to update. -/
def needsTarget (net : Network) : Command → Except Error Bool
  | .backprop _ k .. => (fun component => component.capabilities.updatable) <$> net.component k
  | _ => .ok false

theorem firstUpdate_cons (net : Network) (c : Command) (i : Nat) (rest : List (Command × Nat)) :
    firstUpdate net ((c, i) :: rest) =
      needsTarget net c >>= fun needs => if needs = true then .ok (some i) else
        firstUpdate net rest := by
  cases c with
  | backprop node k =>
      simp only [firstUpdate, needsTarget]
      cases net.component k <;> rfl
  | _ => rfl

/-- The first update is found at its new position if all positions change. -/
theorem firstUpdate_map (net : Network) (f : Nat → Nat) (entries : List (Command × Nat)) :
    firstUpdate net (entries.map (Prod.map id f)) =
      Option.map f <$> firstUpdate net entries := by
  induction entries with
  | nil => rfl
  | cons entry rest ih =>
      rw [List.map_cons, Prod.map, id_eq, firstUpdate_cons, ih, firstUpdate_cons]
      cases needsTarget net entry.1 with
      | error err => rfl
      | ok needs => cases needs <;> rfl

theorem firstUpdate_skips (net : Network) (n k : Nat) (rest : List (Command × Nat)) :
    firstUpdate net ((List.replicate n .skip).zipIdx k ++ rest) = firstUpdate net rest := by
  induction n generalizing k with
  | zero => rfl
  | succ n ih => exact ih (k + 1)

/-- The first command that needs a network to update is found at its new position. -/
theorem firstUpdate_insertSkips (net : Network) (gaps : Nat → Nat) (cs : List Command) :
    firstUpdate net (insertCopies .skip gaps cs).zipIdx =
      Option.map (movedPosition gaps) <$> firstUpdate net cs.zipIdx := by
  induction cs generalizing gaps with
  | nil =>
      have hSkips := firstUpdate_skips net (gaps 0) 0 []
      rw [List.append_nil] at hSkips
      exact hSkips
  | cons c cs ih =>
      -- The rest of both lists is counted from its own beginning.
      have hRest : ∀ (ds : List Command) k, firstUpdate net (ds.zipIdx k) =
          Option.map (fun i => i + k) <$> firstUpdate net ds.zipIdx := by
        intro ds k
        rw [← firstUpdate_map, List.map_snd_add_zipIdx_eq_zipIdx, Nat.add_zero]
      rw [insertCopies, List.zipIdx_append, firstUpdate_skips, List.zipIdx_cons, List.zipIdx_cons,
        firstUpdate_cons, firstUpdate_cons, hRest, ih,
        hRest cs (0 + 1), List.length_replicate]
      cases needsTarget net c with
      | error err => rfl
      | ok needs =>
          cases needs with
          | true => simp [movedPosition]
          | false =>
              cases firstUpdate net cs.zipIdx with
              | error err => rfl
              | ok first =>
                  cases first with
                  | none => rfl
                  | some i =>
                      have hMoved : movedPosition (fun i => gaps (i + 1)) i + (0 + gaps 0 + 1) =
                          movedPosition gaps (i + 1) := by
                        rw [movedPosition_succ]
                        omega
                      exact congrArg (fun k => Except.ok (some k)) hMoved

/-- The first command that needs a network to update is looked for without one. -/
theorem firstUpdate_needsNoTarget (net : Network) (entries : List (Command × Nat)) :
    NeedsNoTarget (firstUpdate net entries) := by
  induction entries with
  | nil => exact nofun
  | cons entry rest ih =>
      rw [firstUpdate_cons]
      refine .bind ?_ fun needs => ?_
      · cases entry.1 with
        | backprop => exact .bind (.of_noMisuse (net.component_noMisuse _)) fun _ => nofun
        | _ => exact nofun
      · cases needs with
        | true => exact nofun
        | false => exact ih

/-- The network to update is missed by the same command, at its new position. -/
theorem requireTarget_withSkips (x : Machine) (gaps : Nat → Nat) (target : Option Network) :
    (x.withSkips gaps).requireTarget target =
      (x.requireTarget target).mapError (Error.moved (movedPosition gaps)) := by
  cases target with
  | some net => rfl
  | none =>
      have hFirst := firstUpdate_insertSkips x.network gaps x.program.commands
      have hAllowed := firstUpdate_needsNoTarget x.network x.program.commands.zipIdx
      unfold requireTarget
      change (firstUpdate x.network (insertCopies .skip gaps x.program.commands).zipIdx >>= _) = _
      rw [hFirst]
      cases hFound : firstUpdate x.network x.program.commands.zipIdx with
      | error err =>
          rw [hFound] at hAllowed
          exact congrArg Except.error (hAllowed.moved_eq _).symm
      | ok first => cases first <;> rfl

/-! ## Calls -/

/-- Two runs with the same answer, or with the same error once commands have moved, whose
states are the same up to the journal. -/
inductive MovedRun (f : Nat → Nat) :
    EStateM.Result Error MachineState α → EStateM.Result Error MachineState α → Prop
  | ok {a : α} {s s' : MachineState} (h : nothingAside.Relates s s') :
      MovedRun f (.ok a s) (.ok a s')
  | error {err : Error} {s s' : MachineState} (h : nothingAside.Relates s s') :
      MovedRun f (.error err s) (.error (err.moved f) s')

theorem movedRun_of_sameRun {r r' : EStateM.Result Error MachineState α} (f : Nat → Nat)
    (h : SameRun nothingAside.Relates r r') (hErr : NeedsNoTarget (Action.outcome r)) :
    MovedRun f r r' := by
  cases h with
  | ok h => exact .ok h
  | @error err t t' h =>
      have hRun : MovedRun (α := α) f (.error err t) (.error (err.moved f) t') := .error h
      rwa [hErr.moved_eq f] at hRun

namespace MovedRun

variable {f : Nat → Nat} {r r' : EStateM.Result Error MachineState α}

theorem bind {first first' : MachineAction α} {next next' : α → MachineAction β}
    (hFirst : MovedRun f (first s) (first' s'))
    (hNext : ∀ a t t', nothingAside.Relates t t' → MovedRun f (next a t) (next' a t')) :
    MovedRun f ((first >>= next) s) ((first' >>= next') s') := by
  rw [Action.bind_run, Action.bind_run]
  generalize first s = r at hFirst
  generalize first' s' = r' at hFirst
  cases hFirst with
  | ok h => exact hNext _ _ _ h
  | error h => exact .error h

theorem map (g : α → β) {act act' : MachineAction α} (h : MovedRun f (act s) (act' s')) :
    MovedRun f ((g <$> act) s) ((g <$> act') s') := by
  rw [Action.map_run, Action.map_run]
  generalize act s = r at h
  generalize act' s' = r' at h
  cases h with
  | ok h => exact .ok h
  | error h => exact .error h

theorem outcome_eq (h : MovedRun f r r') :
    Action.outcome r' = (Action.outcome r).mapError (Error.moved f) := by
  cases h <;> rfl

theorem finalState (h : MovedRun f r r') :
    nothingAside.Relates (Action.finalState r) (Action.finalState r') := by
  cases h <;> assumption

end MovedRun

/-- A call that runs commands does the same after the insertion if its check and its commands
do. -/
theorem runPhase_movedRun {kind : CallKind} {check check' : MachineState → Except Error Unit}
    {entries entries' : List (Command × Nat)} {f : Nat → Nat} (after : Phase)
    (hCheck : check' s' = (check s).mapError (Error.moved f))
    (hCommands : SameRun nothingAside.Relates (x.executeAll entries s) (x.executeAll entries' s'))
    (hStates : nothingAside.Relates s s') :
    MovedRun f (x.runPhase kind check entries after s)
      ((x.withSkips gaps).runPhase kind check' entries' after s') := by
  have hPhase : s'.phase = s.phase := hStates.phase
  by_cases hIn : s.phase ∈ kind.allowedIn
  · have hRun : requirePhase kind s = .ok () s := requirePhase_eq_ok_iff.mpr ⟨hIn, rfl⟩
    have hRun' : requirePhase kind s' = .ok () s' :=
      requirePhase_eq_ok_iff.mpr ⟨hPhase ▸ hIn, rfl⟩
    rw [runPhase, runPhase, Action.bind_run_ok hRun, Action.bind_run_ok hRun',
      Action.bind_run_ok (Action.get_run s), Action.bind_run_ok (Action.get_run s'), hCheck]
    cases check s with
    | error err => exact .error hStates
    | ok _ =>
        show MovedRun f (x.runTo entries after s) ((x.withSkips gaps).runTo entries' after s')
        have hClean := (executeAll_internal (x := x) entries).noMisuse s
        refine MovedRun.bind (movedRun_of_sameRun f hCommands (.of_noMisuse hClean))
          fun _ t t' hAfter => ?_
        exact .ok ⟨hAfter.slots, hAfter.target, rfl⟩
  · simp only [runPhase, requirePhase, Action.bind_run, Action.get_run, hPhase, hIn,
      not_false_eq_true, if_true]
    exact .error hStates

section Calls

variable {pre post : List Command} {target : Option Network}

theorem take_zipIdx_append (pre post : List Command) (c : Command) :
    (pre ++ c :: post).zipIdx.take (pre.length + 1) = pre.zipIdx ++ [(c, pre.length)] := by
  simp [List.zipIdx_append, List.take_append, List.take_of_length_le]

theorem drop_zipIdx_append (pre post : List Command) (c : Command) :
    (pre ++ c :: post).zipIdx.drop (pre.length + 1) = post.zipIdx (pre.length + 1) := by
  simp [List.zipIdx_append, List.drop_append]

/-- The commands of a machine around its phase marker. -/
structure Splits (x : Machine) (pre : List Command) (c : Command) (post : List Command) :
    Prop where
  commands : x.program.commands = pre ++ c :: post
  length : x.forwardEnd = pre.length

theorem exists_splits (hInside : x.forwardEnd < x.program.commands.length) :
    ∃ pre c post, x.Splits pre c post := by
  refine ⟨x.program.commands.take x.forwardEnd, x.program.commands[x.forwardEnd],
    x.program.commands.drop (x.forwardEnd + 1), ?_, ?_⟩
  · rw [← List.drop_eq_getElem_cons hInside, List.take_append_drop]
  · rw [List.length_take, Nat.min_eq_left (Nat.le_of_lt hInside)]

namespace Splits

theorem withSkips (h : x.Splits pre c post) (gaps : Nat → Nat) :
    (x.withSkips gaps).Splits (insertCopies .skip gaps pre) c
      (insertCopies .skip (fun i => gaps (i + pre.length + 1)) post) where
  commands := by
    show insertCopies .skip gaps x.program.commands = _
    rw [h.commands, insertCopies_append]
  length := by
    show movedPosition gaps x.forwardEnd = _
    rw [h.length, length_insertCopies]

theorem forwardCommands_eq (h : x.Splits pre c post) :
    x.forwardCommands = pre.zipIdx ++ [(c, pre.length)] := by
  rw [forwardCommands, h.commands, h.length, take_zipIdx_append]

theorem backwardCommands_eq (h : x.Splits pre c post) :
    x.backwardCommands = post.zipIdx (pre.length + 1) := by
  rw [backwardCommands, h.commands, h.length, drop_zipIdx_append]

end Splits

section Checked

variable (hWell : x.program.WellFormed) (hOperands : x.program.checkOperands x.network = .ok ())
  (hSplits : x.Splits pre c post)

include hWell hOperands hSplits

omit hWell in
theorem check_of_splits : (∀ d ∈ pre, x.program.checkCommand x.network d = .ok ()) ∧
    x.program.checkCommand x.network c = .ok () ∧
      ∀ d ∈ post, x.program.checkCommand x.network d = .ok () := by
  have hChecks : ∀ d ∈ x.program.commands, x.program.checkCommand x.network d = .ok () := by
    intro d hMem
    obtain ⟨i, hCommand⟩ := List.mem_iff_getElem?.mp hMem
    exact checkOperands_eq_ok_iff.mp hOperands i d hCommand
  rw [hSplits.commands, List.forall_mem_append, List.forall_mem_cons] at hChecks
  exact hChecks

theorem forwardCommands_sameRun (hKept : x.Kept target s) (hStates : nothingAside.Relates s s') :
    SameRun nothingAside.Relates (x.executeAll x.forwardCommands s)
      (x.executeAll (x.withSkips gaps).forwardCommands s') := by
  obtain ⟨hPre, hMarker, -⟩ := check_of_splits hOperands hSplits
  rw [hSplits.forwardCommands_eq, (hSplits.withSkips gaps).forwardCommands_eq, executeAll_append,
    executeAll_append]
  refine SameRun.bind (executeAll_insertSkips hWell gaps hPre 0 0 hKept.fit hStates)
    fun _ t t' hRun hAfter => ?_
  have hKept' : x.Kept target t := by
    have hAll : x.Kept target (Action.finalState (x.executeAll pre.zipIdx s)) :=
      (Keeps.forM pre.zipIdx (fun entry => execute_keeps hWell entry.2 entry.1) s hKept).1
    rwa [hRun] at hAll
  exact SameRun.bind (execute_upToJournal hMarker _ _ hKept'.fit hAfter)
    fun _ _ _ _ hLast => .ok hLast

theorem backwardCommands_sameRun (hKept : x.Kept target s)
    (hStates : nothingAside.Relates s s') :
    SameRun nothingAside.Relates (x.executeAll x.backwardCommands s)
      (x.executeAll (x.withSkips gaps).backwardCommands s') := by
  obtain ⟨-, -, hPost⟩ := check_of_splits hOperands hSplits
  rw [hSplits.backwardCommands_eq, (hSplits.withSkips gaps).backwardCommands_eq]
  exact executeAll_insertSkips hWell _ hPost _ _ hKept.fit hStates

/-- A call does the same after the insertion. -/
theorem call_movedRun (a : Call) (hKept : x.Kept target s)
    (hStates : nothingAside.Relates s s') :
    MovedRun (movedPosition gaps) (x.call a s) ((x.withSkips gaps).call a s') := by
  have hSlots := slots_of_relates hStates
  by_cases hRuns : a.Runs
  · cases a with
    | forward =>
        refine MovedRun.map _ ?_
        rw [forward_eq, forward_eq]
        refine runPhase_movedRun _ ?_
          (forwardCommands_sameRun hWell hOperands hSplits hKept hStates) hStates
        show x.request.inputs.forM (x.requireInput s'.slots) = _
        rw [hSlots, (requireInputs_needsNoTarget s.slots).mapError_eq]
    | backward =>
        refine MovedRun.map _ ?_
        rw [backward_eq, backward_eq]
        refine runPhase_movedRun _ ?_
          (backwardCommands_sameRun hWell hOperands hSplits hKept hStates) hStates
        show ((x.withSkips gaps).requireTarget s'.target >>= fun _ =>
          (x.request.outputs.filter (·.wantsDeriv)).forM (x.requireOutputDeriv s'.slots)) = _
        rw [hSlots, show s'.target = s.target from hStates.target, requireTarget_withSkips]
        cases x.requireTarget s.target with
        | error err => rfl
        | ok _ => exact ((requireOutputDerivs_needsNoTarget s.slots).mapError_eq _).symm
    | _ => exact hRuns.elim
  · refine movedRun_of_sameRun _ ?_ (call_needsNoTarget hRuns s)
    have hSame : SameRun nothingAside.Relates (x.call a s)
        ((x.withCommands x.program.commands).call a s') := call_sameRun _ hRuns hStates
    cases a with
    | forward => exact absurd trivial hRuns
    | backward => exact absurd trivial hRuns
    | _ => exact hSame

/-- A sequence of calls gets the same answers after the insertion, but for the moved position in
the misuse of a missing network to update, and leads to the same network to update. -/
theorem callAll_withSkips (calls : List Call) (hKept : x.Kept target s)
    (hStates : nothingAside.Relates s s') :
    ((x.withSkips gaps).callAll calls s').1 =
        (x.callAll calls s).1.map (Except.mapError (Error.moved (movedPosition gaps))) ∧
      ((x.withSkips gaps).callAll calls s').2.target = (x.callAll calls s).2.target := by
  induction calls generalizing s s' with
  | nil => exact ⟨rfl, hStates.target⟩
  | cons a calls ih =>
      have hMoved : MovedRun (movedPosition gaps) (x.call a s) ((x.withSkips gaps).call a s') :=
        call_movedRun hWell hOperands hSplits a hKept hStates
      obtain ⟨hAnswers, hTarget⟩ := ih (call_keeps hWell a s hKept).1 hMoved.finalState
      exact ⟨List.cons_eq_cons.mpr ⟨hMoved.outcome_eq, hAnswers⟩, hTarget⟩

end Checked

/-- A machine is made for the program with inserted commands as it is for the program. -/
theorem of_withInserted {p : Program} {net : Network} {r : Request} {traces : Bool}
    (gaps : Nat → Nat) (hOf : Machine.of p net r traces = .ok x) :
    Machine.of (p.withInserted .skip gaps (p.forwardEnd.map (movedPosition gaps))) net r traces =
      .ok (x.withSkips gaps) := by
  obtain ⟨position, hMarker, hInside, rfl⟩ := of_eq_ok_iff.mp hOf
  rw [hMarker]
  refine of_eq_ok_iff.mpr ⟨_, rfl, ?_, rfl⟩
  show movedPosition gaps position < (insertCopies .skip gaps p.commands).length
  rw [length_insertCopies]
  exact movedPosition_strictMono gaps hInside

/-- There is a machine for a program that passes the check. -/
theorem exists_machine {p : Program} {net : Network} {r : Request} {flag : Bool}
    (hAccepted : p.Accepted net r flag) (hWell : p.WellFormed) (traces : Bool) :
    ∃ x, Machine.of p net r traces = .ok x := by
  obtain ⟨marker, hMarker, hSplit⟩ := (hAccepted.disciplined hWell).split
  have hInside := (List.getElem?_eq_some_iff.mp ((hSplit.only marker).mpr rfl)).1
  exact ⟨_, of_eq_ok_iff.mpr ⟨marker, hMarker, hInside, rfl⟩⟩

/-- For every network and request, take a program that has been built and passes the check.

With further phase markers, at whatever positions and whatever position is recorded for the
marker, the check fails with a violation of the order of commands, which names all markers.

With commands that do nothing, at whatever positions, and the recorded position moved to the new
one of the marker, the program passes the check in the same configuration.  The machines for the
two programs answer every sequence of calls alike, up to the position of a command in the misuse
of a missing network to update, which is the new one; and they end with the same network to
update. -/
theorem markers_rejected_and_skips_harmless {p : Program} {net : Network} {r : Request}
    {flag : Bool} (hBuilt : p.Built) (hAccepted : p.Accepted net r flag) (gaps : Nat → Nat) :
    ((∃ i ≤ p.commands.length, 0 < gaps i) → ∀ forwardEnd, ∃ first second rest,
      (p.withInserted .marker gaps forwardEnd).markers = first :: second :: rest ∧
        (p.withInserted .marker gaps forwardEnd).check net r flag =
          .error (.ordering (some second) (.severalMarkers (first :: second :: rest)))) ∧
      (p.withInserted .skip gaps (p.forwardEnd.map (movedPosition gaps))).Accepted net r flag ∧
        ∀ traces, ∃ x x', Machine.of p net r traces = .ok x ∧
          Machine.of (p.withInserted .skip gaps (p.forwardEnd.map (movedPosition gaps))) net r
            traces = .ok x' ∧
          ∀ target calls,
            (x'.callAll calls (x'.start target)).1 =
                (x.callAll calls (x.start target)).1.map
                  (Except.mapError (Error.moved (movedPosition gaps))) ∧
              (x'.callAll calls (x'.start target)).2.target =
                (x.callAll calls (x.start target)).2.target := by
  have hWell := hBuilt.wellFormed
  refine ⟨?_, hAccepted.insertSkips hWell gaps, fun traces => ?_⟩
  · rintro ⟨i, hLe, hGap⟩ forwardEnd
    exact hAccepted.check_insertMarkers hWell hLe hGap forwardEnd
  · obtain ⟨x, hOf⟩ := exists_machine hAccepted hWell traces
    refine ⟨x, x.withSkips gaps, hOf, of_withInserted gaps hOf, fun target calls => ?_⟩
    obtain ⟨rfl, rfl, hInside⟩ := of_eq_ok hOf
    obtain ⟨pre, c, post, hSplits⟩ := exists_splits hInside
    exact callAll_withSkips hWell hAccepted.checkOperands hSplits calls (kept_start x target)
      ⟨rfl, rfl, rfl⟩

end Calls

/-- One command that does nothing in front of each command of a program, and one at its end: the
backprop moves from position 3 to position 7, and so does the misuse of a backward call without a
network to update. -/
theorem updateProgram_insertions :
    (updateProgram 1).Built ∧ (updateProgram 1).Accepted updateNetwork (updateRequest 1) true ∧
      (∃ second cause,
        ((updateProgram 1).withInserted .marker (fun _ => 1) (some 2)).check updateNetwork
          (updateRequest 1) true = .error (.ordering (some second) cause)) ∧
      ((updateProgram 1).withInserted .skip (fun _ => 1) (some 5)).Accepted updateNetwork
        (updateRequest 1) true ∧
      ∃ x', Machine.of ((updateProgram 1).withInserted .skip (fun _ => 1) (some 5)) updateNetwork
          (updateRequest 1) false = .ok x' ∧
        (x'.callAll [.supplyInput "in" (.ofFn 1 1 fun _ _ => 3), .forward, .backward]
            (x'.start none)).1 =
          [.ok .done, .ok .done, .error (.usage (.noUpdateTarget 7))] := by
  have hBuilt := updateProgram_built 1
  have hAccepted : (updateProgram 1).Accepted updateNetwork (updateRequest 1) true := ⟨_, rfl⟩
  obtain ⟨hMarkers, hSkips, hMachines⟩ :=
    markers_rejected_and_skips_harmless hBuilt hAccepted fun _ => 1
  obtain ⟨_, second, _, -, hFails⟩ := hMarkers ⟨0, Nat.zero_le _, Nat.one_pos⟩ (some 2)
  obtain ⟨x, x', hOf, hOf', hSame⟩ := hMachines false
  refine ⟨hBuilt, hAccepted, ⟨second, _, hFails⟩, hSkips, x', hOf', ?_⟩
  obtain rfl : updateMachine 1 = x := Except.ok.inj hOf
  rw [(hSame none _).1]
  rfl

end Machine

end MatrixProgram
