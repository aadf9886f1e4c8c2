import MatrixProgram.Proofs.Machine.Aside
import MatrixProgram.Proofs.Machine.Reachable

/-!
# Independent commands commute

Two neighbours that keep off one another may be carried out in either order.  One that
allocates or releases a matrix changes a slot that the other one spares, so it makes no
difference to the other one when this is done.  Otherwise each of the two reads the same in
the state before both as in the state after the other one, and they edit different components
of the network to update: `Commuting.reaches`.

From this one step the exchange carries over to runs of commands, to calls and to sequences of
calls, with states that are the same up to the journal: `executeAll_exchange`,
`callAll_exchange`.  With the exchange of a checked program (`Accepted.exchange`) this is
`independent_neighbours_commute`.
-/

namespace MatrixProgram

open Program

/-- Slots of the same shapes with the same elements are the same. -/
theorem Slots.eq_of_agree {slots slots' : Slots} (h : slots.Agree (fun _ _ _ => True) slots') :
    slots = slots' := by
  have hBuffer : ∀ m, slots.buffer? m = slots'.buffer? m := by
    intro m
    cases hFound : slots.buffer? m with
    | none => exact (h.buffer?_eq_none hFound).symm
    | some b =>
        obtain ⟨b', hFound', hShape, hValue⟩ := h.exists_buffer? hFound
        rw [hFound', Buffer.ext_get hShape.symm fun row col _ _ => hValue row col trivial]
  have hEntries : slots.entries = slots'.entries := by
    refine List.ext_getElem h.length fun m hLt hLt' => ?_
    have hSame := hBuffer m
    simpa only [Slots.buffer?, List.getElem?_eq_getElem hLt, List.getElem?_eq_getElem hLt',
      Option.join_some] using hSame
  cases slots
  cases slots'
  exact congrArg Slots.mk hEntries

/-- A call that runs commands. -/
def Call.Runs : Call → Prop
  | .forward => True
  | .backward => True
  | _ => False

theorem Aside.Relates.trans {s t u : MachineState} (h : Machine.nothingAside.Relates s t)
    (h' : Machine.nothingAside.Relates t u) : Machine.nothingAside.Relates s u :=
  ⟨h'.slots.trans h.slots, h'.target.trans h.target, h'.phase.trans h.phase⟩

namespace Machine

variable {x : Machine} {c d : Command} {i j k l m : Nat} {s t u v : MachineState}

/-! ## Running a command again -/

/-- What a command leaves alone: the shapes, and the elements outside of the columns that it
writes. -/
theorem execute_frame (hWell : x.program.WellFormed)
    (hCheck : x.program.checkCommand x.network c = .ok ()) (hResize : c.resized? = none)
    (hFit : s.slots.Fit x.program) (hRun : x.execute i c s = .ok () t) :
    s.SameExcept (x.written c) t := by
  have hKeeps := execute_keepsRules (A := fun _ _ _ => True) i hWell hCheck hResize
    fun _ _ _ _ => trivial
  have hFrame := hKeeps.frame hFit
  rw [hRun] at hFrame
  exact hFrame

/-- A command runs in the same way from a state that agrees on what it reads and whose target
has been edited at a component that the command does not update: what it writes is the same
afterwards, and so is what was the same before. -/
theorem execute_again {e : Option (Nat × String × Component)} (hWell : x.program.WellFormed)
    (hCheck : x.program.checkCommand x.network c = .ok ()) (hResize : c.resized? = none)
    (hFit : s.slots.Fit x.program) (hLength : s.slots.entries.length = u.slots.entries.length)
    (hShape : ∀ m, s.slots.shape? m = u.slots.shape? m)
    (hReads : ∀ m row col, x.program.ReadsColumn x.network c m col →
      s.slots.value? m row col = u.slots.value? m row col)
    (hTarget : u.target = s.target.map fun net => net.edit e)
    (hEdit : ∀ k entry, e = some (k, entry) → ¬c.Updates x.network k)
    (hRun : x.execute i c s = .ok () t) :
    ∃ v, x.execute j c u = .ok () v ∧ v.target = t.target.map (fun net => net.edit e) ∧
      ∀ m row col, x.program.WritesColumn x.network c m col ∨
        s.slots.value? m row col = u.slots.value? m row col →
          t.slots.value? m row col = v.slots.value? m row col := by
  obtain ⟨t', hRun', hStates⟩ := execute_follows (editAside_spares hEdit) i j
    (show (editAside e).Relates s { s with target := u.target } from ⟨rfl, hTarget, rfl⟩) hRun
  have hSlots : t'.slots = t.slots := hStates.slots
  have hKeeps := execute_keepsRules
    (A := fun m row col => s.slots.value? m row col = u.slots.value? m row col) j hWell hCheck
    hResize hReads
  have hMatch := hKeeps.agree (s := { s with target := u.target }) hFit
    ⟨⟨hLength, hShape, fun _ _ _ hSame => hSame⟩, rfl⟩
  rw [hRun'] at hMatch
  generalize hRunU : x.execute j c u = r at hMatch
  cases hMatch with
  | ok hA hB =>
      refine ⟨_, rfl, hB.target.symm.trans hStates.target, fun m row col hIn => ?_⟩
      rw [← hSlots]
      exact hB.slots.value _ _ _ hIn.symm

/-! ## Two neighbours -/

theorem slotAside_spares_of_apart {b : Option Buffer} (hWell : x.program.WellFormed)
    (hApart : x.program.Apart x.network c d) (hResize : c.resized? = some m) :
    (slotAside m b).Spares x.program x.network d := by
  obtain ⟨hOther, hNot⟩ := hApart.resized hResize
  refine slotAside_spares (fun hOwns => ?_) hOther
  obtain ⟨col, hTouches⟩ := exists_touchesColumn_of_owns hWell hOwns
  exact hNot col hTouches

/-- A state in which two commands have been carried out in some order, up to the journal. -/
def Reaches (x : Machine) (first second : Command) (s u : MachineState) : Prop :=
  ∀ k l, ∃ v w, x.execute k first s = .ok () v ∧ x.execute l second v = .ok () w ∧
    nothingAside.Relates u w

/-- The second of two neighbours allocates or releases a matrix: it may as well do so before
the first one, which does not work with this matrix. -/
theorem reaches_of_resized_second (hWell : x.program.WellFormed)
    (hCheck : x.program.checkCommand x.network d = .ok ())
    (hApart : x.program.Apart x.network d c) (hResize : d.resized? = some m)
    (hFit : s.slots.Fit x.program) (hFit' : t.slots.Fit x.program)
    (hRun : x.execute i c s = .ok () t) (hRun' : x.execute j d t = .ok () u) :
    x.Reaches d c s u := by
  intro k l
  obtain ⟨b, hRefills⟩ := exists_refills hCheck hResize
  obtain ⟨journal, hExecuted⟩ := execute_resize j hRefills hCheck hFit'
  cases hRun'.symm.trans hExecuted
  obtain ⟨journal', hFirst⟩ := execute_resize k hRefills hCheck hFit
  have hBeside : (slotAside m b).Relates s ⟨s.slots.put m b, s.target, s.phase, journal'⟩ :=
    ⟨rfl, rfl, rfl⟩
  obtain ⟨w, hSecond, hStates⟩ := execute_follows
    (slotAside_spares_of_apart hWell hApart hResize) i l hBeside hRun
  exact ⟨_, w, hFirst, hSecond, hStates.slots, hStates.target, hStates.phase⟩

/-- The first of two neighbours allocates or releases a matrix: it may as well do so after the
second one, which does not work with this matrix. -/
theorem reaches_of_resized_first (hWell : x.program.WellFormed)
    (hCheck : x.program.checkCommand x.network c = .ok ())
    (hCheck' : x.program.checkCommand x.network d = .ok ())
    (hApart : x.program.Apart x.network c d) (hResize : c.resized? = some m)
    (hFit : s.slots.Fit x.program) (hRun : x.execute i c s = .ok () t)
    (hRun' : x.execute j d t = .ok () u) : x.Reaches d c s u := by
  intro k l
  obtain ⟨b, hRefills⟩ := exists_refills hCheck hResize
  obtain ⟨journal, hExecuted⟩ := execute_resize i hRefills hCheck hFit
  cases hRun.symm.trans hExecuted
  have hLt := hRefills.lt hCheck hFit
  -- The slot holds something before the first command, and the second one runs as well from
  -- there.
  have hBack : (slotAside m s.slots.entries[m]).Relates
      ⟨s.slots.put m b, s.target, s.phase, journal⟩ s := by
    refine ⟨?_, rfl, rfl⟩
    simp only [slotAside, Slots.put_put]
    exact (Slots.put_self (List.getElem?_eq_getElem hLt)).symm
  have hSpares := fun b => slotAside_spares_of_apart (b := b) hWell hApart hResize
  obtain ⟨v, hFirst, hStates⟩ := execute_follows (hSpares _) j k hBack hRun'
  have hFitV := (execute_fit k hWell hCheck' hFit).1
  rw [hFirst] at hFitV
  obtain ⟨journal', hSecond⟩ := execute_resize l hRefills hCheck hFitV
  -- The second command does not see what the first one has put into the slot.
  have hPut : (slotAside m b).Relates ⟨s.slots.put m b, s.target, s.phase, journal⟩
      ⟨s.slots.put m b, s.target, s.phase, journal⟩ := by
    refine ⟨?_, rfl, rfl⟩
    simp only [slotAside, Slots.put_put]
  obtain ⟨u', hAgain, hSame⟩ := execute_follows (hSpares _) j j hPut hRun'
  cases hRun'.symm.trans hAgain
  refine ⟨v, _, hFirst, hSecond, ?_, hStates.target, hStates.phase⟩
  show v.slots.put m b = u.slots
  rw [hStates.slots, hSame.slots]
  simp only [slotAside, Slots.put_put]

/-- Two commands that pass their check and keep off one another. -/
structure Commuting (x : Machine) (c d : Command) : Prop where
  checkLeft : x.program.checkCommand x.network c = .ok ()
  checkRight : x.program.checkCommand x.network d = .ok ()
  left : x.program.Apart x.network c d
  right : x.program.Apart x.network d c
  updates : ∀ k, ¬(c.Updates x.network k ∧ d.Updates x.network k)

/-- Two changes in either order: the slots are the same in the end if the changes keep to
different elements, the one gives its elements the same values whether or not the other has
been made, and so does the other. -/
theorem slots_eq_of_frames {W W' : ElementSet} {w : MachineState} (hFrame : s.SameExcept W t)
    (hFrame' : t.SameExcept W' u) (hFrameV : s.SameExcept W' v) (hFrameW : v.SameExcept W w)
    (hApart : ∀ m row col, W m row col → ¬W' m row col)
    (hValue : ∀ m row col, W m row col →
      w.slots.value? m row col = t.slots.value? m row col)
    (hValue' : ∀ m row col, t.slots.value? m row col = s.slots.value? m row col →
      v.slots.value? m row col = u.slots.value? m row col) :
    w.slots = u.slots := by
  refine Slots.eq_of_agree ⟨?_, fun m => ?_, fun m row col _ => ?_⟩
  · exact hFrameW.length.trans (hFrameV.length.trans (hFrame.length.symm.trans
      hFrame'.length.symm))
  · exact (hFrameW.shape m).trans ((hFrameV.shape m).trans ((hFrame.shape m).symm.trans
      (hFrame'.shape m).symm))
  · by_cases hIn : W m row col
    · calc
        w.slots.value? m row col = t.slots.value? m row col := hValue m row col hIn
        _ = u.slots.value? m row col := (hFrame'.value m row col (hApart m row col hIn)).symm
    · calc
        w.slots.value? m row col = v.slots.value? m row col := hFrameW.value m row col hIn
        _ = u.slots.value? m row col := hValue' m row col (hFrame.value m row col hIn)

/-- Neither of two neighbours allocates or releases a matrix.  From what each of them reads the
state before both looks like the state between them, and they edit different components of the
network to update. -/
theorem reaches_of_unresized (hWell : x.program.WellFormed) (h : x.Commuting c d)
    (hNone : c.resized? = none) (hNone' : d.resized? = none) (hFit : s.slots.Fit x.program)
    (hRun : x.execute i c s = .ok () t) (hRun' : x.execute j d t = .ok () u) :
    x.Reaches d c s u := by
  intro k l
  have hFrame := execute_frame hWell h.checkLeft hNone hFit hRun
  have hFitT := hFrame.fit hFit
  have hFrame' := execute_frame hWell h.checkRight hNone' hFitT hRun'
  obtain ⟨e, hEdit, hOnly⟩ := execute_edits hRun
  obtain ⟨e', hEdit', hOnly'⟩ := execute_edits hRun'
  obtain ⟨old, hOld, hOldOnly⟩ := Network.exists_map_edit s.target e
  -- The second command runs from the state before both: the edit of the first one is undone.
  obtain ⟨v, hFirst, hTargetV, hValueV⟩ := execute_again (u := s) (j := k) hWell h.checkRight
    hNone' hFitT hFrame.length hFrame.shape
    (fun m row col hReads => hFrame.value m row col fun hWrites =>
      h.left.written hWrites hReads.touches)
    (by rw [hEdit, hOld])
    (fun m entry hSome hUpdate => by
      obtain ⟨entry', hSome'⟩ := hOldOnly m entry hSome
      exact h.updates m ⟨hOnly m entry' hSome', hUpdate⟩)
    hRun'
  have hFrameV := execute_frame hWell h.checkRight hNone' hFit hFirst
  obtain ⟨e'', hEditV, hOnlyV⟩ := execute_edits hFirst
  -- And the first command runs from the state after the second one.
  obtain ⟨w, hSecond, hTargetW, hValueW⟩ := execute_again (u := v) (j := l) hWell h.checkLeft
    hNone hFit hFrameV.length.symm (fun m => (hFrameV.shape m).symm)
    (fun m row col hReads => (hFrameV.value m row col fun hWrites =>
      h.right.written hWrites hReads.touches).symm)
    hEditV (fun m entry hSome hUpdate => h.updates m ⟨hUpdate, hOnlyV m entry hSome⟩) hRun
  have hFrameW := execute_frame hWell h.checkLeft hNone (hFrameV.fit hFit) hSecond
  refine ⟨v, w, hFirst, hSecond, ?_, ?_, ?_⟩
  · refine slots_eq_of_frames hFrame hFrame' hFrameV hFrameW ?_ ?_ ?_
    · exact fun m row col hWrites hWrites' => h.left.written hWrites hWrites'.touches
    · exact fun m row col hWrites => (hValueW m row col (.inl hWrites)).symm
    · exact fun m row col hBefore => (hValueV m row col (.inr hBefore)).symm
  · show w.target = u.target
    rw [hTargetW, hEdit', hEdit]
    refine Network.map_edit_eq hOld ?_ ?_ ?_ ?_
    · rintro m entry entry' ⟨hSome, hSome'⟩
      obtain ⟨entry'', hSome''⟩ := hOldOnly m entry' hSome'
      exact h.updates m ⟨hOnly m entry'' hSome'', hOnly' m entry hSome⟩
    · rintro m entry entry' ⟨hSome, hSome'⟩
      exact h.updates m ⟨hOnly m entry hSome, hOnly' m entry' hSome'⟩
    · rintro m entry entry' ⟨hSome, hSome'⟩
      exact h.updates m ⟨hOnly m entry hSome, hOnlyV m entry' hSome'⟩
    · rw [← hEdit, ← hEdit', ← hTargetV, hEditV]
  · exact hFrameW.phase.trans (hFrameV.phase.trans (hFrame.phase.symm.trans hFrame'.phase.symm))

/-- Two such commands may be carried out in the other order. -/
theorem Commuting.reaches (hWell : x.program.WellFormed) (h : x.Commuting c d)
    (hFit : s.slots.Fit x.program) (hRun : x.execute i c s = .ok () t)
    (hRun' : x.execute j d t = .ok () u) : x.Reaches d c s u := by
  have hFitT : t.slots.Fit x.program := by
    have hKept := (execute_fit i hWell h.checkLeft hFit).1
    rwa [hRun] at hKept
  cases hResize' : d.resized? with
  | some m =>
      exact reaches_of_resized_second hWell h.checkRight h.right hResize' hFit hFitT hRun hRun'
  | none =>
      cases hResize : c.resized? with
      | some m =>
          exact reaches_of_resized_first hWell h.checkLeft h.checkRight h.left hResize hFit hRun
            hRun'
      | none => exact reaches_of_unresized hWell h hResize hResize' hFit hRun hRun'

/-! ## Runs -/

/-- A machine with other commands. -/
def withCommands (x : Machine) (cs : List Command) : Machine :=
  { x with program := x.program.withCommands cs }

theorem executeAll_withCommands (cs : List Command) (entries : List (Command × Nat)) :
    (x.withCommands cs).executeAll entries = x.executeAll entries :=
  rfl

theorem executeAll_append (pre post : List (Command × Nat)) :
    x.executeAll (pre ++ post) = (x.executeAll pre >>= fun _ => x.executeAll post) :=
  List.forM_append

theorem executeAll_follows (entries : List (Command × Nat)) :
    Follows nothingAside (x.executeAll entries) (x.executeAll entries) :=
  Follows.forM entries fun entry _ => execute_follows nothingAside_spares entry.2 entry.2

/-- The same commands at the same positions, or two of them exchanged that stand side by side. -/
def Exchanges (c d : Command) (entries entries' : List (Command × Nat)) : Prop :=
  entries' = entries ∨ ∃ pre post i,
    entries = pre ++ (c, i) :: (d, i + 1) :: post ∧
      entries' = pre ++ (d, i) :: (c, i + 1) :: post

/-- A run of commands does the same, up to the journal, after the exchange of commands that
commute. -/
theorem executeAll_exchange {entries entries' : List (Command × Nat)} {target : Option Network}
    (hWell : x.program.WellFormed) (h : x.Commuting c d) (hEntries : Exchanges c d entries entries')
    (hKept : x.Kept target s) (hStates : nothingAside.Relates s v)
    (hRun : x.executeAll entries s = .ok () t) :
    ∃ w, x.executeAll entries' v = .ok () w ∧ nothingAside.Relates t w := by
  rcases hEntries with rfl | ⟨pre, post, i, rfl, rfl⟩
  · exact executeAll_follows entries' hStates hRun
  · rw [executeAll_append] at hRun ⊢
    obtain ⟨_, t₁, hPre, hRest⟩ := Action.bind_run_eq_ok_iff.mp hRun
    obtain ⟨_, t₂, hLeft, hRest⟩ := Action.bind_run_eq_ok_iff.mp hRest
    obtain ⟨_, t₃, hRight, hPost⟩ := Action.bind_run_eq_ok_iff.mp hRest
    have hFit : t₁.slots.Fit x.program := by
      have hAfter : x.Kept target (Action.finalState (x.executeAll pre s)) :=
        (Keeps.forM pre (fun entry => execute_keeps hWell entry.2 entry.1) s hKept).1
      rw [hPre] at hAfter
      exact hAfter.fit
    obtain ⟨v₁, hPre', hStates₁⟩ := executeAll_follows pre hStates hPre
    -- The neighbours are exchanged in the same state, which differs in its journal only.
    obtain ⟨u₂, u₃, hFirst, hSecond, hSame⟩ := h.reaches hWell hFit hLeft hRight i (i + 1)
    obtain ⟨v₂, hFirst', hStates₂⟩ := execute_follows nothingAside_spares i i hStates₁ hFirst
    obtain ⟨v₃, hSecond', hStates₃⟩ :=
      execute_follows nothingAside_spares (i + 1) (i + 1) hStates₂ hSecond
    obtain ⟨w, hPost', hStates'⟩ := executeAll_follows post (hSame.trans hStates₃) hPost
    refine ⟨w, ?_, hStates'⟩
    rw [Action.bind_run_ok hPre']
    exact (Action.bind_run_ok hFirst').trans ((Action.bind_run_ok hSecond').trans hPost')

/-! ## Calls -/

section NoCommands

variable {g : Option Network → Option Network}

theorem requirePhase_sameRun (kind : CallKind) (h : (targetAside g).Relates s t) :
    SameRun (targetAside g).Relates (requirePhase kind s) (requirePhase kind t) := by
  by_cases hIn : s.phase ∈ kind.allowedIn
  · simp only [requirePhase, Action.bind_run, Action.get_run, h.phase, hIn, not_true_eq_false,
      if_false]
    exact .ok h
  · simp only [requirePhase, Action.bind_run, Action.get_run, h.phase, hIn, not_false_eq_true,
      if_true]
    exact .error h

theorem place_sameRun (m numRows : Nat) (b : Buffer) (h : (targetAside g).Relates s t) :
    SameRun (targetAside g).Relates (x.place m numRows b s) (x.place m numRows b t) := by
  have hSlots : t.slots = s.slots := h.slots
  refine SameRun.lookup (x.program.matrix m) h fun shape => ?_
  by_cases hBad : b.shape ≠ ⟨numRows, shape.numCols⟩ ∨ shape.numRows ≠ numRows
  · rw [if_pos hBad]
    exact .error h
  · rw [if_neg hBad]
    by_cases hPast : s.slots.entries.length ≤ m
    · simp only [Action.bind_run, Action.get_run, hSlots, hPast]
      exact .error h
    · simp only [Action.bind_run, Action.get_run, hSlots, hPast]
      exact .ok ⟨rfl, h.target, h.phase⟩

theorem read_sameRun (m : Nat) (h : (targetAside g).Relates s t) :
    SameRun (targetAside g).Relates
      ((get >>= fun s : MachineState => Action.ofExcept (s.slots.read m)) s)
      ((get >>= fun s : MachineState => Action.ofExcept (s.slots.read m)) t) := by
  have hSlots : t.slots = s.slots := h.slots
  simp only [Action.bind_run, Action.get_run, hSlots]
  cases s.slots.read m with
  | ok b => exact .ok h
  | error err => exact .error h

/-- The calls that run no commands do the same, up to the journal, whatever the commands and the
network to update are. -/
theorem call_sameRun {a : Call} (cs : List Command) (hNot : ¬a.Runs)
    (h : (targetAside g).Relates s t) :
    SameRun (targetAside g).Relates (x.call a s) ((x.withCommands cs).call a t) := by
  cases a with
  | supplyInput name b =>
      refine SameRun.map _ (SameRun.bind (requirePhase_sameRun _ h) fun _ _ _ _ h => ?_)
      refine SameRun.lookup (x.requestedInput name) h fun spec => ?_
      refine SameRun.lookup (x.valueMatrix name) h fun m => ?_
      exact place_sameRun m spec.numRows b h
  | supplyOutputDeriv name b =>
      refine SameRun.map _ (SameRun.bind (requirePhase_sameRun _ h) fun _ _ _ _ h => ?_)
      refine SameRun.lookup (x.requestedOutput name) h fun spec => ?_
      refine SameRun.lookup (requireDerivative .output spec) h fun _ => ?_
      refine SameRun.lookup (x.derivMatrix name) h fun m => ?_
      exact place_sameRun m spec.numRows b h
  | forward => exact absurd trivial hNot
  | backward => exact absurd trivial hNot
  | readOutput name =>
      refine SameRun.map _ (SameRun.bind (requirePhase_sameRun _ h) fun _ _ _ _ h => ?_)
      refine SameRun.lookup (x.requestedOutput name) h fun _ => ?_
      exact SameRun.lookup (x.valueMatrix name) h fun m => read_sameRun m h
  | readInputDeriv name =>
      refine SameRun.map _ (SameRun.bind (requirePhase_sameRun _ h) fun _ _ _ _ h => ?_)
      refine SameRun.lookup (x.requestedInput name) h fun spec => ?_
      refine SameRun.lookup (requireDerivative .input spec) h fun _ => ?_
      exact SameRun.lookup (x.derivMatrix name) h fun m => read_sameRun m h
  | phase =>
      show SameRun _ (.ok (Answer.phase s.phase) s) (.ok (Answer.phase t.phase) t)
      rw [h.phase]
      exact .ok h

end NoCommands

/-- A call that runs commands: in its phase, after checks, it goes on to another phase. -/
def runPhase (x : Machine) (kind : CallKind) (check : MachineState → Except Error Unit)
    (entries : List (Command × Nat)) (after : Phase) : MachineAction Unit := do
  requirePhase kind
  let s ← get
  Action.ofExcept (check s)
  x.runTo entries after

/-- Such a call that succeeds has carried out its commands from the state in which it began. -/
theorem runPhase_eq_ok {kind : CallKind} {check : MachineState → Except Error Unit}
    {entries : List (Command × Nat)} {after : Phase}
    (hRun : x.runPhase kind check entries after s = .ok () t) :
    s.phase ∈ kind.allowedIn ∧ check s = .ok () ∧
      ∃ u, x.executeAll entries s = .ok () u ∧ t = { u with phase := after } := by
  obtain ⟨_, _, hPhase, hAllowed⟩ := Action.bind_run_eq_ok_iff.mp hRun
  obtain ⟨hIn, rfl⟩ := requirePhase_eq_ok_iff.mp hPhase
  obtain ⟨_, _, hGet, hGot⟩ := Action.bind_run_eq_ok_iff.mp hAllowed
  cases hGet
  obtain ⟨_, _, hRead, hChecked⟩ := Action.bind_run_eq_ok_iff.mp hGot
  obtain ⟨hPassed, rfl⟩ := Action.ofExcept_run_eq_ok_iff.mp hRead
  obtain ⟨_, u, hCommands, hLast⟩ := Action.bind_run_eq_ok_iff.mp hChecked
  cases hLast
  exact ⟨hIn, hPassed, u, hCommands, rfl⟩

theorem forward_eq (x : Machine) :
    x.forward = x.runPhase .forward (fun s => x.request.inputs.forM (x.requireInput s.slots))
      x.forwardCommands .forwardDone :=
  rfl

/-- Two checks, one after the other. -/
theorem ofExcept_ofExcept {α : Type} (first second : Except Error Unit)
    (next : Unit → MachineAction α) :
    (Action.ofExcept first >>= fun _ => Action.ofExcept second >>= next) =
      (Action.ofExcept (first >>= fun _ => second) >>= next) := by
  cases first <;> rfl

theorem backward_eq (x : Machine) :
    x.backward = x.runPhase .backward
      (fun s => x.requireTarget s.target >>= fun _ =>
        (x.request.outputs.filter (·.wantsDeriv)).forM (x.requireOutputDeriv s.slots))
      x.backwardCommands .backwardDone := by
  refine congrArg (requirePhase .backward >>= ·) (funext fun _ => ?_)
  exact congrArg (get >>= ·) (funext fun s => ofExcept_ofExcept _ _ _)

/-- A command is not the backprop of an updatable component. -/
def NoUpdate (net : Network) : Command → Prop
  | .backprop _ k .. =>
      ∃ component, net.component k = .ok component ∧ component.capabilities.updatable = false
  | _ => True

theorem firstUpdate_eq_ok_none_iff {net : Network} {entries : List (Command × Nat)} :
    firstUpdate net entries = .ok none ↔ ∀ entry ∈ entries, NoUpdate net entry.1 := by
  induction entries with
  | nil => exact ⟨fun _ _ hMem => absurd hMem List.not_mem_nil, fun _ => rfl⟩
  | cons entry rest ih =>
      obtain ⟨a, index⟩ := entry
      rw [List.forall_mem_cons, ← ih]
      show firstUpdate net ((a, index) :: rest) = _ ↔ NoUpdate net a ∧ _
      cases a with
      | backprop node k precomputed inValue outValue outDeriv inDeriv =>
          simp only [firstUpdate, NoUpdate]
          cases net.component k with
          | error err => simp
          | ok component =>
              cases hUpdatable : component.capabilities.updatable <;>
                simp [hUpdatable, pure, Except.pure]
      | _ => simp only [firstUpdate, NoUpdate, true_and]

theorem requireTarget_eq_ok_iff {target : Option Network} :
    x.requireTarget target = .ok () ↔
      target = none → ∀ a ∈ x.program.commands, NoUpdate x.network a := by
  cases target with
  | some net => exact ⟨fun _ hNone => absurd hNone (Option.some_ne_none net), fun _ => rfl⟩
  | none =>
      have hEntries : (∀ entry ∈ x.program.commands.zipIdx, NoUpdate x.network entry.1) ↔
          ∀ a ∈ x.program.commands, NoUpdate x.network a := by
        conv => rhs; rw [← List.zipIdx_map_fst 0 x.program.commands]
        rw [List.forall_mem_map]
      rw [forall_prop_of_true rfl, ← hEntries, ← firstUpdate_eq_ok_none_iff, requireTarget]
      cases firstUpdate x.network x.program.commands.zipIdx with
      | error err => simp
      | ok first => cases first <;> simp [pure, Except.pure]

/-- Among some calls, each one that runs commands succeeds. -/
def RunsSucceed (x : Machine) (calls : List Call) (s : MachineState) : Prop :=
  ∀ answered ∈ calls.zip (x.callAll calls s).1, answered.1.Runs → answered.2 = .ok .done

/-- The call that runs commands succeeds from the same state as long as its checks do. -/
theorem runPhase_exchange {kind : CallKind} {check check' : MachineState → Except Error Unit}
    {entries entries' : List (Command × Nat)} {after : Phase} {target : Option Network}
    (cs : List Command) (hWell : x.program.WellFormed) (h : x.Commuting c d)
    (hEntries : Exchanges c d entries entries')
    (hCheck : check s = .ok () → check' v = .ok ())
    (hKept : x.Kept target s) (hStates : nothingAside.Relates s v)
    (hRun : x.runPhase kind check entries after s = .ok () t) :
    ∃ w, (x.withCommands cs).runPhase kind check' entries' after v = .ok () w ∧
      nothingAside.Relates t w := by
  obtain ⟨hIn, hPassed, t₁, hCommands, rfl⟩ := runPhase_eq_ok hRun
  obtain ⟨w, hCommands', hAfter⟩ := executeAll_exchange hWell h hEntries hKept hStates hCommands
  have hPhase' : requirePhase kind v = .ok () v :=
    requirePhase_eq_ok_iff.mpr ⟨hStates.phase ▸ hIn, rfl⟩
  refine ⟨{ w with phase := after }, ?_, hAfter.slots, hAfter.target, rfl⟩
  rw [runPhase, Action.bind_run_ok hPhase', Action.bind_run_ok (Action.get_run v), hCheck hPassed,
    Action.ofExcept_ok_bind, runTo, executeAll_withCommands, Action.bind_run_ok hCommands']
  rfl

section Exchange

variable {before rest : List Command} {target : Option Network}

/-- Commands with their positions, after the exchange of neighbours that are both among the
first `n` commands or both not. -/
theorem exchanges_take {n : Nat} (hSide : before.length + 2 ≤ n ∨ n ≤ before.length) :
    Exchanges c d ((before ++ c :: d :: rest).zipIdx.take n)
      ((before ++ d :: c :: rest).zipIdx.take n) := by
  simp only [List.zipIdx_append, List.zipIdx_cons, List.take_append, List.length_zipIdx]
  rcases hSide with hAfter | hBefore
  · obtain ⟨k, rfl⟩ := Nat.exists_eq_add_of_le hAfter
    rw [show before.length + 2 + k - before.length = k + 2 by omega]
    exact .inr ⟨_, _, _, rfl, rfl⟩
  · rw [Nat.sub_eq_zero_of_le hBefore]
    exact .inl rfl

theorem exchanges_drop {n : Nat} (hSide : before.length + 2 ≤ n ∨ n ≤ before.length) :
    Exchanges c d ((before ++ c :: d :: rest).zipIdx.drop n)
      ((before ++ d :: c :: rest).zipIdx.drop n) := by
  simp only [List.zipIdx_append, List.zipIdx_cons, List.drop_append, List.length_zipIdx]
  rcases hSide with hAfter | hBefore
  · obtain ⟨k, rfl⟩ := Nat.exists_eq_add_of_le hAfter
    rw [show before.length + 2 + k - before.length = k + 2 by omega]
    exact .inl rfl
  · rw [Nat.sub_eq_zero_of_le hBefore]
    exact .inr ⟨_, _, _, rfl, rfl⟩

section Programs

variable (hWell : x.program.WellFormed) (h : x.Commuting c d)
  (hCommands : x.program.commands = before ++ c :: d :: rest)
  (hSide : before.length + 2 ≤ x.forwardEnd + 1 ∨ x.forwardEnd + 1 ≤ before.length)

include hCommands

theorem requireTarget_exchange (hPassed : x.requireTarget target = .ok ()) :
    (x.withCommands (before ++ d :: c :: rest)).requireTarget target = .ok () := by
  rw [requireTarget_eq_ok_iff] at hPassed ⊢
  intro hNone a hMem
  refine hPassed hNone a ?_
  rw [hCommands]
  have hEither : a ∈ before ++ d :: c :: rest := hMem
  simp only [List.mem_append, List.mem_cons] at hEither ⊢
  exact hEither.imp_right or_left_comm.mp

include hWell h hSide

theorem forward_exchange (hKept : x.Kept target s) (hStates : nothingAside.Relates s v)
    (hRun : x.forward s = .ok () t) :
    ∃ w, (x.withCommands (before ++ d :: c :: rest)).forward v = .ok () w ∧
      nothingAside.Relates t w := by
  rw [forward_eq] at hRun ⊢
  refine runPhase_exchange _ hWell h ?_ (fun hPassed => ?_) hKept hStates hRun
  · rw [forwardCommands, hCommands]
    exact exchanges_take hSide
  · rw [show v.slots = s.slots from hStates.slots]
    exact hPassed

theorem backward_exchange (hKept : x.Kept target s) (hStates : nothingAside.Relates s v)
    (hRun : x.backward s = .ok () t) :
    ∃ w, (x.withCommands (before ++ d :: c :: rest)).backward v = .ok () w ∧
      nothingAside.Relates t w := by
  rw [backward_eq] at hRun ⊢
  refine runPhase_exchange _ hWell h ?_ (fun hPassed => ?_) hKept hStates hRun
  · rw [backwardCommands, hCommands]
    exact exchanges_drop hSide
  · obtain ⟨_, hTarget, hOutputs⟩ := Action.check_bind_eq_ok_iff.mp hPassed
    rw [show v.slots = s.slots from hStates.slots, show v.target = s.target from hStates.target,
      requireTarget_exchange hCommands hTarget]
    exact hOutputs

omit hWell h hCommands hSide in
/-- A run that ends well, as the answer of a call. -/
theorem sameRun_done {R : MachineState → MachineState → Prop} {act act' : MachineAction Unit}
    (hDone : Action.outcome (((fun _ => Answer.done) <$> act) s) = .ok .done)
    (hRuns : ∀ t, act s = .ok () t → ∃ w, act' v = .ok () w ∧ R t w) :
    SameRun R (((fun _ => Answer.done) <$> act) s) (((fun _ => Answer.done) <$> act') v) := by
  refine SameRun.map _ ?_
  cases hRun : act s with
  | ok u t =>
      obtain ⟨w, hRun', hAfter⟩ := hRuns t hRun
      rw [hRun']
      exact .ok hAfter
  | error err t =>
      rw [Action.map_run, hRun] at hDone
      cases hDone

/-- A call does the same after the exchange, as long as those that run commands succeed. -/
theorem call_exchange {a : Call} (hKept : x.Kept target s) (hStates : nothingAside.Relates s v)
    (hDone : a.Runs → Action.outcome (x.call a s) = .ok .done) :
    SameRun nothingAside.Relates (x.call a s)
      ((x.withCommands (before ++ d :: c :: rest)).call a v) := by
  by_cases hRuns : a.Runs
  · cases a with
    | forward =>
        exact sameRun_done (hDone hRuns) fun t hRun =>
          forward_exchange hWell h hCommands hSide hKept hStates hRun
    | backward =>
        exact sameRun_done (hDone hRuns) fun t hRun =>
          backward_exchange hWell h hCommands hSide hKept hStates hRun
    | _ => exact hRuns.elim
  · exact call_sameRun _ hRuns hStates

/-- A sequence of calls is answered in the same way after the exchange. -/
theorem callAll_exchange {calls : List Call} (hKept : x.Kept target s)
    (hStates : nothingAside.Relates s v) (hDone : x.RunsSucceed calls s) :
    ((x.withCommands (before ++ d :: c :: rest)).callAll calls v).1 = (x.callAll calls s).1 ∧
      ((x.withCommands (before ++ d :: c :: rest)).callAll calls v).2.target =
        (x.callAll calls s).2.target := by
  induction calls generalizing s v with
  | nil => exact ⟨rfl, hStates.target⟩
  | cons a calls ih =>
      obtain ⟨hFirst, hRest⟩ := List.forall_mem_cons.mp hDone
      have hSame := call_exchange hWell h hCommands hSide hKept hStates hFirst
      obtain ⟨hAnswers, hTarget⟩ := ih (call_keeps hWell a s hKept).1 hSame.finalState hRest
      exact ⟨List.cons_eq_cons.mpr ⟨hSame.outcome_eq, hAnswers⟩, hTarget⟩

end Programs

end Exchange

/-! ## Exchanging neighbours of a program -/

variable {p : Program} {net : Network} {r : Request} {traces flag : Bool} {parts : Partition}
  {e f : Effects} {before rest cs : List Command}

/-- A machine is made for a program with other commands as it is for the program, if there are
as many of them. -/
theorem of_withCommands (hOf : Machine.of p net r traces = .ok x)
    (hLength : cs.length = p.commands.length) :
    Machine.of (p.withCommands cs) net r traces = .ok (x.withCommands cs) ∧
      p.forwardEnd = some x.forwardEnd := by
  obtain ⟨position, hMarker, hInside, rfl⟩ := of_eq_ok_iff.mp hOf
  exact ⟨of_eq_ok_iff.mpr ⟨position, hMarker, hLength ▸ hInside, rfl⟩, hMarker⟩

theorem Commuting.symm (h : x.Commuting c d) : x.Commuting d c :=
  ⟨h.checkRight, h.checkLeft, h.right, h.left, fun k hBoth => h.updates k hBoth.symm⟩

theorem Commuting.withCommands (h : x.Commuting c d) : (x.withCommands cs).Commuting c d :=
  ⟨h.checkLeft, h.checkRight, h.left.withCommands, h.right.withCommands, h.updates⟩

/-- Exchange two independent neighbours of an accepted program, both before the phase marker or
both after it.  The program is still accepted, and all calls are answered in the same way, with
the same network to update in the end, if the forward and backward calls among them succeed for
one of the two programs. -/
theorem independent_neighbours_commute (hBuilt : p.Built) (hAccepted : p.Accepted net r flag)
    (hOf : Machine.of p net r traces = .ok x)
    (hCommands : p.commands = before ++ c :: d :: rest)
    (hSide : before.length + 1 < x.forwardEnd ∨ x.forwardEnd < before.length)
    (hPartition : p.partition = .ok parts) (hLeft : p.commandEffects net parts c = .ok e)
    (hRight : p.commandEffects net parts d = .ok f) (hIndependent : Independent net parts c e d f) :
    (p.withCommands (before ++ d :: c :: rest)).Accepted net r flag ∧
      ∃ x', Machine.of (p.withCommands (before ++ d :: c :: rest)) net r traces = .ok x' ∧
        ∀ target calls, x.RunsSucceed calls (x.start target) ∨
            x'.RunsSucceed calls (x'.start target) →
          (x'.callAll calls (x'.start target)).1 = (x.callAll calls (x.start target)).1 ∧
            (x'.callAll calls (x'.start target)).2.target =
              (x.callAll calls (x.start target)).2.target := by
  obtain ⟨hOf', hMarker⟩ := of_withCommands hOf
    (show (before ++ d :: c :: rest).length = p.commands.length by simp [hCommands])
  obtain ⟨rfl, rfl, -⟩ := of_eq_ok hOf
  have hWell := hBuilt.wellFormed
  refine ⟨hAccepted.exchange hWell hCommands hPartition hLeft hRight hIndependent hMarker hSide,
    _, hOf', fun target calls hDone => ?_⟩
  have hOperands := checkOperands_eq_ok_iff.mp hAccepted.checkOperands
  have hCommuting : x.Commuting c d :=
    { checkLeft := hOperands before.length c (by simp [hCommands])
      checkRight := hOperands (before.length + 1) d (by simp [hCommands])
      left := apart_of_leavesAlone hIndependent.left hWell hPartition hLeft hRight
      right := apart_of_leavesAlone hIndependent.right hWell hPartition hRight hLeft
      updates := hIndependent.updates }
  have hSides : before.length + 2 ≤ x.forwardEnd + 1 ∨ x.forwardEnd + 1 ≤ before.length :=
    by omega
  have hStates : nothingAside.Relates (x.start target) (x.start target) := ⟨rfl, rfl, rfl⟩
  rcases hDone with hDone | hDone
  · exact callAll_exchange hWell hCommuting hCommands hSides (kept_start x target) hStates hDone
  · -- Exchanging the neighbours once more leads back to the first machine.
    have hBack : (x.withCommands (before ++ d :: c :: rest)).withCommands
        (before ++ c :: d :: rest) = x := by
      rw [← hCommands]
      rfl
    have hSame := callAll_exchange (x := x.withCommands (before ++ d :: c :: rest))
      (hWell.congr rfl rfl) hCommuting.symm.withCommands rfl hSides (kept_start _ target) hStates
      hDone
    rw [hBack] at hSame
    exact ⟨hSame.1.symm, hSame.2.symm⟩

/-- The value of the input is copied to the value of the output column by column. -/
def columnsProgram : Program :=
  BuildStep.runAll
    [.matrix 1 2, .matrix 1 2, .subMatrix 1 ⟨0, 1, 0, 1⟩, .subMatrix 1 ⟨0, 1, 1, 1⟩,
      .subMatrix 2 ⟨0, 1, 0, 1⟩, .subMatrix 2 ⟨0, 1, 1, 1⟩, .bind 0 1 none, .bind 1 2 none,
      .command (.allocUndefined 2), .command (.copy 5 3), .command (.copy 6 4),
      .recordedMarker, .command (.release 1)]
    .empty

/-- The machine for this program. -/
def columnsMachine : Machine :=
  { program := columnsProgram
    network := throughNetwork
    request := throughRequest
    forwardEnd := 3
    traces := true
    undefinedContents := fun _ _ _ => 0 }

theorem columns_independent (parts : Partition) :
    Independent throughNetwork parts (.copy 5 3) ⟨[0], [2], false⟩ (.copy 6 4)
      ⟨[1], [3], false⟩ where
  left := ⟨by decide, fun _ hResize => nomatch hResize⟩
  right := ⟨by decide, fun _ hResize => nomatch hResize⟩
  updates := fun _ hBoth => hBoth.1

theorem columnsMachine_runsSucceed :
    columnsMachine.RunsSucceed throughCalls (columnsMachine.start none) :=
  List.forall_mem_cons.mpr ⟨fun hRuns => hRuns.elim, List.forall_mem_cons.mpr ⟨fun _ => rfl,
    List.forall_mem_cons.mpr ⟨fun _ => rfl, List.forall_mem_cons.mpr ⟨fun hRuns => hRuns.elim,
      fun _ hMem => absurd hMem List.not_mem_nil⟩⟩⟩⟩

/-- Both orders of the columns give the same output. -/
theorem columnsMachine_commutes :
    columnsMachine.RunsSucceed throughCalls (columnsMachine.start none) ∧
      (columnsProgram.withCommands
        [.allocUndefined 2, .copy 6 4, .copy 5 3, .marker, .release 1]).Accepted throughNetwork
          throughRequest true ∧
      ∃ x', Machine.of (columnsProgram.withCommands
          [.allocUndefined 2, .copy 6 4, .copy 5 3, .marker, .release 1]) throughNetwork
            throughRequest true = .ok x' ∧
        (x'.callAll throughCalls (x'.start none)).1 =
          (columnsMachine.callAll throughCalls (columnsMachine.start none)).1 := by
  have hBuilt : columnsProgram.Built := ⟨_, rfl⟩
  have hAccepted : columnsProgram.Accepted throughNetwork throughRequest true := ⟨_, rfl⟩
  have hOf : Machine.of columnsProgram throughNetwork throughRequest true = .ok columnsMachine :=
    rfl
  have hCommands : columnsProgram.commands =
      [.allocUndefined 2] ++ .copy 5 3 :: .copy 6 4 :: [.marker, .release 1] := rfl
  obtain ⟨hExchanged, x', hOf', hSame⟩ := independent_neighbours_commute hBuilt hAccepted hOf
    hCommands (.inl (by decide)) rfl rfl rfl (columns_independent _)
  exact ⟨columnsMachine_runsSucceed, hExchanged, x', hOf',
    (hSame none throughCalls (.inl columnsMachine_runsSucceed)).1⟩

end Machine

end MatrixProgram
