import MatrixProgram.Proofs.Check.Exchange
import MatrixProgram.Proofs.Machine.Noting

/-!
# Changes on the side

What a command does is not affected by the slots of matrices that it does not own, by the
components of the network to update that it does not change, by its position and by the
journal.  An `Aside` is a change of slots and target; `Spares` says that it keeps off a
command, and `execute_follows` that the command, after it has succeeded in one state, succeeds
in the changed state too and ends up changed in the same way.

The predicate `Follows` is closed under sequencing and under lookups, and there is one lemma
for each way in which a command changes a state: `write_follows` and `changeTarget_follows`.
-/

namespace MatrixProgram

open Program

/-- If each change of a sequence succeeds wherever another one does, so does the sequence. -/
theorem Action.forM_run_of_eq_ok {σ β : Type} {g g' : β → Action σ PUnit} (xs : List β)
    (h : ∀ b ∈ xs, ∀ s t, g b s = .ok ⟨⟩ t → g' b s = .ok ⟨⟩ t) {s t : σ}
    (hRun : xs.forM g s = .ok ⟨⟩ t) : xs.forM g' s = .ok ⟨⟩ t := by
  induction xs generalizing s with
  | nil => exact hRun
  | cons b rest ih =>
      rw [Action.forM_cons_run] at hRun ⊢
      obtain ⟨_, u, hFirst, hRest⟩ := Action.bind_run_eq_ok_iff.mp hRun
      rw [Action.bind_run_ok (h b List.mem_cons_self s u hFirst)]
      exact ih (fun b' hMem => h b' (List.mem_cons_of_mem _ hMem)) hRest

/-- A change of slots and of the network to update. -/
structure Aside where
  slots : Slots → Slots
  target : Option Network → Option Network

/-- The second state is the first one with the change, up to the journal. -/
structure Aside.Relates (f : Aside) (s s' : MachineState) : Prop where
  slots : s'.slots = f.slots s.slots
  target : s'.target = f.target s.target
  phase : s'.phase = s.phase

/-- A change keeps off the matrices and the component that a command works with. -/
structure Aside.Spares (f : Aside) (p : Program) (net : Network) (c : Command) : Prop where
  length : ∀ slots, (f.slots slots).entries.length = slots.entries.length
  slot : ∀ slots {m}, p.Owns c m → (f.slots slots).entries[m]? = slots.entries[m]?
  put : ∀ slots {m} b, p.Owns c m ∨ c.resized? = some m →
    f.slots (slots.put m b) = (f.slots slots).put m b
  target : ∀ {k}, c.Updates net k → ∃ g : Network → Network, f.target = Option.map g ∧
    ∀ {change n n'}, Network.changeComponent k change n = .ok () n' →
      Network.changeComponent k change (g n) = .ok () (g n')

/-- The second action succeeds wherever the first one does, from the changed state to the
changed state. -/
def Follows {α : Type} (f : Aside) (act act' : MachineAction α) : Prop :=
  ∀ ⦃s s' t : MachineState⦄ ⦃a : α⦄, f.Relates s s' → act s = .ok a t →
    ∃ t', act' s' = .ok a t' ∧ f.Relates t t'

namespace Follows

variable {α β : Type} {f : Aside}

theorem pure (a : α) : Follows f (Pure.pure a : MachineAction α) (Pure.pure a) := by
  intro s s' t b hStates hRun
  cases hRun
  exact ⟨s', rfl, hStates⟩

theorem ofExcept {check check' : Except Error α} (h : ∀ a, check = .ok a → check' = .ok a) :
    Follows f (Action.ofExcept check) (Action.ofExcept check') := by
  intro s s' t a hStates hRun
  obtain ⟨hCheck, rfl⟩ := Action.ofExcept_run_eq_ok_iff.mp hRun
  exact ⟨s', by rw [h a hCheck, Action.ofExcept_ok], hStates⟩

theorem bind {first first' : MachineAction α} {next next' : α → MachineAction β}
    (hFirst : Follows f first first') (hNext : ∀ a, Follows f (next a) (next' a)) :
    Follows f (first >>= next) (first' >>= next') := by
  intro s s' u b hStates hRun
  obtain ⟨a, t, hRunFirst, hRunNext⟩ := Action.bind_run_eq_ok_iff.mp hRun
  obtain ⟨t', hFirst', hBetween⟩ := hFirst hStates hRunFirst
  rw [Action.bind_run_ok hFirst']
  exact hNext a hBetween hRunNext

/-- After the same lookup. -/
theorem lookup (check : Except Error α) {next next' : α → MachineAction β}
    (h : ∀ a, check = .ok a → Follows f (next a) (next' a)) :
    Follows f (Action.ofExcept check >>= next) (Action.ofExcept check >>= next') := by
  cases check with
  | ok a => exact h a rfl
  | error err =>
      intro s s' t b _ hRun
      cases hRun

theorem forM {g g' : β → MachineAction Unit} (xs : List β)
    (h : ∀ b ∈ xs, Follows f (g b) (g' b)) : Follows f (xs.forM g) (xs.forM g') := by
  induction xs with
  | nil => exact Follows.pure ()
  | cons b rest ih =>
      have hRest := ih fun b' hMem => h b' (List.mem_cons_of_mem _ hMem)
      exact Follows.bind (h b List.mem_cons_self) fun _ => hRest

end Follows

namespace Machine

variable {x : Machine} {c : Command} {f : Aside} {i j : Nat} {α : Type}

/-- A sub-matrix of a matrix that is spared is viewed in the same way. -/
theorem view?_spared {slots slots' : Slots} {sub : Nat}
    (h : ∀ view, x.program.subMatrix sub = .ok view →
      slots'.entries[view.matrix]? = slots.entries[view.matrix]?) :
    slots'.view? x.program sub = slots.view? x.program sub := by
  unfold Slots.view?
  split
  · rfl
  · cases hView : x.program.subMatrix sub with
    | error err => rfl
    | ok view => simp only [Action.check_ok_bind, Slots.read, Slots.buffer?, h view hView]

section Commands

variable (hSpares : f.Spares x.program x.network c)

include hSpares

theorem view?_aside (slot : Slot) {sub : Nat} (hNames : x.program.Names c slot sub)
    (slots : Slots) :
    (f.slots slots).view? x.program sub = slots.view? x.program sub :=
  view?_spared fun view hView => hSpares.slot slots (owns_of_names hNames view hView)

/-- Writing an owned sub-matrix, from operands that are spared. -/
theorem write_follows (slot : Slot) {dst : Nat} {operands : Slots → Except Error α}
    {w w' : α → {rows cols : Nat} → Region → Write rows cols}
    (hNames : x.program.Names c slot dst)
    (hOperands : ∀ slots, operands (f.slots slots) = operands slots)
    (hSame : ∀ a (rows cols : Nat) g values values',
      (w a g : Write rows cols) values = .ok () values' → w' a g values = .ok () values') :
    Follows f (x.write dst operands w) (x.write dst operands w') := by
  intro s s' t u hStates hRun
  unfold write at hRun ⊢
  cases hView : x.program.subMatrix dst with
  | error err => simp [hView] at hRun
  | ok view =>
      have hOwned := owns_of_names hNames view hView
      rw [hView] at hRun
      dsimp only at hRun ⊢
      rw [hStates.slots, hSpares.slot _ hOwned, hOperands]
      rcases hEntry : s.slots.entries[view.matrix]? with _ | _ | b
      · simp [hEntry] at hRun
      · simp [hEntry] at hRun
      · rw [hEntry] at hRun
        dsimp only at hRun ⊢
        cases hFound : operands s.slots with
        | error err => simp [hFound] at hRun
        | ok a =>
            rw [hFound] at hRun
            dsimp only [Write.inWindow] at hRun ⊢
            split at hRun
            · rename_i hFits
              rw [if_pos hFits]
              cases hWrite : (w a view.region : Write b.numRows b.numCols) b.values with
              | error err values => simp [hWrite, Action.mapState] at hRun
              | ok v values =>
                  rw [hWrite] at hRun
                  rw [hSame a _ _ _ _ _ hWrite]
                  cases hRun
                  exact ⟨_, rfl, (hSpares.put _ _ (.inl hOwned)).symm, hStates.target,
                    hStates.phase⟩
            · simp [Action.mapState] at hRun

/-- Writing an owned sub-matrix from a single source that is spared. -/
theorem writeFrom_follows (slot slot' : Slot) {dst src : Nat} {role : Role}
    {w : View → {rows cols : Nat} → Region → Write rows cols}
    (hNames : x.program.Names c slot dst) (hSrc : x.program.Names c slot' src) :
    Follows f (x.writeFrom dst src role w) (x.writeFrom dst src role w) := by
  rw [writeFrom_eq]
  exact write_follows hSpares slot hNames (view?_aside hSpares slot' hSrc)
    fun _ _ _ _ _ _ hRun => hRun

/-- A change of the target that comes to a change of a component which the command updates. -/
theorem changeTarget_follows {k : Nat} (hUpdates : c.Updates x.network k)
    {change change' : Network → MachineState → EStateM.Result Error Network Unit}
    (hSame : ∀ {s s' net net'}, f.Relates s s' → change net s = .ok () net' →
      ∃ act, change net s = Network.changeComponent k act net ∧
        ∀ n, change' n s' = Network.changeComponent k act n) :
    Follows f (changeTarget change) (changeTarget change') := by
  intro s s' t u hStates hRun
  obtain ⟨g, hMap, hKeeps⟩ := hSpares.target hUpdates
  have hTarget := hStates.target
  rw [hMap] at hTarget
  unfold changeTarget at hRun ⊢
  cases hOld : s.target with
  | none =>
      rw [hOld] at hRun hTarget
      cases hRun
      exact ⟨s', by rw [hTarget]; rfl, hStates⟩
  | some net =>
      rw [hOld] at hRun hTarget
      dsimp only at hRun
      cases hChange : change net s with
      | error err net' => simp [hChange, Action.mapState] at hRun
      | ok v net' =>
          rw [hChange] at hRun
          cases hRun
          obtain ⟨act, hAct, hAct'⟩ := hSame hStates hChange
          have hRun' := hKeeps (hAct.symm.trans hChange)
          refine ⟨{ s' with target := some (g net') }, ?_, hStates.slots, ?_, hStates.phase⟩
          · rw [hTarget]
            simp only [Option.map_some, hAct', hRun', Action.mapState]
          · rw [hMap]
            rfl

/-! ## The schemes of commands -/

theorem allocate_follows {m : Nat} {contents : Nat → Nat → Float32}
    (hResize : c.resized? = some m) :
    Follows f (x.allocate m contents) (x.allocate m contents) := by
  refine Follows.lookup (x.program.matrix m) fun shape _ => ?_
  intro s s' t u hStates hRun
  cases hRun
  refine ⟨_, rfl, ?_, hStates.target, hStates.phase⟩
  show s'.slots.put m _ = f.slots (s.slots.put m _)
  rw [hSpares.put _ _ (.inr hResize), hStates.slots]

theorem release_follows {m : Nat} (hResize : c.resized? = some m) :
    Follows f (release i m) (release j m) := by
  intro s s' t u hStates hRun
  have hLength : s'.slots.entries.length = s.slots.entries.length := by
    rw [hStates.slots, hSpares.length]
  simp only [release, Action.bind_run, Action.get_run, hLength] at hRun ⊢
  split at hRun
  · rename_i hLt
    rw [if_pos hLt]
    cases hRun
    refine ⟨_, rfl, ?_, hStates.target, hStates.phase⟩
    show s'.slots.put m none = f.slots (s.slots.put m none)
    rw [hSpares.put _ _ (.inr hResize), hStates.slots]
  · cases hRun

omit hSpares in
theorem precomputedRows_of_eq_ok {precomputed : Option Nat} {rows : Option (List Nat)}
    (h : x.precomputedRows i precomputed = .ok rows) :
    x.precomputedRows j precomputed = .ok rows := by
  unfold precomputedRows at h ⊢
  cases precomputed with
  | none => exact h
  | some table =>
      cases hRows : x.program.precomputed[table]? with
      | none => simp [hRows] at h
      | some found => simpa [hRows] using h

omit hSpares in
/-- A table is found for a command at one position as at any other. -/
theorem tableAt_follows {β γ : Type} {tables : List β} {table : Nat} {kind : TableKind}
    {next next' : β → MachineAction γ}
    (h : ∀ rows, tables[table]? = some rows → Follows f (next rows) (next' rows)) :
    Follows f (Action.ofExcept (tableAt tables table i kind) >>= next)
      (Action.ofExcept (tableAt tables table j kind) >>= next') := by
  cases hRows : tables[table]? with
  | none =>
      intro s s' t u _ hRun
      simp [tableAt, hRows, Action.bind_run] at hRun
  | some rows =>
      rw [tableAt_of_getElem? hRows, tableAt_of_getElem? hRows]
      exact h rows hRows

omit hSpares in
/-- Only the error of a missing view mentions the position of the command. -/
theorem gatherRow_of_eq_ok {rows cols row : Nat} {copies : Bool}
    {views : List (Nat × Option View)} {g : Region} {pair : Option (Nat × Nat)}
    {values values' : Dense rows cols}
    (h : gatherRow i copies views row g pair values = .ok () values') :
    gatherRow j copies views row g pair values = .ok () values' := by
  cases pair with
  | none => exact h
  | some entry =>
      obtain ⟨sub, srcRow⟩ := entry
      rw [gatherRow_some] at h ⊢
      cases hFound : views.lookup sub with
      | none => simp [hFound] at h
      | some operand => simpa [hFound] using h

theorem gather_follows (slot : Slot) {dst table : Nat} {copies : Bool}
    (hTable : c.pairTable? = some table) (hNames : x.program.Names c slot dst) :
    Follows f (x.gather i copies dst table) (x.gather j copies dst table) := by
  rw [gather_eq, gather_eq]
  refine tableAt_follows fun pairs hPairs => ?_
  refine write_follows hSpares slot hNames ?_ ?_
  · intro slots
    refine Action.check_mapM_congr fun sub hMem => ?_
    obtain ⟨row, hEntry⟩ := mem_pairSubMatrices_iff.mp hMem
    rw [view?_aside hSpares .pairRows (.pairRow hTable hPairs hEntry)]
  · intro views rows cols g values values' hRun
    exact Action.forM_run_of_eq_ok _ (fun _ _ _ _ => gatherRow_of_eq_ok) hRun

theorem scatter_follows {src table : Nat} {copies : Bool}
    (hTable : c.pairTable? = some table) (hOperand : c.operand? .src = some src) :
    Follows f (x.scatter i copies src table) (x.scatter j copies src table) := by
  refine tableAt_follows fun pairs hPairs => ?_
  refine Follows.lookup (x.program.subMatrix src) fun source hSource => ?_
  have hTarget : ∀ entry ∈ pairs.zipIdx, ∀ dst dstRow, entry.1 = some (dst, dstRow) →
      x.program.Names c .pairRows dst := by
    rintro ⟨pair, row⟩ hMem dst dstRow rfl
    have hEntry := List.mem_of_getElem? (List.mem_zipIdx_iff_getElem?.mp hMem)
    exact .pairRow hTable hPairs hEntry
  split
  · -- Both runs take the same copy first.
    intro s s' t u hStates hRun
    have hOwned := owns_of_names (.operand hOperand) source hSource
    have hRead : s'.slots.read source.matrix = s.slots.read source.matrix := by
      rw [hStates.slots, Slots.read, Slots.read, Slots.buffer?, Slots.buffer?,
        hSpares.slot _ hOwned]
    rw [Action.bind_run, Action.get_run] at hRun ⊢
    dsimp only at hRun ⊢
    rw [hRead]
    refine Follows.lookup (s.slots.read source.matrix) (fun b _ => ?_) hStates hRun
    refine Follows.forM _ fun entry hMem => ?_
    obtain ⟨pair, row⟩ := entry
    cases pair with
    | none => exact Follows.pure ()
    | some target =>
        refine Follows.lookup (View.of b source.region) fun v _ => ?_
        rw [withViews_nil]
        exact write_follows hSpares .pairRows (hTarget _ hMem _ _ rfl) (fun _ => rfl)
          fun _ _ _ _ _ _ hRun => hRun
  · refine Follows.forM _ fun entry hMem => ?_
    obtain ⟨pair, row⟩ := entry
    cases pair with
    | none => exact Follows.pure ()
    | some target =>
        exact writeFrom_follows hSpares .pairRows .src (hTarget _ hMem _ _ rfl)
          (.operand hOperand)

theorem storeStats_follows {k value : Nat} (hUpdates : c.Updates x.network k)
    (hValue : ∀ slots, (f.slots slots).view? x.program value = slots.view? x.program value) :
    Follows f (x.storeStats i k value) (x.storeStats j k value) := by
  unfold storeStats
  split
  · refine changeTarget_follows hSpares hUpdates fun {s s' net net'} hStates hRun => ?_
    rw [hStates.slots, hValue]
    cases hView : s.slots.view? x.program value with
    | error err => simp [hView] at hRun
    | ok operand =>
        cases operand with
        | none => simp [hView] at hRun
        | some v => exact ⟨_, rfl, fun _ => rfl⟩
  · exact Follows.pure ()

theorem updateTarget_follows {k inValue outDeriv : Nat} {rows : Option (List Nat)}
    (hUpdates : c.Updates x.network k)
    (hIn : ∀ slots, (f.slots slots).view? x.program inValue = slots.view? x.program inValue)
    (hOut : ∀ slots, (f.slots slots).view? x.program outDeriv = slots.view? x.program outDeriv) :
    Follows f (x.updateTarget i k rows inValue outDeriv)
      (x.updateTarget j k rows inValue outDeriv) := by
  refine changeTarget_follows hSpares hUpdates fun {s s' net net'} hStates hRun => ?_
  rw [hStates.slots, hIn, hOut]
  cases hInView : s.slots.view? x.program inValue with
  | error err => simp [hInView] at hRun
  | ok inView =>
      cases hOutView : s.slots.view? x.program outDeriv with
      | error err => simp [hInView, hOutView] at hRun
      | ok outView =>
          cases outView with
          | none => simp [hInView, hOutView] at hRun
          | some v => exact ⟨_, rfl, fun _ => rfl⟩

omit hSpares in
theorem backprop_follows {node k inValue outValue outDeriv inDeriv : Nat}
    {precomputed : Option Nat}
    (hSpares : f.Spares x.program x.network
      (.backprop node k precomputed inValue outValue outDeriv inDeriv)) :
    Follows f (x.backprop i k precomputed inValue outValue outDeriv inDeriv)
      (x.backprop j k precomputed inValue outValue outDeriv inDeriv) := by
  have hIn := view?_aside hSpares .inValue (.operand rfl)
  have hOutValue := view?_aside hSpares .outValue (.operand rfl)
  have hOutDeriv := view?_aside hSpares .outDeriv (.operand rfl)
  rw [backprop_eq, backprop_eq]
  refine Follows.lookup (x.network.component k) fun component hComponent => ?_
  refine Follows.bind (Follows.ofExcept fun rows => precomputedRows_of_eq_ok) fun rows => ?_
  refine Follows.bind ?_ fun _ => ?_
  · split
    · rename_i hUpdatable
      exact updateTarget_follows hSpares ⟨rfl, component, hComponent, hUpdatable⟩ hIn hOutDeriv
    · exact Follows.pure ()
  · unfold writeInDeriv
    split
    · refine write_follows hSpares .inDeriv (.operand rfl) ?_ fun _ _ _ _ _ _ hRun => hRun
      intro slots
      simp only [backpropViews, hIn, hOutValue, hOutDeriv]
    · exact Follows.pure ()

/-! ## All commands -/

/-- A command does the same on the side of a change that spares it, at any position. -/
theorem perform_follows (i j : Nat) : Follows f (x.perform i c) (x.perform j c) := by
  cases c with
  | allocZeroed m => exact allocate_follows hSpares rfl
  | allocUndefined m => exact allocate_follows hSpares rfl
  | release m => exact release_follows hSpares rfl
  | propagate k precomputed input output =>
      refine Follows.lookup (x.network.component k) fun component _ => ?_
      refine Follows.bind (Follows.ofExcept fun rows => precomputedRows_of_eq_ok) fun rows => ?_
      exact writeFrom_follows hSpares .output .input (.operand rfl) (.operand rfl)
  | storeStats k value =>
      exact storeStats_follows hSpares rfl (view?_aside hSpares .value (.operand rfl))
  | backprop node k precomputed inValue outValue outDeriv inDeriv =>
      exact backprop_follows hSpares
  | copy dst src => exact writeFrom_follows hSpares .dst .src (.operand rfl) (.operand rfl)
  | add dst src => exact writeFrom_follows hSpares .dst .src (.operand rfl) (.operand rfl)
  | gatherAdd dst src table =>
      refine tableAt_follows fun rows _ => ?_
      exact writeFrom_follows hSpares .dst .src (.operand rfl) (.operand rfl)
  | gatherCopy dst src table =>
      refine tableAt_follows fun rows _ => ?_
      exact writeFrom_follows hSpares .dst .src (.operand rfl) (.operand rfl)
  | gatherAddMany dst table => exact gather_follows hSpares .dst rfl (.operand rfl)
  | gatherCopyMany dst table => exact gather_follows hSpares .dst rfl (.operand rfl)
  | scatterAdd src table => exact scatter_follows hSpares rfl rfl
  | scatterCopy src table => exact scatter_follows hSpares rfl rfl
  | sumRanges dst src table =>
      refine tableAt_follows fun rows _ => ?_
      exact writeFrom_follows hSpares .dst .src (.operand rfl) (.operand rfl)
  | skip => exact Follows.pure ()
  | marker => exact Follows.pure ()

theorem execute_follows (i j : Nat) : Follows f (x.execute i c) (x.execute j c) := by
  intro s s' t _ hStates hRun
  obtain ⟨u, hPerform, hSlots, hTarget, hPhase⟩ := perform_of_execute hRun
  obtain ⟨u', hPerform', hAfter⟩ := perform_follows hSpares i j hStates hPerform
  obtain ⟨journal, hRun'⟩ := execute_run_of_perform hPerform'
  refine ⟨_, hRun', ?_, ?_, ?_⟩
  · rw [hSlots]
    exact hAfter.slots
  · rw [hTarget]
    exact hAfter.target
  · rw [hPhase]
    exact hAfter.phase

end Commands

end Machine

/-! ## Edits of the network to update -/

namespace Network

/-- Leave a network as it is, or replace the component of an index. -/
def edit (net : Network) : Option (Nat × String × Component) → Network
  | none => net
  | some (k, entry) => { net with components := net.components.set k entry }

theorem exists_edit_of_changeComponent {k : Nat} {change : Action Component Unit}
    {net net' : Network} (h : changeComponent k change net = .ok () net') :
    ∃ entry, net' = net.edit (some (k, entry)) := by
  unfold changeComponent at h
  split at h
  · rename_i name component hGet
    cases hChange : change component with
    | error err c' => simp [hChange, Action.mapState] at h
    | ok u c' =>
        rw [hChange] at h
        cases h
        exact ⟨(name, c'), rfl⟩
  · cases h

/-- The change of a component does not see the edit of another one. -/
theorem changeComponent_edit {k : Nat} {change : Action Component Unit} {net net' : Network}
    {e : Option (Nat × String × Component)} (hOther : ∀ entry, e ≠ some (k, entry))
    (h : changeComponent k change net = .ok () net') :
    changeComponent k change (net.edit e) = .ok () (net'.edit e) := by
  cases e with
  | none => exact h
  | some found =>
      obtain ⟨l, entry⟩ := found
      have hNe : l ≠ k := fun hEq => hOther entry (by rw [hEq])
      unfold changeComponent at h ⊢
      simp only [edit, List.getElem?_set_ne hNe, List.length_set]
      cases hGet : net.components[k]? with
      | none => simp [hGet] at h
      | some old =>
          simp only [hGet] at h ⊢
          cases hChange : change old.2 with
          | error err c' => simp [hChange, Action.mapState] at h
          | ok u c' =>
              simp only [hChange, Action.mapState] at h ⊢
              cases h
              simp only [List.set_comm _ _ hNe]

/-- An edit can be undone. -/
theorem exists_edit_edit (net : Network) (e : Option (Nat × String × Component)) :
    ∃ old, (net.edit e).edit old = net ∧ ∀ k entry, old = some (k, entry) →
      ∃ entry', e = some (k, entry') := by
  cases e with
  | none => exact ⟨none, rfl, fun _ _ hSome => by cases hSome⟩
  | some found =>
      obtain ⟨k, entry⟩ := found
      cases hOld : net.components[k]? with
      | none =>
          have hLe : net.components.length ≤ k := List.getElem?_eq_none_iff.mp hOld
          refine ⟨none, ?_, fun _ _ hSome => by cases hSome⟩
          simp only [edit, List.set_eq_of_length_le hLe]
      | some old =>
          refine ⟨some (k, old), ?_, fun _ _ hSome => by cases hSome; exact ⟨entry, rfl⟩⟩
          obtain ⟨hLt, rfl⟩ := List.getElem?_eq_some_iff.mp hOld
          simp only [edit, List.set_set, List.set_getElem_self]

/-- Edits of different components commute. -/
theorem edit_comm (net : Network) {e e' : Option (Nat × String × Component)}
    (h : ∀ k entry entry', ¬(e = some (k, entry) ∧ e' = some (k, entry'))) :
    (net.edit e).edit e' = (net.edit e').edit e := by
  rcases e with _ | ⟨k, entry⟩
  · rfl
  · rcases e' with _ | ⟨l, entry'⟩
    · rfl
    · have hNe : k ≠ l := by
        rintro rfl
        exact h k entry entry' ⟨rfl, rfl⟩
      simp only [edit, List.set_comm _ _ hNe]

/-- The edit of the network to update can be undone. -/
theorem exists_map_edit (target : Option Network) (e : Option (Nat × String × Component)) :
    ∃ old, (target.map fun net => net.edit e).map (fun net => net.edit old) = target ∧
      ∀ k entry, old = some (k, entry) → ∃ entry', e = some (k, entry') := by
  cases target with
  | none => exact ⟨none, rfl, fun _ _ hSome => by cases hSome⟩
  | some net =>
      obtain ⟨old, hUndo, hOnly⟩ := net.exists_edit_edit e
      exact ⟨old, congrArg some hUndo, hOnly⟩

/-- Of two edits of different components the second one is the same whether or not the first
one has been undone. -/
theorem map_edit_eq {target : Option Network} {e e' e'' old : Option (Nat × String × Component)}
    (hOld : (target.map fun net => net.edit e).map (fun net => net.edit old) = target)
    (hApart : ∀ k entry entry', ¬(e' = some (k, entry) ∧ old = some (k, entry')))
    (hApart' : ∀ k entry entry', ¬(e = some (k, entry) ∧ e' = some (k, entry')))
    (hApart'' : ∀ k entry entry', ¬(e = some (k, entry) ∧ e'' = some (k, entry')))
    (h : ((target.map fun net => net.edit e).map fun net => net.edit e').map
      (fun net => net.edit old) = target.map fun net => net.edit e'') :
    (target.map fun net => net.edit e).map (fun net => net.edit e'') =
      (target.map fun net => net.edit e).map fun net => net.edit e' := by
  cases target with
  | none => rfl
  | some net =>
      simp only [Option.map_some, Option.some.injEq] at hOld h ⊢
      rw [edit_comm _ hApart, hOld] at h
      rw [edit_comm net hApart'', edit_comm net hApart', h]

end Network

namespace Machine

variable {x : Machine} {c : Command} {i m : Nat} {b : Option Buffer} {s t : MachineState}
  {e : Option (Nat × String × Component)}

/-! ## Changes that spare a command -/

/-- No change at all. -/
def nothingAside : Aside :=
  ⟨id, id⟩

/-- A change of the network to update alone. -/
def targetAside (g : Option Network → Option Network) : Aside :=
  ⟨id, g⟩

theorem nothingAside_spares : nothingAside.Spares x.program x.network c where
  length := fun _ => rfl
  slot := fun _ _ _ => rfl
  put := fun _ _ _ _ => rfl
  target := fun _ => ⟨id, Option.map_id.symm, fun hRun => hRun⟩

/-- The change of the slot of a matrix. -/
def slotAside (m : Nat) (b : Option Buffer) : Aside :=
  ⟨fun slots => slots.put m b, id⟩

theorem slotAside_spares (hOwns : ¬x.program.Owns c m) (hResize : c.resized? ≠ some m) :
    (slotAside m b).Spares x.program x.network c where
  length := fun slots => List.length_set
  slot := by
    intro slots k hOwned
    have hNe : m ≠ k := fun hEq => hOwns (hEq ▸ hOwned)
    exact List.getElem?_set_ne hNe
  put := by
    intro slots k b' hEither
    have hNe : k ≠ m := by
      rintro rfl
      exact hEither.elim hOwns hResize
    simp only [slotAside, Slots.put, List.set_comm _ _ hNe]
  target := fun _ => ⟨id, Option.map_id.symm, fun hRun => hRun⟩

/-- The edit of the network to update. -/
def editAside (e : Option (Nat × String × Component)) : Aside :=
  ⟨id, Option.map fun net => net.edit e⟩

theorem editAside_spares (h : ∀ k entry, e = some (k, entry) → ¬c.Updates x.network k) :
    (editAside e).Spares x.program x.network c where
  length := fun _ => rfl
  slot := fun _ _ _ => rfl
  put := fun _ _ _ _ => rfl
  target := fun {k} hUpdates => ⟨_, rfl, Network.changeComponent_edit
    fun entry hEdit => h k entry hEdit hUpdates⟩

/-- A command that updates no component does not see the network to update. -/
theorem targetAside_spares {g : Option Network → Option Network}
    (hNone : ∀ k, ¬c.Updates x.network k) : (targetAside g).Spares x.program x.network c :=
  ⟨fun _ => rfl, fun _ _ _ => rfl, fun _ _ _ _ => rfl, fun hUpdates => absurd hUpdates (hNone _)⟩

/-- A command that updates no component leaves the network to update as it is. -/
theorem target_of_not_updates (hNone : ∀ k, ¬c.Updates x.network k)
    (hRun : x.execute i c s = .ok () t) : t.target = s.target := by
  obtain ⟨t', hRun', hStates⟩ := execute_follows (targetAside_spares (g := fun _ => s.target) hNone)
    i i ⟨rfl, rfl, rfl⟩ hRun
  cases hRun.symm.trans hRun'
  exact hStates.target

/-- A change of the target by the change of a component edits that component. -/
theorem changeTarget_edits {k : Nat}
    {change : Network → MachineState → EStateM.Result Error Network Unit}
    (h : ∀ net net', change net s = .ok () net' →
      ∃ act, Network.changeComponent k act net = .ok () net')
    (hRun : changeTarget change s = .ok () t) :
    ∃ e, t.target = s.target.map (fun net => net.edit e) ∧
      ∀ l entry, e = some (l, entry) → l = k := by
  unfold changeTarget at hRun
  cases hTarget : s.target with
  | none =>
      rw [hTarget] at hRun
      cases hRun
      exact ⟨none, hTarget, fun _ _ hSome => by cases hSome⟩
  | some net =>
      rw [hTarget] at hRun
      dsimp only at hRun
      cases hChange : change net s with
      | error err net' => simp [hChange, Action.mapState] at hRun
      | ok u net' =>
          rw [hChange] at hRun
          cases hRun
          obtain ⟨act, hAct⟩ := h net net' hChange
          obtain ⟨entry, rfl⟩ := Network.exists_edit_of_changeComponent hAct
          exact ⟨some (k, entry), rfl, fun _ _ hSome => by cases hSome; rfl⟩

theorem storeStats_edits {k value : Nat} (hRun : x.storeStats i k value s = .ok () t) :
    ∃ e, t.target = s.target.map (fun net => net.edit e) ∧
      ∀ l entry, e = some (l, entry) → l = k := by
  unfold storeStats at hRun
  split at hRun
  · refine changeTarget_edits (fun net net' hChange => ?_) hRun
    split at hChange
    · cases hChange
    · cases hChange
    · exact ⟨_, hChange⟩
  · cases hRun
    exact ⟨none, Option.map_id'.symm, fun _ _ hSome => by cases hSome⟩

theorem updateTarget_edits {k inValue outDeriv : Nat} {rows : Option (List Nat)}
    (hRun : x.updateTarget i k rows inValue outDeriv s = .ok () t) :
    ∃ e, t.target = s.target.map (fun net => net.edit e) ∧
      ∀ l entry, e = some (l, entry) → l = k := by
  refine changeTarget_edits (fun net net' hChange => ?_) hRun
  split at hChange
  · cases hChange
  · cases hChange
  · cases hChange
  · exact ⟨_, hChange⟩

theorem backprop_edits {node k inValue outValue outDeriv inDeriv : Nat}
    {precomputed : Option Nat} {component : Component}
    (hComponent : x.network.component k = .ok component)
    (hUpdatable : component.capabilities.updatable = true)
    (hRun : x.execute i (.backprop node k precomputed inValue outValue outDeriv inDeriv) s =
      .ok () t) :
    ∃ e, t.target = s.target.map (fun net => net.edit e) ∧
      ∀ l entry, e = some (l, entry) → l = k := by
  obtain ⟨_, u, hPerform, -⟩ := Action.bind_run_eq_ok_iff.mp hRun
  rw [perform, backprop_eq, hComponent, Action.ofExcept_ok_bind] at hPerform
  obtain ⟨rows, s', hRows, hRest⟩ := Action.bind_run_eq_ok_iff.mp hPerform
  obtain ⟨hFound, hKept⟩ := Action.ofExcept_run_eq_ok_iff.mp hRows
  rw [if_pos hUpdatable, hKept] at hRest
  obtain ⟨_, v, hUpdate, -⟩ := Action.bind_run_eq_ok_iff.mp hRest
  obtain ⟨e, hEdit, hOnly⟩ := updateTarget_edits hUpdate
  refine ⟨e, ?_, hOnly⟩
  calc
    t.target = (Action.finalState (x.execute i
        (.backprop node k precomputed inValue outValue outDeriv inDeriv) s)).target := by
      rw [hRun]
      rfl
    _ = (Action.finalState (x.updateTarget i k rows inValue outDeriv s)).target :=
      target_finalState_backprop hComponent hUpdatable hFound
    _ = v.target := by
      rw [hUpdate]
      rfl
    _ = s.target.map (fun net => net.edit e) := hEdit

/-- A command edits the network to update, at a component that it updates, or leaves it as it
is. -/
theorem execute_edits (hRun : x.execute i c s = .ok () t) :
    ∃ e, t.target = s.target.map (fun net => net.edit e) ∧
      ∀ k entry, e = some (k, entry) → c.Updates x.network k := by
  by_cases hUpdates : ∃ k, c.Updates x.network k
  · obtain ⟨k, hUpdates⟩ := hUpdates
    have hEdits : ∃ e, t.target = s.target.map (fun net => net.edit e) ∧
        ∀ l entry, e = some (l, entry) → l = k := by
      cases c with
      | storeStats k' value =>
          obtain rfl : k' = k := hUpdates
          obtain ⟨_, u, hPerform, -⟩ := Action.bind_run_eq_ok_iff.mp hRun
          obtain ⟨e, hEdit, hOnly⟩ := storeStats_edits hPerform
          refine ⟨e, ?_, hOnly⟩
          calc
            t.target = (Action.finalState (x.execute i (.storeStats k' value) s)).target := by
              rw [hRun]
              rfl
            _ = (Action.finalState (x.perform i (.storeStats k' value) s)).target :=
              target_finalState_execute
            _ = u.target := by
              rw [hPerform]
              rfl
            _ = s.target.map (fun net => net.edit e) := hEdit
      | backprop node k' precomputed inValue outValue outDeriv inDeriv =>
          obtain ⟨rfl, component, hComponent, hUpdatable⟩ := hUpdates
          exact backprop_edits hComponent hUpdatable hRun
      | _ => exact hUpdates.elim
    obtain ⟨e, hEdit, hOnly⟩ := hEdits
    exact ⟨e, hEdit, fun l entry hSome => hOnly l entry hSome ▸ hUpdates⟩
  · have hSame := target_of_not_updates (fun k hSome => hUpdates ⟨k, hSome⟩) hRun
    exact ⟨none, hSame.trans Option.map_id'.symm, fun _ _ hSome => by cases hSome⟩

end Machine

end MatrixProgram
