import MatrixProgram.Proofs.Kernel.Bounds
import MatrixProgram.Proofs.Machine.Calls

/-!
# Storage of machines, checked or not

Whatever the commands of a built program are, and whichever calls a machine is given, what a
slot holds has the declared shape and the slot of the empty matrix is free, `Kept`.  No check
of the program is needed for that: a command that computes changes the elements of buffers
only, `perform_keepsShapes`, and the other ones and the calls fill slots with buffers whose
shape they have tried.

The invariant is kept by calls and commands that fail, so it holds of every state that a
machine can be in, `Reachable.kept`.  It follows that every view is in bounds and that
`storage_contained` holds.
-/

namespace MatrixProgram

namespace Action

theorem Allowed.map {α β : Type} {a : Prop} {check : Except Error α} (f : α → β)
    (h : Allowed a check) : Allowed a (f <$> check) := by
  intro err hErr
  cases check with
  | ok x => cases hErr
  | error err' =>
      cases hErr
      exact h _ rfl

theorem Allowed.imp {α : Type} {a b : Prop} {check : Except Error α} (h : Allowed a check)
    (hImp : b → a) : Allowed b check :=
  fun err hErr => (h err hErr).imp hImp

end Action

namespace Machine

open Program Kernel

variable {x : Machine} {c : Command} {index : Nat} {s : MachineState} {α β : Type}

/-! ## Commands that compute -/

/-- Every element of every matrix. -/
def everyElement : ElementSet :=
  fun _ _ _ => True

/-- An action may change every element, but not the shapes of what is stored, and no error of
it is out of bounds. -/
def KeepsShapes (x : Machine) (act : MachineAction α) : Prop :=
  Behaves x.program (fun _ => True) everyElement everyElement everyElement act

section Computing

variable (hWell : x.program.WellFormed)

include hWell

theorem view?_readable (s : Nat) :
    Reads x.program (fun _ => True) everyElement (Option.map View.copied)
      (fun slots => slots.view? x.program s) :=
  view?_reads hWell s (fun _ _ => trivial) fun _ _ _ _ _ => trivial

theorem write_keepsShapes {dst : Nat} {operands : Slots → Except Error α} {norm : α → α}
    {w : α → {rows cols : Nat} → Region → Write rows cols}
    (hReads : Reads x.program (fun _ => True) everyElement norm operands)
    (hNorm : ∀ a (rows cols : Nat) g, (w (norm a) g : Write rows cols) = w a g)
    (hSets : ∀ slots a, operands slots = .ok a → ∀ (rows cols : Nat) g,
      ∃ set, Write.Sets g set (w a g : Write rows cols)) :
    x.KeepsShapes (x.write dst operands w) := by
  have hNoRow : ∀ slots a, operands slots = .ok a → ∀ (rows cols : Nat) g,
      Write.Sets g (fun _ => False) (w a g : Write rows cols) := by
    intro slots a hOperands rows cols g
    obtain ⟨set, hSet⟩ := hSets slots a hOperands rows cols g
    exact hSet.mono fun _ hNever => hNever.elim
  exact write_behaves hWell (fun _ _ => trivial) (fun _ _ _ _ _ => trivial) hReads hNorm hNoRow
    fun _ _ _ _ _ _ _ _ => .inl trivial

/-- A primitive of a single source, which is looked up in the slots. -/
theorem writePrimitive_keepsShapes {dst src : Nat} {role : Role} (prim : View → Primitive)
    (hViews : ∀ v, prim v.copied = (prim v).mapViews View.copied) :
    x.KeepsShapes (x.writeFrom dst src role fun v _ _ g => (prim v).run g) := by
  rw [writeFrom_eq]
  refine write_keepsShapes hWell (view?_readable hWell src) ?_ ?_
  · intro operand _ _ g
    refine required_copied (fun v => ?_) operand
    show (prim v.copied).run g = (prim v).run g
    rw [hViews, Primitive.run_copied]
  · intro _ operand _ _ _ g
    exact ⟨_, required_sets (fun v => (prim v).run_sets g) operand⟩

omit hWell

theorem tableAt_allowed (tables : List α) (table index : Nat) (kind : TableKind) :
    Action.Allowed True (tableAt tables table index kind) := by
  unfold tableAt
  split
  · exact Action.Allowed.ok _
  · intro err hErr
    cases hErr
    exact trivial

theorem component_allowed (net : Network) (k : Nat) :
    Action.Allowed True (net.component k) := by
  unfold Network.component
  split
  · exact Action.Allowed.ok _
  · intro err hErr
    cases hErr
    exact trivial

/-- An action after a lookup that fails with allowed errors only. -/
theorem KeepsShapes.after {check : Except Error β} {next : β → MachineAction α}
    (hCheck : Action.Allowed True check)
    (hNext : ∀ b, check = .ok b → x.KeepsShapes (next b)) :
    x.KeepsShapes (Action.ofExcept check >>= next) := by
  cases check with
  | ok b => exact hNext b rfl
  | error err => exact Behaves.throw (hCheck err rfl)

include hWell

theorem gather_keepsShapes {copies : Bool} {dst table : Nat} :
    x.KeepsShapes (x.gather index copies dst table) := by
  rw [gather_eq]
  refine KeepsShapes.after (tableAt_allowed _ _ _ _) fun pairs _ => ?_
  refine write_keepsShapes hWell (pairViews_reads fun s _ _ => view?_readable hWell s) ?_ ?_
  · intro views _ _ g
    simp only [gatherRow_copied]
  · intro slots views hFound _ _ g
    exact ⟨_, gatherRows_sets hFound⟩

theorem scatter_keepsShapes {copies : Bool} {src table : Nat} :
    x.KeepsShapes (x.scatter index copies src table) := by
  cases hEntries : x.program.rowPairs[table]? with
  | none =>
      have hTable : tableAt x.program.rowPairs table index .rowPairs =
          .error (.malformed (some index) (.missingTable .rowPairs)) := by
        simp [tableAt, hEntries]
      rw [scatter, hTable]
      exact KeepsShapes.after (hTable ▸ tableAt_allowed _ _ _ _) fun _ hOk => by cases hOk
  | some pairs =>
      cases hView : x.program.subMatrix src with
      | error err =>
          rw [scatter, tableAt_of_getElem? hEntries, Action.ofExcept_ok_bind, hView]
          exact Behaves.throw (allowed_of_subMatrix hView)
      | ok source =>
          exact scatter_behaves hWell hEntries hView (view?_readable hWell src)
            (fun _ _ _ _ _ => trivial) fun _ _ _ _ _ _ _ _ => trivial

theorem propagate_keepsShapes {k input output : Nat} {precomputed : Option Nat} :
    x.KeepsShapes (x.propagate index k precomputed input output) := by
  refine KeepsShapes.after (component_allowed _ _) fun component _ => ?_
  refine KeepsShapes.after (precomputedRows_allowed x index precomputed) fun rows _ => ?_
  rw [writeFrom_eq]
  refine write_keepsShapes hWell (view?_readable hWell input) ?_ ?_
  · exact fun operand _ _ g =>
      required_copied (fun v => Component.propagate_copied component rows v g) operand
  · exact fun _ operand _ _ _ g =>
      ⟨_, required_sets (fun v => Component.propagate_sets component rows v) operand⟩

theorem writeInDeriv_keepsShapes (component : Component) (rows : Option (List Nat))
    (inValue outValue outDeriv inDeriv : Nat) :
    x.KeepsShapes (x.writeInDeriv component rows inValue outValue outDeriv inDeriv) := by
  unfold writeInDeriv
  split
  · refine write_keepsShapes hWell (backpropViews_reads (view?_readable hWell inValue)
      (view?_readable hWell outValue) (view?_readable hWell outDeriv)) ?_ ?_
    · intro views _ _ g
      obtain ⟨inView, outView, derivView⟩ := views
      cases derivView with
      | none => rfl
      | some d => exact Component.backprop_copied component rows inView outView d g
    · intro _ views _ _ _ g
      exact ⟨_, required_sets
        (fun d => Component.backprop_sets component rows views.1 views.2.1 d) views.2.2⟩
  · exact Behaves.pure ()

theorem backprop_keepsShapes {k inValue outValue outDeriv inDeriv : Nat}
    {precomputed : Option Nat} :
    x.KeepsShapes (x.backprop index k precomputed inValue outValue outDeriv inDeriv) := by
  rw [backprop_eq]
  refine KeepsShapes.after (component_allowed _ _) fun component _ => ?_
  refine KeepsShapes.after (precomputedRows_allowed x index precomputed) fun rows _ => ?_
  have hWrite := writeInDeriv_keepsShapes hWell component rows inValue outValue outDeriv inDeriv
  split
  · exact Behaves.bind (updateTarget_behaves (view?_readable hWell inValue)
      (view?_readable hWell outDeriv)) fun _ => hWrite
  · exact hWrite

/-- A command that allocates and releases nothing keeps the shapes of what is stored, whatever
its operands are. -/
theorem perform_keepsShapes (index : Nat) (hResize : c.resized? = none) :
    x.KeepsShapes (x.perform index c) := by
  cases c with
  | allocZeroed m => cases hResize
  | allocUndefined m => cases hResize
  | release m => cases hResize
  | propagate => exact propagate_keepsShapes hWell
  | storeStats k value => exact storeStats_behaves (view?_readable hWell value)
  | backprop => exact backprop_keepsShapes hWell
  | copy => exact writePrimitive_keepsShapes hWell .copy fun _ => rfl
  | add => exact writePrimitive_keepsShapes hWell (.add · 1) fun _ => rfl
  | gatherAdd =>
      exact KeepsShapes.after (tableAt_allowed _ _ _ _) fun rows _ =>
        writePrimitive_keepsShapes hWell (.gatherAdd · 1 rows) fun _ => rfl
  | gatherCopy =>
      exact KeepsShapes.after (tableAt_allowed _ _ _ _) fun rows _ =>
        writePrimitive_keepsShapes hWell (.gatherCopy · rows) fun _ => rfl
  | gatherAddMany => exact gather_keepsShapes hWell
  | gatherCopyMany => exact gather_keepsShapes hWell
  | scatterAdd => exact scatter_keepsShapes hWell
  | scatterCopy => exact scatter_keepsShapes hWell
  | sumRanges =>
      exact KeepsShapes.after (tableAt_allowed _ _ _ _) fun ranges _ =>
        writePrimitive_keepsShapes hWell (.addRanges · ranges) fun _ => rfl
  | skip => exact Behaves.pure ()
  | marker => exact Behaves.pure ()

/-- So does tracing it. -/
theorem execute_keepsShapes (index : Nat) (hResize : c.resized? = none) :
    x.KeepsShapes (x.execute index c) :=
  execute_behaves (perform_keepsShapes hWell index hResize) (fun _ _ _ hIn => hIn)
    fun dst _ => view?_readable hWell dst

end Computing

/-! ## The invariant -/

/-- What every state of a machine keeps from the first one on. -/
structure Kept (x : Machine) (target : Option Network) (s : MachineState) : Prop where
  fit : s.slots.Fit x.program
  empty : s.slots.buffer? 0 = none
  widths : s.target.map Network.widths = target.map Network.widths

variable {target : Option Network}

theorem kept_start (x : Machine) (target : Option Network) : x.Kept target (x.start target) where
  fit := (related_start x target).fit
  empty := by
    cases hBuffer : (x.start target).slots.buffer? 0 with
    | none => rfl
    | some b =>
        have hEntry := Slots.getElem?_of_buffer? hBuffer
        simp [start, Slots.free, List.getElem?_replicate] at hEntry
  widths := rfl

theorem Kept.of_sameExcept {t : MachineState} {W : ElementSet} (h : x.Kept target s)
    (hSame : s.SameExcept W t) : x.Kept target t where
  fit := hSame.fit h.fit
  empty := by
    have hShape := hSame.shape 0
    simp only [Slots.shape?, h.empty, Option.map_none, Option.map_eq_none_iff] at hShape
    exact hShape
  widths := hSame.widths.trans h.widths

/-- The phase and the journal do not matter. -/
theorem Kept.restate {t : MachineState} (h : x.Kept target s) (hSlots : t.slots = s.slots)
    (hTarget : t.target = s.target) : x.Kept target t where
  fit := hSlots ▸ h.fit
  empty := hSlots ▸ h.empty
  widths := hTarget ▸ h.widths

/-- A slot may be freed, or filled with a buffer of the declared shape. -/
theorem Kept.put {m : Nat} {b : Option Buffer} (h : x.Kept target s)
    (hShape : ∀ found, b = some found → x.program.matrix m = .ok found.shape) :
    x.Kept target { s with slots := s.slots.put m b } where
  fit := h.fit.put fun found hFound => (matrix_eq_ok_iff.mp (hShape found hFound)).2
  empty := by
    rw [Slots.buffer?_put]
    split
    · rename_i hSelf
      cases b with
      | none => rfl
      | some found => exact absurd hSelf.1 (matrix_eq_ok_iff.mp (hShape found rfl)).1
    · exact h.empty
  widths := h.widths

/-- An action keeps an invariant, whether or not it fails, and no error of it is out of
bounds. -/
def Keeps (I : MachineState → Prop) (act : MachineAction α) : Prop :=
  ∀ s, I s → I (Action.finalState (act s)) ∧ Action.Allowed False (Action.outcome (act s))

section Sequencing

variable {I : MachineState → Prop}

theorem Keeps.ofExcept {check : Except Error α} (h : Action.Allowed True check) :
    Keeps I (Action.ofExcept check) := by
  intro s hKept
  cases check with
  | ok a => exact ⟨hKept, Action.Allowed.ok a⟩
  | error err => exact ⟨hKept, h.imp fun _ => trivial⟩

theorem Keeps.bind {first : MachineAction β} {next : β → MachineAction α}
    (hFirst : Keeps I first) (hNext : ∀ b, Keeps I (next b)) : Keeps I (first >>= next) := by
  intro s hBefore
  obtain ⟨hAfter, hAllowed⟩ := hFirst s hBefore
  rw [Action.bind_run]
  cases hRun : first s with
  | ok b t =>
      rw [hRun] at hAfter
      exact hNext b t hAfter
  | error err t =>
      rw [hRun] at hAfter hAllowed
      refine ⟨hAfter, ?_⟩
      intro err' hErr
      cases hErr
      exact hAllowed err rfl

/-- Going on from the state. -/
theorem Keeps.get {next : MachineState → MachineAction α} (h : ∀ s, Keeps I (next s)) :
    Keeps I (MonadState.get >>= next) :=
  fun s hKept => h s s hKept

theorem Keeps.map {act : MachineAction β} (f : β → α) (h : Keeps I act) : Keeps I (f <$> act) := by
  intro s hBefore
  obtain ⟨hAfter, hAllowed⟩ := h s hBefore
  rw [Action.map_run]
  cases hRun : act s with
  | ok b t =>
      rw [hRun] at hAfter
      exact ⟨hAfter, Action.Allowed.ok _⟩
  | error err t =>
      rw [hRun] at hAfter hAllowed
      refine ⟨hAfter, ?_⟩
      intro err' hErr
      cases hErr
      exact hAllowed err rfl

theorem Keeps.forM {f : β → MachineAction Unit} (xs : List β) (h : ∀ b, Keeps I (f b)) :
    Keeps I (xs.forM f) := by
  induction xs with
  | nil => exact fun s hKept => ⟨hKept, Action.Allowed.ok ()⟩
  | cons first rest ih => exact Keeps.bind (h first) fun _ => ih

theorem Keeps.requirePhase (call : CallKind) : Keeps I (requirePhase call) := by
  intro s hKept
  rw [requirePhase_unchanging call s]
  refine ⟨hKept, ?_⟩
  by_cases hIn : s.phase ∈ call.allowedIn
  · simp [Machine.requirePhase, Action.bind_run, hIn, Action.outcome, Action.Allowed]
  · intro err hErr
    simp only [Machine.requirePhase, Action.bind_run, Action.get_run, hIn, not_false_eq_true,
      if_true, Action.throw_run, Action.outcome, Except.error.injEq] at hErr
    subst hErr
    exact trivial

end Sequencing

/-! ## Every command keeps it -/

theorem matrix_allowed (p : Program) (m : Nat) : Action.Allowed True (p.matrix m) := by
  intro err hErr
  unfold Program.matrix at hErr
  split at hErr
  · cases hErr
    exact trivial
  · split at hErr
    · cases hErr
    · cases hErr
      exact trivial

/-- An allocation fails and changes nothing, or fills the slot of a declared matrix. -/
theorem allocate_cases (m : Nat) (contents : Nat → Nat → Float32) (s : MachineState) :
    (∃ err, x.allocate m contents s = .error err s ∧ err.AllowedWhen True) ∨
      ∃ shape, x.program.matrix m = .ok shape ∧ x.allocate m contents s = .ok () { s with
        slots := s.slots.put m (some (.ofFn shape.numRows shape.numCols contents)) } := by
  cases hMatrix : x.program.matrix m with
  | error err =>
      refine .inl ⟨err, ?_, matrix_allowed _ _ err hMatrix⟩
      simp [allocate, hMatrix, Action.bind_run]
  | ok shape =>
      refine .inr ⟨shape, rfl, ?_⟩
      simp [allocate, hMatrix]

/-- A command that allocates or releases fails and changes nothing, or fills or frees the slot
of its matrix. -/
theorem perform_resize_cases {m : Nat} (index : Nat) (hResize : c.resized? = some m)
    (s : MachineState) :
    (∃ err, x.perform index c s = .error err s ∧ err.AllowedWhen True) ∨
      ∃ b, x.Refills c m b ∧
        x.perform index c s = .ok () { s with slots := s.slots.put m b } := by
  cases c with
  | allocZeroed =>
      cases hResize
      rcases allocate_cases m (fun _ _ => 0) s with hFails | ⟨shape, hMatrix, hRun⟩
      · exact .inl hFails
      · exact .inr ⟨_, .zeroed hMatrix, hRun⟩
  | allocUndefined =>
      cases hResize
      rcases allocate_cases m (x.undefinedContents m) s with hFails | ⟨shape, hMatrix, hRun⟩
      · exact .inl hFails
      · exact .inr ⟨_, .undefined hMatrix, hRun⟩
  | release =>
      cases hResize
      by_cases hLt : m < s.slots.entries.length
      · exact .inr ⟨none, .released, by simp [perform, release, Action.bind_run, hLt]⟩
      · refine .inl ⟨.malformed (some index) (.freedMatrix m), ?_, trivial⟩
        simp [perform, release, Action.bind_run, hLt]
  | _ => cases hResize

/-- Every command keeps the invariant, whatever its operands are. -/
theorem execute_keeps (hWell : x.program.WellFormed) (index : Nat) (c : Command) :
    Keeps (x.Kept target) (x.execute index c) := by
  intro s hKept
  cases hResize : c.resized? with
  | none =>
      have hShapes := execute_keepsShapes hWell index hResize
      exact ⟨hKept.of_sameExcept (hShapes.frame hKept.fit),
        (hShapes.allowed hKept.fit).imp False.elim⟩
  | some m =>
      rcases perform_resize_cases (x := x) index hResize s with
        ⟨err, hRun, hAllowed⟩ | ⟨b, hRefills, hRun⟩
      · have hFails : x.execute index c s = .error err s := by
          rw [execute, Action.bind_run_error hRun]
        rw [hFails]
        refine ⟨hKept, ?_⟩
        intro err' hErr
        cases hErr
        exact hAllowed.imp fun _ => trivial
      · obtain ⟨journal, hDone⟩ := execute_run_of_perform hRun
        rw [hDone]
        have hPut := hKept.put (m := m) (b := b) fun found hFound => hRefills.declared hFound
        exact ⟨hPut.restate rfl rfl, Action.Allowed.ok ()⟩

end Machine

end MatrixProgram
