import MatrixProgram.Proofs.Kernel.Bounds
import MatrixProgram.Proofs.Machine.Writing
import MatrixProgram.Proofs.Machine.Calls

/-!
# Commands are no misuse

A machine reports a misuse when its caller has forgotten something: the phase is not the right
one, a name has not been requested, an input has not been supplied.  All of this is found out
before the first command is carried out.  A command may fail, in a program that has not been
checked, but it never fails with a misuse, and it leaves the phase as it is, `execute_internal`.

Both are properties of an action that are closed under sequencing, `Action.Internal`, so there
is one lemma for each primitive, each component, each scheme of commands and each command.
-/

namespace MatrixProgram

/-- The error reports a misuse of the machine by its caller. -/
def Error.isMisuse : Error → Bool
  | .usage _ => true
  | _ => false

namespace Action

variable {σ τ α β : Type}

/-! ## Checks without a misuse -/

/-- A check or an answer that is no misuse. -/
def NoMisuse (check : Except Error α) : Prop :=
  ∀ err, check = .error err → err.isMisuse = false

theorem NoMisuse.ok (a : α) : NoMisuse (.ok a) := by
  intro err hErr
  cases hErr

theorem NoMisuse.error {err : Error} (h : err.isMisuse = false) :
    NoMisuse (.error err : Except Error α) := by
  intro err' hErr
  cases hErr
  exact h

theorem NoMisuse.require {p : Prop} [Decidable p] {err : Error} (h : err.isMisuse = false) :
    NoMisuse (Action.require p err) := by
  unfold Action.require
  split
  · exact .ok ()
  · exact .error h

theorem NoMisuse.bind {first : Except Error α} {next : α → Except Error β}
    (hFirst : NoMisuse first) (hNext : ∀ a, NoMisuse (next a)) : NoMisuse (first >>= next) := by
  cases first with
  | ok a => exact hNext a
  | error err => exact .error (hFirst err rfl)

theorem NoMisuse.forM {check : α → Except Error Unit} (xs : List α)
    (h : ∀ a, NoMisuse (check a)) : NoMisuse (xs.forM check) := by
  induction xs with
  | nil => exact .ok ()
  | cons a rest ih => exact .bind (h a) fun _ => ih

theorem NoMisuse.mapM {lookup : α → Except Error β} (xs : List α)
    (h : ∀ a, NoMisuse (lookup a)) : NoMisuse (xs.mapM lookup) := by
  induction xs with
  | nil => exact .ok []
  | cons a rest ih =>
      rw [List.mapM_cons]
      exact .bind (h a) fun b => .bind ih fun bs => .ok (b :: bs)

/-! ## Actions without a misuse -/

/-- An action keeps what a function shows of the state, whether or not it fails, and does not
fail with a misuse. -/
structure Internal (shows : σ → τ) (act : Action σ α) : Prop where
  keeps : Fixes shows act
  noMisuse : ∀ s, NoMisuse (outcome (act s))

/-- The function that shows nothing, for states that belong to a single component or buffer. -/
def nothing (_ : σ) : Unit :=
  ()

section Sequencing

variable {shows : σ → τ}

theorem Internal.pure (a : α) : Internal shows (Pure.pure a : Action σ α) :=
  ⟨fun _ => rfl, fun _ => .ok a⟩

theorem Internal.throw {err : Error} (h : err.isMisuse = false) :
    Internal shows (MonadExcept.throw err : Action σ α) :=
  ⟨fun _ => rfl, fun _ => .error h⟩

theorem Internal.ofExcept {check : Except Error α} (h : NoMisuse check) :
    Internal shows (Action.ofExcept check) := by
  cases check with
  | ok a => exact .pure a
  | error err => exact .throw (h err rfl)

theorem Internal.bind {first : Action σ α} {next : α → Action σ β}
    (hFirst : Internal shows first) (hNext : ∀ a, Internal shows (next a)) :
    Internal shows (first >>= next) where
  keeps := hFirst.keeps.bind fun a => (hNext a).keeps
  noMisuse := by
    intro s
    have hClean := hFirst.noMisuse s
    rw [bind_run]
    cases hRun : first s with
    | ok a t => exact (hNext a).noMisuse t
    | error err t =>
        rw [hRun] at hClean
        exact .error (hClean err rfl)

theorem Internal.forM {f : β → Action σ Unit} (xs : List β) (h : ∀ b, Internal shows (f b)) :
    Internal shows (xs.forM f) := by
  induction xs with
  | nil => exact .pure ()
  | cons b rest ih => exact .bind (h b) fun _ => ih

/-- Going on from the state. -/
theorem Internal.get {next : σ → Action σ α} (h : ∀ s, Internal shows (next s)) :
    Internal shows (MonadState.get >>= next) :=
  ⟨fun s => (h s).keeps s, fun s => (h s).noMisuse s⟩

end Sequencing

end Action

open MatrixProgram.Action

/-! ## Primitives and components -/

namespace Kernel

theorem requireShape_noMisuse (expected got : Shape) : NoMisuse (requireShape expected got) :=
  .require rfl

theorem requireRow_noMisuse (row numRows : Nat) : NoMisuse (requireRow row numRows) :=
  .require rfl

theorem requireSingleRows_noMisuse (g : Region) (row : Nat) (src : View) (srcRow : Nat) :
    NoMisuse (requireSingleRows g row src srcRow) :=
  .bind (requireRow_noMisuse _ _) fun _ =>
    .bind (requireRow_noMisuse _ _) fun _ => requireShape_noMisuse _ _

theorem requireProduct_noMisuse (a b : Factor) : NoMisuse (requireProduct a b) :=
  .require rfl

theorem guardedMap_internal {rows cols : Nat} {conditions : Except Error Unit} {g : Region}
    {f : Nat → Nat → Float32 → Float32} (h : NoMisuse conditions) :
    Internal nothing (guardedMap conditions g f : Write rows cols) :=
  ⟨fun _ => rfl, fun m => by rwa [outcome_guardedMap]⟩

/-- No primitive fails with a misuse. -/
theorem Primitive.run_internal {rows cols : Nat} (prim : Primitive) (g : Region) :
    Internal nothing (prim.run g : Write rows cols) := by
  cases prim with
  | copy | add | addToEachRow | accumulateRowSum | applyActivation =>
      exact guardedMap_internal (requireShape_noMisuse _ _)
  | clear => exact guardedMap_internal (.ok ())
  | gatherCopy | gatherAdd =>
      exact guardedMap_internal (.bind (.require rfl) fun _ =>
        .forM _ fun _ => requireRow_noMisuse _ _)
  | copyRow | addRow => exact guardedMap_internal (requireSingleRows_noMisuse _ _ _ _)
  | clearRow => exact guardedMap_internal (requireRow_noMisuse _ _)
  | addRanges =>
      exact guardedMap_internal (.bind (.require rfl) fun _ => .forM _ fun _ => .require rfl)
  | accumulateProduct =>
      exact guardedMap_internal (.bind (requireProduct_noMisuse _ _) fun _ =>
        requireShape_noMisuse _ _)
  | activationGradient =>
      exact guardedMap_internal (.bind (requireShape_noMisuse _ _) fun _ =>
        requireShape_noMisuse _ _)

end Kernel

theorem RowSelect.requireIndexes_noMisuse (indexes : Option (List Nat)) (outputRows : Nat) :
    NoMisuse (requireIndexes indexes outputRows) := by
  unfold requireIndexes
  split
  · exact .error rfl
  · split
    · exact .ok _
    · exact .error rfl

namespace Component

theorem propagate_internal {rows cols : Nat} (c : Component) (indexes : Option (List Nat))
    (input : View) (g : Region) :
    Internal nothing (c.propagate indexes input g : Write rows cols) := by
  cases c with
  | affine a =>
      exact .bind (Kernel.Primitive.run_internal
        (.accumulateProduct ⟨input, false⟩ ⟨a.weightView, true⟩ 1 0) g) fun _ =>
          Kernel.Primitive.run_internal (.addToEachRow a.biasView 1) g
  | nonlinear n => exact Kernel.Primitive.run_internal (.applyActivation n.op input) g
  | rowSelect r =>
      exact .bind (.ofExcept (RowSelect.requireIndexes_noMisuse _ _)) fun rows =>
        Kernel.Primitive.run_internal (.gatherCopy input (rows.map some)) g
  | declared d => exact .throw rfl

theorem backprop_internal {rows cols : Nat} (c : Component) (indexes : Option (List Nat))
    (inValue outValue : Option View) (outDeriv : View) (g : Region) :
    Internal nothing (c.backprop indexes inValue outValue outDeriv g : Write rows cols) := by
  cases c with
  | affine a =>
      exact Kernel.Primitive.run_internal
        (.accumulateProduct ⟨outDeriv, false⟩ ⟨a.weightView, false⟩ 1 0) g
  | nonlinear n =>
      cases outValue with
      | none => exact .throw rfl
      | some v => exact Kernel.Primitive.run_internal (.activationGradient n.op v outDeriv 0) g
  | rowSelect r =>
      exact .bind (.ofExcept (RowSelect.requireIndexes_noMisuse _ _)) fun rows =>
        .forM _ fun entry => Kernel.Primitive.run_internal (.addRow entry.1 outDeriv entry.2 1) g
  | declared d => exact .throw rfl

theorem update_internal (indexes : Option (List Nat)) (inValue : Option View)
    (outDeriv : View) : Internal nothing (update indexes inValue outDeriv) := by
  have hAffine : Internal nothing (Affine.update inValue outDeriv) := by
    cases inValue with
    | none => exact .throw rfl
    | some v =>
        refine .bind ⟨fun _ => rfl, fun a => ?_⟩ fun _ => ⟨fun _ => rfl, fun a => ?_⟩
        · rw [Affine.changeWeight, outcome_mapState]
          exact (Kernel.Primitive.run_internal
            (.accumulateProduct ⟨outDeriv, true⟩ ⟨v, false⟩ a.learningRate 1) _).noMisuse _
        · rw [Affine.changeBias, outcome_mapState]
          exact (Kernel.Primitive.run_internal
            (.accumulateRowSum outDeriv a.learningRate 1) _).noMisuse _
  refine ⟨fun _ => rfl, fun c => ?_⟩
  cases c with
  | affine a =>
      rw [update, outcome_mapState]
      exact hAffine.noMisuse a
  | _ => exact .ok ()

theorem storeStats_internal (outValue : View) : Internal nothing (storeStats outValue) := by
  refine ⟨fun _ => rfl, fun c => ?_⟩
  cases c with
  | nonlinear n =>
      rw [storeStats, outcome_mapState]
      by_cases hWidth : outValue.numCols = n.dim
      · simp [Nonlinear.storeStats, bind_run, hWidth, outcome, NoMisuse]
      · simp [Nonlinear.storeStats, bind_run, hWidth, outcome, NoMisuse, Error.isMisuse]
  | _ => exact .ok ()

end Component

theorem Network.changeComponent_internal {change : Action Component Unit} (k : Nat)
    (h : Internal nothing change) : Internal nothing (changeComponent k change) := by
  refine ⟨fun _ => rfl, fun net => ?_⟩
  unfold changeComponent
  split
  · rw [outcome_mapState]
    exact h.noMisuse _
  · exact .error rfl

theorem Network.component_noMisuse (net : Network) (k : Nat) : NoMisuse (net.component k) := by
  unfold component
  split
  · exact .ok _
  · exact .error rfl

/-! ## Lookups -/

theorem Program.matrix_noMisuse (p : Program) (m : Nat) : NoMisuse (p.matrix m) := by
  unfold matrix
  split
  · exact .error rfl
  · split
    · exact .ok _
    · exact .error rfl

theorem Program.subMatrix_noMisuse (p : Program) (sub : Nat) : NoMisuse (p.subMatrix sub) := by
  unfold subMatrix
  split
  · exact .error rfl
  · split
    · exact .ok _
    · exact .error rfl

theorem View.of_noMisuse (b : Buffer) (g : Region) : NoMisuse (View.of b g) := by
  unfold View.of
  split
  · exact .ok _
  · exact .error rfl

namespace Slots

theorem read_noMisuse (slots : Slots) (m : Nat) : NoMisuse (slots.read m) := by
  unfold read
  split
  · exact .ok _
  · exact .error rfl

theorem view?_noMisuse (slots : Slots) (p : Program) (sub : Nat) :
    NoMisuse (slots.view? p sub) := by
  unfold view?
  split
  · exact .ok none
  · exact .bind (p.subMatrix_noMisuse sub) fun view =>
      .bind (slots.read_noMisuse view.matrix) fun b =>
        .bind (View.of_noMisuse b view.region) fun v => .ok (some v)

end Slots

namespace Machine

variable {x : Machine} {α β : Type}

theorem tableAt_noMisuse (tables : List α) (table index : Nat) (kind : TableKind) :
    NoMisuse (tableAt tables table index kind) := by
  unfold tableAt
  split
  · exact .ok _
  · exact .error rfl

theorem precomputedRows_noMisuse (x : Machine) (index : Nat) (precomputed : Option Nat) :
    NoMisuse (x.precomputedRows index precomputed) := by
  unfold precomputedRows
  split
  · exact .ok none
  · split
    · exact .ok _
    · exact .error rfl

theorem journalEntry_noMisuse (x : Machine) (index : Nat) (c : Command) (slots : Slots) :
    NoMisuse (x.journalEntry index c slots) := by
  unfold journalEntry
  dsimp only
  split
  · exact .ok _
  · exact .bind (slots.view?_noMisuse _ _) fun v => .ok _

/-! ## Commands -/

/-- An action keeps the phase and does not fail with a misuse. -/
abbrev Internal (act : MachineAction α) : Prop :=
  Action.Internal MachineState.phase act

/-- Writing a sub-matrix is internal if the change of its window is. -/
theorem write_internal (dst : Nat) {operands : Slots → Except Error α}
    {w : α → {rows cols : Nat} → Region → Write rows cols}
    (hOperands : ∀ slots, NoMisuse (operands slots))
    (hWrite : ∀ a (rows cols : Nat) g, Action.Internal nothing (w a g : Write rows cols)) :
    Internal (x.write dst operands w) := by
  have hWindow : ∀ a g b, NoMisuse (outcome (Write.inWindow g (w a) b)) := by
    intro a g b
    unfold Write.inWindow
    split
    · rw [outcome_mapState]
      exact (hWrite a _ _ g).noMisuse _
    · exact .error rfl
  constructor
  · intro s
    unfold write
    repeat' split
    · rfl
    · rfl
    · rfl
    · rfl
    · rw [finalState_mapState]
  · intro s
    unfold write
    split
    · rename_i err hView
      exact .error (x.program.subMatrix_noMisuse dst err hView)
    · split
      · exact .error rfl
      · exact .error rfl
      · split
        · rename_i err hFound
          exact .error (hOperands s.slots err hFound)
        · rw [outcome_mapState]
          exact hWindow _ _ _

theorem required_internal {rows cols : Nat} {role : Role} (operand : Option View)
    {w : View → Write rows cols} (h : ∀ v, Action.Internal nothing (w v)) :
    Action.Internal nothing (required role operand w) := by
  cases operand with
  | none => exact .throw rfl
  | some v => exact h v

theorem writeFrom_internal (dst src : Nat) (role : Role)
    {w : View → {rows cols : Nat} → Region → Write rows cols}
    (hWrite : ∀ v (rows cols : Nat) g, Action.Internal nothing (w v g : Write rows cols)) :
    Internal (x.writeFrom dst src role w) := by
  rw [writeFrom_eq]
  exact write_internal dst (fun slots => slots.view?_noMisuse _ _) fun operand _ _ g =>
    required_internal operand fun v => hWrite v _ _ g

/-- A primitive of a single source. -/
theorem writePrimitive_internal (dst src : Nat) (role : Role)
    (prim : View → Kernel.Primitive) :
    Internal (x.writeFrom dst src role fun v _ _ g => (prim v).run g) :=
  writeFrom_internal dst src role fun v _ _ g => (prim v).run_internal g

theorem scatterRow_internal {rows cols : Nat} (copies : Bool) (row : Nat) (v : View)
    (srcRow : Nat) (g : Region) :
    Action.Internal nothing (scatterRow copies row v srcRow g : Write rows cols) := by
  cases copies with
  | true => exact (Kernel.Primitive.copyRow row v srcRow).run_internal g
  | false => exact (Kernel.Primitive.addRow row v srcRow 1).run_internal g

theorem gatherRow_internal {rows cols : Nat} (index : Nat) (copies : Bool)
    (views : List (Nat × Option View)) (row : Nat) (g : Region) (pair : Option (Nat × Nat)) :
    Action.Internal nothing (gatherRow index copies views row g pair : Write rows cols) := by
  cases pair with
  | none =>
      cases copies with
      | true => exact (Kernel.Primitive.clearRow row).run_internal g
      | false => exact .pure ()
  | some entry =>
      obtain ⟨sub, srcRow⟩ := entry
      unfold gatherRow
      dsimp only
      split
      · exact .throw rfl
      · exact required_internal _ fun v => scatterRow_internal copies row v srcRow g

theorem gather_internal (index : Nat) (copies : Bool) (dst table : Nat) :
    Internal (x.gather index copies dst table) := by
  rw [gather_eq]
  refine .bind (.ofExcept (tableAt_noMisuse _ _ _ _)) fun pairs => ?_
  refine write_internal dst (fun slots => ?_) fun views _ _ g => ?_
  · exact .mapM _ fun sub => .bind (slots.view?_noMisuse _ sub) fun v => .ok (sub, v)
  · exact .forM _ fun entry => gatherRow_internal index copies views entry.2 g entry.1

theorem scatter_internal (index : Nat) (copies : Bool) (src table : Nat) :
    Internal (x.scatter index copies src table) := by
  refine .bind (.ofExcept (tableAt_noMisuse _ _ _ _)) fun pairs => ?_
  refine .bind (.ofExcept (x.program.subMatrix_noMisuse src)) fun source => ?_
  split
  · refine .get fun s => .bind (.ofExcept (s.slots.read_noMisuse _)) fun b => ?_
    refine .forM _ fun ⟨pair, row⟩ => ?_
    cases pair with
    | none => exact .pure ()
    | some target =>
        refine .bind (.ofExcept (View.of_noMisuse b _)) fun v => ?_
        rw [withViews_nil]
        exact write_internal target.1 (fun _ => .ok ()) fun _ _ _ g =>
          scatterRow_internal copies target.2 v row g
  · refine .forM _ fun ⟨pair, row⟩ => ?_
    cases pair with
    | none => exact .pure ()
    | some target =>
        exact writeFrom_internal target.1 src .source fun v _ _ g =>
          scatterRow_internal copies target.2 v row g

theorem changeTarget_internal {change : Network → MachineState → EStateM.Result Error Network Unit}
    (h : ∀ net s, NoMisuse (outcome (change net s))) : Internal (changeTarget change) := by
  constructor
  · intro s
    unfold changeTarget
    split
    · rfl
    · rw [finalState_mapState]
  · intro s
    unfold changeTarget
    split
    · exact .ok ()
    · rw [outcome_mapState]
      exact h _ s

theorem storeStats_internal (index k value : Nat) : Internal (x.storeStats index k value) := by
  unfold storeStats
  split
  · refine changeTarget_internal fun net s => ?_
    have hView := s.slots.view?_noMisuse x.program value
    split
    · rename_i err hFound
      exact .error (hView err hFound)
    · exact .error rfl
    · rename_i v hFound
      exact (Network.changeComponent_internal k (Component.storeStats_internal v)).noMisuse net
  · exact .pure ()

theorem updateTarget_internal (index k : Nat) (rows : Option (List Nat))
    (inValue outDeriv : Nat) : Internal (x.updateTarget index k rows inValue outDeriv) := by
  refine changeTarget_internal fun net s => ?_
  have hInView := s.slots.view?_noMisuse x.program inValue
  have hOutView := s.slots.view?_noMisuse x.program outDeriv
  split
  · rename_i err hFound
    exact .error (hInView err hFound)
  · rename_i err _ hFound
    exact .error (hOutView err hFound)
  · exact .error rfl
  · rename_i inView outView _ _
    exact (Network.changeComponent_internal k
      (Component.update_internal rows inView outView)).noMisuse net

theorem backprop_internal (index k : Nat) (precomputed : Option Nat)
    (inValue outValue outDeriv inDeriv : Nat) :
    Internal (x.backprop index k precomputed inValue outValue outDeriv inDeriv) := by
  rw [backprop_eq]
  refine .bind (.ofExcept (x.network.component_noMisuse k)) fun component => ?_
  refine .bind (.ofExcept (precomputedRows_noMisuse x index precomputed)) fun rows => ?_
  refine .bind ?_ fun _ => ?_
  · split
    · exact updateTarget_internal index k rows inValue outDeriv
    · exact .pure ()
  · unfold writeInDeriv
    split
    · refine write_internal inDeriv (fun slots => ?_) fun views _ _ g =>
        required_internal _ fun d => component.backprop_internal rows _ _ d g
      exact .bind (slots.view?_noMisuse _ _) fun _ => .bind (slots.view?_noMisuse _ _) fun _ =>
        .bind (slots.view?_noMisuse _ _) fun _ => .ok _
    · exact .pure ()

theorem allocate_internal (m : Nat) (contents : Nat → Nat → Float32) :
    Internal (x.allocate m contents) :=
  .bind (.ofExcept (x.program.matrix_noMisuse m)) fun _ => ⟨fun _ => rfl, fun _ => .ok ()⟩

theorem release_internal (index m : Nat) : Internal (release index m) := by
  unfold release
  constructor
  · intro s
    rw [bind_run, get_run]
    by_cases hLt : m < s.slots.entries.length
    · simp [hLt, finalState]
    · simp [hLt, finalState]
  · intro s
    rw [bind_run, get_run]
    by_cases hLt : m < s.slots.entries.length
    · simp [hLt, outcome, NoMisuse]
    · simp [hLt, outcome, NoMisuse, Error.isMisuse]

/-- No command fails with a misuse or touches the phase, whatever its operands are. -/
theorem perform_internal (index : Nat) (c : Command) : Internal (x.perform index c) := by
  cases c with
  | allocZeroed m => exact allocate_internal m _
  | allocUndefined m => exact allocate_internal m _
  | release m => exact release_internal index m
  | propagate k precomputed input output =>
      refine .bind (.ofExcept (x.network.component_noMisuse k)) fun component => ?_
      refine .bind (.ofExcept (precomputedRows_noMisuse x index precomputed)) fun rows => ?_
      exact writeFrom_internal output input .input fun v _ _ g =>
        component.propagate_internal rows v g
  | storeStats k value => exact storeStats_internal index k value
  | backprop node k precomputed inValue outValue outDeriv inDeriv =>
      exact backprop_internal index k precomputed inValue outValue outDeriv inDeriv
  | copy dst src => exact writePrimitive_internal dst src .source .copy
  | add dst src => exact writePrimitive_internal dst src .source (.add · 1)
  | gatherCopy dst src table =>
      exact .bind (.ofExcept (tableAt_noMisuse _ _ _ _)) fun rows =>
        writePrimitive_internal dst src .source (.gatherCopy · rows)
  | gatherAdd dst src table =>
      exact .bind (.ofExcept (tableAt_noMisuse _ _ _ _)) fun rows =>
        writePrimitive_internal dst src .source (.gatherAdd · 1 rows)
  | gatherCopyMany dst table => exact gather_internal index true dst table
  | gatherAddMany dst table => exact gather_internal index false dst table
  | scatterCopy src table => exact scatter_internal index true src table
  | scatterAdd src table => exact scatter_internal index false src table
  | sumRanges dst src table =>
      exact .bind (.ofExcept (tableAt_noMisuse _ _ _ _)) fun ranges =>
        writePrimitive_internal dst src .source (.addRanges · ranges)
  | skip => exact .pure ()
  | marker => exact .pure ()

/-- So does noting it in the journal. -/
theorem execute_internal (index : Nat) (c : Command) : Internal (x.execute index c) := by
  refine .bind (perform_internal index c) fun _ => ?_
  split
  · constructor
    · intro s
      rw [bind_run, get_run]
      cases hEntry : x.journalEntry index c s.slots <;> simp [bind_run, hEntry, finalState]
    · intro s
      rw [bind_run, get_run]
      cases hEntry : x.journalEntry index c s.slots with
      | ok entry => simp [outcome, hEntry, NoMisuse]
      | error err =>
          have hClean := journalEntry_noMisuse x index c s.slots err hEntry
          simp [bind_run, hEntry, outcome, NoMisuse, hClean]
  · exact .pure ()

/-- And so do commands one after the other. -/
theorem executeAll_internal (entries : List (Command × Nat)) : Internal (x.executeAll entries) :=
  .forM entries fun entry => execute_internal entry.2 entry.1

end Machine

end MatrixProgram
