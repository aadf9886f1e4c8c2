import MatrixProgram.Network

/-!
# How primitives change their window

Every change that a command makes runs on one window and maps its elements one by one: the
outcome does not depend on the old values, the new value of an element depends on no other
old value, and nothing outside the window changes.  `Write.Maps` is this scheme with the
outcome and the map given, and it is closed under sequencing.

`Write.Sets` forgets both.  What it keeps is the list of rows whose new values do not depend
on the old ones at all, and that every error may occur: none is one of allocation or bounds.
There is one lemma about it for each primitive and each component.
-/

namespace MatrixProgram

/-- An error that may occur: a region out of bounds and a row pair without its view never are
one, and an allocation error only if something is not allocated. -/
def Error.AllowedWhen (allocated : Prop) : Error → Prop
  | .lifecycle _ _ => ¬allocated
  | .regionOutOfBounds _ _ _ => False
  | .malformed _ (.unresolvedSubMatrix _) => False
  | _ => True

theorem Error.AllowedWhen.imp {err : Error} {a b : Prop} (h : err.AllowedWhen a)
    (hImp : b → a) : err.AllowedWhen b := by
  cases err with
  | lifecycle => exact mt hImp h
  | regionOutOfBounds => exact h
  | malformed command cause => cases cause <;> exact h
  | _ => exact trivial

/-- A check that fails with allowed errors only. -/
def Action.Allowed {α : Type} (allocated : Prop) (check : Except Error α) : Prop :=
  ∀ err, check = .error err → err.AllowedWhen allocated

namespace Action

variable {α β : Type} {a : Prop}

theorem Allowed.ok (x : α) : Allowed a (.ok x) := by
  intro err hErr
  cases hErr

theorem Allowed.require {p : Prop} [Decidable p] {err : Error} (h : err.AllowedWhen a) :
    Allowed a (Action.require p err) := by
  intro err' hErr
  unfold Action.require at hErr
  split at hErr
  · cases hErr
  · cases hErr
    exact h

theorem Allowed.bind {first : Except Error α} {next : α → Except Error β}
    (hFirst : Allowed a first) (hNext : ∀ x, Allowed a (next x)) :
    Allowed a (first >>= next) := by
  intro err hErr
  cases first with
  | error err' =>
      cases hErr
      exact hFirst _ rfl
  | ok x => exact hNext x err hErr

theorem Allowed.forM {check : α → Except Error Unit} (h : ∀ x, Allowed a (check x))
    (xs : List α) : Allowed a (xs.forM check) := by
  induction xs with
  | nil => exact Allowed.ok ()
  | cons x rest ih => exact Allowed.bind (h x) fun _ => ih

end Action

/-! ## Mapping a window -/

namespace Dense

variable {rows cols : Nat} {g : Region}

theorem mapWindow_congr {f f' : Nat → Nat → Float32 → Float32}
    (h : ∀ row col, row < g.numRows → col < g.numCols → ∀ old, f row col old = f' row col old)
    (m : Dense rows cols) : m.mapWindow g f = m.mapWindow g f' := by
  apply ext_get
  intro row col hRow hCol
  rw [get_mapWindow hRow hCol, get_mapWindow hRow hCol]
  split
  · rename_i hIn
    simp only [Region.Contains, Region.rowEnd, Region.colEnd] at hIn
    exact h _ _ (by omega) (by omega) _
  · rfl

theorem mapWindow_id (m : Dense rows cols) : m.mapWindow g (fun _ _ old => old) = m := by
  apply ext_get
  intro row col hRow hCol
  rw [get_mapWindow hRow hCol, ite_self]

theorem mapWindow_mapWindow (m : Dense rows cols) (f f' : Nat → Nat → Float32 → Float32) :
    (m.mapWindow g f).mapWindow g f' =
      m.mapWindow g fun row col old => f' row col (f row col old) := by
  apply ext_get
  intro row col hRow hCol
  rw [get_mapWindow hRow hCol, get_mapWindow hRow hCol, get_mapWindow hRow hCol]
  split <;> rfl

/-- Mapping one row of a window is mapping the window. -/
theorem mapWindow_rowWindow (m : Dense rows cols) {r : Nat} (hRow : r < g.numRows)
    (f : Nat → Nat → Float32 → Float32) :
    m.mapWindow (g.rowWindow r) f =
      m.mapWindow g fun row col old => if row = r then f 0 col old else old := by
  apply ext_get
  intro row col hRow' hCol'
  rw [get_mapWindow hRow' hCol', get_mapWindow hRow' hCol']
  by_cases hIn : (g.rowWindow r).Contains row col
  · obtain ⟨rfl, hFrom, hTo⟩ := Region.contains_rowWindow_iff.mp hIn
    -- The row window is the row `r` of the window, counted from its first row.
    have hWindow : g.Contains (g.rowOffset + r) col := by
      simp only [Region.Contains, Region.rowEnd]
      omega
    have hSub : g.rowOffset + r - g.rowOffset = r := by omega
    rw [if_pos hIn, if_pos hWindow, hSub, if_pos rfl]
    simp [Region.rowWindow]
  · rw [if_neg hIn]
    split
    · rename_i hWindow
      simp only [Region.Contains, Region.rowEnd] at hWindow
      have hOther : row - g.rowOffset ≠ r := by
        intro hEq
        apply hIn
        rw [Region.contains_rowWindow_iff]
        omega
      rw [if_neg hOther]
    · rfl

end Dense

namespace Write

variable {rows cols : Nat} {g : Region}

/-! ## Maps of a window -/

/-- A change answers `o` and maps its window by `f`, whatever the old values are. -/
def Maps (g : Region) (w : Write rows cols) (o : Except Error Unit)
    (f : Nat → Nat → Float32 → Float32) : Prop :=
  ∀ m, Action.outcome (w m) = o ∧ Action.finalState (w m) = m.mapWindow g f

theorem Maps.run {w : Write rows cols} {o : Except Error Unit}
    {f : Nat → Nat → Float32 → Float32} (h : Maps g w o f) (m : Dense rows cols) :
    w m = match o with
      | .ok u => .ok u (m.mapWindow g f)
      | .error err => .error err (m.mapWindow g f) := by
  obtain ⟨hOutcome, hState⟩ := h m
  cases hRun : w m with
  | ok u t =>
      rw [hRun] at hOutcome hState
      subst hOutcome
      exact congrArg _ hState
  | error err t =>
      rw [hRun] at hOutcome hState
      subst hOutcome
      exact congrArg _ hState

theorem Maps.pure : Maps g (pure () : Write rows cols) (.ok ()) fun _ _ old => old := by
  intro m
  exact ⟨rfl, (Dense.mapWindow_id m).symm⟩

theorem Maps.throw (err : Error) :
    Maps g (throw err : Write rows cols) (.error err) fun _ _ old => old := by
  intro m
  exact ⟨rfl, (Dense.mapWindow_id m).symm⟩

theorem Maps.bind {first : Write rows cols} {next : Unit → Write rows cols}
    {o : Except Error Unit} {f f' : Nat → Nat → Float32 → Float32}
    (hFirst : Maps g first (.ok ()) f) (hNext : Maps g (next ()) o f') :
    Maps g (first >>= next) o fun row col old => f' row col (f row col old) := by
  intro m
  obtain ⟨hOutcome, hState⟩ := hFirst m
  rw [Action.bind_run]
  cases hRun : first m with
  | error err t => simp [hRun, Action.outcome] at hOutcome
  | ok u t =>
      rw [hRun, Action.finalState] at hState
      subst hState
      have hRest := hNext (m.mapWindow g f)
      rw [Dense.mapWindow_mapWindow] at hRest
      exact hRest

theorem Maps.bind_error {first : Write rows cols} {next : Unit → Write rows cols}
    {err : Error} {f : Nat → Nat → Float32 → Float32}
    (hFirst : Maps g first (.error err) f) : Maps g (first >>= next) (.error err) f := by
  intro m
  obtain ⟨hOutcome, hState⟩ := hFirst m
  rw [Action.bind_run]
  cases hRun : first m with
  | ok u t => simp [hRun, Action.outcome] at hOutcome
  | error err' t =>
      rw [hRun] at hOutcome hState
      exact ⟨hOutcome, hState⟩

/-! ## Rows that are set -/

/-- A change maps its window; where it succeeds, the new values of the rows in `set` do not
depend on the old ones. -/
def Sets (g : Region) (set : Nat → Prop) (w : Write rows cols) : Prop :=
  ∃ o f, Maps g w o f ∧ Action.Allowed True o ∧
    (o = .ok () → ∀ row col old old', set row → f row col old = f row col old')

variable {set set' : Nat → Prop} {w : Write rows cols}

theorem Sets.mono (h : Sets g set w) (hSub : ∀ row, set' row → set row) : Sets g set' w := by
  obtain ⟨o, f, hMaps, hAllowed, hSet⟩ := h
  refine ⟨o, f, hMaps, hAllowed, ?_⟩
  intro hOk row col old old' hRow
  exact hSet hOk row col old old' (hSub row hRow)

theorem Sets.pure : Sets g (fun _ => False) (Pure.pure () : Write rows cols) :=
  ⟨_, _, Maps.pure, Action.Allowed.ok (), fun _ _ _ _ _ h => h.elim⟩

theorem Sets.throw {err : Error} (h : err.AllowedWhen True) (set : Nat → Prop) :
    Sets g set (MonadExcept.throw err : Write rows cols) := by
  refine ⟨_, _, Maps.throw err, ?_, ?_⟩
  · intro err' hErr
    cases hErr
    exact h
  · intro hOk
    cases hOk

theorem Sets.failed (cause : Failure) (set : Nat → Prop) :
    Sets g set (MonadExcept.throw (Error.failed cause) : Write rows cols) :=
  Sets.throw (show (Error.failed cause).AllowedWhen True from trivial) set

/-- A sequence sets what one of its parts sets. -/
theorem Sets.bind {first : Write rows cols} {next : Unit → Write rows cols}
    (hFirst : Sets g set first) (hNext : Sets g set' (next ())) :
    Sets g (fun row => set row ∨ set' row) (first >>= next) := by
  obtain ⟨o, f, hMaps, hAllowed, hSet⟩ := hFirst
  obtain ⟨o', f', hMaps', hAllowed', hSet'⟩ := hNext
  cases o with
  | error err =>
      refine ⟨_, f, hMaps.bind_error, hAllowed, ?_⟩
      intro hOk
      cases hOk
  | ok u =>
      refine ⟨_, _, hMaps.bind hMaps', hAllowed', ?_⟩
      intro hOk row col old old' hRow
      rcases hRow with hRow | hRow
      · exact congrArg _ (hSet rfl row col old old' hRow)
      · exact hSet' hOk row col _ _ hRow

/-- A change for every member of a list sets what it sets for any one of them. -/
theorem Sets.forM {α : Type} {change : α → Write rows cols} {setBy : α → Nat → Prop}
    (xs : List α) (h : ∀ x ∈ xs, Sets g (setBy x) (change x)) :
    Sets g (fun row => ∃ x ∈ xs, setBy x row) (xs.forM change) := by
  induction xs with
  | nil => exact Sets.pure.mono (by simp)
  | cons x rest ih =>
      have hRest := ih fun y hMem => h y (List.mem_cons_of_mem _ hMem)
      have hBoth : Sets g (fun row => setBy x row ∨ ∃ y ∈ rest, setBy y row)
          (change x >>= fun _ => rest.forM change) :=
        (h x List.mem_cons_self).bind hRest
      refine hBoth.mono ?_
      simp

theorem Sets.ofExcept_bind {α : Type} {check : Except Error α} {next : α → Write rows cols}
    (hCheck : Action.Allowed True check)
    (hNext : ∀ x, check = .ok x → Sets g set (next x)) :
    Sets g set (Action.ofExcept check >>= next) := by
  cases check with
  | ok x => exact hNext x rfl
  | error err => exact Sets.throw (hCheck err rfl) set

end Write

/-! ## The primitives -/

namespace Kernel

open Write

variable {rows cols : Nat} {g : Region} {conditions : Except Error Unit}
  {f : Nat → Nat → Float32 → Float32}

/-- A primitive on a window sets all rows if its map does not look at the old values. -/
theorem guardedMap_sets (set : Nat → Prop) (hAllowed : Action.Allowed True conditions)
    (hSet : ∀ row col old old', set row → f row col old = f row col old') :
    Sets g set (guardedMap conditions g f : Write rows cols) := by
  cases conditions with
  | error err => exact Sets.throw (hAllowed err rfl) set
  | ok u =>
      refine ⟨.ok (), f, fun m => ⟨rfl, rfl⟩, hAllowed, ?_⟩
      intro _ row col old old' hRow
      exact hSet row col old old' hRow

/-- A primitive on one row of a window, which must exist, sets that row if its map does not
look at the old values. -/
theorem guardedMap_rowWindow_sets {r : Nat} (set : Nat → Prop)
    (hAllowed : Action.Allowed True conditions) (hRow : conditions = .ok () → r < g.numRows)
    (hSet : ∀ col old old', set r → f 0 col old = f 0 col old') (hOnly : ∀ row, set row → row = r) :
    Sets g set (guardedMap conditions (g.rowWindow r) f : Write rows cols) := by
  cases conditions with
  | error err => exact Sets.throw (hAllowed err rfl) set
  | ok u =>
      refine ⟨.ok (), fun row col old => if row = r then f 0 col old else old, ?_, hAllowed, ?_⟩
      · intro m
        exact ⟨rfl, Dense.mapWindow_rowWindow m (hRow rfl) f⟩
      · intro _ row col old old' hMem
        have hEq := hOnly row hMem
        subst hEq
        simp only [if_true]
        exact hSet col old old' hMem

/-! ### Their conditions -/

theorem requireShape_allowed (expected got : Shape) :
    Action.Allowed True (requireShape expected got) :=
  Action.Allowed.require trivial

theorem requireRow_allowed (row numRows : Nat) : Action.Allowed True (requireRow row numRows) :=
  Action.Allowed.require trivial

theorem requireTable_allowed (g : Region) (count : Nat) (src : View) :
    Action.Allowed True (requireTable g count src) :=
  Action.Allowed.require trivial

theorem requireRows_allowed (indexes : List (Option Nat)) (numRows : Nat) :
    Action.Allowed True (requireRows indexes numRows) :=
  Action.Allowed.forM (fun row => requireRow_allowed row numRows) _

theorem requireSingleRows_allowed (g : Region) (row : Nat) (src : View) (srcRow : Nat) :
    Action.Allowed True (requireSingleRows g row src srcRow) :=
  (requireRow_allowed row g.numRows).bind fun _ =>
    (requireRow_allowed srcRow src.numRows).bind fun _ => requireShape_allowed _ _

theorem requireRanges_allowed (ranges : List (Nat × Nat)) (numRows : Nat) :
    Action.Allowed True (requireRanges ranges numRows) := by
  refine Action.Allowed.forM ?_ _
  rintro ⟨first, past⟩
  exact Action.Allowed.require trivial

theorem requireProduct_allowed (a b : Factor) : Action.Allowed True (requireProduct a b) :=
  Action.Allowed.require trivial

theorem lt_of_requireRow {row numRows : Nat} (h : requireRow row numRows = .ok ()) :
    row < numRows :=
  Action.require_eq_ok_iff.mp h

theorem lt_of_requireSingleRows {row srcRow : Nat} {src : View}
    (h : requireSingleRows g row src srcRow = .ok ()) : row < g.numRows := by
  obtain ⟨⟨⟩, hRow, -⟩ := Action.check_bind_eq_ok_iff.mp h
  exact lt_of_requireRow hRow

/-! ### What they set -/

theorem copy_sets (src : View) : Sets g (fun _ => True) (copy src g : Write rows cols) :=
  guardedMap_sets _ (requireShape_allowed _ _) fun _ _ _ _ _ => rfl

theorem add_sets (src : View) (alpha : Float32) :
    Sets g (fun _ => False) (add src alpha g : Write rows cols) :=
  guardedMap_sets _ (requireShape_allowed _ _) fun _ _ _ _ h => h.elim

theorem gatherCopy_sets (src : View) (indexes : List (Option Nat)) :
    Sets g (fun _ => True) (gatherCopy src indexes g : Write rows cols) :=
  guardedMap_sets _ ((requireTable_allowed _ _ _).bind fun _ => requireRows_allowed _ _)
    fun _ _ _ _ _ => rfl

theorem gatherAdd_sets (src : View) (alpha : Float32) (indexes : List (Option Nat)) :
    Sets g (fun _ => False) (gatherAdd src alpha indexes g : Write rows cols) :=
  guardedMap_sets _ ((requireTable_allowed _ _ _).bind fun _ => requireRows_allowed _ _)
    fun _ _ _ _ h => h.elim

theorem copyRow_sets (row : Nat) (src : View) (srcRow : Nat) :
    Sets g (fun r => r = row) (copyRow row src srcRow g : Write rows cols) :=
  guardedMap_rowWindow_sets _ (requireSingleRows_allowed _ _ _ _) lt_of_requireSingleRows
    (fun _ _ _ _ => rfl) fun _ h => h

theorem addRow_sets (row : Nat) (src : View) (srcRow : Nat) (alpha : Float32) :
    Sets g (fun _ => False) (addRow row src srcRow alpha g : Write rows cols) :=
  guardedMap_rowWindow_sets _ (requireSingleRows_allowed _ _ _ _) lt_of_requireSingleRows
    (fun _ _ _ h => h.elim) fun _ h => h.elim

theorem clearRow_sets (row : Nat) :
    Sets g (fun r => r = row) (clearRow row g : Write rows cols) :=
  guardedMap_rowWindow_sets _ (requireRow_allowed _ _) lt_of_requireRow
    (fun _ _ _ _ => rfl) fun _ h => h

theorem addRanges_sets (src : View) (ranges : List (Nat × Nat)) :
    Sets g (fun _ => False) (addRanges src ranges g : Write rows cols) :=
  guardedMap_sets _ ((requireTable_allowed _ _ _).bind fun _ => requireRanges_allowed _ _)
    fun _ _ _ _ h => h.elim

/-- A product that replaces the window sets all its rows: with `beta` zero the old values
are not even multiplied. -/
theorem product_sets (a b : Factor) (alpha : Float32) :
    Sets g (fun _ => True) (accumulateProduct a b alpha 0 g : Write rows cols) := by
  refine guardedMap_sets _
    ((requireProduct_allowed _ _).bind fun _ => requireShape_allowed _ _) ?_
  intro row col old old' _
  have hZero : ((0 : Float32) == 0) = true := by decide
  simp only [hZero, if_true]

theorem addToEachRow_sets (vec : View) (alpha : Float32) :
    Sets g (fun _ => False) (addToEachRow vec alpha g : Write rows cols) :=
  guardedMap_sets _ (requireShape_allowed _ _) fun _ _ _ _ h => h.elim

theorem applyActivation_sets (op : Activation) (src : View) :
    Sets g (fun _ => True) (applyActivation op src g : Write rows cols) :=
  guardedMap_sets _ (requireShape_allowed _ _) fun _ _ _ _ _ => rfl

theorem activationGradient_sets (op : Activation) (outValue outDeriv : View) :
    Sets g (fun _ => True) (activationGradient op outValue outDeriv 0 g : Write rows cols) := by
  refine guardedMap_sets _
    ((requireShape_allowed _ _).bind fun _ => requireShape_allowed _ _) ?_
  intro row col old old' _
  have hZero : ((0 : Float32) == 0) = true := by decide
  simp only [hZero, if_true]

end Kernel

/-! ## The components -/

/-- A precomputed list passes exactly if it is given and has one entry per output row. -/
theorem RowSelect.requireIndexes_eq_ok_iff {indexes : Option (List Nat)} {outputRows : Nat}
    {list : List Nat} :
    requireIndexes indexes outputRows = .ok list ↔
      indexes = some list ∧ list.length = outputRows := by
  cases indexes with
  | none => simp [requireIndexes]
  | some given =>
      by_cases hLength : given.length = outputRows
      · simp only [requireIndexes, if_pos hLength, Except.ok.injEq, Option.some.injEq]
        exact ⟨fun hEq => ⟨hEq, hEq ▸ hLength⟩, And.left⟩
      · simp only [requireIndexes, if_neg hLength, reduceCtorEq, Option.some.injEq, false_iff]
        rintro ⟨rfl, hEq⟩
        exact hLength hEq

namespace Component

open Write

variable {rows cols : Nat} {g : Region}

theorem requireIndexes_allowed (indexes : Option (List Nat)) (outputRows : Nat) :
    Action.Allowed True (RowSelect.requireIndexes indexes outputRows) := by
  intro err hErr
  unfold RowSelect.requireIndexes at hErr
  split at hErr
  · cases hErr
    exact trivial
  · split at hErr
    · cases hErr
    · cases hErr
      exact trivial

/-- A propagation sets all rows of the output, unless the component says that it adds. -/
theorem propagate_sets (c : Component) (indexes : Option (List Nat)) (input : View) :
    Sets g (fun _ => c.capabilities.propagateAdds = false)
      (c.propagate indexes input g : Write rows cols) := by
  cases c with
  | affine a =>
      refine (Sets.bind (Kernel.product_sets _ _ _) (Kernel.addToEachRow_sets _ _)).mono ?_
      exact fun _ _ => .inl trivial
  | nonlinear n => exact (Kernel.applyActivation_sets _ _).mono fun _ _ => trivial
  | rowSelect r =>
      refine Sets.ofExcept_bind (requireIndexes_allowed _ _) ?_
      intro found _
      exact (Kernel.gatherCopy_sets _ _).mono fun _ _ => trivial
  | declared d => exact Sets.failed _ _

/-- A backprop sets all rows of the derivative of the input, unless the component says that
it adds. -/
theorem backprop_sets (c : Component) (indexes : Option (List Nat))
    (inValue outValue : Option View) (outDeriv : View) :
    Sets g (fun _ => c.capabilities.backpropAdds = false)
      (c.backprop indexes inValue outValue outDeriv g : Write rows cols) := by
  cases c with
  | affine a => exact (Kernel.product_sets _ _ _).mono fun _ _ => trivial
  | nonlinear n =>
      cases outValue with
      | none => exact Sets.failed _ _
      | some v => exact (Kernel.activationGradient_sets _ _ _).mono fun _ _ => trivial
  | rowSelect r =>
      refine Sets.ofExcept_bind (requireIndexes_allowed _ _) ?_
      intro found _
      refine (Sets.forM _ fun _ _ => Kernel.addRow_sets _ _ _ _).mono ?_
      intro row hAdds
      exact absurd (show true = false from hAdds) (by decide)
  | declared d => exact Sets.failed _ _

end Component

/-! ## Changes of components -/

namespace Action

variable {σ τ α β : Type} {a : Prop}

theorem Allowed.run_bind {first : Action σ α} {next : α → Action σ β} {s : σ}
    (hFirst : Allowed a (outcome (first s))) (hNext : ∀ x t, Allowed a (outcome (next x t))) :
    Allowed a (outcome ((first >>= next) s)) := by
  rw [bind_run]
  cases hRun : first s with
  | ok x t => exact hNext x t
  | error err t =>
      rw [hRun] at hFirst
      intro err' hErr
      cases hErr
      exact hFirst err rfl

end Action

theorem Kernel.outcome_guardedMap {rows cols : Nat} (conditions : Except Error Unit)
    (g : Region) (f : Nat → Nat → Float32 → Float32) (m : Dense rows cols) :
    Action.outcome (Kernel.guardedMap conditions g f m) = conditions := by
  cases conditions <;> rfl

namespace Component

theorem update_allowed (indexes : Option (List Nat)) (inValue : Option View)
    (outDeriv : View) (c : Component) :
    Action.Allowed True (Action.outcome (update indexes inValue outDeriv c)) := by
  cases c with
  | affine a =>
      show Action.Allowed True (Action.outcome
        (Action.mapState Component.affine (Affine.update inValue outDeriv a)))
      rw [Action.outcome_mapState]
      cases inValue with
      | none =>
          intro err hErr
          cases hErr
          exact trivial
      | some v =>
          refine Action.Allowed.run_bind ?_ ?_
          · rw [Affine.changeWeight, Action.outcome_mapState, Kernel.accumulateProduct,
              Kernel.outcome_guardedMap]
            exact (Kernel.requireProduct_allowed _ _).bind fun _ =>
              Kernel.requireShape_allowed _ _
          · intro u a'
            rw [Affine.changeBias, Action.outcome_mapState, Kernel.accumulateRowSum,
              Kernel.outcome_guardedMap]
            exact Kernel.requireShape_allowed _ _
  | nonlinear n => exact Action.Allowed.ok ()
  | rowSelect r => exact Action.Allowed.ok ()
  | declared d => exact Action.Allowed.ok ()

theorem storeStats_allowed (outValue : View) (c : Component) :
    Action.Allowed True (Action.outcome (storeStats outValue c)) := by
  cases c with
  | nonlinear n =>
      show Action.Allowed True (Action.outcome
        (Action.mapState Component.nonlinear (Nonlinear.storeStats outValue n)))
      rw [Action.outcome_mapState]
      refine Action.Allowed.run_bind (Action.Allowed.ok n) ?_
      intro n' t
      by_cases hWidth : outValue.numCols = n'.dim
      · rw [if_pos hWidth]
        exact Action.Allowed.ok ()
      · rw [if_neg hWidth]
        intro err hErr
        cases hErr
        exact trivial
  | affine a => exact Action.Allowed.ok ()
  | rowSelect r => exact Action.Allowed.ok ()
  | declared d => exact Action.Allowed.ok ()

end Component

theorem Network.changeComponent_allowed {change : Action Component Unit}
    (h : ∀ c, Action.Allowed True (Action.outcome (change c))) (index : Nat) (net : Network) :
    Action.Allowed True (Action.outcome (Network.changeComponent index change net)) := by
  unfold Network.changeComponent
  cases net.components[index]? with
  | none =>
      intro err hErr
      cases hErr
      exact trivial
  | some entry =>
      rw [Action.outcome_mapState]
      exact h entry.2

/-! ## What changes of components keep -/

namespace Action

variable {σ τ α β : Type} {f : σ → τ}

/-- An action keeps what a function reads off its state, whether or not it fails. -/
def Fixes (f : σ → τ) (act : Action σ α) : Prop :=
  ∀ s, f (finalState (act s)) = f s

theorem Fixes.bind {first : Action σ α} {next : α → Action σ β} (hFirst : Fixes f first)
    (hNext : ∀ a, Fixes f (next a)) : Fixes f (first >>= next) := by
  intro s
  have hKept := hFirst s
  rw [bind_run]
  cases hRun : first s with
  | ok a t =>
      rw [hRun, finalState] at hKept
      exact (hNext a t).trans hKept
  | error err t =>
      rw [hRun] at hKept
      exact hKept

end Action

/-- The numbers of columns that a component takes and gives. -/
def Component.widths (c : Component) : Nat × Nat :=
  (c.inputDim, c.outputDim)

/-- The numbers of columns that the components of a network take and give. -/
def Network.widths (net : Network) : List (Nat × Nat) :=
  net.components.map fun entry => entry.2.widths

namespace Component

/-- The parameters keep their shapes by their type. -/
theorem update_fixes (indexes : Option (List Nat)) (inValue : Option View) (outDeriv : View) :
    Action.Fixes widths (update indexes inValue outDeriv) := by
  intro c
  cases c with
  | affine a =>
      show (Action.finalState (Action.mapState Component.affine
        (Affine.update inValue outDeriv a))).widths = widths (.affine a)
      rw [Action.finalState_mapState]
      suffices hFixes : Action.Fixes (fun a' => widths (.affine a'))
          (Affine.update inValue outDeriv) from hFixes a
      cases inValue with
      | none => exact fun _ => rfl
      | some v =>
          refine Action.Fixes.bind (fun a' => ?_) fun _ a' => ?_
          · rw [Affine.changeWeight, Action.finalState_mapState]
            rfl
          · rw [Affine.changeBias, Action.finalState_mapState]
            rfl
  | nonlinear n => rfl
  | rowSelect r => rfl
  | declared d => rfl

theorem storeStats_fixes (outValue : View) : Action.Fixes widths (storeStats outValue) := by
  intro c
  cases c with
  | nonlinear n =>
      show (Action.finalState (Action.mapState Component.nonlinear
        (Nonlinear.storeStats outValue n))).widths = widths (.nonlinear n)
      rw [Action.finalState_mapState]
      suffices hFixes : Action.Fixes (fun n' => widths (.nonlinear n'))
          (Nonlinear.storeStats outValue) from hFixes n
      intro n'
      by_cases hWidth : outValue.numCols = n'.dim <;>
        simp [Nonlinear.storeStats, Action.bind_run, hWidth, Action.finalState, widths,
          inputDim, outputDim]
  | affine a => rfl
  | rowSelect r => rfl
  | declared d => rfl

end Component

theorem Network.changeComponent_fixes {change : Action Component Unit}
    (h : Action.Fixes Component.widths change) (index : Nat) :
    Action.Fixes Network.widths (Network.changeComponent index change) := by
  intro net
  unfold Network.changeComponent
  cases hEntry : net.components[index]? with
  | none => rfl
  | some entry =>
      obtain ⟨name, c⟩ := entry
      obtain ⟨hLt, hGet⟩ := List.getElem?_eq_some_iff.mp hEntry
      rw [Action.finalState_mapState]
      -- The changed entry has the widths of the one in its place.
      have hBound : index < (net.components.map fun entry => entry.2.widths).length := by
        simpa using hLt
      have hSame : (Action.finalState (change c)).widths =
          (net.components.map fun entry => entry.2.widths)[index] := by
        simp only [List.getElem_map, hGet]
        exact h c
      simp only [Network.widths, List.map_set, hSame, List.set_getElem_self]

end MatrixProgram
