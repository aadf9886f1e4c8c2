import MatrixProgram.Machine.Execute
import MatrixProgram.Proofs.Program.WellFormed

/-!
# Writing a sub-matrix

A machine takes the buffer of a destination out of its slot while it changes a window, and
takes a copy of it only if some operand needs one.  `write` is what this comes to: the operands
are looked up in the slots as they are before the change, and then the window is changed.
`withViews_eq_write` says that the two are the same in every state, whatever the operands are
and whether or not the change fails.

The commands are put in this form once, by one equation for each scheme.  The rest of the
theory of a machine goes by `write`.
-/

namespace MatrixProgram

/-! ## Slots that are emptied for a while -/

namespace Slots

/-- What fills a slot last counts. -/
theorem put_put (slots : Slots) (m : Nat) (b b' : Option Buffer) :
    (slots.put m b).put m b' = slots.put m b' := by
  simp only [put, List.set_set]

/-- Filling a slot with what it holds changes nothing. -/
theorem put_self {slots : Slots} {m : Nat} {b : Option Buffer}
    (h : slots.entries[m]? = some b) : slots.put m b = slots := by
  obtain ⟨hLt, rfl⟩ := List.getElem?_eq_some_iff.mp h
  simp only [put, List.set_getElem_self]

/-- A view of another matrix does not see the change of a slot. -/
theorem view?_put_of_ne {slots : Slots} {p : Program} {m s : Nat} {b : Option Buffer}
    (h : ∀ view, p.subMatrix s = .ok view → view.matrix ≠ m) :
    (slots.put m b).view? p s = slots.view? p s := by
  unfold view?
  split
  · rfl
  · cases hView : p.subMatrix s with
    | error err => rfl
    | ok view =>
        have hBuffer : (slots.put m b).buffer? view.matrix = slots.buffer? view.matrix := by
          rw [buffer?_put, if_neg fun hSame => h view hView hSame.1.symm]
        simp only [Action.check_ok_bind, read, hBuffer]

end Slots

namespace Machine

open Program

variable {α β : Type} {x : Machine} {s : MachineState}

/-- Change the window of a sub-matrix, given operands that are looked up in the slots as they
are before the change. -/
def write (x : Machine) (dst : Nat) (operands : Slots → Except Error α)
    (w : α → {rows cols : Nat} → Region → Write rows cols) : MachineAction Unit := fun s =>
  match x.program.subMatrix dst with
  | .error err => .error err s
  | .ok view =>
    match s.slots.entries[view.matrix]? with
    | none => .error (.failed (.slotIndex view.matrix)) s
    | some none => .error (.lifecycle view.matrix .writtenUnallocated) s
    | some (some b) =>
      match operands s.slots with
      | .error err => .error err s
      | .ok a =>
        Action.mapState
          (fun b' => { s with slots := s.slots.put view.matrix (some b') })
          (Write.inWindow view.region (w a) b)

/-- An operand is found in the copy, or in a slot that has not been emptied, as it is found
in the slots before. -/
theorem operandView_eq {reads : List Nat} {m sub : Nat} {b : Buffer}
    (hEntry : s.slots.entries[m]? = some (some b)) (hMem : sub ∈ reads) :
    x.operandView (s.slots.put m none) m
        (if viewsMatrix x.program reads m then some b else none) sub =
      s.slots.view? x.program sub := by
  by_cases hOwn : ∃ view, x.program.subMatrix sub = .ok view ∧ view.matrix = m
  · -- An operand of the matrix itself: that is when a copy is taken.
    obtain ⟨view, hView, rfl⟩ := hOwn
    have hFound : x.program.subMatrix? sub = some view := subMatrix?_eq_some_iff.mpr hView
    have hCopied : viewsMatrix x.program reads view.matrix = true :=
      List.any_eq_true.mpr ⟨sub, hMem, by simp [hFound]⟩
    have hRead : s.slots.read view.matrix = .ok b := by simp [Slots.read, Slots.buffer?, hEntry]
    have hPresent := (subMatrix_eq_ok_iff.mp hView).1
    simp only [operandView, hCopied, if_true, hFound, Slots.view?, if_neg hPresent, hView,
      Action.check_ok_bind, hRead]
    cases View.of b view.region <;> rfl
  · -- Every other operand is viewed in its slot, with or without a copy.
    have hOther : ∀ view, x.program.subMatrix sub = .ok view → view.matrix ≠ m :=
      fun view hView hSame => hOwn ⟨view, hView, hSame⟩
    rw [← Slots.view?_put_of_ne (b := none) hOther]
    unfold operandView
    split
    · rename_i view _ hFound
      rw [if_neg (hOther view (subMatrix?_eq_some_iff.mp hFound))]
    · rfl

/-- Taking the buffer out of its slot, and a copy of it where an operand needs one, comes to
viewing all operands before the change. -/
theorem withViews_eq_write (x : Machine) (dst : Nat) (reads : List Nat)
    (w : List (Option View) → {rows cols : Nat} → Region → Write rows cols) :
    x.withViews dst reads w =
      x.write dst (fun slots => reads.mapM (slots.view? x.program)) w := by
  funext s
  unfold withViews write
  cases hView : x.program.subMatrix dst with
  | error err => rfl
  | ok view =>
      dsimp only
      rcases hEntry : s.slots.entries[view.matrix]? with _ | _ | b
      · rfl
      · rfl
      · have hViews : reads.mapM (x.operandView (s.slots.put view.matrix none) view.matrix
            (if viewsMatrix x.program reads view.matrix then some b else none)) =
              reads.mapM (s.slots.view? x.program) :=
          Action.check_mapM_congr fun sub hMem => operandView_eq hEntry hMem
        dsimp only
        rw [hViews]
        cases reads.mapM (s.slots.view? x.program) with
        | error err => simp [Action.bind_run, Action.mapState, Slots.put_put, Slots.put_self hEntry]
        | ok views => simp only [Action.ofExcept_ok_bind, Slots.put_put]

/-- Operands that are found by renaming others. -/
theorem write_map {dst : Nat} {f : α → β} {operands : Slots → Except Error α}
    {w : β → {rows cols : Nat} → Region → Write rows cols} :
    x.write dst (fun slots => f <$> operands slots) w = x.write dst operands fun a => w (f a) := by
  funext s
  unfold write
  cases x.program.subMatrix dst with
  | error err => rfl
  | ok view =>
      dsimp only
      rcases s.slots.entries[view.matrix]? with _ | _ | b
      · rfl
      · rfl
      · dsimp only
        cases operands s.slots <;> rfl

/-! ## The schemes of commands -/

theorem writeFrom_eq (x : Machine) (dst src : Nat) (role : Role)
    (w : View → {rows cols : Nat} → Region → Write rows cols) :
    x.writeFrom dst src role w =
      x.write dst (fun slots => slots.view? x.program src) fun operand _ _ g =>
        required role operand fun v => w v g := by
  have hViews : (fun slots : Slots => [src].mapM (slots.view? x.program)) =
      fun slots => (fun operand => [operand]) <$> slots.view? x.program src := by
    funext slots
    cases hView : slots.view? x.program src <;> simp [List.mapM_cons, hView]
  rw [writeFrom, withViews_eq_write, hViews, write_map]
  rfl

/-- Views of the sub-matrices that a table of row pairs names, with their indexes. -/
def pairViews (x : Machine) (pairs : List (Option (Nat × Nat))) (slots : Slots) :
    Except Error (List (Nat × Option View)) :=
  (pairSources pairs).mapM fun s => do
    let v ← slots.view? x.program s
    return (s, v)

/-- Lookups that note their keys. -/
theorem mapM_with_key {find : Nat → Except Error β} (keys : List Nat) :
    (keys.mapM fun key => do
      let b ← find key
      return (key, b)) = keys.zip <$> keys.mapM find := by
  induction keys with
  | nil => rfl
  | cons key rest ih =>
      rw [List.mapM_cons, List.mapM_cons, ih]
      cases find key with
      | error err => rfl
      | ok b => cases rest.mapM find <;> rfl

theorem gather_eq (x : Machine) (index : Nat) (copies : Bool) (dst table : Nat) :
    x.gather index copies dst table =
      Action.ofExcept (tableAt x.program.rowPairs table index .rowPairs) >>= fun pairs =>
        x.write dst (x.pairViews pairs) fun views _ _ g =>
          pairs.zipIdx.forM fun (pair, row) => gatherRow index copies views row g pair := by
  refine congrArg (Action.ofExcept _ >>= ·) (funext fun pairs => ?_)
  have hViews : x.pairViews pairs = fun slots =>
      (pairSources pairs).zip <$> (pairSources pairs).mapM (slots.view? x.program) :=
    funext fun slots => mapM_with_key _
  rw [hViews, write_map]
  exact withViews_eq_write x dst _ _

/-- Writing without reading. -/
theorem withViews_nil (x : Machine) (dst : Nat)
    (w : List (Option View) → {rows cols : Nat} → Region → Write rows cols) :
    x.withViews dst [] w = x.write dst (fun _ => .ok ()) fun _ _ _ g => w [] g := by
  have hViews : (fun slots : Slots => ([] : List Nat).mapM (slots.view? x.program)) =
      fun _ => (fun _ => []) <$> Except.ok () := rfl
  rw [withViews_eq_write, hViews, write_map]

/-- The views from which a component computes the derivative of its input. -/
def backpropViews (x : Machine) (inValue outValue outDeriv : Nat) (slots : Slots) :
    Except Error (Option View × Option View × Option View) := do
  let inView ← slots.view? x.program inValue
  let outView ← slots.view? x.program outValue
  let derivView ← slots.view? x.program outDeriv
  return (inView, outView, derivView)

/-- Write the derivative of the input of a component, unless it is absent. -/
def writeInDeriv (x : Machine) (component : Component) (rows : Option (List Nat))
    (inValue outValue outDeriv inDeriv : Nat) : MachineAction Unit :=
  if inDeriv ≠ noSubMatrix then
    x.write inDeriv (x.backpropViews inValue outValue outDeriv) fun views _ _ g =>
      required .outDeriv views.2.2 fun d => component.backprop rows views.1 views.2.1 d g
  else
    pure ()

/-- A backprop is an update of the target and a write, each of which may be left out. -/
theorem backprop_eq (x : Machine) (index k : Nat) (precomputed : Option Nat)
    (inValue outValue outDeriv inDeriv : Nat) :
    x.backprop index k precomputed inValue outValue outDeriv inDeriv =
      Action.ofExcept (x.network.component k) >>= fun component =>
        Action.ofExcept (x.precomputedRows index precomputed) >>= fun rows =>
          (if component.capabilities.updatable = true then
              x.updateTarget index k rows inValue outDeriv
            else pure ()) >>= fun _ =>
              x.writeInDeriv component rows inValue outValue outDeriv inDeriv := by
  have hViews : (fun slots : Slots =>
        [inValue, outValue, outDeriv].mapM (slots.view? x.program)) =
      fun slots => (fun views => [views.1, views.2.1, views.2.2]) <$>
        x.backpropViews inValue outValue outDeriv slots := by
    funext slots
    simp only [List.mapM_cons, List.mapM_nil, backpropViews]
    cases slots.view? x.program inValue with
    | error err => rfl
    | ok inView =>
        cases slots.view? x.program outValue with
        | error err => rfl
        | ok outView => cases slots.view? x.program outDeriv <;> rfl
  unfold backprop
  refine congrArg (Action.ofExcept (x.network.component k) >>= ·) (funext fun component => ?_)
  refine congrArg (Action.ofExcept (x.precomputedRows index precomputed) >>= ·)
    (funext fun rows => ?_)
  simp only [withViews_eq_write, hViews, write_map]
  cases component.capabilities.updatable <;> rfl

end Machine

end MatrixProgram
