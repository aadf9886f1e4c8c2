import MatrixProgram.Proofs.Machine.Supplies

/-!
# The order of supplies

Before the forward call the caller supplies the values of inputs and the derivatives of outputs.
Which slot such a call fills, or why it fills none, follows from the call alone, not from what
has been supplied before it: `call_supply`.

In an accepted program no matrix is supplied twice over all bindings, so two calls for different
names, or for different sides, fill different slots, `eq_of_supplied`.  Filling different slots
commutes, and the supplies may come in any order: `supplied_in_any_order`.
-/

namespace MatrixProgram

open Program

/-- A call that supplies the value of an input or the derivative of an output. -/
structure Supply where
  side : Side
  name : String
  buffer : Buffer

namespace Supply

/-- The call of a supply. -/
def call : Supply → Call
  | ⟨.input, name, b⟩ => .supplyInput name b
  | ⟨.output, name, b⟩ => .supplyOutputDeriv name b

/-- The kind of the call of a supply. -/
def kind (u : Supply) : CallKind :=
  match u.side with
  | .input => .supplyInput
  | .output => .supplyOutputDeriv

/-- The side and the name of a supply. -/
def key (u : Supply) : Side × String :=
  (u.side, u.name)

end Supply

namespace Network

variable {net : Network} {name name' : String} {node : Nat}

/-- A node has one name. -/
theorem name_eq_of_nodeIndex (h : net.nodeIndex name = some node)
    (h' : net.nodeIndex name' = some node) : name = name' := by
  obtain ⟨_, hName, -⟩ := List.findIdx?_eq_some_iff_getElem.mp h
  obtain ⟨_, hName', -⟩ := List.findIdx?_eq_some_iff_getElem.mp h'
  exact (beq_iff_eq.mp hName).symm.trans (beq_iff_eq.mp hName')

/-- A node is on one side. -/
theorem side_eq_of_isNodeOn {side side' : Side} (h : isNodeOn net node side = true)
    (h' : isNodeOn net node side' = true) : side = side' := by
  have hNotBoth : ¬(net.isInputNode node = true ∧ net.isOutputNode node = true) := by
    rintro ⟨hIn, hOut⟩
    rw [isInputNode, beq_iff_eq] at hIn
    rw [isOutputNode, hIn] at hOut
    cases hOut
  cases side <;> cases side'
  · rfl
  · exact absurd ⟨h, h'⟩ hNotBoth
  · exact absurd ⟨h', h⟩ hNotBoth
  · rfl

end Network

namespace Machine

variable {x : Machine} {s : MachineState} {u v : Supply} {side side' : Side}
  {name name' : String} {m n n' count : Nat} {unchangedAfterRead : Bool}

/-! ## What a supply does -/

/-- The matrix that is supplied under a name, and the requested number of rows. -/
def supplied (x : Machine) (name : String) : Side → Except Error (Nat × Nat)
  | .input => do
      let spec ← x.requestedInput name
      let m ← x.valueMatrix name
      return (m, spec.numRows)
  | .output => do
      let spec ← x.requestedOutput name
      requireDerivative .output spec
      let m ← x.derivMatrix name
      return (m, spec.numRows)

/-- A buffer must have the requested number of rows and the shape of its matrix, which must have
a slot among `count` slots. -/
def requirePlace (x : Machine) (count m numRows : Nat) (b : Buffer) : Except Error Unit := do
  let shape ← x.program.matrix m
  Action.require (b.shape = ⟨numRows, shape.numCols⟩ ∧ shape.numRows = numRows)
    (.shapeMismatch shape b.shape)
  Action.require (m < count) (.failed (.slotIndex m))

/-- The slot that a supply fills, among `count` slots. -/
def filledBy (x : Machine) (count : Nat) (u : Supply) : Except Error Nat := do
  let (m, numRows) ← x.supplied u.name u.side
  x.requirePlace count m numRows u.buffer
  return m

/-- Placing a buffer fills a slot, or fails and changes nothing. -/
theorem place_run (x : Machine) (m numRows : Nat) (b : Buffer) (s : MachineState) :
    x.place m numRows b s =
      match x.requirePlace s.slots.entries.length m numRows b with
      | .ok _ => .ok () { s with slots := s.slots.put m (some b) }
      | .error err => .error err s := by
  cases hMatrix : x.program.matrix m with
  | error err => simp [place, requirePlace, hMatrix, Action.bind_run]
  | ok shape =>
      by_cases hFits : b.shape = ⟨numRows, shape.numCols⟩ ∧ shape.numRows = numRows
      · obtain ⟨hShape, rfl⟩ := hFits
        by_cases hLt : m < s.slots.entries.length
        · simp [place, requirePlace, Action.require, hMatrix, Action.bind_run, hShape, hLt,
            Nat.not_le.mpr hLt]
        · simp [place, requirePlace, Action.require, hMatrix, Action.bind_run, hShape, hLt,
            Nat.le_of_not_lt hLt]
      · have hBad : b.shape ≠ ⟨numRows, shape.numCols⟩ ∨ shape.numRows ≠ numRows :=
          Decidable.not_and_iff_or_not.mp hFits
        simp only [place, requirePlace, Action.require, hMatrix, Action.bind_run,
          Action.ofExcept_ok, Action.check_ok_bind, Action.check_error_bind, if_pos hBad,
          if_neg hFits, Action.throw_run]

/-- Both supplying calls look up what is supplied and place their buffer. -/
theorem call_supply_eq (x : Machine) (u : Supply) :
    x.call u.call = (fun _ => Answer.done) <$> (requirePhase u.kind >>= fun _ =>
      Action.ofExcept (x.supplied u.name u.side) >>= fun placed =>
        x.place placed.1 placed.2 u.buffer) := by
  obtain ⟨side, name, b⟩ := u
  cases side with
  | input =>
      refine congrArg (fun next => (fun _ => Answer.done) <$> (requirePhase _ >>= next)) ?_
      funext _
      dsimp only [supplied]
      cases x.requestedInput name with
      | error err => rfl
      | ok spec => cases x.valueMatrix name <;> rfl
  | output =>
      refine congrArg (fun next => (fun _ => Answer.done) <$> (requirePhase _ >>= next)) ?_
      funext _
      dsimp only [supplied]
      cases x.requestedOutput name with
      | error err => rfl
      | ok spec =>
          simp only [Action.ofExcept_ok_bind, Action.check_ok_bind]
          cases requireDerivative .output spec with
          | error err => rfl
          | ok _ => cases x.derivMatrix name <;> rfl

/-- Before the forward call a supply fills its slot, or fails and changes nothing. -/
theorem call_supply (x : Machine) (u : Supply) (hPhase : s.phase = .created) :
    x.call u.call s =
      match x.filledBy s.slots.entries.length u with
      | .ok m => .ok .done { s with slots := s.slots.put m (some u.buffer) }
      | .error err => .error err s := by
  have hAllowed : requirePhase u.kind s = .ok () s := by
    refine requirePhase_eq_ok_iff.mpr ⟨?_, rfl⟩
    rw [hPhase, Supply.kind]
    cases u.side <;> decide
  rw [call_supply_eq, Action.map_run, Action.bind_run_ok hAllowed, filledBy]
  cases x.supplied u.name u.side with
  | error err => rfl
  | ok placed =>
      obtain ⟨m, numRows⟩ := placed
      rw [Action.ofExcept_ok_bind, place_run, Action.check_ok_bind]
      dsimp only
      cases x.requirePlace s.slots.entries.length m numRows u.buffer <;> rfl

/-! ## A sequence of supplies -/

/-- The slots after a supply. -/
def fill (x : Machine) (count : Nat) (slots : Slots) (u : Supply) : Slots :=
  match x.filledBy count u with
  | .ok m => slots.put m (some u.buffer)
  | .error _ => slots

theorem length_fill (x : Machine) (count : Nat) (slots : Slots) (u : Supply) :
    (x.fill count slots u).entries.length = slots.entries.length := by
  unfold fill
  split
  · exact Slots.length_put _ _ _
  · rfl

/-- Each supply of a sequence gets the answer that it would get alone, and the slots are filled
one after the other. -/
theorem callAll_supplies (x : Machine) (supplies : List Supply) (hPhase : s.phase = .created)
    (hCount : s.slots.entries.length = count) :
    x.callAll (supplies.map Supply.call) s =
      (supplies.map fun u => (fun _ => Answer.done) <$> x.filledBy count u,
        { s with slots := supplies.foldl (x.fill count) s.slots }) := by
  induction supplies generalizing s with
  | nil => rfl
  | cons u rest ih =>
      have hFirst : x.call u.call s =
          match x.filledBy count u with
          | .ok m => .ok .done { s with slots := s.slots.put m (some u.buffer) }
          | .error err => .error err s := hCount ▸ call_supply x u hPhase
      have hOutcome : Action.outcome (x.call u.call s) =
          (fun _ => Answer.done) <$> x.filledBy count u := by
        rw [hFirst]
        cases x.filledBy count u <;> rfl
      have hState : Action.finalState (x.call u.call s) =
          { s with slots := x.fill count s.slots u } := by
        rw [hFirst, fill]
        cases x.filledBy count u <;> rfl
      have hRest := ih (s := { s with slots := x.fill count s.slots u }) hPhase
        ((length_fill x count s.slots u).trans hCount)
      simp only [List.map_cons, callAll, hOutcome, hState, hRest, List.foldl_cons]

/-! ## Different supplies -/

section Accepted

variable (hAccepted : x.program.Accepted x.network x.request unchangedAfterRead)

include hAccepted

/-- What is supplied under a name is a supplied matrix of the binding of the node of the name. -/
theorem suppliedBy_of_supplied (h : x.supplied name side = .ok (m, n)) :
    ∃ node bound, x.network.nodeIndex name = some node ∧
      isNodeOn x.network node side = true ∧ (node, bound) ∈ x.program.bindings ∧
        m ∈ suppliedBy x.network (node, bound) := by
  cases side with
  | input =>
      obtain ⟨spec, hSpec, hRest⟩ := Action.check_bind_eq_ok_iff.mp h
      obtain ⟨value, hValue, hPair⟩ := Action.check_bind_eq_ok_iff.mp hRest
      cases hPair
      obtain ⟨node, bound, shape, hRequested, hIndex⟩ :=
        requested_of_input? hAccepted (requestedInput_eq_ok_iff.mp hSpec)
      obtain ⟨bound', hBound, rfl⟩ := valueMatrix_eq_ok_iff.mp hValue
      obtain ⟨node', hIndex', hBinding⟩ := boundNode_eq_ok_iff.mp hBound
      cases hIndex.symm.trans hIndex'
      exact ⟨node, bound', hIndex, hRequested.onSide, mem_bindings_of_binding? hBinding,
        (mem_suppliedBy_of_input hRequested.onSide).mpr rfl⟩
  | output =>
      obtain ⟨spec, hSpec, hRest⟩ := Action.check_bind_eq_ok_iff.mp h
      obtain ⟨_, -, hRest⟩ := Action.check_bind_eq_ok_iff.mp hRest
      obtain ⟨deriv, hDeriv, hPair⟩ := Action.check_bind_eq_ok_iff.mp hRest
      cases hPair
      obtain ⟨node, bound, shape, hRequested, hIndex⟩ :=
        requested_of_output? hAccepted (requestedOutput_eq_ok_iff.mp hSpec)
      obtain ⟨bound', hBound, hSome⟩ := derivMatrix_eq_ok_iff.mp hDeriv
      obtain ⟨node', hIndex', hBinding⟩ := boundNode_eq_ok_iff.mp hBound
      cases hIndex.symm.trans hIndex'
      exact ⟨node, bound', hIndex, hRequested.onSide, mem_bindings_of_binding? hBinding,
        (mem_suppliedBy_of_output hRequested.onSide).mpr hSome⟩

/-- A matrix is supplied under one name on one side: no matrix is supplied by two bindings, a
node has one name, and it is not both an input and an output. -/
theorem eq_of_supplied (hWell : x.program.WellFormed) (h : x.supplied name side = .ok (m, n))
    (h' : x.supplied name' side' = .ok (m, n')) : (side, name) = (side', name') := by
  obtain ⟨node, bound, hIndex, hSide, hMem, hSupplies⟩ := suppliedBy_of_supplied hAccepted h
  obtain ⟨node', bound', hIndex', hSide', hMem', hSupplies'⟩ :=
    suppliedBy_of_supplied hAccepted h'
  cases eq_of_mem_suppliedBy (hAccepted.disciplined hWell).suppliedOnce hMem hMem' hSupplies
    hSupplies'
  rw [Network.name_eq_of_nodeIndex hIndex hIndex', Network.side_eq_of_isNodeOn hSide hSide']

omit hAccepted in
theorem exists_supplied_of_filledBy (h : x.filledBy count u = .ok m) :
    ∃ n, x.supplied u.name u.side = .ok (m, n) := by
  obtain ⟨placed, hSupplied, hRest⟩ := Action.check_bind_eq_ok_iff.mp h
  obtain ⟨_, -, hSlot⟩ := Action.check_bind_eq_ok_iff.mp hRest
  cases hSlot
  exact ⟨placed.2, hSupplied⟩

/-- Different supplies fill different slots. -/
theorem key_eq_of_filledBy (hWell : x.program.WellFormed) {count' : Nat}
    (h : x.filledBy count u = .ok m) (h' : x.filledBy count' v = .ok m) : u.key = v.key := by
  obtain ⟨_, hSupplied⟩ := exists_supplied_of_filledBy h
  obtain ⟨_, hSupplied'⟩ := exists_supplied_of_filledBy h'
  exact eq_of_supplied hAccepted hWell hSupplied hSupplied'

/-- Different supplies may fill their slots in either order. -/
theorem fill_comm (hWell : x.program.WellFormed) (hNe : u.key ≠ v.key) (slots : Slots) :
    x.fill count (x.fill count slots u) v = x.fill count (x.fill count slots v) u := by
  unfold fill
  cases hFirst : x.filledBy count u with
  | error err => rfl
  | ok m =>
      cases hSecond : x.filledBy count v with
      | error err => rfl
      | ok k =>
          have hApart : m ≠ k := by
            rintro rfl
            exact hNe (key_eq_of_filledBy hAccepted hWell hFirst hSecond)
          exact congrArg Slots.mk (List.set_comm _ _ hApart)

end Accepted

/-! ## Any order -/

/-- A supply changes the slot of a matrix, in some state before the forward call. -/
def ChangesSlot (x : Machine) (u : Supply) (m : Nat) : Prop :=
  ∃ s, s.phase = .created ∧
    (Action.finalState (x.call u.call s)).slots.buffer? m ≠ s.slots.buffer? m

theorem filledBy_of_changesSlot (h : x.ChangesSlot u m) :
    ∃ count, x.filledBy count u = .ok m := by
  obtain ⟨s, hPhase, hChanged⟩ := h
  refine ⟨s.slots.entries.length, ?_⟩
  rw [call_supply x u hPhase] at hChanged
  cases hFilled : x.filledBy s.slots.entries.length u with
  | error err =>
      rw [hFilled] at hChanged
      exact absurd rfl hChanged
  | ok k =>
      rw [hFilled] at hChanged
      apply Classical.byContradiction
      intro hOther
      refine hChanged ?_
      show (s.slots.put k (some u.buffer)).buffer? m = _
      rw [Slots.buffer?_put, if_neg fun hSame => hOther (congrArg Except.ok hSame.1)]

/-- In an accepted program, before the forward call, supplies that differ in their side or in
their name never change the same slot.  So supplies for different names may be made in any order,
whatever buffers they carry and whether or not some of them fail: each of them gets the same
answer, and they lead to the same state. -/
theorem supplied_in_any_order (hBuilt : x.program.Built)
    (hAccepted : x.program.Accepted x.network x.request unchangedAfterRead) :
    (∀ u v m, u.key ≠ v.key → ¬(x.ChangesSlot u m ∧ x.ChangesSlot v m)) ∧
      ∀ (supplies supplies' : List Supply) s, s.phase = .created →
        (supplies.map Supply.key).Nodup → supplies.Perm supplies' →
          (supplies.zip (x.callAll (supplies.map Supply.call) s).1).Perm
              (supplies'.zip (x.callAll (supplies'.map Supply.call) s).1) ∧
            (x.callAll (supplies.map Supply.call) s).2 =
              (x.callAll (supplies'.map Supply.call) s).2 := by
  have hWell := hBuilt.wellFormed
  constructor
  · rintro u v m hNe ⟨hChanged, hChanged'⟩
    obtain ⟨_, hFilled⟩ := filledBy_of_changesSlot hChanged
    obtain ⟨_, hFilled'⟩ := filledBy_of_changesSlot hChanged'
    exact hNe (key_eq_of_filledBy hAccepted hWell hFilled hFilled')
  · intro supplies supplies' s hPhase hKeys hPerm
    rw [callAll_supplies x supplies hPhase rfl, callAll_supplies x supplies' hPhase rfl]
    constructor
    · -- With its answer, each supply is paired with a function of the supply alone.
      have hZip : ∀ {α : Type} (f : Supply → α) (us : List Supply),
          us.zip (us.map f) = us.map fun u => (u, f u) := fun f us => by
        simpa using List.zip_map' (f := id) (g := f) (l := us)
      rw [hZip, hZip]
      exact hPerm.map _
    · have hSlots : supplies.foldl (x.fill s.slots.entries.length) s.slots =
          supplies'.foldl (x.fill s.slots.entries.length) s.slots := by
        refine hPerm.foldl_eq' (fun u hMem v hMem' slots => ?_) s.slots
        by_cases hEq : u.key = v.key
        · rw [List.inj_on_of_nodup_map hKeys hMem hMem' hEq]
        · exact fill_comm hAccepted hWell hEq slots
      exact congrArg (fun slots : Slots => { s with slots }) hSlots

/-- A machine that is asked for an input and for the derivative of an output. -/
def askedMachine : Machine :=
  echoMachine [.frames "in" 1 false] true

/-- A supply of the input, one of the derivative of the output, and one that is refused. -/
def askedSupplies : List Supply :=
  [⟨.input, "in", .zeros 1 2⟩, ⟨.output, "out", .zeros 1 2⟩, ⟨.output, "in", .zeros 1 2⟩]

theorem askedMachine_changesSlot :
    askedMachine.ChangesSlot ⟨.input, "in", .zeros 1 2⟩ 1 := by
  refine ⟨askedMachine.start none, rfl, fun hSame => ?_⟩
  have hFilled := congrArg Option.isSome hSame
  revert hFilled
  decide

/-- The supply of the input changes the slot of the value of the input, so that of the derivative
of the output does not, and all of them may be made in the opposite order. -/
theorem askedMachine_supplied_in_any_order :
    ¬askedMachine.ChangesSlot ⟨.output, "out", .zeros 1 2⟩ 1 ∧
      (askedSupplies.map Supply.key).Nodup ∧
        (askedMachine.callAll (askedSupplies.map Supply.call) (askedMachine.start none)).2 =
          (askedMachine.callAll (askedSupplies.reverse.map Supply.call)
            (askedMachine.start none)).2 := by
  have hBuilt : askedMachine.program.Built := ⟨_, rfl⟩
  have hAccepted : askedMachine.program.Accepted askedMachine.network askedMachine.request true :=
    ⟨_, rfl⟩
  obtain ⟨hApart, hOrder⟩ := supplied_in_any_order hBuilt hAccepted
  have hKeys : (askedSupplies.map Supply.key).Nodup := by decide
  have hPerm : askedSupplies.Perm askedSupplies.reverse := (List.reverse_perm _).symm
  exact ⟨fun hAlso => hApart _ _ 1 (by decide) ⟨askedMachine_changesSlot, hAlso⟩, hKeys,
    (hOrder _ _ (askedMachine.start none) rfl hKeys hPerm).2⟩

end Machine

end MatrixProgram
