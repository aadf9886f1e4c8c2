import Mathlib.Data.List.Pairwise
import MatrixProgram.Proofs.Machine.Reachable
import MatrixProgram.Proofs.Check.Requests

/-!
# What the caller can supply

The bindings say which matrices the caller supplies, and the check excuses these from being
allocated and written.  The calls that supply a matrix go by the request: they refuse a name
that it leaves out.  So a matrix that the bindings call supplied can be supplied exactly when
the request asks for it, `supplies_iff_asked`.  The check does not compare the two,
`unasked_never_supplied`, and it does not compare the rows of the derivative of an output with
those of the value, which are the rows that every supplied buffer must have,
`not_supplies_of_rows_ne`.
-/

namespace MatrixProgram

/-- The request asks the caller for what a bound node is supplied with: it names the input, or
it names the output and wants a derivative. -/
inductive Request.Asks (r : Request) (net : Network) (node : Nat) : Prop
  | input {name : String} {spec : IoRequest} (found : r.input? name = some spec)
      (index : net.nodeIndex name = some node) : Asks r net node
  | outputDeriv {name : String} {spec : IoRequest} (found : r.output? name = some spec)
      (wants : spec.wantsDeriv = true) (index : net.nodeIndex name = some node) :
      Asks r net node

namespace Machine

open Program

variable {x : Machine} {s t : MachineState} {b : Buffer} {m node : Nat} {name : String}
  {spec : IoRequest} {bound : Binding} {unchangedAfterRead : Bool}

/-- Before the forward call, a call fills the slot of a matrix with every buffer of its
shape. -/
def Fills (x : Machine) (supply : Buffer → Call) (m : Nat) : Prop :=
  ∀ target s b, x.Reachable target s → s.phase = .created → x.program.matrix m = .ok b.shape →
    x.call (supply b) s = .ok .done { s with slots := s.slots.put m (some b) } ∧
      (s.slots.put m (some b)).buffer? m = some b

/-- Under some name the caller can supply a matrix. -/
def Supplies (x : Machine) (m : Nat) : Prop :=
  ∃ name, x.Fills (.supplyInput name) m ∨ x.Fills (.supplyOutputDeriv name) m

/-! ## The lookups of the calls -/

theorem boundNode_eq_ok_iff :
    x.boundNode name = .ok bound ↔
      ∃ node, x.network.nodeIndex name = some node ∧ x.program.binding? node = some bound := by
  unfold boundNode
  cases hIndex : x.network.nodeIndex name with
  | none => simp
  | some node => cases hBinding : x.program.binding? node <;> simp [hBinding]

theorem valueMatrix_eq_ok_iff :
    x.valueMatrix name = .ok m ↔ ∃ bound, x.boundNode name = .ok bound ∧ bound.value = m := by
  rw [valueMatrix, Action.check_map_eq_ok_iff]

theorem derivMatrix_eq_ok_iff :
    x.derivMatrix name = .ok m ↔
      ∃ bound, x.boundNode name = .ok bound ∧ bound.deriv? = some m := by
  rw [derivMatrix, Action.check_bind_eq_ok_iff]
  refine exists_congr fun bound => and_congr_right fun _ => ?_
  cases bound.deriv? <;> simp [pure, Except.pure]

theorem requestedInput_eq_ok_iff :
    x.requestedInput name = .ok spec ↔ x.request.input? name = some spec := by
  unfold requestedInput
  cases x.request.input? name <;> simp

theorem requestedOutput_eq_ok_iff :
    x.requestedOutput name = .ok spec ↔ x.request.output? name = some spec := by
  unfold requestedOutput
  cases x.request.output? name <;> simp

/-! ## Calls that succeed -/

/-- A call that succeeds answers, and the others go on where it ends. -/
theorem callAll_cons_ok {c : Call} {rest : List Call} {a : Answer} (h : x.call c s = .ok a t) :
    (x.callAll (c :: rest) s).1 = .ok a :: (x.callAll rest t).1 := by
  simp only [callAll, h, Action.outcome, Action.finalState]

theorem place_eq_ok_iff {numRows : Nat} {u : Unit} :
    x.place m numRows b s = .ok u t ↔
      x.program.matrix m = .ok b.shape ∧ b.numRows = numRows ∧ m < s.slots.entries.length ∧
        t = { s with slots := s.slots.put m (some b) } := by
  constructor
  · intro h
    rcases place_cases x m numRows b s with ⟨err, hRun, -⟩ | ⟨hMatrix, hRows, hLt, hRun⟩
    · cases hRun.symm.trans h
    · cases hRun.symm.trans h
      exact ⟨hMatrix, hRows, hLt, rfl⟩
  · rintro ⟨hMatrix, rfl, hLt, rfl⟩
    simp [place, hMatrix, Action.bind_run, Buffer.shape, Nat.not_le.mpr hLt]

theorem call_supplyInput_eq_ok_iff :
    x.call (.supplyInput name b) s = .ok .done t ↔
      s.phase = .created ∧ ∃ spec, x.request.input? name = some spec ∧
        ∃ m, x.valueMatrix name = .ok m ∧ x.program.matrix m = .ok b.shape ∧
          b.numRows = spec.numRows ∧ m < s.slots.entries.length ∧
            t = { s with slots := s.slots.put m (some b) } := by
  simp only [call, supplyInput, Action.map_run_eq_ok_iff, Action.bind_run_eq_ok_iff,
    requirePhase_eq_ok_iff, Action.ofExcept_run_eq_ok_iff, requestedInput_eq_ok_iff,
    place_eq_ok_iff]
  simp [CallKind.allowedIn]

theorem call_supplyOutputDeriv_eq_ok_iff :
    x.call (.supplyOutputDeriv name b) s = .ok .done t ↔
      (s.phase = .created ∨ s.phase = .forwardDone) ∧ ∃ spec,
        x.request.output? name = some spec ∧ spec.wantsDeriv = true ∧
          ∃ m, x.derivMatrix name = .ok m ∧ x.program.matrix m = .ok b.shape ∧
            b.numRows = spec.numRows ∧ m < s.slots.entries.length ∧
              t = { s with slots := s.slots.put m (some b) } := by
  simp only [call, supplyOutputDeriv, Action.map_run_eq_ok_iff, Action.bind_run_eq_ok_iff,
    requirePhase_eq_ok_iff, Action.ofExcept_run_eq_ok_iff, requestedOutput_eq_ok_iff,
    requireDerivative, Action.require_eq_ok_iff, place_eq_ok_iff]
  simp [CallKind.allowedIn]

/-! ## Requested nodes -/

/-- Only one binding supplies a matrix. -/
theorem eq_of_mem_suppliedBy {p : Program} {net : Network}
    (hOnce : (p.supplied net).Nodup) {entry other : Nat × Binding}
    (hEntry : entry ∈ p.bindings) (hOther : other ∈ p.bindings)
    (hSupplies : m ∈ suppliedBy net entry) (hAlso : m ∈ suppliedBy net other) :
    entry = other := by
  apply Classical.byContradiction
  intro hNe
  have hApart := (List.nodup_flatMap.mp hOnce).2
  have : Std.Symm (Function.onFun List.Disjoint (suppliedBy net)) :=
    ⟨fun _ _ h k hk hk' => h hk' hk⟩
  exact hApart.forall hEntry hOther hNe hSupplies hAlso

theorem mem_suppliedBy_of_input {net : Network} (hSide : net.isInputNode node = true) :
    m ∈ suppliedBy net (node, bound) ↔ m = bound.value := by
  simp [suppliedBy, hSide]

theorem mem_suppliedBy_of_output {net : Network} (hSide : net.isOutputNode node = true) :
    m ∈ suppliedBy net (node, bound) ↔ bound.deriv? = some m := by
  have hNotInput : net.isInputNode node = false := by
    simp only [Network.isOutputNode, Network.isInputNode, beq_iff_eq] at hSide ⊢
    rw [hSide]
    rfl
  simp [suppliedBy, hNotInput, hSide]

section Accepted

variable (hAccepted : x.program.Accepted x.network x.request unchangedAfterRead)

include hAccepted

/-- What the check guarantees of an input that is found under a name. -/
theorem requested_of_input? (hFound : x.request.input? name = some spec) :
    ∃ node bound shape, x.program.Requested x.network .input spec node bound shape ∧
      x.network.nodeIndex name = some node := by
  obtain ⟨node, bound, shape, hRequested⟩ :=
    hAccepted.requestedInput (List.mem_of_find?_eq_some hFound)
  have hName : spec.name = name := by simpa using List.find?_some hFound
  exact ⟨node, bound, shape, hRequested, hName ▸ hRequested.index⟩

/-- What the check guarantees of an output that is found under a name. -/
theorem requested_of_output? (hFound : x.request.output? name = some spec) :
    ∃ node bound shape, x.program.Requested x.network .output spec node bound shape ∧
      x.network.nodeIndex name = some node := by
  obtain ⟨node, bound, shape, hRequested⟩ :=
    hAccepted.requestedOutput (List.mem_of_find?_eq_some hFound)
  have hName : spec.name = name := by simpa using List.find?_some hFound
  exact ⟨node, bound, shape, hRequested, hName ▸ hRequested.index⟩

/-- A request that asks for what a node is supplied with names a call that fills it. -/
theorem supplies_of_asks (hBuilt : x.program.Built)
    (hBound : (node, bound) ∈ x.program.bindings)
    (hSupplied : m ∈ suppliedBy x.network (node, bound))
    (hRows : ∀ shape value, x.program.matrix m = .ok shape →
      x.program.matrix bound.value = .ok value → shape.numRows = value.numRows)
    (hAsks : x.request.Asks x.network node) : x.Supplies m := by
  have hBinding := hBuilt.bindsOnce.binding?_of_mem hBound
  have hStored : ∀ {target s} {shape : Shape}, x.Reachable target s →
      x.program.matrix m = .ok shape → m < s.slots.entries.length := by
    intro target s shape hReachable hMatrix
    rw [(hReachable.kept hBuilt.wellFormed).fit.length]
    exact lt_numMatrices_of_matrix hMatrix
  cases hAsks with
  | @input name spec hFound hIndex =>
      obtain ⟨k, other, shape, hRequested, hNamed⟩ := requested_of_input? hAccepted hFound
      cases hNamed.symm.trans hIndex
      cases hRequested.bound.symm.trans hBinding
      obtain rfl := (mem_suppliedBy_of_input hRequested.onSide).mp hSupplied
      refine ⟨name, .inl fun target s b hReachable hPhase hMatrix => ?_⟩
      cases hRequested.value.symm.trans hMatrix
      have hLt := hStored hReachable hMatrix
      refine ⟨call_supplyInput_eq_ok_iff.mpr ⟨hPhase, spec, hFound, bound.value, ?_, hMatrix,
        hRequested.rows, hLt, rfl⟩, Slots.buffer?_put_self hLt⟩
      exact valueMatrix_eq_ok_iff.mpr
        ⟨bound, boundNode_eq_ok_iff.mpr ⟨node, hIndex, hBinding⟩, rfl⟩
  | @outputDeriv name spec hFound hWants hIndex =>
      obtain ⟨k, other, shape, hRequested, hNamed⟩ := requested_of_output? hAccepted hFound
      cases hNamed.symm.trans hIndex
      cases hRequested.bound.symm.trans hBinding
      have hDeriv := (mem_suppliedBy_of_output hRequested.onSide).mp hSupplied
      refine ⟨name, .inr fun target s b hReachable hPhase hMatrix => ?_⟩
      have hLt := hStored hReachable hMatrix
      refine ⟨call_supplyOutputDeriv_eq_ok_iff.mpr ⟨.inl hPhase, spec, hFound, hWants, m, ?_,
        hMatrix, (hRows _ _ hMatrix hRequested.value).trans hRequested.rows, hLt, rfl⟩,
        Slots.buffer?_put_self hLt⟩
      exact derivMatrix_eq_ok_iff.mpr
        ⟨bound, boundNode_eq_ok_iff.mpr ⟨node, hIndex, hBinding⟩, hDeriv⟩

omit hAccepted in
/-- A call that fills the slot of one matrix, from the first state on, has not filled that of
another. -/
theorem eq_of_put_start {target : Option Network} {k : Nat}
    (h : ((x.start target).slots.put k (some b)).buffer? m = some b) : k = m := by
  apply Classical.byContradiction
  intro hNe
  rw [Slots.buffer?_put, if_neg fun hSame => hNe hSame.1] at h
  have hEntry := Slots.getElem?_of_buffer? h
  simp [start, Slots.free, List.getElem?_replicate] at hEntry

/-- A buffer that is taken for a derivative has the rows that are asked of the output, and so
has the value: the two matrices have equally many rows. -/
theorem rows_eq_of_supplyOutputDeriv {own value : Shape}
    (hRun : x.call (.supplyOutputDeriv name b) s = .ok .done t)
    (hName : x.boundNode name = .ok bound) (hDeriv : bound.deriv? = some m)
    (hMatrix : x.program.matrix m = .ok own)
    (hValue : x.program.matrix bound.value = .ok value) : own.numRows = value.numRows := by
  obtain ⟨-, spec, hFound, -, k, hOwn, hShape, hRows, -⟩ :=
    call_supplyOutputDeriv_eq_ok_iff.mp hRun
  obtain ⟨node, other, shape, hRequested, hIndex⟩ := requested_of_output? hAccepted hFound
  obtain ⟨named, hNamed, hMatch⟩ := derivMatrix_eq_ok_iff.mp hOwn
  cases hNamed.symm.trans hName
  cases hMatch.symm.trans hDeriv
  cases hShape.symm.trans hMatrix
  obtain ⟨node', hIndex', hBinding⟩ := boundNode_eq_ok_iff.mp hName
  cases hIndex.symm.trans hIndex'
  cases hBinding.symm.trans hRequested.bound
  cases hValue.symm.trans hRequested.value
  exact Eq.trans hRows hRequested.rows.symm

/-- A call that fills a supplied matrix is asked for, and the matrix has as many rows as the
bound value. -/
theorem asks_of_supplies (hWell : x.program.WellFormed)
    (hBound : (node, bound) ∈ x.program.bindings)
    (hSupplied : m ∈ suppliedBy x.network (node, bound)) (h : x.Supplies m) :
    x.request.Asks x.network node ∧
      ∀ shape value, x.program.matrix m = .ok shape →
        x.program.matrix bound.value = .ok value → shape.numRows = value.numRows := by
  have hOnce := (hAccepted.disciplined hWell).suppliedOnce
  obtain ⟨hNotEmpty, hLt⟩ := hAccepted.bindsMatrices _ hBound m
    (mem_boundMatrices_of_suppliedBy hSupplied)
  obtain ⟨shape, hMatrix⟩ := exists_matrix hNotEmpty hLt
  -- The calls are tried in the first state, with some buffer.
  let b : Buffer := .ofFn shape.numRows shape.numCols fun _ _ => 0
  obtain ⟨name, hFills | hFills⟩ := h
  · obtain ⟨hRun, hFilled⟩ := hFills none (x.start none) b .start rfl hMatrix
    obtain ⟨-, spec, hFound, k, hValue, -, -, -, hState⟩ := call_supplyInput_eq_ok_iff.mp hRun
    obtain ⟨node', bound', _, hRequested, hIndex⟩ := requested_of_input? hAccepted hFound
    obtain ⟨other, hOther, rfl⟩ := valueMatrix_eq_ok_iff.mp hValue
    obtain ⟨node'', hIndex', hBinding⟩ := boundNode_eq_ok_iff.mp hOther
    cases hIndex.symm.trans hIndex'
    have hSlots : (x.start none).slots.put m (some b) = _ := congrArg MachineState.slots hState
    obtain rfl := eq_of_put_start (hSlots ▸ hFilled)
    have hAlso : other.value ∈ suppliedBy x.network (node', other) :=
      (mem_suppliedBy_of_input hRequested.onSide).mpr rfl
    cases eq_of_mem_suppliedBy hOnce hBound (mem_bindings_of_binding? hBinding) hSupplied hAlso
    refine ⟨.input hFound hIndex, fun own value hOwn hValue => ?_⟩
    rw [Except.ok.inj (hOwn.symm.trans hValue)]
  · obtain ⟨hRun, hFilled⟩ := hFills none (x.start none) b .start rfl hMatrix
    obtain ⟨-, spec, hFound, hWants, k, hDeriv, -, -, -, hState⟩ :=
      call_supplyOutputDeriv_eq_ok_iff.mp hRun
    obtain ⟨node', bound', _, hRequested, hIndex⟩ := requested_of_output? hAccepted hFound
    obtain ⟨other, hOther, hMatch⟩ := derivMatrix_eq_ok_iff.mp hDeriv
    obtain ⟨node'', hIndex', hBinding⟩ := boundNode_eq_ok_iff.mp hOther
    cases hIndex.symm.trans hIndex'
    have hSlots : (x.start none).slots.put m (some b) = _ := congrArg MachineState.slots hState
    obtain rfl := eq_of_put_start (hSlots ▸ hFilled)
    have hAlso := (mem_suppliedBy_of_output hRequested.onSide).mpr hMatch
    cases eq_of_mem_suppliedBy hOnce hBound (mem_bindings_of_binding? hBinding) hSupplied hAlso
    exact ⟨.outputDeriv hFound hWants hIndex, fun own value hOwn hValue =>
      rows_eq_of_supplyOutputDeriv hAccepted hRun hOther hMatch hOwn hValue⟩

end Accepted

/-- In an accepted program a matrix that the bindings call supplied - the value of an input, or
the derivative of an output with as many rows as the output - can be supplied before the
forward call exactly when the request asks for it. -/
theorem supplies_iff_asked (hBuilt : x.program.Built)
    (hAccepted : x.program.Accepted x.network x.request unchangedAfterRead)
    (hBound : (node, bound) ∈ x.program.bindings)
    (hSupplied : m ∈ suppliedBy x.network (node, bound))
    (hRows : ∀ shape value, x.program.matrix m = .ok shape →
      x.program.matrix bound.value = .ok value → shape.numRows = value.numRows) :
    x.Supplies m ↔ x.request.Asks x.network node :=
  ⟨fun h => (asks_of_supplies hAccepted hBuilt.wellFormed hBound hSupplied h).1,
    supplies_of_asks hAccepted hBuilt hBound hSupplied hRows⟩

/-! ## A program that uses what it is supplied with -/

/-- The value of the input is copied to that of the output, and later the derivative of the
output to a matrix of its own. -/
def echoProgram : Program :=
  BuildStep.runAll
    [.matrix 1 2, .matrix 1 2, .matrix 1 2, .matrix 1 2, .bind 0 1 none, .bind 1 2 (some 3),
      .command (.allocUndefined 2), .command (.copy 2 1), .recordedMarker,
      .command (.allocUndefined 4), .command (.copy 4 3), .command (.release 1),
      .command (.release 3), .command (.release 4)]
    .empty

/-- A machine that is asked for one output, and supplied with the derivative of the output if
that is wanted. -/
def echoMachine (inputs : List IoRequest) (wantsDeriv : Bool) : Machine :=
  { program := echoProgram
    network := throughNetwork
    request := ⟨inputs, [.frames "out" 1 wantsDeriv], false, false⟩
    forwardEnd := 2
    traces := false
    undefinedContents := fun _ _ _ => 0 }

/-- With everything requested, both supplied matrices can be supplied. -/
theorem echoMachine_supplies :
    (echoMachine [.frames "in" 1 false] true).Supplies 1 ∧
      (echoMachine [.frames "in" 1 false] true).Supplies 3 := by
  have hBuilt : (echoMachine [.frames "in" 1 false] true).program.Built := ⟨_, rfl⟩
  have hAccepted : (echoMachine [.frames "in" 1 false] true).program.Accepted throughNetwork
      (echoMachine [.frames "in" 1 false] true).request true := ⟨_, rfl⟩
  have hInput : (0, ⟨1, none⟩) ∈ echoProgram.bindings := by decide
  have hOutput : (1, ⟨2, some 3⟩) ∈ echoProgram.bindings := by decide
  have hIn : throughNetwork.nodeIndex "in" = some 0 := rfl
  have hOut : throughNetwork.nodeIndex "out" = some 1 := rfl
  constructor
  · refine (supplies_iff_asked hBuilt hAccepted hInput (by decide) ?_).mpr (.input rfl hIn)
    intro shape value hShape hValue
    rw [Except.ok.inj (hShape.symm.trans hValue)]
  · refine (supplies_iff_asked hBuilt hAccepted hOutput (by decide) ?_).mpr
      (.outputDeriv rfl rfl hOut)
    intro shape value hShape hValue
    cases hShape
    cases hValue
    rfl

/-- The check accepts the same program for a request that leaves out the input and the
derivative.  The bindings still call both matrices supplied, but no name supplies one of them,
and the forward call fails at the command that reads the input. -/
theorem unasked_never_supplied :
    (echoMachine [] false).program.Built ∧
      (echoMachine [] false).program.Accepted throughNetwork (echoMachine [] false).request
          true ∧
        (∀ m ∈ [1, 3], m ∈ echoProgram.supplied throughNetwork ∧
          ¬(echoMachine [] false).Supplies m) ∧
          ((echoMachine [] false).callAll [.supplyInput "in" (.ofFn 1 2 fun _ _ => 1),
              .supplyOutputDeriv "out" (.ofFn 1 2 fun _ _ => 1), .forward]
              ((echoMachine [] false).start none)).1 =
            [.error (.usage (.notRequested "in" .input)),
              .error (.usage (.derivativeNotRequested "out" .output)),
              .error (.lifecycle 1 .readUnallocated)] := by
  have hShape : ∀ m ∈ [1, 3], echoProgram.matrix m = .ok ⟨1, 2⟩ := by decide
  refine ⟨⟨_, rfl⟩, ⟨_, rfl⟩, fun m hMem => ⟨?_, ?_⟩, rfl⟩
  · revert m
    decide
  · rintro ⟨name, hFills | hFills⟩
    · obtain ⟨hRun, -⟩ := hFills none _ (.ofFn 1 2 fun _ _ => 1) .start rfl (hShape m hMem)
      obtain ⟨-, spec, hFound, -⟩ := call_supplyInput_eq_ok_iff.mp hRun
      cases hFound
    · obtain ⟨hRun, -⟩ := hFills none _ (.ofFn 1 2 fun _ _ => 1) .start rfl (hShape m hMem)
      obtain ⟨-, spec, hFound, hWants, -⟩ := call_supplyOutputDeriv_eq_ok_iff.mp hRun
      obtain rfl := List.mem_singleton.mp (List.mem_of_find?_eq_some hFound)
      cases hWants

/-! ## Derivatives with other rows than the value

A request gives an output one number of rows.  The check compares it with the value, and the
calls compare it with the buffers for the value and for the derivative. -/

/-- In an accepted program no name supplies a matrix with other rows than the value that is
bound with it, although the bindings call it supplied and the check excuses it from being
written. -/
theorem not_supplies_of_rows_ne {value own : Shape} (hBuilt : x.program.Built)
    (hAccepted : x.program.Accepted x.network x.request unchangedAfterRead)
    (hBound : (node, bound) ∈ x.program.bindings)
    (hSupplied : m ∈ suppliedBy x.network (node, bound))
    (hValue : x.program.matrix bound.value = .ok value)
    (hMatrix : x.program.matrix m = .ok own) (hRows : own.numRows ≠ value.numRows) :
    ¬x.Supplies m := fun h =>
  hRows ((asks_of_supplies hAccepted hBuilt.wellFormed hBound hSupplied h).2 _ _ hMatrix hValue)

/-- The value of the input is copied to that of an output whose derivative has one row more,
and later the derivative to a matrix of its own. -/
def unevenProgram : Program :=
  BuildStep.runAll
    [.matrix 1 2, .matrix 1 2, .matrix 2 2, .matrix 2 2, .bind 0 1 none, .bind 1 2 (some 3),
      .command (.allocUndefined 2), .command (.copy 2 1), .recordedMarker,
      .command (.allocUndefined 4), .command (.copy 4 3), .command (.release 1),
      .command (.release 3), .command (.release 4)]
    .empty

/-- A machine that runs it and is asked for everything. -/
def unevenMachine : Machine :=
  { echoMachine [.frames "in" 1 false] true with program := unevenProgram }

/-- The check accepts the program, and its derivative cannot be supplied: buffers with its own
rows are refused as those with the rows of the value are, and the backward call fails. -/
theorem unevenMachine_stuck :
    unevenProgram.Built ∧
      unevenProgram.Accepted throughNetwork unevenMachine.request true ∧
        3 ∈ unevenProgram.supplied throughNetwork ∧ ¬unevenMachine.Supplies 3 ∧
          (unevenMachine.callAll [.supplyInput "in" (.ofFn 1 2 fun _ _ => 1), .forward,
              .supplyOutputDeriv "out" (.ofFn 1 2 fun _ _ => 1),
              .supplyOutputDeriv "out" (.ofFn 2 2 fun _ _ => 1), .backward]
              (unevenMachine.start none)).1 =
            [.ok .done, .ok .done, .error (.shapeMismatch ⟨2, 2⟩ ⟨1, 2⟩),
              .error (.shapeMismatch ⟨2, 2⟩ ⟨2, 2⟩),
              .error (.usage (.outputDerivNotSupplied "out"))] := by
  have hBuilt : unevenMachine.program.Built := ⟨_, rfl⟩
  have hAccepted : unevenMachine.program.Accepted throughNetwork unevenMachine.request true :=
    ⟨_, rfl⟩
  have hBound : (1, ⟨2, some 3⟩) ∈ unevenMachine.program.bindings := by decide
  exact ⟨hBuilt, hAccepted, by decide,
    not_supplies_of_rows_ne hBuilt hAccepted hBound (by decide) rfl rfl (by decide), rfl⟩

end Machine

end MatrixProgram
