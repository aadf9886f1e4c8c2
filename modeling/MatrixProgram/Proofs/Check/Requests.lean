import Mathlib.Data.List.Nodup
import MatrixProgram.Proofs.Check.Discipline

/-!
# What the request check guarantees

Every requested input and output names a bound node on its side, and the value of that node
has one row per requested index, `Requested`.  So the value of a requested input is among the
matrices that the caller supplies, and that of a requested output is among those that the
program produces.

The caller supplies matrices of two kinds, the values of inputs and the derivatives of
outputs: `mem_supplied_cases`.
-/

namespace MatrixProgram

/-- A count that a signed number of 32 bits can hold stands for itself. -/
theorem IoRequest.frameCount_of_lt {count : Nat} (h : count < 2147483648) :
    frameCount count = count := by
  have hSize : UInt32.size = 4294967296 := rfl
  unfold frameCount
  rw [Int.bmod_eq_of_le_mul_two (by omega) (by omega), Int.toNat_natCast]

namespace Program

variable {p : Program} {net : Network} {m : Nat}

/-! ## Supplied matrices -/

/-- A matrix is the value of a bound input. -/
def InputValue (p : Program) (net : Network) (m : Nat) : Prop :=
  ∃ entry ∈ p.bindings, net.isInputNode entry.1 = true ∧ entry.2.value = m

/-- A matrix is the derivative of a bound output. -/
def OutputDeriv (p : Program) (net : Network) (m : Nat) : Prop :=
  ∃ entry ∈ p.bindings, net.isOutputNode entry.1 = true ∧ entry.2.deriv? = some m

theorem mem_supplied_cases (h : m ∈ p.supplied net) :
    p.InputValue net m ∨ p.OutputDeriv net m := by
  obtain ⟨entry, hEntry, hIn⟩ := List.mem_flatMap.mp h
  unfold suppliedBy at hIn
  split at hIn
  · rename_i hInput
    exact .inl ⟨entry, hEntry, hInput, (List.mem_singleton.mp hIn).symm⟩
  · split at hIn
    · rename_i hOutput
      exact .inr ⟨entry, hEntry, hOutput, Option.mem_toList.mp hIn⟩
    · cases hIn

theorem InputValue.mem_supplied (h : p.InputValue net m) : m ∈ p.supplied net := by
  obtain ⟨entry, hEntry, hInput, rfl⟩ := h
  exact List.mem_flatMap.mpr ⟨entry, hEntry, by simp [suppliedBy, hInput]⟩

/-! ## Bindings of built programs -/

theorem perm_insertBinding (node : Nat) (b : Binding) (entries : List (Nat × Binding)) :
    (insertBinding node b entries).Perm ((node, b) :: entries) := by
  induction entries with
  | nil => exact .refl _
  | cons entry rest ih =>
      unfold insertBinding
      split
      · exact .refl _
      · exact (ih.cons entry).trans (.swap _ _ _)

/-- No node is bound twice. -/
def BindsOnce (p : Program) : Prop :=
  (p.bindings.map (·.1)).Nodup

namespace BindsOnce

theorem bind (h : p.BindsOnce) (node value : Nat) (deriv? : Option Nat) :
    (Action.finalState (Program.bind node value deriv? p)).BindsOnce := by
  cases hBound : p.binding? node with
  | some b => simpa [Program.bind, hBound, Action.bind_run, Action.finalState] using h
  | none =>
      have hFinal : Action.finalState (Program.bind node value deriv? p) =
          { p with bindings := insertBinding node ⟨value, deriv?⟩ p.bindings } := by
        simp [Program.bind, hBound, Action.bind_run, Action.finalState]
      have hNew : node ∉ p.bindings.map (·.1) := by
        intro hMem
        obtain ⟨entry, hEntry, rfl⟩ := List.mem_map.mp hMem
        have hNot := List.find?_eq_none.mp (Option.map_eq_none_iff.mp hBound) entry hEntry
        exact hNot (beq_self_eq_true _)
      rw [hFinal]
      exact ((perm_insertBinding node _ p.bindings).map _).nodup_iff.mpr
        (List.nodup_cons.mpr ⟨hNew, h⟩)

/-- A step of the builder that binds nothing leaves the bindings alone. -/
theorem congr {q : Program} (h : p.BindsOnce) (hBindings : q.bindings = p.bindings) :
    q.BindsOnce := by
  unfold BindsOnce
  rw [hBindings]
  exact h

theorem addSubMatrix (h : p.BindsOnce) (k : Nat) (g : Region) :
    (Action.finalState (Program.addSubMatrix k g p)).BindsOnce := by
  refine h.congr ?_
  cases hMatrix : p.matrix k with
  | error err => simp [Program.addSubMatrix, hMatrix, Action.bind_run, Action.finalState]
  | ok shape =>
      by_cases hEmpty : g.isEmpty = true
      · simp [Program.addSubMatrix, hMatrix, hEmpty, Action.bind_run, Action.finalState]
      · by_cases hFits : g.FitsIn shape.numRows shape.numCols <;>
          simp [Program.addSubMatrix, hMatrix, hEmpty, hFits, Action.bind_run, Action.map_run,
            Action.finalState]

theorem run (h : p.BindsOnce) (step : BuildStep) :
    (Action.finalState (step.run p)).BindsOnce := by
  cases step with
  | matrix rows cols =>
      refine h.congr ?_
      by_cases hEmpty : rows = 0 ∨ cols = 0 <;>
        simp [BuildStep.run, Program.addMatrix, hEmpty, Action.bind_run, Action.map_run,
          Action.finalState]
  | subMatrix k g =>
      simpa only [BuildStep.run, Action.finalState_map] using h.addSubMatrix k g
  | columns k colOffset numCols =>
      cases hMatrix : p.matrix k with
      | error err =>
          simpa [BuildStep.run, Program.addColumns, hMatrix, Action.bind_run,
            Action.finalState] using h
      | ok shape =>
          simpa [BuildStep.run, Program.addColumns, hMatrix, Action.bind_run]
            using h.addSubMatrix k ⟨0, shape.numRows, colOffset, numCols⟩
  | bind node value deriv? =>
      simpa only [BuildStep.run, Action.finalState_map] using h.bind node value deriv?
  | precomputed rows => exact h.congr rfl
  | indexes rows => exact h.congr rfl
  | rowPairs pairs => exact h.congr rfl
  | rowRanges ranges => exact h.congr rfl
  | command c => exact h.congr rfl
  | recordedMarker => exact h.congr rfl
  | forwardEnd position => exact h.congr rfl

theorem runAll (h : p.BindsOnce) (steps : List BuildStep) :
    (BuildStep.runAll steps p).BindsOnce := by
  induction steps generalizing p with
  | nil => exact h
  | cons step rest ih => exact ih (h.run step)

/-- Each binding is the one that is found for its node. -/
theorem binding?_of_mem {node : Nat} {b : Binding} (h : p.BindsOnce)
    (hMem : (node, b) ∈ p.bindings) : p.binding? node = some b := by
  cases hFind : p.bindings.find? (·.1 == node) with
  | none => exact absurd (beq_self_eq_true node) (List.find?_eq_none.mp hFind _ hMem)
  | some entry =>
      have hNode : entry.1 = node := by simpa using List.find?_some hFind
      have hSame : entry = (node, b) :=
        List.inj_on_of_nodup_map h (List.mem_of_find?_eq_some hFind) hMem hNode
      simp [binding?, hFind, hSame]

end BindsOnce

/-- In a built program no node is bound twice. -/
theorem Built.bindsOnce (h : p.Built) : p.BindsOnce := by
  obtain ⟨steps, rfl⟩ := h
  exact BindsOnce.runAll (p := .empty) List.nodup_nil steps

/-! ## Requested inputs and outputs -/

/-- A requested input or output names a bound node on its side, with a value of as many rows
as requested. -/
structure Requested (p : Program) (net : Network) (side : Side) (spec : IoRequest)
    (node : Nat) (b : Binding) (shape : Shape) : Prop where
  index : net.nodeIndex spec.name = some node
  onSide : isNodeOn net node side = true
  bound : p.binding? node = some b
  value : p.matrix b.value = .ok shape
  rows : shape.numRows = spec.numRows

theorem requested_of_checkSpec {side : Side} {spec : IoRequest} {u : Unit}
    (h : p.checkSpec net side spec = .ok u) :
    ∃ node b shape, p.Requested net side spec node b shape := by
  unfold checkSpec at h
  cases hIndex : net.nodeIndex spec.name with
  | none => simp [hIndex] at h
  | some node =>
      cases hSide : isNodeOn net node side with
      | false => simp [hIndex, hSide, Action.check_bind_eq_ok_iff] at h
      | true =>
          cases hBound : p.binding? node with
          | none => simp [hIndex, hSide, hBound] at h
          | some b =>
              cases hMatrix : p.matrix b.value with
              | error err => simp [hIndex, hSide, hBound, hMatrix] at h
              | ok shape =>
                  have hRows : shape.numRows = spec.numRows := by
                    apply Classical.byContradiction
                    intro hOther
                    simp [hIndex, hSide, hBound, hMatrix, hOther,
                      Action.check_bind_eq_ok_iff] at h
                  exact ⟨node, b, shape, hIndex, hSide, hBound, hMatrix, hRows⟩

/-- Conversely such a request passes, unless it asks for a derivative that has no matrix. -/
theorem Requested.checkSpec {side : Side} {spec : IoRequest} {node : Nat} {b : Binding}
    {shape : Shape} (h : p.Requested net side spec node b shape)
    (hDeriv : spec.wantsDeriv = true → b.deriv?.isSome = true) :
    p.checkSpec net side spec = .ok () := by
  have hWanted : (spec.wantsDeriv && b.deriv?.isNone) = false := by
    cases hWants : spec.wantsDeriv with
    | false => rfl
    | true =>
        rw [Bool.true_and, Option.isNone_eq_false_iff]
        exact hDeriv hWants
  simp [Program.checkSpec, h.index, h.onSide, h.bound, h.value, h.rows, hWanted, pure,
    Except.pure]

theorem Accepted.requestedInput {r : Request} {unchangedAfterRead : Bool}
    (h : p.Accepted net r unchangedAfterRead) {spec : IoRequest} (hMem : spec ∈ r.inputs) :
    ∃ node b shape, p.Requested net .input spec node b shape := by
  obtain ⟨a, hCheck⟩ := h
  obtain ⟨_, -, hRest⟩ := Action.check_bind_eq_ok_iff.mp (check_eq_ok_iff.mp hCheck).2.1
  obtain ⟨⟨⟩, hInputs, -⟩ := Action.check_bind_eq_ok_iff.mp hRest
  exact requested_of_checkSpec (Action.check_forM_eq_ok_iff.mp hInputs spec hMem)

theorem Accepted.requestedOutput {r : Request} {unchangedAfterRead : Bool}
    (h : p.Accepted net r unchangedAfterRead) {spec : IoRequest} (hMem : spec ∈ r.outputs) :
    ∃ node b shape, p.Requested net .output spec node b shape := by
  obtain ⟨a, hCheck⟩ := h
  obtain ⟨_, -, hRest⟩ := Action.check_bind_eq_ok_iff.mp (check_eq_ok_iff.mp hCheck).2.1
  obtain ⟨_, -, hOutputs⟩ := Action.check_bind_eq_ok_iff.mp hRest
  exact requested_of_checkSpec (Action.check_forM_eq_ok_iff.mp hOutputs spec hMem)

variable {spec : IoRequest} {node : Nat} {b : Binding} {shape : Shape}

theorem mem_bindings_of_binding? (h : p.binding? node = some b) : (node, b) ∈ p.bindings := by
  obtain ⟨entry, hFind, rfl⟩ := Option.map_eq_some_iff.mp h
  have hNode : entry.1 = node := by simpa using List.find?_some hFind
  have hMem := List.mem_of_find?_eq_some hFind
  rwa [← hNode]

/-- The value of a requested input is one of a bound input. -/
theorem Requested.inputValue (h : p.Requested net .input spec node b shape) :
    p.InputValue net b.value :=
  ⟨(node, b), mem_bindings_of_binding? h.bound, h.onSide, rfl⟩

/-- The value of a requested output is produced. -/
theorem Requested.mem_produced (h : p.Requested net .output spec node b shape) :
    b.value ∈ p.produced net := by
  have hOutput : net.isOutputNode node = true := h.onSide
  have hNotInput : net.isInputNode node = false := by
    simp only [Network.isOutputNode, Network.isInputNode, beq_iff_eq] at hOutput ⊢
    rw [hOutput]
    rfl
  exact List.mem_flatMap.mpr ⟨(node, b), mem_bindings_of_binding? h.bound,
    by simp [producedBy, hNotInput, hOutput]⟩

end Program

end MatrixProgram
