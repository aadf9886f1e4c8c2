import MatrixProgram.Proofs.Machine.Commands

/-!
# Commands that work in place

A propagation or a backprop may read the matrix that it writes, even the very same sub-matrix.
Such a command does what it would do if each operand that it reads were first copied to a
fresh matrix of its own: `withCopies` adds these matrices to a machine, `readingCopies` lets
the command read them, and `inPlace_eq_copied` says that the outcome, the matrices and the
network to update are the same, for every overlap and also when the command fails.
-/

namespace MatrixProgram

/-- All of a copy is the copied view. -/
theorem View.of_toBuffer (v : View) :
    View.of v.toBuffer (.whole v.numRows v.numCols) = .ok v.copied :=
  dif_pos (Region.fitsIn_whole _ _)

/-! ## Fresh matrices for operands -/

/-- The sub-matrices that a propagation or a backprop reads, the absent ones included. -/
def Command.readOperands : Command → List Nat
  | .propagate _ _ input _ => [input]
  | .backprop _ _ _ inValue outValue outDeriv _ => [inValue, outValue, outDeriv]
  | _ => []

namespace Program

/-- The shape of a sub-matrix; that of an absent one is empty. -/
def viewShape (p : Program) (sub : Nat) : Shape :=
  match p.subMatrix? sub with
  | some view => view.region.shape
  | none => ⟨0, 0⟩

/-- The program with a further matrix for each of some operands, of the shape of the operand,
and with a view of all of each of these matrices. -/
def withCopies (p : Program) (subs : List Nat) : Program :=
  { p with
    matrices := p.matrices ++ subs.map p.viewShape
    subMatrices := p.subMatrices ++ subs.zipIdx.map fun (sub, position) =>
      ⟨p.numMatrices + position, .whole (p.viewShape sub).numRows (p.viewShape sub).numCols⟩ }

/-- The view of the copy of the operand at a position; an absent operand stays absent. -/
def copyOf (p : Program) (sub position : Nat) : Nat :=
  if sub = noSubMatrix then noSubMatrix else p.numSubMatrices + position

/-- A propagation or a backprop that reads the copies of its operands. -/
def readingCopies (p : Program) : Command → Command
  | .propagate k precomputed input output =>
      .propagate k precomputed (p.copyOf input 0) output
  | .backprop node k precomputed inValue outValue outDeriv inDeriv =>
      .backprop node k precomputed (p.copyOf inValue 0) (p.copyOf outValue 1)
        (p.copyOf outDeriv 2) inDeriv
  | c => c

variable {p : Program} {subs : List Nat} {sub : Nat} {view : SubMatrix}

theorem viewShape_eq (h : p.subMatrix sub = .ok view) : p.viewShape sub = view.region.shape := by
  rw [viewShape, subMatrix?_eq_some_iff.mpr h]

theorem subMatrix_withCopies (h : p.subMatrix sub = .ok view) :
    (p.withCopies subs).subMatrix sub = .ok view := by
  obtain ⟨hPresent, hGet⟩ := subMatrix_eq_ok_iff.mp h
  refine subMatrix_eq_ok_iff.mpr ⟨hPresent, ?_⟩
  exact (List.getElem?_append_left (List.getElem?_eq_some_iff.mp hGet).1).trans hGet

/-- The copy of an operand fills a matrix that the program does not have, and each operand has
a matrix of its own. -/
theorem subMatrix_copyOf {position : Nat} (hWell : p.WellFormed)
    (hAt : subs[position]? = some sub) (h : p.subMatrix sub = .ok view) :
    (p.withCopies subs).subMatrix (p.copyOf sub position) =
      .ok ⟨p.numMatrices + position, .whole view.region.numRows view.region.numCols⟩ := by
  have hPresent := (subMatrix_eq_ok_iff.mp h).1
  have hPositive : 0 < p.subMatrices.length := (List.getElem?_eq_some_iff.mp hWell.emptyView).1
  have hCopy : p.copyOf sub position = p.subMatrices.length + position := if_neg hPresent
  refine subMatrix_eq_ok_iff.mpr ⟨?_, ?_⟩
  · rw [hCopy, noSubMatrix]
    omega
  · rw [hCopy, withCopies, List.getElem?_append_right (Nat.le_add_right _ _),
      Nat.add_sub_cancel_left]
    simp [List.getElem?_zipIdx, hAt, viewShape_eq h, Region.shape]

end Program

/-! ## States with further matrices -/

/-- A state of `n` matrices, and the same state with further matrices. -/
structure MachineState.Extends (n : Nat) (extra : List (Option Buffer)) (s s' : MachineState) :
    Prop where
  length : s.slots.entries.length = n
  slots : s'.slots.entries = s.slots.entries ++ extra
  target : s'.target = s.target
  phase : s'.phase = s.phase

namespace MachineState.Extends

variable {n m : Nat} {extra : List (Option Buffer)} {s s' : MachineState}

theorem getElem?_eq (h : Extends n extra s s') (hLt : m < n) :
    s'.slots.entries[m]? = s.slots.entries[m]? := by
  rw [h.slots, List.getElem?_append_left (h.length ▸ hLt)]

theorem put (h : Extends n extra s s') (hLt : m < n) (b : Option Buffer) :
    Extends n extra { s with slots := s.slots.put m b } { s' with slots := s'.slots.put m b } where
  length := (Slots.length_put _ _ _).trans h.length
  slots := by
    simp only [Slots.put, h.slots]
    exact List.set_append_left _ _ (h.length ▸ hLt)
  target := h.target
  phase := h.phase

/-- A sub-matrix of the smaller program is found in both states. -/
theorem view?_eq {p q : Program} {sub : Nat} (h : Extends n extra s s')
    (hSub : sub = noSubMatrix ∨ ∃ view, p.subMatrix sub = .ok view ∧
      q.subMatrix sub = .ok view ∧ view.matrix < n) :
    s'.slots.view? q sub = s.slots.view? p sub := by
  obtain rfl | ⟨view, hView, hView', hLt⟩ := hSub
  · rfl
  · simp only [Slots.view?, hView, hView', Action.check_ok_bind, Slots.read, Slots.buffer?,
      h.getElem?_eq hLt]

end MachineState.Extends

namespace Machine

open Program

variable {x x' : Machine} {c : Command} {index : Nat} {s s' t t' : MachineState}
  {α β : Type} {extra : List (Option Buffer)}

/-- A copy of what an operand shows, if it is present and stored. -/
def copyFor (x : Machine) (slots : Slots) (sub : Nat) : Option Buffer :=
  match slots.view? x.program sub with
  | .ok (some v) => some v.toBuffer
  | _ => none

/-- The machine with a further matrix for each of some operands. -/
def withCopies (x : Machine) (subs : List Nat) : Machine :=
  { x with program := x.program.withCopies subs }

/-- The state in which each of these matrices holds what the operand shows. -/
def stateWithCopies (x : Machine) (subs : List Nat) (s : MachineState) : MachineState :=
  { s with slots := ⟨s.slots.entries ++ subs.map (x.copyFor s.slots)⟩ }

/-- An operand is absent, or it views a matrix for which there is storage of the declared
shape. -/
def StoresOperand (x : Machine) (slots : Slots) (sub : Nat) : Prop :=
  sub = noSubMatrix ∨ ∃ view b, x.program.subMatrix sub = .ok view ∧
    slots.buffer? view.matrix = some b ∧ x.program.matrix view.matrix = .ok b.shape

/-- A state holds storage of the declared shape for every operand of a command. -/
structure StoresOperands (x : Machine) (c : Command) (s : MachineState) : Prop where
  length : s.slots.entries.length = x.program.numMatrices
  operand : ∀ slot sub, c.operand? slot = some sub → x.StoresOperand s.slots sub

theorem StoresOperand.resolves {slots : Slots} {sub : Nat}
    (h : x.StoresOperand slots sub) (subs : List Nat) :
    sub = noSubMatrix ∨ ∃ view, x.program.subMatrix sub = .ok view ∧
      (x.program.withCopies subs).subMatrix sub = .ok view ∧
        view.matrix < x.program.numMatrices := by
  obtain rfl | ⟨view, b, hView, -, hMatrix⟩ := h
  · exact .inl rfl
  · exact .inr ⟨view, hView, subMatrix_withCopies hView, lt_numMatrices_of_matrix hMatrix⟩

/-- The copy of an operand shows what the operand shows. -/
theorem view?_copyOf (hWell : x.program.WellFormed) {subs : List Nat} {sub position : Nat}
    (h : s.Extends x.program.numMatrices extra s') (hStored : x.StoresOperand s.slots sub)
    (hAt : subs[position]? = some sub)
    (hCopy : extra[position]? = some (x.copyFor s.slots sub)) :
    ∃ operand : Option View, s.slots.view? x.program sub = .ok operand ∧
      s'.slots.view? (x.program.withCopies subs) (x.program.copyOf sub position) =
        .ok (operand.map View.copied) := by
  obtain rfl | ⟨view, b, hView, hBuffer, hMatrix⟩ := hStored
  · exact ⟨none, rfl, rfl⟩
  · obtain ⟨shape, hDeclared, hFits⟩ := hWell.fits hView
    cases hMatrix.symm.trans hDeclared
    have hFound : s.slots.view? x.program sub = .ok (some ⟨b, view.region, hFits⟩) := by
      simp [Slots.view?, (subMatrix_eq_ok_iff.mp hView).1, hView, Slots.read, hBuffer, View.of,
        show view.region.FitsIn b.numRows b.numCols from hFits, pure, Except.pure]
    have hCopyView := subMatrix_copyOf hWell hAt hView
    have hCopyBuffer : s'.slots.buffer? (x.program.numMatrices + position) =
        some (View.toBuffer ⟨b, view.region, hFits⟩) := by
      rw [Slots.buffer?, h.slots, ← h.length, List.getElem?_append_right (Nat.le_add_right _ _),
        Nat.add_sub_cancel_left, hCopy, copyFor, hFound]
      rfl
    refine ⟨_, hFound, ?_⟩
    have hSeen := View.of_toBuffer ⟨b, view.region, hFits⟩
    simp only [View.numRows, View.numCols] at hSeen
    simp only [Slots.view?, if_neg (subMatrix_eq_ok_iff.mp hCopyView).1, hCopyView,
      Action.check_ok_bind, Slots.read, hCopyBuffer, hSeen]
    rfl

/-! ## The parts of a command -/

/-- Writing the same sub-matrix by the same change. -/
theorem write_sameRun {n dst : Nat} {operands : Slots → Except Error α}
    {operands' : Slots → Except Error β} {w : α → {rows cols : Nat} → Region → Write rows cols}
    {w' : β → {rows cols : Nat} → Region → Write rows cols} {a : α} {b : β}
    (h : s.Extends n extra s')
    (hDst : dst = noSubMatrix ∨ ∃ view, x.program.subMatrix dst = .ok view ∧
      x'.program.subMatrix dst = .ok view ∧ view.matrix < n)
    (hOperands : operands s.slots = .ok a) (hOperands' : operands' s'.slots = .ok b)
    (hSame : ∀ (rows cols : Nat) g, (w' b g : Write rows cols) = w a g) :
    SameRun (MachineState.Extends n extra) (x.write dst operands w s)
      (x'.write dst operands' w' s') := by
  obtain rfl | ⟨view, hView, hView', hLt⟩ := hDst
  · exact .error h
  · unfold write
    simp only [hView, hView', h.getElem?_eq hLt, hOperands, hOperands']
    rcases s.slots.entries[view.matrix]? with _ | _ | buffer
    · exact .error h
    · exact .error h
    · have hChange : Write.inWindow view.region (w' b) buffer =
          Write.inWindow view.region (w a) buffer := by
        simp only [Write.inWindow, hSame]
      simp only [hChange]
      cases Write.inWindow view.region (w a) buffer with
      | ok u b' => exact .ok (h.put hLt _)
      | error err b' => exact .error (h.put hLt _)

/-- Changing the network to update in the same way. -/
theorem changeTarget_sameRun {n : Nat}
    {change change' : Network → MachineState → EStateM.Result Error Network Unit}
    (h : s.Extends n extra s') (hSame : ∀ net, change' net s' = change net s) :
    SameRun (MachineState.Extends n extra) (changeTarget change s) (changeTarget change' s') := by
  unfold changeTarget
  rw [h.target]
  cases s.target with
  | none => exact .ok h
  | some net =>
      simp only [hSame]
      cases change net s with
      | ok u net' => exact .ok ⟨h.length, h.slots, rfl, h.phase⟩
      | error err net' => exact .error ⟨h.length, h.slots, rfl, h.phase⟩

theorem slots_finalState_changeTarget
    (change : Network → MachineState → EStateM.Result Error Network Unit) (s : MachineState) :
    (Action.finalState (changeTarget change s)).slots = s.slots := by
  unfold changeTarget
  cases s.target with
  | none => rfl
  | some net => simp only [Action.finalState_mapState]

section Copies

variable (hWell : x.program.WellFormed) {n : Nat}

include hWell

/-- A propagation from a copy of its input. -/
theorem propagate_sameRun {k input output : Nat} {precomputed : Option Nat}
    (hInput : x.StoresOperand s.slots input) (hOutput : x.StoresOperand s.slots output)
    (h : s.Extends x.program.numMatrices [x.copyFor s.slots input] s') :
    SameRun (MachineState.Extends x.program.numMatrices [x.copyFor s.slots input])
      (x.propagate index k precomputed input output s)
      ((x.withCopies [input]).propagate index k precomputed (x.program.copyOf input 0) output
        s') := by
  obtain ⟨operand, hFound, hCopied⟩ := view?_copyOf hWell h hInput
    (show [input][0]? = some input from rfl) rfl
  refine SameRun.lookup (x.network.component k) h fun component => ?_
  refine SameRun.lookup (x.precomputedRows index precomputed) h fun rows => ?_
  rw [writeFrom_eq, writeFrom_eq]
  refine write_sameRun h (hOutput.resolves _) hFound hCopied fun numRows numCols g => ?_
  cases operand with
  | none => rfl
  | some v => exact component.propagate_copied rows v g

/-- An update of the target from copies of its operands. -/
theorem updateTarget_sameRun {k inValue outDeriv : Nat} {subs : List Nat}
    {rows : Option (List Nat)} (hInValue : x.StoresOperand s.slots inValue)
    (hOutDeriv : x.StoresOperand s.slots outDeriv) (hFirst : subs[0]? = some inValue)
    (hLast : subs[2]? = some outDeriv)
    (h : s.Extends x.program.numMatrices (subs.map (x.copyFor s.slots)) s') :
    SameRun (MachineState.Extends x.program.numMatrices (subs.map (x.copyFor s.slots)))
      (x.updateTarget index k rows inValue outDeriv s)
      ((x.withCopies subs).updateTarget index k rows (x.program.copyOf inValue 0)
        (x.program.copyOf outDeriv 2) s') := by
  obtain ⟨inView, hInView, hInCopy⟩ := view?_copyOf hWell h hInValue hFirst (by simp [hFirst])
  obtain ⟨outView, hOutView, hOutCopy⟩ := view?_copyOf hWell h hOutDeriv hLast (by simp [hLast])
  refine changeTarget_sameRun h fun net => ?_
  have hInCopy' : s'.slots.view? (x.withCopies subs).program (x.program.copyOf inValue 0) = _ :=
    hInCopy
  have hOutCopy' : s'.slots.view? (x.withCopies subs).program (x.program.copyOf outDeriv 2) = _ :=
    hOutCopy
  simp only [hInView, hOutView, hInCopy', hOutCopy']
  cases outView with
  | none => rfl
  | some v => simp only [Option.map_some, Component.update_copied]

/-- The derivative of the input of a component from copies of its operands. -/
theorem writeInDeriv_sameRun {component : Component} {inValue outValue outDeriv inDeriv : Nat}
    {rows : Option (List Nat)} (hInValue : x.StoresOperand s.slots inValue)
    (hOutValue : x.StoresOperand s.slots outValue) (hOutDeriv : x.StoresOperand s.slots outDeriv)
    (hInDeriv : x.StoresOperand s.slots inDeriv) {subs : List Nat}
    (hSubs : subs = [inValue, outValue, outDeriv])
    (h : s.Extends x.program.numMatrices (subs.map (x.copyFor s.slots)) s') :
    SameRun (MachineState.Extends x.program.numMatrices (subs.map (x.copyFor s.slots)))
      (x.writeInDeriv component rows inValue outValue outDeriv inDeriv s)
      ((x.withCopies subs).writeInDeriv component rows (x.program.copyOf inValue 0)
        (x.program.copyOf outValue 1) (x.program.copyOf outDeriv 2) inDeriv s') := by
  subst hSubs
  unfold writeInDeriv
  by_cases hPresent : inDeriv ≠ noSubMatrix
  · obtain ⟨inView, hInView, hInCopy⟩ := view?_copyOf hWell h hInValue
      (show [inValue, outValue, outDeriv][0]? = some inValue from rfl) rfl
    obtain ⟨outView, hOutView, hOutCopy⟩ := view?_copyOf hWell h hOutValue
      (show [inValue, outValue, outDeriv][1]? = some outValue from rfl) rfl
    obtain ⟨derivView, hDerivView, hDerivCopy⟩ := view?_copyOf hWell h hOutDeriv
      (show [inValue, outValue, outDeriv][2]? = some outDeriv from rfl) rfl
    have hViews : x.backpropViews inValue outValue outDeriv s.slots =
        .ok (inView, outView, derivView) := by
      simp [backpropViews, hInView, hOutView, hDerivView, pure, Except.pure]
    have hCopies : (x.withCopies [inValue, outValue, outDeriv]).backpropViews
        (x.program.copyOf inValue 0) (x.program.copyOf outValue 1) (x.program.copyOf outDeriv 2)
          s'.slots =
        .ok (inView.map View.copied, outView.map View.copied, derivView.map View.copied) := by
      simp only [backpropViews, withCopies, hInCopy, hOutCopy, hDerivCopy, Action.check_ok_bind]
      rfl
    rw [if_pos hPresent, if_pos hPresent]
    refine write_sameRun h (hInDeriv.resolves _) hViews hCopies fun numRows numCols g => ?_
    cases derivView with
    | none => rfl
    | some d => exact component.backprop_copied rows inView outView d g
  · rw [if_neg hPresent, if_neg hPresent]
    exact .ok h

/-- A backprop from copies of its operands: the update of the target comes first and leaves
the operands as they are. -/
theorem backprop_sameRun {k inValue outValue outDeriv inDeriv : Nat} {precomputed : Option Nat}
    (hInValue : x.StoresOperand s.slots inValue) (hOutValue : x.StoresOperand s.slots outValue)
    (hOutDeriv : x.StoresOperand s.slots outDeriv) (hInDeriv : x.StoresOperand s.slots inDeriv)
    {subs : List Nat} (hSubs : subs = [inValue, outValue, outDeriv])
    (h : s.Extends x.program.numMatrices (subs.map (x.copyFor s.slots)) s') :
    SameRun (MachineState.Extends x.program.numMatrices (subs.map (x.copyFor s.slots)))
      (x.backprop index k precomputed inValue outValue outDeriv inDeriv s)
      ((x.withCopies subs).backprop index k precomputed (x.program.copyOf inValue 0)
        (x.program.copyOf outValue 1) (x.program.copyOf outDeriv 2) inDeriv s') := by
  rw [backprop_eq, backprop_eq]
  refine SameRun.lookup (x.network.component k) h fun component => ?_
  refine SameRun.lookup (x.precomputedRows index precomputed) h fun rows => ?_
  refine SameRun.bind ?_ ?_
  · by_cases hUpdatable : component.capabilities.updatable = true
    · rw [if_pos hUpdatable, if_pos hUpdatable]
      exact updateTarget_sameRun hWell hInValue hOutDeriv (by rw [hSubs]; rfl)
        (by rw [hSubs]; rfl) h
    · rw [if_neg hUpdatable, if_neg hUpdatable]
      exact .ok h
  · intro _ t t' hUpdate hBetween
    have hKept : t.slots = s.slots := by
      have hFinal : (Action.finalState ((if component.capabilities.updatable = true then
          x.updateTarget index k rows inValue outDeriv else pure ()) s)).slots = s.slots := by
        split
        · exact slots_finalState_changeTarget _ s
        · rfl
      rw [hUpdate] at hFinal
      exact hFinal
    rw [← hKept] at hInValue hOutValue hOutDeriv hInDeriv hBetween ⊢
    exact writeInDeriv_sameRun hWell hInValue hOutValue hOutDeriv hInDeriv hSubs hBetween

omit hWell in
/-- What is written can be noted, or it cannot, in both runs. -/
theorem execute_sameRun {subs : List Nat} {c' : Command}
    (hPerform : SameRun (MachineState.Extends x.program.numMatrices extra) (x.perform index c s)
      ((x.withCopies subs).perform index c' s'))
    (hWritten : c'.written? = c.written?)
    (hResolves : ∀ sub, c.written? = some sub → sub = noSubMatrix ∨ ∃ view,
      x.program.subMatrix sub = .ok view ∧ (x.program.withCopies subs).subMatrix sub = .ok view ∧
        view.matrix < x.program.numMatrices) :
    SameRun (MachineState.Extends x.program.numMatrices extra) (x.execute index c s)
      ((x.withCopies subs).execute index c' s') := by
  refine SameRun.bind hPerform fun _ t t' _ h => ?_
  show SameRun _ ((if x.traces = true then _ else _ : MachineAction Unit) t)
    ((if x.traces = true then _ else _ : MachineAction Unit) t')
  by_cases hTraces : x.traces = true
  · rw [if_pos hTraces, if_pos hTraces]
    simp only [Action.bind_run, Action.get_run, journalEntry, hWritten]
    cases hSub : c.written? with
    | none => exact .ok ⟨h.length, h.slots, h.target, h.phase⟩
    | some sub =>
        have hView := h.view?_eq (hResolves sub hSub)
        simp only [withCopies, hView]
        cases t.slots.view? x.program sub with
        | error err => exact .error h
        | ok v => exact .ok ⟨h.length, h.slots, h.target, h.phase⟩
  · rw [if_neg hTraces, if_neg hTraces]
    exact .ok h

/-- A propagation or a backprop that reads the copies of its operands. -/
theorem perform_sameRun (index : Nat) (hOpcode : c.opcode = .propagate ∨ c.opcode = .backprop)
    (hStored : x.StoresOperands c s)
    (h : s.Extends x.program.numMatrices (c.readOperands.map (x.copyFor s.slots)) s') :
    SameRun (MachineState.Extends x.program.numMatrices (c.readOperands.map (x.copyFor s.slots)))
      (x.perform index c s)
      ((x.withCopies c.readOperands).perform index (x.program.readingCopies c) s') := by
  have hOperand := hStored.operand
  cases c with
  | propagate k precomputed input output =>
      exact propagate_sameRun hWell (hOperand .input _ rfl) (hOperand .output _ rfl) h
  | backprop node k precomputed inValue outValue outDeriv inDeriv =>
      exact backprop_sameRun hWell (hOperand .inValue _ rfl) (hOperand .outValue _ rfl)
        (hOperand .outDeriv _ rfl) (hOperand .inDeriv _ rfl) rfl h
  | _ => simp [Command.opcode] at hOpcode

end Copies

/-- A propagation or a backprop, whatever its operands share with what it writes, does what it
does when each operand that it reads has been copied to a fresh matrix: the outcome, the
matrices and the network to update are the same.  In particular an updatable component sees
the value of the input and the derivative of the output as they are before the command. -/
theorem inPlace_eq_copied (hBuilt : x.program.Built)
    (hOpcode : c.opcode = .propagate ∨ c.opcode = .backprop)
    (hStored : x.StoresOperands c s) :
    let subs := c.readOperands
    let run := x.execute index c s
    let run' := (x.withCopies subs).execute index (x.program.readingCopies c)
      (x.stateWithCopies subs s)
    Action.outcome run' = Action.outcome run ∧
      (Action.finalState run).Extends x.program.numMatrices (subs.map (x.copyFor s.slots))
        (Action.finalState run') ∧
      ∀ node k precomputed inValue outValue outDeriv inDeriv component rows,
        c = .backprop node k precomputed inValue outValue outDeriv inDeriv →
          x.network.component k = .ok component → component.capabilities.updatable = true →
            x.precomputedRows index precomputed = .ok rows →
              (Action.finalState run).target =
                (Action.finalState (x.updateTarget index k rows inValue outDeriv s)).target := by
  intro subs run run'
  have hBefore : s.Extends x.program.numMatrices (subs.map (x.copyFor s.slots))
      (x.stateWithCopies subs s) := ⟨hStored.length, rfl, rfl, rfl⟩
  have hSame : SameRun (MachineState.Extends x.program.numMatrices
      (subs.map (x.copyFor s.slots))) run run' := by
    have hPerform := perform_sameRun hBuilt.wellFormed index hOpcode hStored hBefore
    refine execute_sameRun hPerform ?_ ?_
    · cases c <;> rfl
    · intro sub hWritten
      obtain ⟨slot, hOperand⟩ : ∃ slot, c.operand? slot = some sub := by
        cases c with
        | propagate k precomputed input output => exact ⟨.output, hWritten⟩
        | backprop node k precomputed inValue outValue outDeriv inDeriv =>
            simp only [Command.written?] at hWritten
            split at hWritten
            · cases hWritten
            · exact ⟨.inDeriv, hWritten⟩
        | _ => simp [Command.opcode] at hOpcode
      exact (hStored.operand slot sub hOperand).resolves _
  have hFinal := hSame.finalState
  refine ⟨hSame.outcome_eq, hFinal, ?_⟩
  intro node k precomputed inValue outValue outDeriv inDeriv component rows hCommand hComponent
    hUpdatable hRows
  subst hCommand
  exact target_finalState_backprop hComponent hUpdatable hRows

/-- A matrix of three rows.  A backprop reads the first two as the derivative of the output
and the last two as the value of the input, and it writes the last two. -/
def slideMachine : Machine :=
  { program := BuildStep.runAll
      [.matrix 3 1, .subMatrix 1 ⟨0, 2, 0, 1⟩, .subMatrix 1 ⟨1, 2, 0, 1⟩,
        .command (.backprop 1 0 none 3 0 2 3)]
      .empty
    network :=
      { components := [("affine", .affine
          ⟨1, 1, Dense.ofFn fun _ _ => 2, Dense.ofFn fun _ _ => 0, 1⟩)]
        nodes := [⟨"in", .input⟩, ⟨"layer", .component 0⟩, ⟨"out", .output⟩] }
    request := ⟨[], [], true, false⟩
    forwardEnd := 0
    traces := true
    undefinedContents := fun _ _ _ => 0 }

/-- The rows hold 1, 2 and 3, and the component itself is to be updated. -/
def slideState : MachineState :=
  { slots := ⟨[none, some (.ofFn 3 1 fun row _ => [1, 2, 3].getD row 0)]⟩
    target := some slideMachine.network
    phase := .forwardDone
    journal := [] }

theorem slideState_stores :
    slideMachine.StoresOperands (.backprop 1 0 none 3 0 2 3) slideState where
  length := rfl
  operand := by
    intro slot sub hOperand
    cases slot <;> cases hOperand
    · exact .inr ⟨_, _, rfl, rfl, rfl⟩
    · exact .inl rfl
    · exact .inr ⟨_, _, rfl, rfl, rfl⟩
    · exact .inr ⟨_, _, rfl, rfl, rfl⟩

/-- The update and the derivative are those of a machine that keeps both operands in matrices
of their own, numbered 2 and 4. -/
theorem slideMachine_backprop_copied :
    slideMachine.program.Built ∧
      slideMachine.StoresOperands (.backprop 1 0 none 3 0 2 3) slideState ∧
        let run := slideMachine.execute 0 (.backprop 1 0 none 3 0 2 3) slideState
        let run' := (slideMachine.withCopies [3, 0, 2]).execute 0
          (.backprop 1 0 none 4 0 6 3) (slideMachine.stateWithCopies [3, 0, 2] slideState)
        Action.outcome run' = Action.outcome run ∧
          (Action.finalState run').slots.buffer? 1 = (Action.finalState run).slots.buffer? 1 ∧
            (Action.finalState run').target = (Action.finalState run).target ∧
              (Action.finalState run).target =
                (Action.finalState (slideMachine.updateTarget 0 0 none 3 2 slideState)).target := by
  have hBuilt : slideMachine.program.Built := ⟨_, rfl⟩
  obtain ⟨hOutcome, hFinal, hTarget⟩ :=
    inPlace_eq_copied hBuilt (.inr rfl) slideState_stores
  have hSlot := hFinal.getElem?_eq (m := 1) (by decide)
  exact ⟨hBuilt, slideState_stores, hOutcome, congrArg Option.join hSlot, hFinal.target,
    hTarget 1 0 none 3 0 2 3 _ none rfl rfl rfl rfl⟩

end Machine

end MatrixProgram
