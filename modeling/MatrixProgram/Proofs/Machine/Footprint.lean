import MatrixProgram.Proofs.Kernel.Copies
import MatrixProgram.Proofs.Machine.Writing

/-!
# The footprint of an action

`Behaves` says what an action of a machine may touch.  It changes the elements in `W` only and
never the shape of what a slot holds; it meets an unallocated matrix only among `O`; and it
does the same in two states that agree on the elements in `A`: both runs have the same
outcome, the elements in `A` still agree, and after a success those in `B` agree as well.

The predicate is closed under sequencing and under lookups, and `write_behaves` establishes it
for the common scheme of all writing commands.  The rest of the theory of a machine rests on
these lemmas and never opens `write` again.
-/

namespace MatrixProgram

/-- A set of elements of matrices, each given by its matrix, its row and its column. -/
abbrev ElementSet : Type :=
  Nat → Nat → Nat → Prop

/-! ## Slots -/

namespace Slots

/-- The shape of the buffer of a matrix, if it is allocated. -/
def shape? (slots : Slots) (m : Nat) : Option Shape :=
  (slots.buffer? m).map Buffer.shape

/-- An element of a matrix, if the matrix is allocated. -/
def value? (slots : Slots) (m row col : Nat) : Option Float32 :=
  (slots.buffer? m).map fun b => b.get row col

/-- There is one slot per matrix, and what is allocated has the declared shape. -/
structure Fit (slots : Slots) (p : Program) : Prop where
  length : slots.entries.length = p.numMatrices
  shape : ∀ {m shape}, slots.shape? m = some shape → p.matrices[m]? = some shape

/-- Two lists of slots hold buffers of the same shapes, which agree on some elements. -/
structure Agree (A : ElementSet) (slots slots' : Slots) : Prop where
  length : slots.entries.length = slots'.entries.length
  shape : ∀ m, slots.shape? m = slots'.shape? m
  value : ∀ m row col, A m row col → slots.value? m row col = slots'.value? m row col

theorem Fit.of_shape {slots slots' : Slots} {p : Program} (h : slots.Fit p)
    (hLength : slots'.entries.length = slots.entries.length)
    (hShape : ∀ m, slots'.shape? m = slots.shape? m) : slots'.Fit p where
  length := hLength.trans h.length
  shape := fun {m} _ hFound => h.shape ((hShape m).symm.trans hFound)

theorem shape?_of_buffer? {slots : Slots} {m : Nat} {b : Buffer}
    (h : slots.buffer? m = some b) : slots.shape? m = some b.shape := by
  simp [shape?, h]

theorem value?_of_buffer? {slots : Slots} {m : Nat} {b : Buffer}
    (h : slots.buffer? m = some b) (row col : Nat) :
    slots.value? m row col = some (b.get row col) := by
  simp [value?, h]

theorem exists_buffer?_of_shape? {slots : Slots} {m : Nat} {shape : Shape}
    (h : slots.shape? m = some shape) : ∃ b, slots.buffer? m = some b ∧ b.shape = shape :=
  Option.map_eq_some_iff.mp h

/-- A slot that is filled in one of two agreeing lists is filled in the other. -/
theorem Agree.exists_buffer? {A : ElementSet} {slots slots' : Slots} (h : Agree A slots slots')
    {m : Nat} {b : Buffer} (hBuffer : slots.buffer? m = some b) :
    ∃ b', slots'.buffer? m = some b' ∧ b'.shape = b.shape ∧
      ∀ row col, A m row col → b.get row col = b'.get row col := by
  have hShape := (h.shape m).symm.trans (shape?_of_buffer? hBuffer)
  obtain ⟨b', hBuffer', hEq⟩ := exists_buffer?_of_shape? hShape
  refine ⟨b', hBuffer', hEq, ?_⟩
  intro row col hIn
  have hValue := h.value m row col hIn
  rw [value?_of_buffer? hBuffer, value?_of_buffer? hBuffer'] at hValue
  exact Option.some.inj hValue

theorem Agree.buffer?_eq_none {A : ElementSet} {slots slots' : Slots}
    (h : Agree A slots slots') {m : Nat} (hNone : slots.buffer? m = none) :
    slots'.buffer? m = none := by
  have hShape := h.shape m
  simp only [shape?, hNone, Option.map_none] at hShape
  exact Option.map_eq_none_iff.mp hShape.symm

theorem Agree.mono {A B : ElementSet} {slots slots' : Slots} (h : Agree B slots slots')
    (hSub : ∀ m row col, A m row col → B m row col) : Agree A slots slots' :=
  ⟨h.length, h.shape, fun m row col hIn => h.value m row col (hSub m row col hIn)⟩

/-- A matrix is allocated. -/
def occupied (slots : Slots) (m : Nat) : Bool :=
  (slots.buffer? m).isSome

theorem isSome_shape? (slots : Slots) (m : Nat) : (slots.shape? m).isSome = slots.occupied m := by
  simp [shape?, occupied]

theorem occupied_congr {slots slots' : Slots} {m : Nat} (h : slots.shape? m = slots'.shape? m) :
    slots.occupied m = slots'.occupied m := by
  rw [← isSome_shape?, ← isSome_shape?, h]

/-- In slots that fit a program, the shapes follow from what is allocated. -/
theorem Fit.shape?_eq {slots : Slots} {p : Program} (h : slots.Fit p) (m : Nat) :
    slots.shape? m = if slots.occupied m then p.matrices[m]? else none := by
  have hSome := slots.isSome_shape? m
  cases hShape : slots.shape? m with
  | none =>
      rw [hShape] at hSome
      simp [← hSome]
  | some shape =>
      rw [hShape] at hSome
      simp [← hSome, h.shape hShape]

/-- Slots that fit a program hold buffers in which its views fit. -/
theorem Fit.fitsIn {slots : Slots} {p : Program} (h : slots.Fit p) (hWell : p.WellFormed)
    {s : Nat} {view : SubMatrix} {b : Buffer} (hView : p.subMatrix s = .ok view)
    (hBuffer : slots.buffer? view.matrix = some b) :
    view.region.FitsIn b.numRows b.numCols := by
  obtain ⟨shape, hMatrix, hFits⟩ := hWell.fits hView
  have hDeclared := h.shape (shape?_of_buffer? hBuffer)
  rw [(Program.matrix_eq_ok_iff.mp hMatrix).2] at hDeclared
  cases hDeclared
  exact hFits

/-- Only the slot that is filled changes. -/
theorem value?_put_of_ne {slots : Slots} {m k row col : Nat} {b : Option Buffer}
    (hNe : m ≠ k) : (slots.put m b).value? k row col = slots.value? k row col := by
  simp [value?, buffer?_put, hNe]

theorem shape?_put_of_ne {slots : Slots} {m k : Nat} {b : Option Buffer} (hNe : m ≠ k) :
    (slots.put m b).shape? k = slots.shape? k := by
  simp [shape?, buffer?_put, hNe]

theorem lt_length_of_buffer? {slots : Slots} {m : Nat} {b : Buffer}
    (h : slots.buffer? m = some b) : m < slots.entries.length := by
  apply Nat.lt_of_not_le
  intro hLe
  simp [buffer?, List.getElem?_eq_none hLe] at h

theorem getElem?_of_buffer? {slots : Slots} {m : Nat} {b : Buffer}
    (h : slots.buffer? m = some b) : slots.entries[m]? = some (some b) := by
  unfold buffer? at h
  cases hEntry : slots.entries[m]? with
  | none => simp [hEntry] at h
  | some entry =>
      rw [hEntry, Option.join_some] at h
      rw [h]

theorem buffer?_put_self {slots : Slots} {m : Nat} {b : Option Buffer}
    (hLt : m < slots.entries.length) : (slots.put m b).buffer? m = b := by
  simp [buffer?_put, hLt]

@[simp]
theorem length_put (slots : Slots) (m : Nat) (b : Option Buffer) :
    (slots.put m b).entries.length = slots.entries.length := by
  simp [put]

/-- Filling or freeing the same slot of two agreeing lists.  The elements of that slot agree
afterwards if both take the same buffer. -/
theorem Agree.put {A B : ElementSet} {slots slots' : Slots} {m : Nat} {b b' : Option Buffer}
    (h : Agree A slots slots') (hShape : b.map Buffer.shape = b'.map Buffer.shape)
    (hOther : ∀ k row col, B k row col → m ≠ k → A k row col)
    (hSelf : b = b' ∨ ∀ row col, ¬B m row col) : Agree B (slots.put m b) (slots'.put m b') where
  length := by
    rw [length_put, length_put]
    exact h.length
  shape := by
    intro k
    by_cases hEq : m = k
    · subst hEq
      by_cases hLt : m < slots.entries.length
      · rw [shape?, shape?, buffer?_put_self hLt, buffer?_put_self (h.length ▸ hLt)]
        exact hShape
      -- There is no such slot in either list, so nothing is filled.
      · have hLe : slots.entries.length ≤ m := Nat.le_of_not_lt hLt
        have hLe' : slots'.entries.length ≤ m := h.length ▸ hLe
        simp [shape?, buffer?, Slots.put, hLe, hLe']
    · rw [shape?_put_of_ne hEq, shape?_put_of_ne hEq]
      exact h.shape k
  value := by
    intro k row col hIn
    by_cases hEq : m = k
    · subst hEq
      rcases hSelf with rfl | hNone
      · simp only [value?, buffer?_put, h.length]
        by_cases hLt : m < slots'.entries.length
        · simp [hLt]
        · have hLe : slots.entries.length ≤ m := h.length ▸ Nat.le_of_not_lt hLt
          simp [hLt, buffer?, List.getElem?_eq_none hLe]
      · exact absurd hIn (hNone row col)
    · rw [value?_put_of_ne hEq, value?_put_of_ne hEq]
      exact h.value k row col (hOther k row col hIn hEq)

end Slots

/-! ## States -/

namespace MachineState

/-- A state differs from another one in some elements of its matrices, the parameters of its
target and its journal at most. -/
structure SameExcept (W : ElementSet) (s t : MachineState) : Prop where
  length : t.slots.entries.length = s.slots.entries.length
  shape : ∀ m, t.slots.shape? m = s.slots.shape? m
  value : ∀ m row col, ¬W m row col → t.slots.value? m row col = s.slots.value? m row col
  widths : t.target.map Network.widths = s.target.map Network.widths
  phase : t.phase = s.phase

/-- Two states agree on some elements and have equal targets. -/
structure Agree (A : ElementSet) (s s' : MachineState) : Prop where
  slots : s.slots.Agree A s'.slots
  target : s.target = s'.target

theorem SameExcept.refl (W : ElementSet) (s : MachineState) : SameExcept W s s :=
  ⟨rfl, fun _ => rfl, fun _ _ _ _ => rfl, rfl, rfl⟩

theorem SameExcept.trans {W : ElementSet} {s t u : MachineState} (hFirst : SameExcept W s t)
    (hRest : SameExcept W t u) : SameExcept W s u where
  length := hRest.length.trans hFirst.length
  shape := fun m => (hRest.shape m).trans (hFirst.shape m)
  value := fun m row col hNot =>
    (hRest.value m row col hNot).trans (hFirst.value m row col hNot)
  widths := hRest.widths.trans hFirst.widths
  phase := hRest.phase.trans hFirst.phase

theorem SameExcept.fit {W : ElementSet} {s t : MachineState} {p : Program}
    (h : SameExcept W s t) (hFit : s.slots.Fit p) : t.slots.Fit p :=
  hFit.of_shape h.length h.shape

theorem Agree.mono {A B : ElementSet} {s s' : MachineState} (h : Agree B s s')
    (hSub : ∀ m row col, A m row col → B m row col) : Agree A s s' :=
  ⟨h.slots.mono hSub, h.target⟩

end MachineState

namespace Machine

/-! ## The footprint of an action -/

/-- All of the matrices in `O` are allocated. -/
def AllAllocated (O : Nat → Prop) (slots : Slots) : Prop :=
  ∀ m, O m → (slots.shape? m).isSome = true

/-- Two results are the same up to elements outside of `A`, and after a success up to
elements outside of `B`. -/
inductive Matches {α : Type} (A B : ElementSet) :
    EStateM.Result Error MachineState α → EStateM.Result Error MachineState α → Prop
  | ok {a : α} {t t' : MachineState} (hA : t.Agree A t') (hB : t.Agree B t') :
      Matches A B (.ok a t) (.ok a t')
  | error {err : Error} {t t' : MachineState} (hA : t.Agree A t') :
      Matches A B (.error err t) (.error err t')

theorem Matches.mono {α : Type} {A B A' B' : ElementSet}
    {r r' : EStateM.Result Error MachineState α} (h : Matches A B r r')
    (hA : ∀ m row col, A' m row col → A m row col) (hB : ∀ m row col, B' m row col → B m row col) :
    Matches A' B' r r' := by
  cases h with
  | ok hBefore hAfter => exact .ok (hBefore.mono hA) (hAfter.mono hB)
  | error hBefore => exact .error (hBefore.mono hA)

/-- What an action may touch, in states whose slots fit a program. -/
structure Behaves {α : Type} (p : Program) (O : Nat → Prop) (A B W : ElementSet)
    (act : MachineAction α) : Prop where
  frame : ∀ {s : MachineState}, s.slots.Fit p → s.SameExcept W (Action.finalState (act s))
  allowed : ∀ {s : MachineState}, s.slots.Fit p →
    Action.Allowed (AllAllocated O s.slots) (Action.outcome (act s))
  agree : ∀ {s s' : MachineState}, s.slots.Fit p → s.Agree A s' → Matches A B (act s) (act s')

variable {α β : Type} {p : Program} {O : Nat → Prop} {A B W : ElementSet}

theorem Behaves.pure (a : α) : Behaves p O A A W (Pure.pure a : MachineAction α) where
  frame := fun _ => .refl W _
  allowed := fun _ => Action.Allowed.ok a
  agree := fun _ hAgree => .ok hAgree hAgree

theorem Behaves.throw {err : Error} (h : err.AllowedWhen True) :
    Behaves p O A B W (MonadExcept.throw err : MachineAction α) where
  frame := fun _ => .refl W _
  allowed := by
    intro s _ err' hErr
    cases hErr
    exact h.imp fun _ => trivial
  agree := fun _ hAgree => .error hAgree

/-- Agreement of states is agreement of slots that fit the same program. -/
theorem fit_of_agree {s s' : MachineState} (hFit : s.slots.Fit p) (h : s.Agree A s') :
    s'.slots.Fit p :=
  hFit.of_shape h.slots.length.symm fun m => (h.slots.shape m).symm

/-- Only what an action does in fitting states matters. -/
theorem Behaves.congr {act act' : MachineAction α} (h : Behaves p O A B W act')
    (hEq : ∀ s, s.slots.Fit p → act s = act' s) : Behaves p O A B W act where
  frame := fun hFit => hEq _ hFit ▸ h.frame hFit
  allowed := fun hFit => hEq _ hFit ▸ h.allowed hFit
  agree := by
    intro s s' hFit hAgree
    rw [hEq s hFit, hEq s' (fit_of_agree hFit hAgree)]
    exact h.agree hFit hAgree

/-- Sequencing: the first part may make more elements agree, which the rest may use. -/
theorem Behaves.andThen {C : ElementSet} {first : MachineAction α}
    {next : α → MachineAction β} (hFirst : Behaves p O A B W first)
    (hNext : ∀ a, Behaves p O B C W (next a)) (hSub : ∀ m row col, A m row col → B m row col) :
    Behaves p O A C W (first >>= next) where
  frame := by
    intro s hFit
    have hFrame := hFirst.frame hFit
    rw [Action.bind_run]
    cases hRun : first s with
    | ok a t =>
        rw [hRun] at hFrame
        exact hFrame.trans ((hNext a).frame (hFrame.fit hFit))
    | error err t =>
        rw [hRun] at hFrame
        exact hFrame
  allowed := by
    intro s hFit
    have hFrame := hFirst.frame hFit
    have hAllowed := hFirst.allowed hFit
    rw [Action.bind_run]
    cases hRun : first s with
    | ok a t =>
        rw [hRun] at hFrame
        intro err hErr
        refine ((hNext a).allowed (hFrame.fit hFit) err hErr).imp ?_
        intro hAll m hIn
        rw [hFrame.shape m]
        exact hAll m hIn
    | error err t =>
        rw [hRun] at hAllowed
        intro err' hErr
        cases hErr
        exact hAllowed err rfl
  agree := by
    intro s s' hFit hAgree
    have hFrame := hFirst.frame hFit
    have hMatch := hFirst.agree hFit hAgree
    rw [Action.bind_run, Action.bind_run]
    revert hMatch hFrame
    generalize first s = r
    generalize first s' = r'
    intro hFrame hMatch
    cases hMatch with
    | ok _ hB => exact ((hNext _).agree (hFrame.fit hFit) hB).mono hSub fun _ _ _ hIn => hIn
    | error hA => exact .error hA

theorem Behaves.bind {first : MachineAction α} {next : α → MachineAction β}
    (hFirst : Behaves p O A A W first) (hNext : ∀ a, Behaves p O A B W (next a)) :
    Behaves p O A B W (first >>= next) :=
  hFirst.andThen hNext fun _ _ _ hIn => hIn

theorem Behaves.forM {f : β → MachineAction Unit} (xs : List β)
    (h : ∀ x ∈ xs, Behaves p O A A W (f x)) : Behaves p O A A W (xs.forM f) := by
  induction xs with
  | nil => exact Behaves.pure ()
  | cons x rest ih =>
      have hRest := ih fun y hMem => h y (List.mem_cons_of_mem _ hMem)
      exact Behaves.bind (h x List.mem_cons_self) fun _ => hRest

theorem Behaves.ofExcept {check : Except Error α} (h : Action.Allowed True check) :
    Behaves p O A A W (Action.ofExcept check) := by
  cases check with
  | ok a => exact Behaves.pure a
  | error err => exact Behaves.throw (h err rfl)

/-- Fewer elements may be claimed to agree after a success. -/
theorem Behaves.weaken {C : ElementSet} {act : MachineAction α} (h : Behaves p O A C W act)
    (hSub : ∀ m row col, B m row col → C m row col) : Behaves p O A B W act where
  frame := h.frame
  allowed := h.allowed
  agree := fun hFit hAgree => (h.agree hFit hAgree).mono (fun _ _ _ hIn => hIn) hSub

/-! ## Lookups -/

/-- A lookup in the slots that meets an unallocated matrix only among `O`, and that finds the
same in slots that agree on `A`, up to what `norm` forgets. -/
structure Reads (p : Program) (O : Nat → Prop) (A : ElementSet) (norm : α → α)
    (lookup : Slots → Except Error α) : Prop where
  allowed : ∀ {slots : Slots}, slots.Fit p →
    Action.Allowed (AllAllocated O slots) (lookup slots)
  agree : ∀ {slots slots' : Slots}, slots.Fit p → slots.Agree A slots' →
    norm <$> lookup slots = norm <$> lookup slots'

/-- Two lookups find the same up to a function exactly when both fail with the same error, or
both succeed and the function agrees on what they find. -/
theorem map_eq_map_cases {f : α → β} {e e' : Except Error α} (h : f <$> e = f <$> e') :
    (∃ err, e = .error err ∧ e' = .error err) ∨
      ∃ a a', e = .ok a ∧ e' = .ok a' ∧ f a = f a' := by
  cases e with
  | error err =>
      cases e' with
      | error err' =>
          cases h
          exact .inl ⟨err, rfl, rfl⟩
      | ok a' => cases h
  | ok a =>
      cases e' with
      | error err' => cases h
      | ok a' => exact .inr ⟨a, a', rfl, rfl, Except.ok.inj h⟩

theorem Reads.ok (a : α) : Reads p O A id (fun _ => .ok a) where
  allowed := fun _ => Action.Allowed.ok a
  agree := fun _ _ => rfl

/-- Renaming what a lookup finds. -/
theorem Reads.map {lookup : Slots → Except Error α} {norm : α → α} (norm' : β → β) (f : α → β)
    (h : Reads p O A norm lookup) (hNorm : ∀ a, norm' (f a) = f (norm a)) :
    Reads p O A norm' (fun slots => f <$> lookup slots) where
  allowed := by
    intro slots hFit err hErr
    cases hFound : lookup slots with
    | error err' =>
        rw [hFound] at hErr
        cases hErr
        exact h.allowed hFit err hFound
    | ok a =>
        rw [hFound] at hErr
        cases hErr
  agree := by
    intro slots slots' hFit hAgree
    rcases map_eq_map_cases (h.agree hFit hAgree) with
      ⟨err, hErr, hErr'⟩ | ⟨a, a', hA, hA', hSame⟩
    · rw [hErr, hErr']
    · rw [hA, hA']
      show Except.ok (norm' (f a)) = .ok (norm' (f a'))
      rw [hNorm, hNorm, hSame]

/-- A lookup after a lookup, with pairs of what they find. -/
theorem Reads.bind {first : Slots → Except Error α} {norm : α → α}
    {next : Slots → Except Error β} {norm' : β → β} (hFirst : Reads p O A norm first)
    (hNext : Reads p O A norm' next) :
    Reads p O A (fun (a, b) => (norm a, norm' b)) fun slots => do
      let a ← first slots
      let b ← next slots
      return (a, b) where
  allowed := fun hFit => (hFirst.allowed hFit).bind fun a =>
    (hNext.allowed hFit).bind fun b => Action.Allowed.ok (a, b)
  agree := by
    intro slots slots' hFit hAgree
    rcases map_eq_map_cases (hFirst.agree hFit hAgree) with
      ⟨err, hErr, hErr'⟩ | ⟨a, a', hA, hA', hNorm⟩
    · rw [hErr, hErr']
      rfl
    · rcases map_eq_map_cases (hNext.agree hFit hAgree) with
        ⟨err, hErr, hErr'⟩ | ⟨b, b', hB, hB', hNorm'⟩
      · rw [hA, hA', hErr, hErr']
        rfl
      · rw [hA, hA', hB, hB']
        exact congrArg Except.ok (Prod.ext hNorm hNorm')

/-- A lookup for every member of a list. -/
theorem Reads.mapM {norm : β → β} {lookup : α → Slots → Except Error β} (xs : List α)
    (h : ∀ x ∈ xs, Reads p O A norm (lookup x)) :
    Reads p O A (List.map norm) (fun slots => xs.mapM fun x => lookup x slots) := by
  induction xs with
  | nil => exact (Reads.ok ()).map (List.map norm) (fun _ => []) fun _ => rfl
  | cons x rest ih =>
      have hRest := ih fun y hMem => h y (List.mem_cons_of_mem _ hMem)
      have hBoth := (h x List.mem_cons_self).bind hRest
      have hCons := hBoth.map (List.map norm) (fun (b, bs) => b :: bs) fun _ => rfl
      simp only [map_bind, map_pure] at hCons
      simp only [List.mapM_cons]
      exact hCons

/-- Going on from what a lookup finds, if that depends on no more than what is kept of it. -/
theorem Behaves.withRead {lookup : Slots → Except Error α} {norm : α → α}
    {next : α → MachineAction β} (hReads : Reads p O A norm lookup)
    (hNorm : ∀ a, next (norm a) = next a) (hNext : ∀ a, Behaves p O A B W (next a)) :
    Behaves p O A B W (fun s => (Action.ofExcept (lookup s.slots) >>= next) s) where
  frame := by
    intro s hFit
    cases hFound : lookup s.slots with
    | error err => exact .refl W s
    | ok a => exact (hNext a).frame hFit
  allowed := by
    intro s hFit
    cases hFound : lookup s.slots with
    | error err =>
        intro err' hErr
        cases hErr
        exact hReads.allowed hFit err hFound
    | ok a => exact (hNext a).allowed hFit
  agree := by
    intro s s' hFit hAgree
    rcases map_eq_map_cases (hReads.agree hFit hAgree.slots) with
      ⟨err, hErr, hErr'⟩ | ⟨a, a', hA, hA', hSame⟩
    · rw [hErr, hErr']
      exact .error hAgree
    · have hNextEq : next a' = next a := by
        rw [← hNorm a', ← hSame, hNorm]
      rw [hA, hA']
      show Matches A B (next a s) (next a' s')
      rw [hNextEq]
      exact (hNext a).agree hFit hAgree

theorem allowed_of_subMatrix {s : Nat} {err : Error} {a : Prop}
    (h : p.subMatrix s = .error err) : err.AllowedWhen a := by
  unfold Program.subMatrix at h
  split at h
  · cases h
    exact trivial
  · split at h
    · cases h
    · cases h
      exact trivial

/-- Reading a view of a sub-matrix, all elements of which agree. -/
theorem view?_reads (hWell : p.WellFormed) (s : Nat)
    (hOwner : ∀ view, p.subMatrix s = .ok view → O view.matrix)
    (hSeen : ∀ view, p.subMatrix s = .ok view → ∀ row col, view.region.Contains row col →
      A view.matrix row col) :
    Reads p O A (Option.map View.copied) (fun slots => slots.view? p s) where
  allowed := by
    intro slots hFit err hErr
    unfold Slots.view? at hErr
    split at hErr
    · cases hErr
    · cases hView : p.subMatrix s with
      | error err' =>
          rw [hView] at hErr
          cases hErr
          exact allowed_of_subMatrix hView
      | ok view =>
          cases hBuffer : slots.buffer? view.matrix with
          | none =>
              have hErr' : err = .lifecycle view.matrix .readUnallocated := by
                simpa [hView, Slots.read, hBuffer] using hErr.symm
              subst hErr'
              intro hAll
              have hSome := hAll view.matrix (hOwner view hView)
              simp [Slots.shape?, hBuffer] at hSome
          | some b =>
              have hFits := hFit.fitsIn hWell hView hBuffer
              simp only [hView, Slots.read, hBuffer, View.of, hFits, dif_pos,
                Action.check_ok_bind] at hErr
              cases hErr
  agree := by
    intro slots slots' hFit hAgree
    unfold Slots.view?
    split
    · rfl
    · cases hView : p.subMatrix s with
      | error err => rfl
      | ok view =>
          cases hBuffer : slots.buffer? view.matrix with
          | none =>
              have hNone := hAgree.buffer?_eq_none hBuffer
              simp [Slots.read, hBuffer, hNone]
          | some b =>
              obtain ⟨b', hBuffer', hShape, hValue⟩ := hAgree.exists_buffer? hBuffer
              have hFits := hFit.fitsIn hWell hView hBuffer
              have hRows : b'.numRows = b.numRows := congrArg Shape.numRows hShape
              have hCols : b'.numCols = b.numCols := congrArg Shape.numCols hShape
              have hFits' : view.region.FitsIn b'.numRows b'.numCols := by
                rw [hRows, hCols]
                exact hFits
              have hCopy : View.copied ⟨b, view.region, hFits⟩ =
                  View.copied ⟨b', view.region, hFits'⟩ := by
                refine View.copied_eq rfl ?_
                intro row col hRow hCol
                refine hValue _ _ (hSeen view hView _ _ ?_)
                simp only [View.numRows, View.numCols] at hRow hCol
                simp only [Region.Contains, Region.rowEnd, Region.colEnd]
                omega
              simp [Slots.read, hBuffer, hBuffer', View.of, hFits, hFits', hCopy, Functor.map,
                Except.map, pure, Except.pure]

/-! ## Writing a sub-matrix -/

/-- The state after the window of a matrix has been mapped. -/
def mapped (s : MachineState) (m : Nat) {rows cols : Nat} (values : Dense rows cols)
    (g : Region) (f : Nat → Nat → Float32 → Float32) : MachineState :=
  { s with slots := s.slots.put m (some ⟨rows, cols, values.mapWindow g f⟩) }

theorem value?_mapped {s : MachineState} {m rows cols : Nat} {values : Dense rows cols}
    {g : Region} {f : Nat → Nat → Float32 → Float32}
    (hBuffer : s.slots.buffer? m = some ⟨rows, cols, values⟩) (row col : Nat) :
    (mapped s m values g f).slots.value? m row col =
      some ((values.mapWindow g f).get row col) := by
  have hLt := Slots.lt_length_of_buffer? hBuffer
  exact Slots.value?_of_buffer? (Slots.buffer?_put_self hLt) row col

theorem shape?_mapped {s : MachineState} {m rows cols : Nat} {values : Dense rows cols}
    {g : Region} {f : Nat → Nat → Float32 → Float32}
    (hBuffer : s.slots.buffer? m = some ⟨rows, cols, values⟩) (k : Nat) :
    (mapped s m values g f).slots.shape? k = s.slots.shape? k := by
  by_cases hEq : m = k
  · subst hEq
    have hLt := Slots.lt_length_of_buffer? hBuffer
    rw [Slots.shape?_of_buffer? hBuffer]
    exact Slots.shape?_of_buffer? (b := ⟨rows, cols, values.mapWindow g f⟩)
      (Slots.buffer?_put_self hLt)
  · exact Slots.shape?_put_of_ne hEq

/-- Mapping a window changes elements of the window only. -/
theorem sameExcept_mapped {s : MachineState} {m rows cols : Nat} {values : Dense rows cols}
    {g : Region} {f : Nat → Nat → Float32 → Float32}
    (hBuffer : s.slots.buffer? m = some ⟨rows, cols, values⟩)
    (hWindow : ∀ row col, g.Contains row col → W m row col) :
    s.SameExcept W (mapped s m values g f) where
  length := Slots.length_put _ _ _
  shape := shape?_mapped hBuffer
  value := by
    intro k row col hNot
    -- Only the matrix of the window changes, and in it only the window.
    by_cases hEq : m = k
    · subst hEq
      rw [value?_mapped hBuffer, Slots.value?_of_buffer? hBuffer]
      have hOutside : ¬g.Contains row col := fun hIn => hNot (hWindow row col hIn)
      rw [Dense.get_mapWindow_of_not_contains hOutside]
      rfl
    · exact Slots.value?_put_of_ne hEq
  widths := rfl
  phase := rfl

/-- Mapping the same window of two agreeing states by the same map keeps the agreement. -/
theorem agree_mapped {s s' : MachineState} {m rows cols : Nat} {values values' : Dense rows cols}
    {g : Region} {f : Nat → Nat → Float32 → Float32} (hAgree : s.Agree A s')
    (hBuffer : s.slots.buffer? m = some ⟨rows, cols, values⟩)
    (hBuffer' : s'.slots.buffer? m = some ⟨rows, cols, values'⟩)
    (hB : ∀ k row col, B k row col → A k row col ∨
      k = m ∧ (row < rows → g.Contains row col ∧
        ∀ old old', f (row - g.rowOffset) (col - g.colOffset) old =
          f (row - g.rowOffset) (col - g.colOffset) old')) :
    (mapped s m values g f).Agree B (mapped s' m values' g f) where
  target := hAgree.target
  slots :=
    { length := by
        simp only [mapped, Slots.length_put]
        exact hAgree.slots.length
      shape := by
        intro k
        rw [shape?_mapped hBuffer, shape?_mapped hBuffer']
        exact hAgree.slots.shape k
      value := by
        intro k row col hIn
        by_cases hEq : m = k
        · subst hEq
          rw [value?_mapped hBuffer, value?_mapped hBuffer']
          by_cases hInside : row < rows ∧ col < cols
          · rw [Dense.get_mapWindow hInside.1 hInside.2, Dense.get_mapWindow hInside.1 hInside.2]
            rcases hB m row col hIn with hOld | ⟨-, hNew⟩
            · -- The old values agree, and both maps are the same.
              have hValue := hAgree.slots.value m row col hOld
              rw [Slots.value?_of_buffer? hBuffer, Slots.value?_of_buffer? hBuffer'] at hValue
              have hSame : values.get row col = values'.get row col := Option.some.inj hValue
              rw [hSame]
            · obtain ⟨hContains, hSet⟩ := hNew hInside.1
              rw [if_pos hContains, if_pos hContains]
              exact congrArg some (hSet _ _)
          · rw [Dense.get_of_not hInside, Dense.get_of_not hInside]
        · rcases hB k row col hIn with hOld | ⟨hSelf, -⟩
          · have hValue := hAgree.slots.value k row col hOld
            simp only [mapped, Slots.value?_put_of_ne hEq]
            exact hValue
          · exact absurd hSelf.symm hEq }

/-- What writing a sub-matrix does, once its matrix is allocated and the operands are
found. -/
theorem write_run {x : Machine} {dst : Nat} {operands : Slots → Except Error α}
    {w : α → {rows cols : Nat} → Region → Write rows cols} {s : MachineState}
    {view : SubMatrix} {b : Buffer} {a : α} {o : Except Error Unit}
    {f : Nat → Nat → Float32 → Float32} (hView : x.program.subMatrix dst = .ok view)
    (hBuffer : s.slots.buffer? view.matrix = some b) (hOperands : operands s.slots = .ok a)
    (hFits : view.region.FitsIn b.numRows b.numCols)
    (hMaps : Write.Maps view.region (w a view.region : Write b.numRows b.numCols) o f) :
    x.write dst operands w s = match o with
      | .ok u => .ok u (mapped s view.matrix b.values view.region f)
      | .error err => .error err (mapped s view.matrix b.values view.region f) := by
  have hEntry := Slots.getElem?_of_buffer? hBuffer
  unfold write
  simp only [hView, hEntry, hOperands, Write.inWindow, if_pos hFits]
  rw [hMaps.run b.values]
  cases o <;> rfl

/-- Writing a sub-matrix whose matrix is not allocated. -/
theorem write_run_unallocated {x : Machine} {dst : Nat} {operands : Slots → Except Error α}
    {w : α → {rows cols : Nat} → Region → Write rows cols} {s : MachineState}
    {view : SubMatrix} (hView : x.program.subMatrix dst = .ok view)
    (hBuffer : s.slots.buffer? view.matrix = none) :
    x.write dst operands w s =
      .error (if view.matrix < s.slots.entries.length then
        .lifecycle view.matrix .writtenUnallocated
      else .failed (.slotIndex view.matrix)) s := by
  unfold write
  rw [hView]
  by_cases hLt : view.matrix < s.slots.entries.length
  · have hEntry : s.slots.entries[view.matrix]? = some none := by
      rw [List.getElem?_eq_getElem hLt]
      simpa [Slots.buffer?, List.getElem?_eq_getElem hLt] using hBuffer
    simp only [hEntry, if_pos hLt]
  · have hEntry : s.slots.entries[view.matrix]? = none :=
      List.getElem?_eq_none (Nat.le_of_not_lt hLt)
    simp only [hEntry, if_neg hLt]

theorem write_run_no_view {x : Machine} {dst : Nat} {operands : Slots → Except Error α}
    {w : α → {rows cols : Nat} → Region → Write rows cols} {s : MachineState} {err : Error}
    (hView : x.program.subMatrix dst = .error err) : x.write dst operands w s = .error err s := by
  unfold write
  rw [hView]

theorem write_run_no_operands {x : Machine} {dst : Nat} {operands : Slots → Except Error α}
    {w : α → {rows cols : Nat} → Region → Write rows cols} {s : MachineState}
    {view : SubMatrix} {b : Buffer} {err : Error} (hView : x.program.subMatrix dst = .ok view)
    (hBuffer : s.slots.buffer? view.matrix = some b)
    (hOperands : operands s.slots = .error err) :
    x.write dst operands w s = .error err s := by
  have hEntry := Slots.getElem?_of_buffer? hBuffer
  unfold write
  simp only [hView, hEntry, hOperands]

/-- What a command that writes one sub-matrix touches: the window of that sub-matrix, and
whatever it takes to find its operands.  After a success the elements that have been set
agree, too. -/
theorem write_behaves {x : Machine} {dst : Nat} {operands : Slots → Except Error α}
    {norm : α → α} {w : α → {rows cols : Nat} → Region → Write rows cols} {set : Nat → Prop}
    (hWell : x.program.WellFormed)
    (hOwner : ∀ view, x.program.subMatrix dst = .ok view → O view.matrix)
    (hWindow : ∀ view, x.program.subMatrix dst = .ok view →
      ∀ row col, view.region.Contains row col → W view.matrix row col)
    (hReads : Reads x.program O A norm operands)
    (hNorm : ∀ a (rows cols : Nat) g, (w (norm a) g : Write rows cols) = w a g)
    (hSets : ∀ slots a, operands slots = .ok a → ∀ (rows cols : Nat) g,
      Write.Sets g set (w a g : Write rows cols))
    (hB : ∀ view shape, x.program.subMatrix dst = .ok view →
      x.program.matrix view.matrix = .ok shape → ∀ m row col, B m row col →
        A m row col ∨ m = view.matrix ∧ (row < shape.numRows →
          view.region.Contains row col ∧ set (row - view.region.rowOffset))) :
    Behaves x.program O A B W (x.write dst operands w) := by
  cases hView : x.program.subMatrix dst with
  | error err =>
      refine (Behaves.throw (allowed_of_subMatrix hView)).congr ?_
      intro s _
      exact write_run_no_view hView
  | ok view =>
      obtain ⟨shape, hMatrix, -⟩ := hWell.fits hView
      constructor
      · intro s hFit
        cases hBuffer : s.slots.buffer? view.matrix with
        | none =>
            rw [write_run_unallocated hView hBuffer]
            exact .refl W s
        | some b =>
            cases hOperands : operands s.slots with
            | error err =>
                rw [write_run_no_operands hView hBuffer hOperands]
                exact .refl W s
            | ok a =>
                obtain ⟨o, f, hMaps, -, -⟩ :=
                  hSets s.slots a hOperands b.numRows b.numCols view.region
                rw [write_run hView hBuffer hOperands (hFit.fitsIn hWell hView hBuffer) hMaps]
                cases o <;> exact sameExcept_mapped hBuffer (hWindow view hView)
      · intro s hFit
        cases hBuffer : s.slots.buffer? view.matrix with
        | none =>
            rw [write_run_unallocated hView hBuffer]
            intro err hErr
            cases hErr
            by_cases hLt : view.matrix < s.slots.entries.length
            · rw [if_pos hLt]
              intro hAll
              have hSome := hAll view.matrix (hOwner view hView)
              simp [Slots.shape?, hBuffer] at hSome
            · rw [if_neg hLt]
              exact trivial
        | some b =>
            cases hOperands : operands s.slots with
            | error err =>
                rw [write_run_no_operands hView hBuffer hOperands]
                intro err' hErr
                cases hErr
                exact hReads.allowed hFit err hOperands
            | ok a =>
                obtain ⟨o, f, hMaps, hAllowed, -⟩ :=
                  hSets s.slots a hOperands b.numRows b.numCols view.region
                rw [write_run hView hBuffer hOperands (hFit.fitsIn hWell hView hBuffer) hMaps]
                intro err hErr
                cases o with
                | ok u => cases hErr
                | error err' =>
                    cases hErr
                    exact (hAllowed err rfl).imp fun _ => trivial
      · intro s s' hFit hAgree
        cases hBuffer : s.slots.buffer? view.matrix with
        | none =>
            have hBuffer' := hAgree.slots.buffer?_eq_none hBuffer
            rw [write_run_unallocated hView hBuffer, write_run_unallocated hView hBuffer',
              hAgree.slots.length]
            exact .error hAgree
        | some b =>
            obtain ⟨b', hBuffer', hShape, -⟩ := hAgree.slots.exists_buffer? hBuffer
            rcases map_eq_map_cases (hReads.agree hFit hAgree.slots) with
              ⟨err, hErr, hErr'⟩ | ⟨a, a', hA, hA', hSame⟩
            · rw [write_run_no_operands hView hBuffer hErr,
                write_run_no_operands hView hBuffer' hErr']
              exact .error hAgree
            · have hFits := hFit.fitsIn hWell hView hBuffer
              obtain ⟨rows, cols, values⟩ := b
              obtain ⟨rows', cols', values'⟩ := b'
              simp only [Buffer.shape, Shape.mk.injEq] at hShape
              obtain ⟨rfl, rfl⟩ := hShape
              -- Both runs carry out the same change, so they map the window in the same way.
              have hChange : (w a' view.region : Write rows' cols') = w a view.region := by
                rw [← hNorm a', ← hSame, hNorm]
              obtain ⟨o, f, hMaps, -, hSet⟩ := hSets s.slots a hA rows' cols' view.region
              rw [write_run hView hBuffer hA hFits hMaps,
                write_run hView hBuffer' hA' hFits (hChange ▸ hMaps)]
              have hDeclared := hFit.shape (Slots.shape?_of_buffer? hBuffer)
              rw [(Program.matrix_eq_ok_iff.mp hMatrix).2] at hDeclared
              cases hDeclared
              have hKept := agree_mapped (f := f) (g := view.region) hAgree hBuffer hBuffer'
                (fun _ _ _ hIn => .inl hIn)
              cases o with
              | error err => exact .error hKept
              | ok u =>
                  refine .ok hKept (agree_mapped hAgree hBuffer hBuffer' ?_)
                  intro k row col hIn
                  refine (hB view _ hView hMatrix k row col hIn).imp_right ?_
                  rintro ⟨hSelf, hNew⟩
                  refine ⟨hSelf, fun hRow => ?_⟩
                  obtain ⟨hContains, hRowSet⟩ := hNew hRow
                  exact ⟨hContains, fun old old' => hSet rfl _ _ old old' hRowSet⟩

end Machine

end MatrixProgram
