import MatrixProgram.Proofs.Machine.Effects
import MatrixProgram.Proofs.Machine.Steps

/-!
# Storage during a run

When a program has passed the check, the matrices that are allocated before a command follow
from the program alone: those that are supplied or allocated by an earlier command, and not
released by one, `LiveAt`.  That is an invariant of a run which starts with the supplied
matrices, `Ready.step`.

So no command meets a matrix that is not allocated, none allocates a matrix twice or releases
one that is not there, and at the end exactly the produced matrices are left:
`accepted_run_safe`.
-/

namespace MatrixProgram

namespace Program

variable {p : Program} {net : Network} {i m : Nat} {b : Bool}

/-- A matrix is allocated before the command at a position. -/
def LiveAt (p : Program) (net : Network) (i m : Nat) : Prop :=
  (m ∈ p.supplied net ∨ ∃ j, j < i ∧ p.AllocatesAt j m) ∧ ∀ j, j < i → ¬p.ReleasesAt j m

theorem liveAt_zero_iff : p.LiveAt net 0 m ↔ m ∈ p.supplied net := by
  constructor
  · intro h
    rcases h.1 with hSupplied | ⟨j, hLt, -⟩
    · exact hSupplied
    · omega
  · intro hSupplied
    refine ⟨.inl hSupplied, ?_⟩
    intro j hLt
    omega

/-- A command that neither allocates nor releases a matrix leaves it as it is. -/
theorem liveAt_succ_iff (hAllocates : ¬p.AllocatesAt i m) (hReleases : ¬p.ReleasesAt i m) :
    p.LiveAt net (i + 1) m ↔ p.LiveAt net i m := by
  -- The only new position is that of the command itself, which does neither.
  have hBelow : ∀ {j} {q : Nat → Prop}, ¬q i → q j → j < i + 1 → j < i := by
    intro j q hNot hHolds hLt
    by_cases hEq : j = i
    · subst hEq
      exact absurd hHolds hNot
    · omega
  constructor
  · intro h
    obtain ⟨hOrigin, hKept⟩ := h
    refine ⟨?_, fun j hLt => hKept j (by omega)⟩
    rcases hOrigin with hSupplied | ⟨j, hLt, hAt⟩
    · exact .inl hSupplied
    · exact .inr ⟨j, hBelow (q := fun k => p.AllocatesAt k m) hAllocates hAt hLt, hAt⟩
  · intro h
    obtain ⟨hOrigin, hKept⟩ := h
    constructor
    · rcases hOrigin with hSupplied | ⟨j, hLt, hAt⟩
      · exact .inl hSupplied
      · exact .inr ⟨j, by omega, hAt⟩
    · intro j hLt hAt
      exact hKept j (hBelow (q := fun k => p.ReleasesAt k m) hReleases hAt hLt) hAt

theorem not_liveAt_succ_of_releases (h : p.ReleasesAt i m) : ¬p.LiveAt net (i + 1) m := by
  intro hLive
  exact hLive.2 i (by omega) h

theorem allocatesAt_iff {c : Command} (hCommand : p.commands[i]? = some c) :
    p.AllocatesAt i m ↔ c.allocated? = some m := by
  simp [AllocatesAt, hCommand]

theorem releasesAt_iff {c : Command} (hCommand : p.commands[i]? = some c) :
    p.ReleasesAt i m ↔ c.released? = some m := by
  simp [ReleasesAt, hCommand]

/-- The matrix that a command allocates or releases is the one that it resizes. -/
theorem resized?_of_allocated_or_released {c : Command}
    (h : c.allocated? = some m ∨ c.released? = some m) : c.resized? = some m := by
  cases c <;> simp [Command.allocated?, Command.released?] at h <;>
    simp [Command.resized?, Command.allocated?, Command.released?, h]

/-- A command leaves the matrices that it does not resize as they are. -/
theorem liveAt_succ_iff_of_resized {c : Command} (hCommand : p.commands[i]? = some c)
    (hNot : c.resized? ≠ some m) : p.LiveAt net (i + 1) m ↔ p.LiveAt net i m := by
  apply liveAt_succ_iff
  · rw [allocatesAt_iff hCommand]
    exact fun hAllocated => hNot (resized?_of_allocated_or_released (.inl hAllocated))
  · rw [releasesAt_iff hCommand]
    exact fun hReleased => hNot (resized?_of_allocated_or_released (.inr hReleased))

/-- A command that allocates or releases a matrix has no operands. -/
theorem not_owns_of_resized {c : Command} {k : Nat} (hResize : c.resized? = some m) :
    ¬p.Owns c k := by
  rintro ⟨slot, sub, view, hNames, -, -⟩
  cases hNames with
  | operand hOperand => cases c <;> cases hResize <;> cases slot <;> cases hOperand
  | pairRow hTable => cases c <;> cases hResize <;> cases hTable

/-- A command touches the matrices that it owns. -/
theorem touchesAt_of_owns {c : Command} (hWell : p.WellFormed)
    (hCommand : p.commands[i]? = some c) (h : p.Owns c m) : p.TouchesAt i m := by
  obtain ⟨col, hTouches⟩ := exists_touchesColumn_of_owns hWell h
  exact ⟨c, col, hCommand, hTouches⟩

variable (hDisciplined : p.Disciplined net b) (hOperands : p.checkOperands net = .ok ())

include hDisciplined hOperands

theorem not_liveAt_of_allocates (h : p.AllocatesAt i m) : ¬p.LiveAt net i m := by
  intro hLive
  rcases hLive.1 with hSupplied | ⟨j, hLt, hEarlier⟩
  · exact hDisciplined.notAllocated hSupplied i h
  · have hEq := hDisciplined.allocation_unique hOperands hEarlier h
    omega

theorem liveAt_succ_of_allocates (hWell : p.WellFormed) (h : p.AllocatesAt i m) :
    p.LiveAt net (i + 1) m := by
  refine ⟨.inr ⟨i, by omega, h⟩, ?_⟩
  intro j hLt hReleases
  have hLater := hDisciplined.allocation_lt_release hWell hOperands h hReleases
  omega

theorem liveAt_of_releases (hWell : p.WellFormed) (h : p.ReleasesAt i m) : p.LiveAt net i m := by
  constructor
  · by_cases hSupplied : m ∈ p.supplied net
    · exact .inl hSupplied
    · obtain ⟨shape, hMatrix⟩ := h.exists_matrix hOperands
      obtain ⟨a, hOnly, -⟩ := hDisciplined.allocated hMatrix hSupplied
      have hAllocates : p.AllocatesAt a m := (hOnly a).mpr rfl
      exact .inr ⟨a, hDisciplined.allocation_lt_release hWell hOperands hAllocates h, hAllocates⟩
  · intro j hLt hEarlier
    have hEq := hDisciplined.release_unique hOperands hEarlier h
    omega

/-- A matrix is allocated when it is touched, unless by its allocation. -/
theorem liveAt_of_touches (hWell : p.WellFormed) (hTouches : p.TouchesAt i m)
    (hNot : ¬p.AllocatesAt i m) : p.LiveAt net i m := by
  constructor
  · by_cases hSupplied : m ∈ p.supplied net
    · exact .inl hSupplied
    · obtain ⟨c, col, -, hColumn⟩ := id hTouches
      obtain ⟨shape, hMatrix, -⟩ := hWell.lt_of_touchesColumn hColumn
      obtain ⟨a, hOnly, hBefore⟩ := hDisciplined.allocated hMatrix hSupplied
      have hLe := hBefore i hTouches
      have hNe : i ≠ a := mt (hOnly i).mpr hNot
      exact .inr ⟨a, by omega, (hOnly a).mpr rfl⟩
  · intro j hLt hReleases
    have hLater := hDisciplined.touch_lt_release hOperands hReleases hTouches
    omega

/-- The matrices of the operands of a command are allocated before it. -/
theorem liveAt_of_owns {c : Command} (hWell : p.WellFormed)
    (hCommand : p.commands[i]? = some c) (h : p.Owns c m) : p.LiveAt net i m := by
  refine liveAt_of_touches hDisciplined hOperands hWell (touchesAt_of_owns hWell hCommand h) ?_
  rw [allocatesAt_iff hCommand]
  intro hAllocated
  exact not_owns_of_resized (resized?_of_allocated_or_released (.inl hAllocated)) h

/-- After all commands the produced matrices are left. -/
theorem liveAt_length_iff (hBinds : ∀ entry ∈ p.bindings, p.BindsMatrices entry) :
    p.LiveAt net p.commands.length m ↔ m ∈ p.produced net := by
  constructor
  · intro h
    obtain ⟨hOrigin, hKept⟩ := h
    have hMatrix : ∃ shape, p.matrix m = .ok shape := by
      rcases hOrigin with hSupplied | ⟨j, -, hAllocates⟩
      · exact exists_matrix_of_marked hBinds (.inl hSupplied)
      · exact hAllocates.exists_matrix hOperands
    obtain ⟨shape, hMatrix⟩ := hMatrix
    apply Classical.byContradiction
    intro hNotProduced
    obtain ⟨r, hOnly, -⟩ := hDisciplined.released hMatrix hNotProduced
    have hReleases : p.ReleasesAt r m := (hOnly r).mpr rfl
    obtain ⟨c, hCommand, -⟩ := id hReleases
    exact hKept r (List.getElem?_eq_some_iff.mp hCommand).1 hReleases
  · intro hProduced
    refine ⟨?_, fun j _ => hDisciplined.notReleased hProduced j⟩
    by_cases hSupplied : m ∈ p.supplied net
    · exact .inl hSupplied
    · obtain ⟨shape, hMatrix⟩ := exists_matrix_of_marked hBinds (.inr hProduced)
      obtain ⟨a, hOnly, -⟩ := hDisciplined.allocated hMatrix hSupplied
      have hAllocates : p.AllocatesAt a m := (hOnly a).mpr rfl
      obtain ⟨c, hCommand, -⟩ := id hAllocates
      exact .inr ⟨a, (List.getElem?_eq_some_iff.mp hCommand).1, hAllocates⟩

end Program

namespace Machine

open Program

variable {x : Machine} {i j : Nat} {c : Command} {s t : MachineState}

/-- A state as it should be before the command at a position: what is allocated has the
declared shape, and it is what should be. -/
structure Ready (x : Machine) (i : Nat) (s : MachineState) : Prop where
  fit : s.slots.Fit x.program
  occupied : ∀ m, s.slots.occupied m = true ↔ x.program.LiveAt x.network i m

/-- A command treats the storage as it should: it does not fail because a matrix is not
allocated, it allocates only what is free, and it releases only what is allocated. -/
structure SafeAt (x : Machine) (i : Nat) (c : Command) (s : MachineState) : Prop where
  noMisuse : ∀ m misuse t, x.execute i c s ≠ .error (.lifecycle m misuse) t
  allocates : ∀ m, c.allocated? = some m → s.slots.occupied m = false
  releases : ∀ m, c.released? = some m → s.slots.occupied m = true

variable {b : Bool} (hWell : x.program.WellFormed)
  (hDisciplined : x.program.Disciplined x.network b)
  (hOperands : x.program.checkOperands x.network = .ok ())

include hWell in
/-- A command treats the storage well if the matrices of its operands are allocated. -/
theorem execute_noMisuse (index : Nat) (hFit : s.slots.Fit x.program)
    (hCheck : x.program.checkCommand x.network c = .ok ())
    (hOwned : ∀ k, x.program.Owns c k → s.slots.occupied k = true) (m : Nat)
    (misuse : LifecycleViolation) (t : MachineState) :
    x.execute index c s ≠ .error (.lifecycle m misuse) t := by
  intro hRun
  cases hResize : c.resized? with
  | some k =>
      obtain ⟨b, hRefills⟩ := exists_refills hCheck hResize
      obtain ⟨journal, hResult⟩ := execute_resize index hRefills hCheck hFit
      rw [hRun] at hResult
      cases hResult
  | none =>
      have hKeeps := execute_keepsRules (A := fun _ _ _ => True) index hWell hCheck hResize
        fun _ _ _ _ => trivial
      have hAllowed := hKeeps.allowed hFit (.lifecycle m misuse) (by rw [hRun]; rfl)
      refine hAllowed fun k hIn => ?_
      rw [Slots.isSome_shape?]
      exact hOwned k hIn

include hWell hDisciplined hOperands

/-- A command that succeeds fills or frees the slot of the matrix that it resizes, and of the
other matrices the same ones stay allocated.  So the slots follow what should be allocated. -/
theorem occupied_step (hFit : s.slots.Fit x.program) (hCommand : x.program.commands[i]? = some c)
    (hRun : x.execute i c s = .ok () t) (k : Nat) :
    (t.slots.occupied k = true ↔ x.program.LiveAt x.network (i + 1) k) ∨
      t.slots.occupied k = s.slots.occupied k ∧
        (x.program.LiveAt x.network (i + 1) k ↔ x.program.LiveAt x.network i k) := by
  have hCheck := checkOperands_eq_ok_iff.mp hOperands i c hCommand
  cases hResize : c.resized? with
  | none =>
      have hKeeps := execute_keepsRules (A := fun _ _ _ => True) i hWell hCheck hResize
        fun _ _ _ _ => trivial
      have hFrame := hKeeps.frame hFit
      rw [hRun, Action.finalState] at hFrame
      -- The command keeps to its rules, so the same matrices stay allocated.
      have hNot : c.resized? ≠ some k := by simp [hResize]
      exact .inr ⟨Slots.occupied_congr (hFrame.shape k),
        liveAt_succ_iff_of_resized hCommand hNot⟩
  | some m =>
      obtain ⟨b, hRefills⟩ := exists_refills hCheck hResize
      obtain ⟨journal, hResult⟩ := execute_resize i hRefills hCheck hFit
      rw [hRun] at hResult
      cases hResult
      by_cases hEq : m = k
      · subst hEq
        left
        show (s.slots.put m b).occupied m = true ↔ _
        rw [Slots.occupied_put_self (hRefills.lt hCheck hFit)]
        rcases hRefills.allocated_or_released with ⟨hAllocated, hSome⟩ | ⟨hReleased, hNone⟩
        · have hLive := liveAt_succ_of_allocates hDisciplined hOperands hWell
            ((allocatesAt_iff hCommand).mpr hAllocated)
          simp [hSome, hLive]
        · have hDead : ¬x.program.LiveAt x.network (i + 1) m :=
            not_liveAt_succ_of_releases ((releasesAt_iff hCommand).mpr hReleased)
          simp [hNone, hDead]
      · have hNot : c.resized? ≠ some k := by simp [hResize, hEq]
        exact .inr ⟨Slots.occupied_put_of_ne hEq, liveAt_succ_iff_of_resized hCommand hNot⟩

/-- A command that succeeds leads from the state before it to the state before the next
one. -/
theorem Ready.step (h : x.Ready i s) (hCommand : x.program.commands[i]? = some c)
    (hRun : x.execute i c s = .ok () t) : x.Ready (i + 1) t := by
  have hCheck := checkOperands_eq_ok_iff.mp hOperands i c hCommand
  have hFit := (execute_fit i hWell hCheck h.fit).1
  rw [hRun, Action.finalState] at hFit
  refine ⟨hFit, fun k => ?_⟩
  rcases occupied_step hWell hDisciplined hOperands h.fit hCommand hRun k with
    hResized | ⟨hSame, hLive⟩
  · exact hResized
  · rw [hSame, h.occupied k, hLive]

/-- In the state before a command the storage is safe from it. -/
theorem Ready.safeAt (h : x.Ready i s) (hCommand : x.program.commands[i]? = some c) :
    x.SafeAt i c s where
  noMisuse := by
    refine execute_noMisuse hWell i h.fit (checkOperands_eq_ok_iff.mp hOperands i c hCommand) ?_
    intro k hOwned
    rw [h.occupied]
    exact liveAt_of_owns hDisciplined hOperands hWell hCommand hOwned
  allocates := by
    intro m hAllocated
    have hDead := not_liveAt_of_allocates hDisciplined hOperands
      ((allocatesAt_iff hCommand).mpr hAllocated)
    rw [← h.occupied m] at hDead
    exact Bool.eq_false_iff.mpr hDead
  releases := by
    intro m hReleased
    rw [h.occupied m]
    exact liveAt_of_releases hDisciplined hOperands hWell
      ((releasesAt_iff hCommand).mpr hReleased)

/-- A run along a segment leads from the state before it to the state after it. -/
theorem Ready.run {segment : List (Command × Nat)} (hSegment : x.program.Segment i segment j)
    (h : x.Ready i s) (hRun : x.executeAll segment s = .ok () t) : x.Ready j t := by
  have hStep : ∀ k c s t, k < j → x.program.commands[k]? = some c → x.Ready k s →
      x.execute k c s = .ok () t → x.Ready (k + 1) t :=
    fun _ _ _ _ _ hCommand hReady => hReady.step hWell hDisciplined hOperands hCommand
  rcases executeAll_cases hSegment hStep h with
    ⟨u, hDone, hReady⟩ | ⟨_, _, _, _, _, _, _, _, _, hFailed⟩
  · cases hRun.symm.trans hDone
    exact hReady
  · cases hRun.symm.trans hFailed

omit hWell hDisciplined hOperands

/-- The commands of a checked program, carried out from a state with the supplied matrices,
treat the storage as they should, and leave the produced matrices. -/
theorem accepted_run_safe {r : Request} (hBuilt : x.program.Built)
    (hAccepted : x.program.Accepted x.network r b) (hFit : s.slots.Fit x.program)
    (hSupplied : ∀ m, s.slots.occupied m = true ↔ m ∈ x.program.supplied x.network) :
    (∀ i c t, x.program.commands[i]? = some c →
      x.executeAll (x.program.commands.zipIdx.take i) s = .ok () t → x.SafeAt i c t) ∧
      ∀ t, x.executeAll x.program.commands.zipIdx s = .ok () t →
        ∀ m, t.slots.occupied m = true ↔ m ∈ x.program.produced x.network := by
  have hWell := hBuilt.wellFormed
  have hDisciplined := hAccepted.disciplined hWell
  have hOperands := hAccepted.checkOperands
  have hStart : x.Ready 0 s := by
    refine ⟨hFit, ?_⟩
    intro m
    rw [hSupplied m, liveAt_zero_iff]
  constructor
  · intro i c t hCommand hRun
    have hLe := Nat.le_of_lt (List.getElem?_eq_some_iff.mp hCommand).1
    have hReady := Ready.run hWell hDisciplined hOperands (segment_take hLe) hStart hRun
    exact hReady.safeAt hWell hDisciplined hOperands hCommand
  · intro t hRun m
    have hSegment := segment_drop (p := x.program) (Nat.zero_le _)
    rw [List.drop_zero] at hSegment
    have hReady := Ready.run hWell hDisciplined hOperands hSegment hStart hRun
    rw [hReady.occupied m]
    exact liveAt_length_iff hDisciplined hOperands hAccepted.bindsMatrices

theorem throughState_supplied (m : Nat) :
    (throughState (some 1) none).slots.occupied m = true ↔
      m ∈ throughProgram.supplied throughNetwork := by
  have hSupplied : throughProgram.supplied throughNetwork = [1] := rfl
  rw [hSupplied, List.mem_singleton]
  match m with
  | 0 => decide
  | 1 => decide
  | 2 => decide
  | m + 3 => simp [throughState, Slots.occupied, Slots.buffer?]

/-- The program that copies its input runs to its end, and it runs safely. -/
theorem throughMachine_run_safe :
    (∃ t, throughMachine.executeAll throughProgram.commands.zipIdx
        (throughState (some 1) none) = .ok () t) ∧
      (∀ i c t, throughProgram.commands[i]? = some c →
        throughMachine.executeAll (throughProgram.commands.zipIdx.take i)
            (throughState (some 1) none) = .ok () t →
          throughMachine.SafeAt i c t) ∧
        ∀ t, throughMachine.executeAll throughProgram.commands.zipIdx
            (throughState (some 1) none) = .ok () t →
          ∀ m, t.slots.occupied m = true ↔ m ∈ throughProgram.produced throughNetwork :=
  ⟨⟨_, rfl⟩, accepted_run_safe (x := throughMachine) throughProgram_built
    throughProgram_accepted (throughState_fit (some 1) none) throughState_supplied⟩

end Machine

end MatrixProgram
