import MatrixProgram.Network
import MatrixProgram.Program.Basic
import MatrixProgram.Request

/-!
# The state of a machine

A machine has one slot per matrix of its program; an allocated matrix has a buffer in its
slot.  Besides the slots the state holds the network to update, if there is one, the
phase, and the journal of a machine that traces its commands.
-/

namespace MatrixProgram

/-- One slot per matrix. -/
structure Slots where
  entries : List (Option Buffer)

namespace Slots

/-- Slots for `count` matrices, all of them free. -/
def free (count : Nat) : Slots :=
  ⟨List.replicate count none⟩

/-- The buffer of a matrix, if the matrix exists and is allocated. -/
def buffer? (slots : Slots) (m : Nat) : Option Buffer :=
  (slots.entries[m]?).join

/-- The slots with the one of a matrix changed; nothing changes for a matrix without a
slot. -/
def put (slots : Slots) (m : Nat) (b : Option Buffer) : Slots :=
  ⟨slots.entries.set m b⟩

/-- The buffer of a matrix that is about to be read. -/
def read (slots : Slots) (m : Nat) : Except Error Buffer :=
  match slots.buffer? m with
  | some b => .ok b
  | none => .error (.lifecycle m .readUnallocated)

/-- The view of a sub-matrix that is about to be read, absent for the empty one. -/
def view? (slots : Slots) (p : Program) (s : Nat) : Except Error (Option View) :=
  if s = noSubMatrix then
    .ok none
  else do
    let sub ← p.subMatrix s
    let b ← slots.read sub.matrix
    let v ← View.of b sub.region
    return some v

/-- Reading a slot after one has been changed. -/
theorem buffer?_put {slots : Slots} {m k : Nat} {b : Option Buffer} :
    (slots.put m b).buffer? k =
      if m = k ∧ k < slots.entries.length then b else slots.buffer? k := by
  simp only [buffer?, put, List.getElem?_set]
  by_cases hEq : m = k
  · subst hEq
    by_cases hLt : m < slots.entries.length
    · simp [hLt]
    · simp [hLt]
  · simp [hEq]

end Slots

/-- What a tracing machine notes of a command: its statement, and the sum of what it has
written. -/
structure JournalEntry where
  command : Nat
  statement : String
  sum : Option Float

/-- The state of a machine. -/
structure MachineState where
  slots : Slots
  target : Option Network
  phase : Phase
  journal : List JournalEntry

/-- What a machine works on.  It never changes during a run. -/
structure Machine where
  program : Program
  network : Network
  request : Request
  /-- The position of the phase marker, inside the commands. -/
  forwardEnd : Nat
  /-- Note every command in the journal. -/
  traces : Bool
  /-- The contents of a matrix that is allocated without being filled. -/
  undefinedContents : Nat → Nat → Nat → Float32

namespace Machine

/-- A machine for a program, whose phase marker must be recorded and lie inside the
commands.  Matrices that are allocated without being filled happen to hold zeros. -/
def of (p : Program) (net : Network) (r : Request) (traces : Bool) : Except Error Machine :=
  match p.forwardEnd with
  | none => .error (.ordering none .markerUnrecorded)
  | some position =>
      if p.commands.length ≤ position then
        .error (.ordering (some position) .markerPastEnd)
      else
        .ok ⟨p, net, r, position, traces, fun _ _ _ => 0⟩

/-- The state before any call. -/
def start (x : Machine) (target : Option Network) : MachineState :=
  ⟨.free x.program.numMatrices, target, .created, []⟩

end Machine

end MatrixProgram
