import Mathlib.Data.List.Nodup
import MatrixProgram.Proofs.Machine.Supplies

/-!
# How many frames are asked for

A request for frames gives their number, and the number is read as a signed one of 32 bits.
A count below the sign bit stands for itself; every larger one stands for another number,
`frameCount_eq_self_iff`, which is none at all if the sign bit is set.

The check and the supplying call compare rows with the number of frames that are listed.  So
they see the requested count exactly when it is below the sign bit, `frames_counted`.
-/

namespace MatrixProgram

namespace IoRequest

/-- What a count stands for: its lowest 32 bits, if their sign bit is not set. -/
theorem frameCount_eq (count : Nat) :
    frameCount count =
      if count % 4294967296 < 2147483648 then count % 4294967296 else 0 := by
  have hSize : (UInt32.size : Int) = 4294967296 := rfl
  unfold frameCount Int.bmod
  rw [hSize]
  dsimp only
  -- The sign bit decides whether the wrapped number is negative, and then none is left.
  split <;> split <;> omega

/-- A count stands for itself exactly when it is below the sign bit. -/
theorem frameCount_eq_self_iff {count : Nat} :
    frameCount count = count ↔ count < 2147483648 := by
  constructor
  · intro hSame
    rw [frameCount_eq] at hSame
    split at hSame <;> omega
  · exact frameCount_of_lt

variable {name : String} {count : Nat} {wantsDeriv : Bool}

theorem numRows_frames : (frames name count wantsDeriv).numRows = frameCount count := by
  simp [numRows, frames]

/-- The frames are listed in the order of time, from zero. -/
theorem getElem?_frames {t : Nat} (hLt : t < (frames name count wantsDeriv).numRows) :
    (frames name count wantsDeriv).indexes[t]? = some ⟨0, t, 0⟩ := by
  rw [numRows_frames] at hLt
  simp only [frames, List.getElem?_map, List.getElem?_range hLt, Option.map_some]

/-- No frame is listed twice: the time tells them apart. -/
theorem nodup_frames : (frames name count wantsDeriv).indexes.Nodup := by
  have hApart : Function.Injective fun t : Nat => (⟨0, t, 0⟩ : RowIndex) :=
    fun _ _ hEq => Int.ofNat.inj (congrArg RowIndex.t hEq)
  simp only [frames]
  exact List.Nodup.map hApart List.nodup_range

end IoRequest

namespace Machine

open Program

/-- The rows that the check has seen in the value of a requested node are as many as the
request lists. -/
theorem numRows_of_checkSpec {p : Program} {net : Network} {side : Side} {spec : IoRequest}
    (hCheck : p.checkSpec net side spec = .ok ()) {node : Nat} {bound : Binding} {shape : Shape}
    (hIndex : net.nodeIndex spec.name = some node) (hBound : p.binding? node = some bound)
    (hValue : p.matrix bound.value = .ok shape) : shape.numRows = spec.numRows := by
  obtain ⟨node', bound', shape', h⟩ := requested_of_checkSpec hCheck
  cases hIndex.symm.trans h.index
  cases hBound.symm.trans h.bound
  cases hValue.symm.trans h.value
  exact h.rows

/-- A matrix that has been supplied for a requested input has as many rows as the request
lists. -/
theorem numRows_of_supplied {x : Machine} {spec : IoRequest} {b : Buffer} {s t : MachineState}
    (hFound : x.request.input? spec.name = some spec)
    (hRun : x.call (.supplyInput spec.name b) s = .ok .done t) : b.numRows = spec.numRows := by
  obtain ⟨-, spec', hFound', -, -, -, hRows, -⟩ := call_supplyInput_eq_ok_iff.mp hRun
  cases hFound.symm.trans hFound'
  exact hRows

/-- Frames are listed once each, in order, and a count is the number of them exactly when it
is below the sign bit; then it is the number of rows that the check finds in the value matrix
and that a supplied matrix has.  A larger count stands for its lowest 32 bits, or for none. -/
theorem frames_counted (name : String) (count : Nat) (wantsDeriv : Bool) :
    let spec := IoRequest.frames name count wantsDeriv
    (spec.numRows = count ↔ count < 2147483648) ∧
      spec.numRows = (if count % 4294967296 < 2147483648 then count % 4294967296 else 0) ∧
      spec.indexes.Nodup ∧
      (∀ t < spec.numRows, spec.indexes[t]? = some ⟨0, t, 0⟩) ∧
      (∀ (p : Program) (net : Network) (side : Side), p.checkSpec net side spec = .ok () →
        ∀ node bound shape, net.nodeIndex name = some node → p.binding? node = some bound →
          p.matrix bound.value = .ok shape → shape.numRows = spec.numRows) ∧
      ∀ (x : Machine) (b : Buffer) (s t : MachineState), x.request.input? name = some spec →
        x.call (.supplyInput name b) s = .ok .done t → b.numRows = spec.numRows := by
  refine ⟨?_, ?_, IoRequest.nodup_frames, fun _ hLt => IoRequest.getElem?_frames hLt, ?_, ?_⟩
  · rw [IoRequest.numRows_frames]
    exact IoRequest.frameCount_eq_self_iff
  · rw [IoRequest.numRows_frames]
    exact IoRequest.frameCount_eq count
  · exact fun p net side hCheck _ _ _ => numRows_of_checkSpec hCheck
  · exact fun x b s t hFound hRun => numRows_of_supplied hFound hRun

/-- Two counts past the sign bit: the first is read as a negative number, the second loses
its highest bit. -/
theorem frames_miscounted :
    (IoRequest.frames "in" 2147483648 false).numRows = 0 ∧
      (IoRequest.frames "in" 4294967297 false).numRows = 1 := by
  constructor <;> rfl

end Machine

end MatrixProgram
