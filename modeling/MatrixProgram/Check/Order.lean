import MatrixProgram.Error
import MatrixProgram.Program.Basic

/-!
# The order of commands

There must be exactly one phase marker, at the recorded position.  Backprops stand after
it, propagations and statistics before it.
-/

namespace MatrixProgram

namespace Program

/-- The positions of the phase markers. -/
def markers (p : Program) : List Nat :=
  p.commands.zipIdx.filterMap fun (c, index) =>
    if c.opcode = .marker then some index else none

/-- A command must stand on its side of the marker. -/
def checkSide (marker : Nat) (c : Command) (index : Nat) : Except Error Unit :=
  if c.opcode = .backprop ∧ index < marker then
    .error (.ordering (some index) .backpropBeforeMarker)
  else if c.opcode = .propagate ∧ marker < index then
    .error (.ordering (some index) .propagateAfterMarker)
  else if c.opcode = .storeStats ∧ marker < index then
    .error (.ordering (some index) .statisticsAfterMarker)
  else
    .ok ()

/-- Check the marker, then the place of every command around it. -/
def checkOrder (p : Program) : Except Error Unit :=
  match p.markers with
  | [] => .error (.ordering none .noMarker)
  | [marker] =>
      if p.forwardEnd = some marker then
        p.commands.zipIdx.forM fun (c, index) => checkSide marker c index
      else
        .error (.ordering (some marker) (.markerNotRecorded marker p.forwardEnd))
  | first :: second :: rest =>
      .error (.ordering (some second) (.severalMarkers (first :: second :: rest)))

end Program

end MatrixProgram
