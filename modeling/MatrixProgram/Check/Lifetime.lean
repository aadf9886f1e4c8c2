import MatrixProgram.Analysis

/-!
# The lifetime of matrices

A matrix that is not an input must be allocated, not after its first access; an input
must not be allocated.  A matrix that is not an output must be released, after its last
access; an output must not be released.
-/

namespace MatrixProgram

namespace MatrixHistory

/-- The rules for the beginning of a lifetime. -/
def checkAllocation (h : MatrixHistory) : Except LifecycleViolation Unit :=
  if h.isInput then
    match h.allocation with
    | some c => .error (.inputAllocated c)
    | none => .ok ()
  else
    match h.allocation, h.accesses.head? with
    | none, _ => .error .neverAllocated
    | some _, none => .error .neverAccessed
    | some allocation, some first =>
        if first < allocation then
          .error (.accessedBeforeAllocation first allocation)
        else
          .ok ()

/-- The rules for the end of a lifetime. -/
def checkRelease (h : MatrixHistory) : Except LifecycleViolation Unit :=
  if h.isOutput then
    match h.release with
    | some c => .error (.outputReleased c)
    | none => .ok ()
  else
    match h.release, h.accesses.getLast? with
    | none, _ => .error .neverReleased
    | some _, none => .error .neverAccessed
    | some release, some last =>
        if release ≤ last then
          .error (.accessedAfterRelease last release)
        else
          match h.allocation with
          | some allocation =>
              if release < allocation then
                .error (.releasedBeforeAllocation release allocation)
              else
                .ok ()
          | none => .ok ()

end MatrixHistory

/-- Check the lifetime of every matrix but the empty one. -/
def Analysis.checkLifetimes (a : Analysis) : Except Error Unit :=
  (a.matrixHistories.zipIdx.drop 1).forM fun (h, m) => do
    h.checkAllocation.mapError (.lifecycle m)
    h.checkRelease.mapError (.lifecycle m)

end MatrixProgram
