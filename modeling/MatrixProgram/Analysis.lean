import MatrixProgram.Analysis.History

/-!
# The analysis of a program

All that is known of a program for its check: its variables, the effects of its commands,
and the histories of its variables and matrices.
-/

namespace MatrixProgram

/-- What is known of a program. -/
structure Analysis where
  partition : Partition
  effects : List Effects
  variableHistories : List (List Access)
  matrixHistories : List MatrixHistory
deriving DecidableEq, Repr

/-- Analyse a program for a network. -/
def Program.analysis (p : Program) (net : Network) : Except Error Analysis := do
  let t ← p.partition
  let effects ← p.effects net t
  let matrices ← p.matrixHistories net t effects
  return ⟨t, effects, variableHistories t effects, matrices⟩

end MatrixProgram
