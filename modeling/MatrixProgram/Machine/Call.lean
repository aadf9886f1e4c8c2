import MatrixProgram.Machine.Execute

/-!
# Calls of a machine

The caller supplies inputs, runs the forward commands, reads outputs, supplies
derivatives of outputs, runs the backward commands, and reads derivatives of inputs.
Every call is restricted to some phases.  A call that fails while commands run keeps
their effects and leaves the phase as it is.
-/

namespace MatrixProgram

namespace Machine

/-- A call must be allowed in the phase of the machine. -/
def requirePhase (call : CallKind) : MachineAction Unit := do
  let s ← get
  if s.phase ∉ call.allowedIn then
    throw (.usage (.outOfPhase call s.phase))

/-- The binding of the node of a name. -/
def boundNode (x : Machine) (name : String) : Except Error Binding :=
  match x.network.nodeIndex name with
  | none => .error (.usage (.noNode name))
  | some node =>
      match x.program.binding? node with
      | none => .error (.usage (.notBound name))
      | some b => .ok b

/-- The value matrix of the node of a name. -/
def valueMatrix (x : Machine) (name : String) : Except Error Nat :=
  (·.value) <$> x.boundNode name

/-- The derivative matrix of the node of a name. -/
def derivMatrix (x : Machine) (name : String) : Except Error Nat := do
  let b ← x.boundNode name
  match b.deriv? with
  | some m => return m
  | none => throw (.usage (.noDerivativeMatrix name))

/-- A requested input. -/
def requestedInput (x : Machine) (name : String) : Except Error IoRequest :=
  match x.request.input? name with
  | some spec => .ok spec
  | none => .error (.usage (.notRequested name .input))

/-- A requested output. -/
def requestedOutput (x : Machine) (name : String) : Except Error IoRequest :=
  match x.request.output? name with
  | some spec => .ok spec
  | none => .error (.usage (.notRequested name .output))

/-- The derivative of a requested input or output must have been requested too. -/
def requireDerivative (side : Side) (spec : IoRequest) : Except Error Unit :=
  Action.require (spec.wantsDeriv = true) (.usage (.derivativeNotRequested spec.name side))

/-- Put a buffer into the slot of a matrix.  It must have the requested number of rows and
the shape of the matrix. -/
def place (x : Machine) (m numRows : Nat) (b : Buffer) : MachineAction Unit := do
  let shape ← Action.ofExcept (x.program.matrix m)
  if b.shape ≠ ⟨numRows, shape.numCols⟩ ∨ shape.numRows ≠ numRows then
    throw (.shapeMismatch shape b.shape)
  let s ← get
  if s.slots.entries.length ≤ m then
    throw (.failed (.slotIndex m))
  set { s with slots := s.slots.put m (some b) }

/-- Supply the value of a requested input. -/
def supplyInput (x : Machine) (name : String) (b : Buffer) : MachineAction Unit := do
  requirePhase .supplyInput
  let spec ← Action.ofExcept (x.requestedInput name)
  let m ← Action.ofExcept (x.valueMatrix name)
  x.place m spec.numRows b

/-- Supply the derivative of a requested output. -/
def supplyOutputDeriv (x : Machine) (name : String) (b : Buffer) : MachineAction Unit := do
  requirePhase .supplyOutputDeriv
  let spec ← Action.ofExcept (x.requestedOutput name)
  Action.ofExcept (requireDerivative .output spec)
  let m ← Action.ofExcept (x.derivMatrix name)
  x.place m spec.numRows b

/-- The commands up to the phase marker, which is included. -/
def forwardCommands (x : Machine) : List (Command × Nat) :=
  x.program.commands.zipIdx.take (x.forwardEnd + 1)

/-- The commands after the phase marker. -/
def backwardCommands (x : Machine) : List (Command × Nat) :=
  x.program.commands.zipIdx.drop (x.forwardEnd + 1)

/-- The value of a requested input must have been supplied. -/
def requireInput (x : Machine) (slots : Slots) (spec : IoRequest) : Except Error Unit := do
  let m ← x.valueMatrix spec.name
  Action.require ((slots.buffer? m).isSome = true) (.usage (.inputNotSupplied spec.name))

/-- The derivative of a requested output must have been supplied. -/
def requireOutputDeriv (x : Machine) (slots : Slots) (spec : IoRequest) :
    Except Error Unit := do
  let m ← x.derivMatrix spec.name
  Action.require ((slots.buffer? m).isSome = true)
    (.usage (.outputDerivNotSupplied spec.name))

/-- Run the commands up to the phase marker. -/
def forward (x : Machine) : MachineAction Unit := do
  requirePhase .forward
  let s ← get
  Action.ofExcept (x.request.inputs.forM (x.requireInput s.slots))
  x.executeAll x.forwardCommands
  modify fun s => { s with phase := .forwardDone }

/-- The first backprop of an updatable component, among commands with positions. -/
def firstUpdate (net : Network) : List (Command × Nat) → Except Error (Option Nat)
  | [] => .ok none
  | (.backprop _ c _ _ _ _ _, index) :: rest => do
      let component ← net.component c
      if component.capabilities.updatable then return some index
      firstUpdate net rest
  | _ :: rest => firstUpdate net rest

/-- A program that updates components needs a network to update. -/
def requireTarget (x : Machine) (target : Option Network) : Except Error Unit :=
  match target with
  | some _ => .ok ()
  | none => do
      match ← firstUpdate x.network x.program.commands.zipIdx with
      | some index => throw (.usage (.noUpdateTarget index))
      | none => return ()

/-- Run the commands after the phase marker. -/
def backward (x : Machine) : MachineAction Unit := do
  requirePhase .backward
  let s ← get
  Action.ofExcept (x.requireTarget s.target)
  Action.ofExcept
    ((x.request.outputs.filter (·.wantsDeriv)).forM (x.requireOutputDeriv s.slots))
  x.executeAll x.backwardCommands
  modify fun s => { s with phase := .backwardDone }

/-- The value of a requested output. -/
def readOutput (x : Machine) (name : String) : MachineAction Buffer := do
  requirePhase .readOutput
  let _ ← Action.ofExcept (x.requestedOutput name)
  let m ← Action.ofExcept (x.valueMatrix name)
  let s ← get
  Action.ofExcept (s.slots.read m)

/-- The derivative of a requested input. -/
def readInputDeriv (x : Machine) (name : String) : MachineAction Buffer := do
  requirePhase .readInputDeriv
  let spec ← Action.ofExcept (x.requestedInput name)
  Action.ofExcept (requireDerivative .input spec)
  let m ← Action.ofExcept (x.derivMatrix name)
  let s ← get
  Action.ofExcept (s.slots.read m)

end Machine

/-- A call of a machine. -/
inductive Call where
  | supplyInput (name : String) (b : Buffer)
  | supplyOutputDeriv (name : String) (b : Buffer)
  | forward
  | backward
  | readOutput (name : String)
  | readInputDeriv (name : String)
  | phase

/-- What a call answers when it does not fail. -/
inductive Answer where
  | done
  | buffer (b : Buffer)
  | phase (p : Phase)

namespace Machine

/-- Carry out a call. -/
def call (x : Machine) : Call → MachineAction Answer
  | .supplyInput name b => (fun _ => .done) <$> x.supplyInput name b
  | .supplyOutputDeriv name b => (fun _ => .done) <$> x.supplyOutputDeriv name b
  | .forward => (fun _ => .done) <$> x.forward
  | .backward => (fun _ => .done) <$> x.backward
  | .readOutput name => .buffer <$> x.readOutput name
  | .readInputDeriv name => .buffer <$> x.readInputDeriv name
  | .phase => (fun s => .phase s.phase) <$> get

/-- Carry out calls one after the other.  A failing call does not end the sequence. -/
def callAll (x : Machine) : List Call → MachineState →
    List (Except Error Answer) × MachineState
  | [], s => ([], s)
  | c :: rest, s =>
      let result := x.call c s
      let (answers, last) := x.callAll rest (Action.finalState result)
      (Action.outcome result :: answers, last)

end Machine

end MatrixProgram
