import MatrixProgram.Component

/-!
# Networks

A network is a list of named components and a list of named nodes.  Commands refer to
both by index.  A node is an input, an output, or an application of a component.  Names
are unique among the components and among the nodes.
-/

namespace MatrixProgram

/-- What a node of a network stands for. -/
inductive NodeKind where
  | input
  | output
  | component (component : Nat)
deriving DecidableEq, Repr

/-- A named node. -/
structure Node where
  name : String
  kind : NodeKind
deriving DecidableEq, Repr

/-- Named components and named nodes. -/
structure Network where
  components : List (String × Component)
  nodes : List Node

namespace Network

/-- Every component computes: none is known by its description alone. -/
def Computes (net : Network) : Prop :=
  ∀ entry ∈ net.components, entry.2.Computes

/-- The network without components and nodes. -/
def empty : Network :=
  ⟨[], []⟩

/-- The index of the component of a name. -/
def componentIndex (net : Network) (name : String) : Option Nat :=
  net.components.findIdx? fun entry => entry.1 == name

/-- The index of the node of a name. -/
def nodeIndex (net : Network) (name : String) : Option Nat :=
  net.nodes.findIdx? fun node => node.name == name

/-- The component of an index. -/
def component (net : Network) (index : Nat) : Except Error Component :=
  match net.components[index]? with
  | some entry => .ok entry.2
  | none => .error (.failed (.componentIndex index))

/-- The name of the component of an index. -/
def componentName (net : Network) (index : Nat) : Option String :=
  net.components[index]?.map (·.1)

/-- The node of an index. -/
def node (net : Network) (index : Nat) : Option Node :=
  net.nodes[index]?

/-- The name of the node of an index. -/
def nodeName (net : Network) (index : Nat) : Option String :=
  (net.node index).map (·.name)

/-- The kind of the node of an index. -/
def nodeKind (net : Network) (index : Nat) : Option NodeKind :=
  (net.node index).map (·.kind)

/-- The index is that of an input node. -/
def isInputNode (net : Network) (index : Nat) : Bool :=
  net.nodeKind index == some .input

/-- The index is that of an output node. -/
def isOutputNode (net : Network) (index : Nat) : Bool :=
  net.nodeKind index == some .output

/-! ## Building -/

/-- Append a component under a new name; the answer is its index. -/
def addComponent (name : String) (c : Component) : Action Network Nat := do
  let net ← get
  if (net.componentIndex name).isSome then
    throw (.failed (.componentNamedTwice name))
  modify fun net => { net with components := net.components ++ [(name, c)] }
  return net.components.length

/-- Append a node under a new name; the answer is its index. -/
def addNode (name : String) (kind : NodeKind) : Action Network Nat := do
  let net ← get
  if (net.nodeIndex name).isSome then
    throw (.failed (.nodeNamedTwice name))
  modify fun net => { net with nodes := net.nodes ++ [⟨name, kind⟩] }
  return net.nodes.length

/-- Append a node for a component, which must exist. -/
def addComponentNode (name : String) (component : Nat) : Action Network Nat := do
  let net ← get
  if net.components.length ≤ component then
    throw (.failed (.nodeComponent component net.components.length))
  addNode name (.component component)

/-! ## Changing components -/

/-- Change the component of an index, which must exist. -/
def changeComponent (index : Nat) (change : Action Component Unit) :
    Action Network Unit := fun net =>
  match net.components[index]? with
  | some (name, c) =>
      Action.mapState
        (fun c' => { net with components := net.components.set index (name, c') })
        (change c)
  | none => .error (.failed (.componentCount index net.components.length)) net

/-! ## Description -/

/-- The number of components and nodes, then one line per component. -/
def info (net : Network) : String :=
  s!"num-components={net.components.length}, num-nodes={net.nodes.length}\n" ++
    String.join (net.components.zipIdx.map fun ((name, c), i) =>
      let described := c.info
      s!"component {i} {name}: {described}\n")

end Network

end MatrixProgram
