import FrameGraph.Editor.Error

/-!
# The editor

The owner of a graph under construction. Its operations keep what a compile relies on: an input
takes at most one edge, both ends of an edge carry the same payload, no edge loops back to its own
node or repeats another, and there is at most one node of each singleton kind. An operation that
is refused returns no editor, so a refused edit changes nothing.
-/

namespace FrameGraph

/-- A graph under construction. Nodes, ports and edges take their ids from one sequence, which has
no end here. Where ids are words of 32 bits, the editor is as described as long as fewer than `2^32`
of them have been given out, `nextId` being how many there were. -/
structure Editor where
  nodes : List Node := []
  edges : List Edge := []
  nextId : Nat := 0
  deriving DecidableEq, Repr

/-- A node that was removed, and the edges that went with it. -/
structure Removal where
  node : Node
  edges : List Edge

/-- The list with a change to the first of its members that satisfy a condition. -/
def changeFirst {α : Type} (p : α → Bool) (change : α → α) : List α → List α
  | [] => []
  | a :: as => if p a then change a :: as else a :: changeFirst p change as

namespace Editor

def empty : Editor := {}

instance : Inhabited Editor := ⟨empty⟩

def node? (e : Editor) (id : NodeId) : Option Node := e.nodes.find? (·.id == id)

/-- The first node of a kind, in the order of insertion. -/
def nodeOfKind? (e : Editor) (kind : PassKind) : Option NodeId :=
  (e.nodes.find? (·.kind == kind)).map (·.id)

/-- The first port of that name on a node. -/
def port (e : Editor) (node : NodeId) (name : String) : Except EditorError Port :=
  match e.node? node with
  | none => .error (.unknownNode node)
  | some n =>
    match n.portNamed? name with
    | none => .error (.unknownPort node name)
    | some p => .ok p

/-- The node that `insert` makes: its id comes first, then those of its ports. -/
def newNode (e : Editor) (name : String) (kind : PassKind) (specs : List PortSpec) : Node :=
  { id := e.nextId, name, kind
    ports := (specs.zipIdx (e.nextId + 1)).map fun (spec, id) => { id, spec } }

def insert (e : Editor) (name : String) (kind : PassKind) (specs : List PortSpec) : Editor :=
  { e with nodes := e.nodes ++ [e.newNode name kind specs], nextId := e.nextId + 1 + specs.length }

/-- Adds a node with the given ports. -/
def add (e : Editor) (name : String) (kind : PassKind) (specs : List PortSpec) :
    Except EditorError (Node × Editor) :=
  if kind.isSingleton ∧ (e.nodeOfKind? kind).isSome then .error (.singletonExists kind)
  else .ok (e.newNode name kind specs, e.insert name kind specs)

/-- Adds a node with the ports of its kind, under a name of its own. -/
def addNamed (e : Editor) (name : String) (kind : PassKind) :
    Except EditorError (Node × Editor) :=
  e.add name kind kind.ports

/-- Adds a node with the ports and the name of its kind. -/
def addKind (e : Editor) (kind : PassKind) : Except EditorError (Node × Editor) :=
  e.addNamed kind.displayName kind

/-- The kinds that a fresh graph starts from. -/
def seeds : List PassKind := [.sceneProvider, .gBuffer, .present]

/-- A graph with a scene provider, a G-buffer and a present node. -/
def seeded : Editor := seeds.foldl (fun e kind => e.insert kind.displayName kind kind.ports) empty

/-- Marks the port at an endpoint as connected or free. -/
def mark (nodes : List Node) (port : Endpoint) (connected : Bool) : List Node :=
  changeFirst (·.id == port.node)
    (fun n =>
      { n with ports := changeFirst (·.id == port.port) (fun p => { p with connected }) n.ports })
    nodes

/-- Removes a node and every edge that touches it, and frees the inputs those edges ended at. -/
def remove (e : Editor) (id : NodeId) : Except EditorError (Removal × Editor) :=
  match e.node? id with
  | none => .error (.unknownNode id)
  | some n =>
    let gone := e.edges.filter (·.touches id)
    let rest := e.nodes.eraseP (·.id == id)
    let nodes := gone.foldl (fun nodes edge => mark nodes edge.stop false) rest
    .ok (⟨n, gone⟩, { e with nodes, edges := e.edges.filter (!·.touches id) })

/-- The ends of a link between two ports, output first if they are an input and an output. -/
def orient (a b : NodeId × Port) : (NodeId × Port) × (NodeId × Port) :=
  if a.2.role = .input ∧ b.2.role = .output then (b, a) else (a, b)

/-- The edge from one port to another. -/
def newEdge (e : Editor) (start stop : NodeId × Port) : Edge :=
  { id := e.nextId
    start := ⟨start.1, start.2.id, start.2.name⟩
    stop := ⟨stop.1, stop.2.id, stop.2.name⟩
    payload := start.2.payload }

/-- Links a start port to a stop port, after all checks that need both. -/
def link (e : Editor) (start stop : NodeId × Port) : Except EditorError (Edge × Editor) :=
  if start.1 = stop.1 then .error (.selfLink start.1)
  else if start.2.role ≠ .output ∨ stop.2.role ≠ .input then
    .error (.roleMismatch start.2.role stop.2.role)
  else if start.2.payload ≠ stop.2.payload then
    .error (.payloadMismatch start.2.payload stop.2.payload)
  else
    let edge := e.newEdge start stop
    match e.edges.find? (·.samePorts edge) with
    | some other => .error (.duplicateEdge other.id)
    | none =>
      if stop.2.connected then .error (.inputTaken stop.1 stop.2.name)
      else
        .ok (edge, { nodes := mark e.nodes edge.stop true, edges := e.edges ++ [edge],
                     nextId := e.nextId + 1 })

/-- Links two ports given in either order; the edge runs from the output to the input. -/
def connect (e : Editor) (a : NodeId) (aPort : String) (b : NodeId) (bPort : String) :
    Except EditorError (Edge × Editor) :=
  match e.port a aPort with
  | .error err => .error err
  | .ok p =>
    match e.port b bPort with
    | .error err => .error err
    | .ok q => let ends := orient (a, p) (b, q); e.link ends.1 ends.2

/-- Removes an edge and frees the input it ended at. -/
def disconnect (e : Editor) (id : EdgeId) : Except EditorError (Edge × Editor) :=
  match e.edges.find? (·.id == id) with
  | none => .error (.unknownEdge id)
  | some edge =>
    let nodes := mark e.nodes edge.stop false
    .ok (edge, { e with nodes, edges := e.edges.eraseP (·.id == id) })

end Editor

end FrameGraph
