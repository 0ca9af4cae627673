import FrameGraph.PassKind

/-!
# Graphs of passes

Nodes with ordered ports, and the edges that run from an output port to an input port. A compile
takes a snapshot, a list of nodes and a list of edges, and holds for any two such lists.
-/

namespace FrameGraph

/-- A node's identifier. Ids of nodes, ports and edges are not bounded (see `Editor`). -/
abbrev NodeId := Nat

/-- An edge's identifier. -/
abbrev EdgeId := Nat

/-- One pass of a graph and its ports in declaration order. -/
structure Node where
  id : NodeId
  name : String
  kind : PassKind
  ports : List Port
  deriving DecidableEq, Repr

namespace Node

def port? (n : Node) (id : PortId) : Option Port := n.ports.find? (·.id == id)

/-- The first port of that name. -/
def portNamed? (n : Node) (name : String) : Option Port := n.ports.find? (·.name == name)

def outputs (n : Node) : List Port := n.ports.filter (·.role == .output)

def inputs (n : Node) : List Port := n.ports.filter (·.role == .input)

/-- How a node is listed in reports. -/
def listing (n : Node) : String := s!"{n.name} ({n.id})"

end Node

/-- One end of an edge: a port of a node. -/
structure Endpoint where
  node : NodeId
  port : PortId
  portName : String
  deriving DecidableEq, Repr

namespace Endpoint

/-- Whether the endpoint is the given port. -/
def isAt (e : Endpoint) (node : NodeId) (port : PortId) : Bool := e.node == node && e.port == port

@[simp] theorem isAt_iff {e : Endpoint} {node : NodeId} {port : PortId} :
    e.isAt node port = true ↔ e.node = node ∧ e.port = port := by
  simp only [isAt, Bool.and_eq_true, beq_iff_eq]

end Endpoint

/-- A connection from an output port to an input port. -/
structure Edge where
  id : EdgeId
  start : Endpoint
  stop : Endpoint
  payload : Payload
  deriving DecidableEq, Repr

namespace Edge

/-- Whether two edges join the same two ports. -/
def samePorts (a b : Edge) : Bool :=
  a.start.isAt b.start.node b.start.port && a.stop.isAt b.stop.node b.stop.port

/-- Whether the edge starts or ends at the node. -/
def touches (e : Edge) (node : NodeId) : Bool := e.start.node == node || e.stop.node == node

end Edge

/-- The last place in a list at which a value stands. -/
def lastIndex? {α : Type} [DecidableEq α] (a : α) : List α → Option Nat
  | [] => none
  | x :: xs =>
    match lastIndex? a xs with
    | some i => some (i + 1)
    | none => if x = a then some 0 else none

/-- The position of a node in a list. Of several nodes with the same id the last one counts. -/
def position? (nodes : List Node) (id : NodeId) : Option Nat := lastIndex? id (nodes.map (·.id))

end FrameGraph
