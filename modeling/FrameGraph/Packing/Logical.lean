import FrameGraph.Graph
import FrameGraph.Span

/-!
# Logical resources

Every output port of every node in execution order is a logical resource. It is alive from the
position of the node that makes it over the positions of all nodes that read it.
-/

namespace FrameGraph

/-- A port that reads a logical resource. -/
structure Consumer where
  node : NodeId
  /-- The position of the reading node in execution order. -/
  position : Nat
  nodeName : String
  port : PortId
  portName : String
  role : Role
  deriving DecidableEq, Repr

/-- An output port, as a resource with its consumers. -/
structure Logical where
  node : NodeId
  /-- The position of the producing node in execution order. -/
  position : Nat
  nodeName : String
  port : PortId
  spec : PortSpec
  consumers : List Consumer
  deriving DecidableEq, Repr

/-- One position at which a resource is read or written. -/
structure UsagePoint where
  position : Nat
  /-- The logical resource, by its output port. -/
  resource : PortId
  /-- The port of the using node. -/
  portName : String
  node : NodeId
  nodeName : String
  role : Role
  deriving DecidableEq, Repr

namespace Logical

def portName (x : Logical) : String := x.spec.name

def payload (x : Logical) : Payload := x.spec.payload

/-- Whether the resource may share an allocation with others. -/
def isAliasable (x : Logical) : Bool := x.payload.isAliasable

/-- The position at which the resource is written. -/
def origin (x : Logical) : UsagePoint :=
  ⟨x.position, x.port, x.portName, x.node, x.nodeName, .output⟩

def readAt (x : Logical) (c : Consumer) : UsagePoint :=
  ⟨c.position, x.port, c.portName, c.node, c.nodeName, c.role⟩

/-- Where the resource is used: its producer, then its consumers. -/
def points (x : Logical) : List UsagePoint := x.origin :: x.consumers.map x.readAt

/-- The least span of positions that covers every use. -/
def span (x : Logical) : Span :=
  x.consumers.foldl (fun s c => s.extend c.position) (.point x.position)

/-- The edges that lead from a port to other nodes. -/
def outgoing (edges : List Edge) (node : NodeId) (port : PortId) : List Edge :=
  edges.filter fun e => e.start.isAt node port && e.stop.node != node

/-- The consumer at the end of an edge, if it ends at a listed node. An edge to a port that the
node does not have counts as an input. -/
def consumer? (nodes : List Node) (e : Edge) : Option Consumer := do
  let position ← position? nodes e.stop.node
  let n ← nodes[position]?
  let role := ((n.port? e.stop.port).map (·.role)).getD .input
  return ⟨n.id, position, n.name, e.stop.port, e.stop.portName, role⟩

def ofPort (nodes : List Node) (edges : List Edge) (position : Nat) (n : Node) (p : Port) :
    Logical :=
  ⟨n.id, position, n.name, p.id, p.spec, (outgoing edges n.id p.id).filterMap (consumer? nodes)⟩

/-- The output ports of nodes in order, each with its node and the position of the node. -/
def outputs (nodes : List Node) : List (Nat × Node × Port) :=
  nodes.zipIdx.flatMap fun (n, i) => n.outputs.map fun p => (i, n, p)

/-- The logical resources of nodes in execution order. -/
def all (nodes : List Node) (edges : List Edge) : List Logical :=
  (outputs nodes).map fun (i, n, p) => ofPort nodes edges i n p

/-- The edges from output ports to nodes that are not listed. -/
def ignored (nodes : List Node) (edges : List Edge) : List Edge :=
  (outputs nodes).flatMap fun (_, n, p) =>
    (outgoing edges n.id p.id).filter fun e => (position? nodes e.stop.node).isNone

end Logical

end FrameGraph
