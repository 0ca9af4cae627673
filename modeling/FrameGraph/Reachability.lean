import FrameGraph.Compile.Error

/-!
# Reachability

The nodes that the scene provider feeds, directly or through others. All other nodes are left out
of a compile.
-/

namespace FrameGraph

/-- The scene provider of a snapshot, which must be the only one. -/
def root (nodes : List Node) : Except CompileError NodeId :=
  match nodes.filter (·.kind == .sceneProvider) with
  | [] => .error .missingRoot
  | [n] => .ok n.id
  | roots => .error (.multipleRoots roots.length)

namespace Reachability

/-- The ids at which the edges of a node end. -/
def successors (edges : List Edge) (id : NodeId) : List NodeId :=
  (edges.filter (·.start.node == id)).map (·.stop.node)

theorem mem_successors {edges : List Edge} {a b : NodeId} :
    b ∈ successors edges a ↔ ∃ e ∈ edges, e.start.node = a ∧ e.stop.node = b := by
  simp only [successors, List.mem_map, List.mem_filter, beq_iff_eq]
  exact ⟨fun ⟨e, ⟨he, ha⟩, hb⟩ => ⟨e, he, ha, hb⟩, fun ⟨e, he, ha, hb⟩ => ⟨e, ⟨he, ha⟩, hb⟩⟩

/-- Follows edges from the queued ids, breadth first. Every id is queued at most once, so as many
steps as there are edges, and one, empty the queue. -/
def explore (edges : List Edge) : (fuel : Nat) → (visited queue : List NodeId) → List NodeId
  | 0, visited, _ => visited
  | _ + 1, visited, [] => visited
  | fuel + 1, visited, id :: queue =>
    let fresh := ((successors edges id).filter (· ∉ visited)).eraseDups
    explore edges fuel (visited ++ fresh) (queue ++ fresh)

/-- The ids reached from `start`, itself included. They need not be ids of nodes. -/
def visited (edges : List Edge) (start : NodeId) : List NodeId :=
  explore edges (edges.length + 1) [start] [start]

end Reachability

/-- The nodes reached from the scene provider, in the order given. -/
def reachable (nodes : List Node) (edges : List Edge) : Except CompileError (List Node) :=
  (root nodes).map fun start =>
    let ids := Reachability.visited edges start
    nodes.filter fun n => ids.contains n.id

end FrameGraph
