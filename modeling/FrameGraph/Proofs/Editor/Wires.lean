import FrameGraph.Proofs.Editor.Flags

/-!
# Edges without ids

Graphs that give different ids to the same nodes have the same edges if these join ports of the same
names between nodes at the same places. A wire is an edge in these terms (`Editor.wire`); in a
well-formed graph it says between which ports an edge runs (`Editor.WellFormed.follows_wire`).
-/

namespace FrameGraph

/-- The places of two nodes, and the name of a port on each. -/
structure Wire where
  source : Nat
  output : String
  target : Nat
  input : String
  deriving DecidableEq, Repr

/-- Two wires end at the same input. -/
def Wire.Meets (v w : Wire) : Prop := v.target = w.target ∧ v.input = w.input

theorem Wire.Meets.symm {v w : Wire} (h : v.Meets w) : w.Meets v := ⟨h.1.symm, h.2.symm⟩

namespace Editor

/-- The place of a node in the list of nodes. -/
def place (e : Editor) (id : NodeId) : Nat := (e.nodes.map (·.id)).idxOf id

/-- The edge by the places of its nodes and the names of its ports. -/
def wire (e : Editor) (x : Edge) : Wire :=
  ⟨e.place x.start.node, x.start.portName, e.place x.stop.node, x.stop.portName⟩

/-- The wires of all edges, in the order of the edges. -/
def wires (e : Editor) : List Wire := e.edges.map e.wire

/-- The edge joins an output and an input of the names and at the places that the wire says. -/
def Follows (e : Editor) (x : Edge) (w : Wire) : Prop :=
  ∃ m o n p, e.nodes[w.source]? = some m ∧ o ∈ m.ports ∧ o.name = w.output ∧
    e.nodes[w.target]? = some n ∧ p ∈ n.ports ∧ p.name = w.input ∧ x.Joins m o n p

variable {e e' : Editor} {m n : Node} {x : Edge}

theorem place_congr (h : e'.nodes.map (·.id) = e.nodes.map (·.id)) (id : NodeId) :
    e'.place id = e.place id := congrArg (List.idxOf id) h

namespace WellFormed

variable (h : e.WellFormed)

include h

theorem place_of_getElem? {i : Nat} (hn : e.nodes[i]? = some n) : e.place n.id = i := by
  obtain ⟨hi, rfl⟩ := List.getElem?_eq_some_iff.mp hn
  have hidx := h.nodes_nodup.idxOf_getElem i (by simpa using hi)
  rwa [List.getElem_map] at hidx

theorem getElem?_place (hn : n ∈ e.nodes) : e.nodes[e.place n.id]? = some n := by
  obtain ⟨i, hi⟩ := List.getElem?_of_mem hn
  rw [h.place_of_getElem? hi, hi]

theorem place_inj (hm : m ∈ e.nodes) (hn : n ∈ e.nodes) (hplace : e.place m.id = e.place n.id) :
    m = n := by
  have hsome := h.getElem?_place hm
  rw [hplace, h.getElem?_place hn] at hsome
  exact (Option.some.inj hsome).symm

/-- An edge runs where its wire says. -/
theorem follows_wire (hx : x ∈ e.edges) : e.Follows x (e.wire x) := by
  obtain ⟨m, hm, o, ho, n, hn, p, hp, hj⟩ := h.joins x hx
  refine ⟨m, o, n, p, ?_, ho, ?_, ?_, hp, ?_, hj⟩
  · rw [wire, hj.start]
    exact h.getElem?_place hm
  · rw [wire, hj.start]
  · rw [wire, hj.stop]
    exact h.getElem?_place hn
  · rw [wire, hj.stop]

end WellFormed

end Editor

end FrameGraph
