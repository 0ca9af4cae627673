import FrameGraph.Packing.Logical
import FrameGraph.Proofs.Order.Positions
import Mathlib.Data.List.Flatten

/-!
# Logical resources and their uses

The logical resources of a list of nodes are its output ports, one for each. A resource is used
once by its producer, and once for every edge that leads from its port to another listed node.
-/

namespace FrameGraph

namespace Logical

variable {nodes : List Node} {edges : List Edge} {x : Logical}

theorem mem_outputs {i : Nat} {n : Node} {p : Port} :
    (i, n, p) ∈ outputs nodes ↔ nodes[i]? = some n ∧ p ∈ n.outputs := by
  simp only [outputs, List.mem_flatMap, List.mem_map, Prod.exists, Prod.mk.injEq,
    List.mem_zipIdx_iff_getElem?]
  constructor
  · rintro ⟨n', i', hget, p', hp, rfl, rfl, rfl⟩
    exact ⟨hget, hp⟩
  · rintro ⟨hget, hp⟩
    exact ⟨n, i, hget, p, hp, rfl, rfl, rfl⟩

theorem mem_all : x ∈ all nodes edges ↔
    ∃ i n p, nodes[i]? = some n ∧ p ∈ n.outputs ∧ ofPort nodes edges i n p = x := by
  simp only [all, List.mem_map, Prod.exists, mem_outputs, and_assoc]

/-- Every output port is one logical resource. -/
theorem ports_all (nodes : List Node) (edges : List Edge) :
    (all nodes edges).map (·.port) = nodes.flatMap fun n => n.outputs.map (·.id) := by
  have hports : (all nodes edges).map (·.port) = (outputs nodes).map (·.2.2.id) := by
    rw [all, List.map_map]
    rfl
  have hzip : nodes.flatMap (fun n => n.outputs.map (·.id)) =
      nodes.zipIdx.flatMap fun e => e.1.outputs.map (·.id) := by
    conv_lhs => rw [← List.zipIdx_map_fst 0 nodes]
    rw [List.flatMap_map]
  rw [hports, outputs, List.map_flatMap, hzip]
  simp only [List.map_map]
  rfl

theorem consumer?_eq_some {e : Edge} {c : Consumer} (h : consumer? nodes e = some c) :
    ∃ m, nodes[c.position]? = some m ∧ m.id = e.stop.node ∧ c.node = m.id ∧
      position? nodes e.stop.node = some c.position ∧ c.portName = e.stop.portName := by
  unfold consumer? at h
  cases hposition : position? nodes e.stop.node with
  | none =>
    rw [hposition] at h
    cases h
  | some j =>
    obtain ⟨m, hm, hid⟩ := exists_of_position? hposition
    simp only [hposition, hm, Option.bind_eq_bind, Option.bind_some, Option.pure_def,
      Option.some.injEq] at h
    subst h
    exact ⟨m, hm, hid, rfl, rfl, rfl⟩

theorem exists_consumer? {e : Edge} {j : Nat} (h : position? nodes e.stop.node = some j) :
    ∃ c, consumer? nodes e = some c ∧ c.position = j := by
  obtain ⟨m, hm, _⟩ := exists_of_position? h
  simp only [consumer?, h, hm, Option.bind_eq_bind, Option.bind_some, Option.pure_def,
    Option.some.injEq, exists_eq_left']

/-- The uses of a resource: the origin, and one for each edge to another listed node. -/
theorem mem_points {i : Nat} {n : Node} {p : Port} {u : UsagePoint} :
    u ∈ (ofPort nodes edges i n p).points ↔ u = (ofPort nodes edges i n p).origin ∨
      ∃ e ∈ edges, e.start.isAt n.id p.id = true ∧ e.stop.node ≠ n.id ∧
        ∃ c, consumer? nodes e = some c ∧ (ofPort nodes edges i n p).readAt c = u := by
  simp only [points, List.mem_cons, List.mem_map]
  refine or_congr_right ?_
  simp only [ofPort, outgoing, List.mem_filterMap, List.mem_filter, Bool.and_eq_true, bne_iff_ne]
  constructor
  · rintro ⟨c, ⟨e, ⟨he, hstart, hstop⟩, hc⟩, hu⟩
    exact ⟨e, he, hstart, hstop, c, hc, hu⟩
  · rintro ⟨e, he, hstart, hstop, c, hc, hu⟩
    exact ⟨c, ⟨e, ⟨he, hstart, hstop⟩, hc⟩, hu⟩

/-- A resource is used at the position of the node that uses it. -/
theorem getElem?_position (hx : x ∈ all nodes edges) {u : UsagePoint} (hu : u ∈ x.points) :
    ∃ n, nodes[u.position]? = some n ∧ n.id = u.node := by
  obtain ⟨i, n, p, hn, -, rfl⟩ := mem_all.mp hx
  rcases mem_points.mp hu with rfl | ⟨e, -, -, -, c, hc, rfl⟩
  · exact ⟨n, hn, rfl⟩
  · obtain ⟨m, hm, -, hnode, -⟩ := consumer?_eq_some hc
    exact ⟨m, hm, hnode.symm⟩

end Logical

end FrameGraph
