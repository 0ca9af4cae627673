import FrameGraph.Proofs.Compile.Wiring
import FrameGraph.Proofs.Order.Moments
import FrameGraph.Proofs.Packing.Conservation
import FrameGraph.Proofs.Reachability

/-!
# Nothing runs out of bounds

The stages of a compile count and look up without asking twice: a sort lowers counters, positions
that a position map gives are used as places in lists, and numbers of nodes and resources are
subtracted. None of this can go wrong, whatever snapshot is compiled (`stages_in_bounds`).
-/

namespace FrameGraph

open FrameGraph.Order Wiring

theorem Order.length_links_le (nodes : List Node) (edges : List Edge) :
    (links nodes edges).length ≤ edges.length := List.length_filterMap_le ..

/-- What a position map of passes gives is the place of a pass of that node, also while passes are
being wired. -/
theorem Wiring.exists_of_index? {placed : List Placed} {node : NodeId} {i : Nat}
    (h : index? placed node = some i) (bs : List Binding) :
    ∃ pass, (bindAll placed bs)[i]? = some (node, pass) := by
  have hkey := getElem?_of_lastIndex? h
  rw [← keys_bindAll placed bs, List.getElem?_map, Option.map_eq_some_iff] at hkey
  obtain ⟨⟨_, pass⟩, hget, rfl⟩ := hkey
  exact ⟨pass, hget⟩

/-- Whatever nodes and edges are given: a sort goes from one moment to the next, and at every moment
each counter to be lowered is positive, none exceeds the number of edges, and no position becomes
ready or is taken twice; positions that a map gives, for links, for consumers or for passes to be
wired, lie in their lists and belong to the node asked for; and there are no more nodes kept than
given, and no more fixed resources or buckets than resources. -/
theorem stages_in_bounds (nodes : List Node) (edges : List Edge) :
    (∀ fuel, ∃ entered, Moment (nodes.map (·.id)) (links nodes edges)
      (.run (nodes.map (·.id)) (links nodes edges) fuel
        (.start (nodes.map (·.id)) (links nodes edges))) [] entered) ∧
    (∀ s owed entered, Moment (nodes.map (·.id)) (links nodes edges) s owed entered →
      Steady nodes.length (links nodes edges) s owed entered) ∧
    (links nodes edges).length ≤ edges.length ∧
    (∀ i j, (i, j) ∈ links nodes edges → i < nodes.length ∧ j < nodes.length) ∧
    (∀ e i, position? nodes e.stop.node = some i →
      (∃ n, nodes[i]? = some n ∧ n.id = e.stop.node) ∧
      ∃ c, Logical.consumer? nodes e = some c ∧ c.position = i) ∧
    (∀ factory bs node i, index? (passes factory nodes) node = some i →
      ∃ pass, (bindAll (passes factory nodes) bs)[i]? = some (node, pass)) ∧
    (∀ kept, reachable nodes edges = .ok kept → kept.length ≤ nodes.length) ∧
    ∀ strategy, (Packing.pack strategy nodes edges).fixedCount ≤
        (Packing.pack strategy nodes edges).logicalCount ∧
      (Packing.pack strategy nodes edges).bucketCount ≤
        (Packing.pack strategy nodes edges).logicalCount := by
  have hlinks : ∀ l ∈ links nodes edges, l.2 < (nodes.map (·.id)).length := fun l hl => by
    rw [List.length_map]
    exact (links_lt hl).2
  refine ⟨fun fuel => Moment.start.run fuel, fun s owed entered h => ?_, length_links_le ..,
    fun i j => links_lt, fun e i h => ⟨exists_of_position? h, Logical.exists_consumer? h⟩,
    fun factory bs node i h => exists_of_index? h bs, fun kept h => (reachable_sublist h).length_le,
    fun strategy => ⟨List.countP_le_length, Packing.bucketCount_le ..⟩⟩
  have hsteady := h.steady hlinks
  rwa [List.length_map] at hsteady

/-- A node that is listed twice, and comes after another one by two edges at once. -/
def doubled : List Node × List Edge :=
  let node (id : NodeId) : Node := { id, name := "Pass", kind := .gaussianBlur, ports := [] }
  let link (id : EdgeId) (a b : NodeId) : Edge := ⟨id, ⟨a, 0, "Out"⟩, ⟨b, 0, "In"⟩, .image⟩
  ([node 1, node 0, node 1], [link 10 0 1, link 11 0 1, link 12 0 9])

/-- The first position taken owes two releases, both to the last of the positions of node 1. -/
theorem doubled_in_bounds :
    Moment (doubled.1.map (·.id)) (links doubled.1 doubled.2) ⟨[0, 0, 2], [0], [1]⟩ [2, 2] [1, 0] ∧
      Steady 3 (links doubled.1 doubled.2) ⟨[0, 0, 2], [0], [1]⟩ [2, 2] [1, 0] := by
  have h : Moment (doubled.1.map (·.id)) (links doubled.1 doubled.2) ⟨[0, 0, 2], [0], [1]⟩ [2, 2]
      [1, 0] := .take .start rfl
  exact ⟨h, (stages_in_bounds doubled.1 doubled.2).2.1 _ _ _ h⟩

end FrameGraph
