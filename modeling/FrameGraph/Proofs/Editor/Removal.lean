import FrameGraph.Proofs.Editor.Flags

/-!
# Removing a node

The removal of a node takes the node out first and then frees the inputs at the ends of all edges
that touched it, where it finds none that belong to the node itself. Taking these edges out one by
one frees each input while the node is still there. Which flags are cleared and which edges are kept
depends on what goes and not on when (`Editor.nodes_withoutEdges`, `Editor.edges_withoutEdges`), and
the flags of the node go with it, so that both leave the same graph
(`Editor.Reachable.remove_eq_disconnected`).
-/

namespace FrameGraph

namespace Editor

/-- Takes out edges one after the other, and stops at one that is not there. -/
def disconnectAll (e : Editor) (ids : List EdgeId) : Except EditorError Editor :=
  ids.foldlM (fun e id => (e.disconnect id).map (·.2)) e

/-- The graph after some edges have gone, one after the other. -/
def withoutEdges (e : Editor) (gone : List Edge) : Editor := gone.foldl withoutEdge e

variable {e : Editor} {edge : Edge} {gone : List Edge} {n : Node}

/-! ## Edges one by one -/

theorem WellFormed.disconnect_of_mem (h : e.WellFormed) (hedge : edge ∈ e.edges) :
    e.disconnect edge.id = .ok (edge, e.withoutEdge edge) := by
  obtain ⟨other, hfind, hother, hid⟩ := exists_find? (p := (·.id == edge.id)) hedge
    (beq_self_eq_true _)
  rw [h.edge_eq hother hedge (beq_iff_eq.mp hid)] at hfind
  rw [h.disconnect_eq, hfind]
  rfl

theorem WellFormed.withoutEdges (h : e.WellFormed) (gone : List Edge) :
    (e.withoutEdges gone).WellFormed := by
  induction gone generalizing e with
  | nil => exact h
  | cons edge gone ih => exact ih (h.withoutEdge edge)

/-- Distinct edges of a graph can be taken out in any order. -/
theorem WellFormed.disconnectAll_eq (h : e.WellFormed) (hsub : gone ⊆ e.edges)
    (hnodup : (gone.map (·.id)).Nodup) :
    e.disconnectAll (gone.map (·.id)) = .ok (e.withoutEdges gone) := by
  induction gone generalizing e with
  | nil => rfl
  | cons edge gone ih =>
    rw [List.map_cons, List.nodup_cons] at hnodup
    obtain ⟨hedge, hgone⟩ := List.cons_subset.mp hsub
    have hrest : gone ⊆ (e.withoutEdge edge).edges := by
      intro other hother
      refine List.mem_filter.mpr ⟨hgone hother, ?_⟩
      rw [bne_iff_ne]
      intro hid
      exact hnodup.1 (hid ▸ List.mem_map_of_mem hother)
    rw [disconnectAll, List.map_cons, List.foldlM_cons, h.disconnect_of_mem hedge]
    exact ih (h.withoutEdge edge) hrest hnodup.2

/-! ## What is left -/

theorem nodes_withoutEdges (e : Editor) (gone : List Edge) :
    (e.withoutEdges gone).nodes = freed e.nodes gone := by
  induction gone generalizing e with
  | nil => exact (freed_nil e.nodes).symm
  | cons edge gone ih => exact (ih (e.withoutEdge edge)).trans (freed_cons edge gone e.nodes).symm

theorem edges_withoutEdges (e : Editor) (gone : List Edge) :
    (e.withoutEdges gone).edges = e.edges.filter fun edge => edge.id ∉ gone.map (·.id) := by
  induction gone generalizing e with
  | nil => simp [withoutEdges]
  | cons edge gone ih =>
    refine (ih (e.withoutEdge edge)).trans ?_
    rw [withoutEdge, List.filter_filter]
    refine List.filter_congr fun other _ => ?_
    rw [Bool.eq_iff_iff]
    simp only [Bool.and_eq_true, decide_eq_true_eq, bne_iff_ne, List.map_cons, List.mem_cons,
      not_or, and_comm]

theorem nextId_withoutEdges (e : Editor) (gone : List Edge) :
    (e.withoutEdges gone).nextId = e.nextId := by
  induction gone generalizing e with
  | nil => rfl
  | cons edge gone ih => exact ih (e.withoutEdge edge)

/-- Inputs are freed in any order. -/
theorem freed_perm {gone' : List Edge} (h : gone.Perm gone') (nodes : List Node) :
    freed nodes gone = freed nodes gone' := by
  simp only [freed, h.any_eq]

/-- Nodes that go may go before inputs are freed, or after. -/
theorem filter_freed (id : NodeId) (gone : List Edge) (nodes : List Node) :
    (freed nodes gone).filter (·.id != id) = freed (nodes.filter (·.id != id)) gone :=
  List.filter_map

/-! ## All edges of a node -/

theorem WellFormed.remove_of_mem (h : e.WellFormed) (hn : n ∈ e.nodes) :
    e.remove n.id = .ok (⟨n, e.edges.filter (·.touches n.id)⟩, e.withoutNode n.id) := by
  rw [h.remove_eq, h.node?_eq hn]

/-- The edges that are left are those that do not touch the node. -/
theorem WellFormed.edges_isolated (h : e.WellFormed) {id : NodeId}
    (hgone : gone.Perm (e.edges.filter (·.touches id))) :
    (e.withoutEdges gone).edges = e.edges.filter (!·.touches id) := by
  rw [edges_withoutEdges]
  refine List.filter_congr fun edge hedge => ?_
  rw [Bool.eq_iff_iff, decide_eq_true_eq, Bool.not_eq_true', ← Bool.not_eq_true, not_iff_not]
  constructor
  · intro hid
    obtain ⟨other, hother, heq⟩ := List.mem_map.mp hid
    obtain ⟨hmem, htouches⟩ := List.mem_filter.mp (hgone.subset hother)
    exact h.edge_eq hmem hedge heq ▸ htouches
  · intro htouches
    exact List.mem_map_of_mem (hgone.symm.subset (List.mem_filter.mpr ⟨hedge, htouches⟩))

/-- Without the edges that touch a node, nothing but the node is left to go. -/
theorem WellFormed.withoutNode_isolated (h : e.WellFormed) {id : NodeId}
    (hgone : gone.Perm (e.edges.filter (·.touches id))) :
    (e.withoutEdges gone).withoutNode id = e.withoutNode id := by
  have hedges := h.edges_isolated hgone
  have hnone : (e.withoutEdges gone).edges.filter (·.touches id) = [] := by
    rw [hedges, List.filter_filter]
    exact List.filter_eq_nil_iff.mpr fun edge _ => by simp
  have hkept : (e.withoutEdges gone).edges.filter (!·.touches id) =
      e.edges.filter (!·.touches id) := by
    rw [hedges, List.filter_filter]
    simp only [Bool.and_self]
  unfold Editor.withoutNode
  rw [hnone, hkept, nodes_withoutEdges, nextId_withoutEdges, freed_nil, filter_freed,
    freed_perm hgone]

/-- In every graph made by edits, removing a node comes to the same as taking out the edges that
touch it, in any order, and then removing the node, which no edge touches by then: the same nodes
with the same flags, the same edges in the same order, and the same next id. -/
theorem Reachable.remove_eq_disconnected (he : e.Reachable) (hn : n ∈ e.nodes)
    (hgone : gone.Perm (e.edges.filter (·.touches n.id))) :
    ∃ isolated, e.disconnectAll (gone.map (·.id)) = .ok isolated ∧
      (∀ edge ∈ isolated.edges, edge.touches n.id = false) ∧
      ∃ removal last e', e.remove n.id = .ok (removal, e') ∧
        isolated.remove n.id = .ok (last, e') ∧ last.edges = [] := by
  have h : e.WellFormed := he.consistent.toWellFormed
  have hsub : gone ⊆ e.edges := fun edge hedge => List.mem_of_mem_filter (hgone.subset hedge)
  have hnodup : (gone.map (·.id)).Nodup := by
    rw [(hgone.map _).nodup_iff]
    exact (List.filter_sublist.map _).nodup h.edges_nodup
  have halone : ∀ edge ∈ (e.withoutEdges gone).edges, edge.touches n.id = false := by
    intro edge hedge
    rw [h.edges_isolated hgone] at hedge
    simpa using (List.mem_filter.mp hedge).2
  -- The node stands in the graph without its edges too, with its inputs free.
  have hmem : n.id ∈ (e.withoutEdges gone).nodes.map (·.id) := by
    rw [nodes_withoutEdges, freed, List.map_map]
    exact List.mem_map_of_mem hn
  obtain ⟨m, hm, hid⟩ := List.mem_map.mp hmem
  have hremove := (h.withoutEdges gone).remove_of_mem hm
  rw [hid, h.withoutNode_isolated hgone] at hremove
  refine ⟨_, h.disconnectAll_eq hsub hnodup, halone, _, _, _, h.remove_of_mem hn, hremove, ?_⟩
  exact List.filter_eq_nil_iff.mpr fun edge hedge => Bool.eq_false_iff.mp (halone edge hedge)

/-- The G-buffer between the scene and three inputs of one node: the four edges that touch it go in
an order of their own, and its removal leaves the fifth. -/
theorem gBuffer_disconnected :
    let e := [Edit.addKind .lighting, .connect 0 "Scene" 5 "Scene",
      .connect 5 "Position" 13 "Position", .connect 0 "Camera" 13 "Camera",
      .connect 5 "Normal" 13 "Normal", .connect 13 "Albedo" 5 "Albedo"].foldl apply seeded
    ∃ n ∈ e.nodes, n.id = 5 ∧ e.edges.map (·.id) = [22, 23, 24, 25, 26] ∧
      ∃ isolated, e.disconnectAll [25, 22, 26, 23] = .ok isolated ∧
        isolated.edges.map (·.id) = [24] ∧
        ∃ removal last e', e.remove 5 = .ok (removal, e') ∧ isolated.remove 5 = .ok (last, e') ∧
          last.edges = [] := by
  intro e
  have he : e.Reachable := Reachable.seeded.foldl _
  have hn := List.get_mem e.nodes ⟨1, by decide⟩
  have hgone : (([3, 0, 4, 1].filterMap (e.edges[·]?)).Perm
      (e.edges.filter (·.touches (e.nodes.get ⟨1, by decide⟩).id))) := by decide
  obtain ⟨isolated, hisolated, -, hremove⟩ := Reachable.remove_eq_disconnected he hn hgone
  refine ⟨_, hn, by decide, by decide, isolated, hisolated, ?_, hremove⟩
  cases hisolated
  decide

end Editor

end FrameGraph
