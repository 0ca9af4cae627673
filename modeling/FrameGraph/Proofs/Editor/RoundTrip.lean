import FrameGraph.Proofs.Editor.Reload
import FrameGraph.Proofs.Editor.Wires

/-!
# Describing and loading

A graph of catalogue nodes that is described and loaded again is the same graph under other ids
(`Editor.CatalogueReachable.load_describe_exact`). The ids that loading gives count the graph, and
counting it once more gives the same: what was loaded from a description is what its own description
is loaded as.
-/

namespace FrameGraph

/-- What a node is beside its ids: its name, its kind, and its ports with their flags. -/
def Node.content (n : Node) : String × PassKind × List (PortSpec × Bool) :=
  (n.name, n.kind, n.ports.map fun p => (p.spec, p.connected))

theorem Node.content_renumber (ρ : Nat → Nat) (n : Node) :
    (n.renumber ρ).content = n.content := by
  simp only [content, renumber, List.map_map]
  rfl

namespace Editor

variable {e : Editor} {ρ : Nat → Nat}

/-! ## Other ids -/

theorem ids_renumber (ρ : Nat → Nat) (e : Editor) : (e.renumber ρ).ids = e.ids.map ρ := by
  simp only [ids, renumber, List.flatMap_map, List.map_append, List.map_flatMap, List.map_map,
    Node.ids, Node.renumber, List.map_cons, Function.comp_def]
  rfl

theorem place_renumber (h : e.WellFormed) (h' : (e.renumber ρ).WellFormed) {n : Node}
    (hn : n ∈ e.nodes) : (e.renumber ρ).place (ρ n.id) = e.place n.id := by
  have hplace : (e.renumber ρ).nodes[e.place n.id]? = some (n.renumber ρ) := by
    rw [renumber, List.getElem?_map, h.getElem?_place hn]
    rfl
  exact h'.place_of_getElem? hplace

/-- The edges of a graph under other ids run along the same wires. -/
theorem wires_renumber (h : e.WellFormed) (h' : (e.renumber ρ).WellFormed) :
    (e.renumber ρ).wires = e.wires := by
  refine List.map_map.trans (List.map_congr_left fun x hx => ?_)
  obtain ⟨m, hm, o, -, n, hn, p, -, hj⟩ := h.joins x hx
  simp only [Function.comp_apply, wire, Edge.renumber, Endpoint.renumber, hj.start, hj.stop,
    place_renumber h h' hm, place_renumber h h' hn]

/-- A graph whose ids stay as they are stays as it is. -/
theorem renumber_eq_self (h : e.WellFormed) (hρ : ∀ id ∈ e.ids, ρ id = id)
    (hnext : e.ids.length = e.nextId) : e.renumber ρ = e := by
  have hnumbered : ∀ id, Numbered e.nodes e.edges id → ρ id = id :=
    fun id hid => hρ id (h.mem_ids_of_numbered hid)
  have hnodes : e.nodes.map (.renumber ρ) = e.nodes := by
    refine (List.map_congr_left fun n hn => ?_).trans (List.map_id _)
    have hports : n.ports.map (.renumber ρ) = n.ports := by
      refine (List.map_congr_left fun p hp => ?_).trans (List.map_id _)
      rw [Port.renumber, hnumbered p.id (.port hn hp), id]
    rw [Node.renumber, hnumbered n.id (.node hn), hports, id]
  have hedges : e.edges.map (.renumber ρ) = e.edges := by
    refine (List.map_congr_left fun x hx => ?_).trans (List.map_id _)
    have hid : x.id ∈ e.ids := List.mem_append_right _ (List.mem_map_of_mem hx)
    simp only [Edge.renumber, Endpoint.renumber, hρ x.id hid, hnumbered _ (.startNode hx),
      hnumbered _ (.startPort hx), hnumbered _ (.stopNode hx), hnumbered _ (.stopPort hx), id]
  rw [renumber, hnodes, hedges, hnext]

/-- Counting ids that were counted changes nothing. -/
theorem renumber_rank_renumber (h' : (e.renumber e.rank).WellFormed) (hids : e.ids.Nodup) :
    (e.renumber e.rank).renumber (e.renumber e.rank).rank = e.renumber e.rank := by
  have hrange : (e.renumber e.rank).ids = List.range e.ids.length := by
    rw [ids_renumber, map_rank hids]
  refine renumber_eq_self h' (fun id hid => ?_) ?_
  · rw [hrange, List.mem_range] at hid
    have hidx := (List.nodup_range (n := e.ids.length)).idxOf_getElem id (by simpa using hid)
    rw [List.getElem_range] at hidx
    rw [rank, hrange, hidx]
  · rw [hrange, List.length_range]
    rfl

/-! ## There and back -/

/-- A graph of catalogue nodes can be loaded from its description. The nodes that come of it have
the same names, kinds, ports and flags in the same order, and its edges run between ports of the
same names at the same places, in the same order. Describing it and loading it once more gives
exactly the same graph, with all ids and the next one. -/
theorem CatalogueReachable.load_describe_exact (h : e.CatalogueReachable) :
    ∃ e', e.describe.load = .ok e' ∧
      e'.nodes.map Node.content = e.nodes.map Node.content ∧
      e'.wires = e.wires ∧
      (∀ x ∈ e.edges, e.Follows x (e.wire x)) ∧ (∀ x ∈ e'.edges, e'.Follows x (e'.wire x)) ∧
      e'.describe.load = .ok e' := by
  have hc := h.reachable.consistent
  have hload := h.catalogued.load_describe hc
  have h' : (e.renumber e.rank).CatalogueReachable := .loaded hload
  have hc' := h'.reachable.consistent
  refine ⟨_, hload, ?_, wires_renumber hc.toWellFormed hc'.toWellFormed,
    fun x hx => hc.follows_wire hx, fun x hx => hc'.follows_wire hx, ?_⟩
  · rw [renumber, List.map_map]
    exact List.map_congr_left fun n _ => Node.content_renumber _ n
  · rw [h'.catalogued.load_describe hc', renumber_rank_renumber hc'.toWellFormed hc.ids_nodup]

/-- A blur of a name of its own, after another that is gone, with two links of which the later one
is the first in the order of nodes, after a third that is gone. -/
def softBlur : Editor :=
  [Edit.addKind .gaussianBlur, .addNamed "Soft" .gaussianBlur, .remove 13,
    .connect 5 "Scene" 0 "Scene", .connect 16 "Blurred Image" 11 "Final Image",
    .connect 5 "Position" 16 "Image", .disconnect 19].foldl apply seeded

theorem softBlur_load_describe :
    softBlur.ids = [0, 1, 2, 3, 4, 5, 6, 7, 8, 9, 10, 11, 12, 16, 17, 18, 20, 21] ∧
    ∃ e', softBlur.describe.load = .ok e' ∧ e'.ids = List.range 18 ∧
      e'.nodes.map (·.name) = ["Scene Provider", "G-Buffer", "Present", "Soft"] ∧
      e'.wires = [⟨3, "Blurred Image", 2, "Final Image"⟩, ⟨1, "Position", 3, "Image"⟩] ∧
      e'.describe.load = .ok e' := by
  have h : softBlur.CatalogueReachable :=
    CatalogueReachable.seeded.foldl _ (by simp [Edit.FromCatalogue])
  obtain ⟨e', hload, hcontent, hwires, -, -, hagain⟩ :=
    CatalogueReachable.load_describe_exact h
  refine ⟨by decide, e', hload, ?_, ?_, hwires.trans (by decide), hagain⟩
  · cases hload
    decide
  · have hnames := congrArg (List.map Prod.fst) hcontent
    rw [List.map_map, List.map_map] at hnames
    exact hnames.trans (by decide)

end Editor

end FrameGraph
