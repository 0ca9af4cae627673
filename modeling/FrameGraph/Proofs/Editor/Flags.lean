import FrameGraph.Proofs.Editor.Accepted
import FrameGraph.Proofs.Order.Positions
import Mathlib.Data.List.Pairwise

/-!
# Flags and incoming edges

The flag of a port is a copy of what the edges say: it is set while an edge ends at the port, and
no two edges end at one port (`Editor.Flagged`). An edit that frees or takes an input
finds its port by id, which is right because ids are unique.
-/

namespace FrameGraph

namespace Editor

variable {e e' : Editor}

/-! ## Ids name one thing -/

namespace WellFormed

theorem node_eq (h : e.WellFormed) {m n : Node} (hm : m ∈ e.nodes) (hn : n ∈ e.nodes)
    (hid : m.id = n.id) : m = n :=
  List.inj_on_of_nodup_map h.nodes_nodup hm hn hid

theorem node?_eq (h : e.WellFormed) {n : Node} (hn : n ∈ e.nodes) : e.node? n.id = some n := by
  obtain ⟨m, hfind, hm, hid⟩ := exists_find? (p := (·.id == n.id)) hn (beq_self_eq_true _)
  rw [node?, hfind, h.node_eq hm hn (beq_iff_eq.mp hid)]

theorem ports_nodup (h : e.WellFormed) : (e.nodes.flatMap fun n => n.ports.map (·.id)).Nodup := by
  have hsub : (e.nodes.flatMap fun n => n.ports.map (·.id)).Sublist e.ids :=
    (List.Sublist.flatMap_right _ fun n _ => List.sublist_cons_self ..).trans
      (List.sublist_append_left ..)
  exact hsub.nodup h.ids_nodup

theorem port_eq (h : e.WellFormed) {m n : Node} {o p : Port} (hm : m ∈ e.nodes) (ho : o ∈ m.ports)
    (hn : n ∈ e.nodes) (hp : p ∈ n.ports) (hid : o.id = p.id) : m = n ∧ o = p := by
  obtain ⟨hnodup, hdisjoint⟩ := List.nodup_flatMap.mp h.ports_nodup
  have : Std.Symm (Function.onFun List.Disjoint fun n : Node => n.ports.map (·.id)) :=
    ⟨fun _ _ hd _ ha hb => hd hb ha⟩
  have hmn : m = n := by
    by_contra hmn
    exact hdisjoint.forall hm hn hmn (List.mem_map_of_mem ho) (hid ▸ List.mem_map_of_mem hp)
  subst hmn
  exact ⟨rfl, List.inj_on_of_nodup_map (hnodup m hm) ho hp hid⟩

theorem edge_eq (h : e.WellFormed) {a b : Edge} (ha : a ∈ e.edges) (hb : b ∈ e.edges)
    (hid : a.id = b.id) : a = b :=
  List.inj_on_of_nodup_map h.edges_nodup ha hb hid

theorem port_lt (h : e.WellFormed) {n : Node} {p : Port} (hn : n ∈ e.nodes) (hp : p ∈ n.ports) :
    p.id < e.nextId :=
  h.ids_lt p.id (List.mem_append_left _ (List.mem_flatMap.mpr
    ⟨n, hn, List.mem_cons_of_mem _ (List.mem_map_of_mem hp)⟩))

end WellFormed

/-! ## The flags -/

structure Flagged (e : Editor) : Prop where
  connected_iff : ∀ n ∈ e.nodes, ∀ p ∈ n.ports,
    p.connected = true ↔ ∃ edge ∈ e.edges, edge.stop.node = n.id ∧ edge.stop.port = p.id
  /-- No two edges end at the same port. -/
  single : ∀ a ∈ e.edges, ∀ b ∈ e.edges,
    a.stop.node = b.stop.node → a.stop.port = b.stop.port → a = b

theorem Flagged.insert (h : e.Flagged) (hw : e.WellFormed) (name : String) (kind : PassKind)
    (specs : List PortSpec) : (e.insert name kind specs).Flagged := by
  refine ⟨fun n hn p hp => ?_, h.single⟩
  rcases List.mem_append.mp hn with hn | hn
  · exact h.connected_iff n hn p hp
  · -- No edge ends at a port that is new.
    cases List.mem_singleton.mp hn
    obtain ⟨⟨spec, id⟩, hmem, rfl⟩ := List.mem_map.mp hp
    have hle := (List.mem_zipIdx hmem).1
    refine iff_of_false Bool.false_ne_true ?_
    rintro ⟨edge, hedge, -, hport⟩
    obtain ⟨_, _, _, _, n, hn, p, hp, hj⟩ := hw.joins edge hedge
    have hid : p.id = id := by rw [hj.stop] at hport; exact hport
    exact Nat.lt_irrefl id (Nat.lt_trans (hid ▸ hw.port_lt hn hp) hle)

theorem Flagged.withoutNode (h : e.Flagged) (id : NodeId) : (e.withoutNode id).Flagged := by
  refine ⟨fun n' hn' p' hp' => ?_, fun a ha b hb =>
    h.single a (List.mem_of_mem_filter ha) b (List.mem_of_mem_filter hb)⟩
  rw [Editor.withoutNode, freed] at hn'
  obtain ⟨n, hn, rfl⟩ := List.mem_map.mp hn'
  obtain ⟨p, hp, rfl⟩ := Node.mem_ports_withFlags.mp hp'
  have hiff := h.connected_iff n (List.mem_of_mem_filter hn) p hp
  simp only [Bool.and_eq_true, hiff, Bool.not_eq_true', List.any_eq_false, List.mem_filter,
    Endpoint.isAt_iff, Node.id_withFlags, Editor.withoutNode]
  constructor
  · rintro ⟨⟨edge, hedge, hnode, hport⟩, hgone⟩
    refine ⟨edge, ⟨hedge, ?_⟩, hnode, hport⟩
    simpa using fun ht => hgone edge ⟨hedge, ht⟩ ⟨hnode, hport⟩
  · rintro ⟨edge, ⟨hedge, hkept⟩, hnode, hport⟩
    refine ⟨⟨edge, hedge, hnode, hport⟩, ?_⟩
    rintro other ⟨hother, ht⟩ ⟨hnode', hport'⟩
    cases h.single edge hedge other hother (hnode.trans hnode'.symm) (hport.trans hport'.symm)
    simp [ht] at hkept

theorem Flagged.withoutEdge (h : e.Flagged) (hw : e.WellFormed) {edge : Edge}
    (hedge : edge ∈ e.edges) : (e.withoutEdge edge).Flagged := by
  refine ⟨fun n' hn' p' hp' => ?_, fun a ha b hb =>
    h.single a (List.mem_of_mem_filter ha) b (List.mem_of_mem_filter hb)⟩
  rw [Editor.withoutEdge, marked] at hn'
  obtain ⟨n, hn, rfl⟩ := List.mem_map.mp hn'
  obtain ⟨p, hp, rfl⟩ := Node.mem_ports_withFlags.mp hp'
  have hiff := h.connected_iff n hn p hp
  simp only [Editor.withoutEdge, List.mem_filter, Node.id_withFlags, bne_iff_ne, ne_eq]
  split
  · next hat =>
    obtain ⟨hnode, hport⟩ := Endpoint.isAt_iff.mp hat
    refine iff_of_false Bool.false_ne_true ?_
    rintro ⟨other, ⟨hother, hne⟩, hnode', hport'⟩
    exact hne (congrArg (·.id)
      (h.single other hother edge hedge (hnode'.trans hnode.symm) (hport'.trans hport.symm)))
  · next hat =>
    rw [hiff]
    refine exists_congr fun other => and_congr_left fun hend => ?_
    refine (and_iff_left_of_imp fun hother hid => ?_).symm
    cases hw.edge_eq hother hedge hid
    exact hat (Endpoint.isAt_iff.mpr hend)

theorem Flagged.withEdge (h : e.Flagged) {m n : Node} {o p : Port}
    (hl : e.Linkable m o n p) : (e.withEdge (m.id, o) (n.id, p)).Flagged := by
  have hfree : ∀ a ∈ e.edges, a.stop.node = n.id → a.stop.port ≠ p.id := fun a ha hnode hport => by
    have hset := (h.connected_iff n hl.stop_mem p hl.input_mem).mpr ⟨a, ha, hnode, hport⟩
    exact Bool.false_ne_true (hl.free.symm.trans hset)
  refine ⟨fun n' hn' p' hp' => ?_, fun a ha b hb hnode hport => ?_⟩
  · rw [Editor.withEdge, marked] at hn'
    obtain ⟨k, hk, rfl⟩ := List.mem_map.mp hn'
    obtain ⟨q, hq, rfl⟩ := Node.mem_ports_withFlags.mp hp'
    have hiff := h.connected_iff k hk q hq
    simp only [Editor.withEdge, List.mem_append, List.mem_singleton, Node.id_withFlags]
    split
    · next hat => exact iff_of_true rfl ⟨_, .inr rfl, Endpoint.isAt_iff.mp hat⟩
    · next hat =>
      rw [hiff]
      refine exists_congr fun other => and_congr_left fun hend => ?_
      refine (or_iff_left ?_).symm
      rintro rfl
      exact hat (Endpoint.isAt_iff.mpr hend)
  · rcases List.mem_append.mp ha with ha | ha <;> rcases List.mem_append.mp hb with hb | hb
    · exact h.single a ha b hb hnode hport
    · cases List.mem_singleton.mp hb
      exact absurd hport (hfree a ha hnode)
    · cases List.mem_singleton.mp ha
      exact absurd hport.symm (hfree b hb hnode.symm)
    · exact (List.mem_singleton.mp ha).trans (List.mem_singleton.mp hb).symm

/-! ## Every reachable graph -/

/-- What the editor keeps between edits. -/
structure Consistent (e : Editor) : Prop extends e.WellFormed, e.Flagged

theorem Consistent.change (h : e.Consistent) (hc : e.Change e') : e'.Consistent where
  toWellFormed := h.toWellFormed.change hc
  toFlagged := by
    cases hc with
    | insert => exact h.toFlagged.insert h.toWellFormed ..
    | remove id => exact h.toFlagged.withoutNode id
    | link hl => exact h.toFlagged.withEdge hl
    | unlink hedge => exact h.toFlagged.withoutEdge h.toWellFormed hedge

theorem Consistent.empty : Editor.empty.Consistent where
  toWellFormed := .empty
  connected_iff _ h := nomatch h
  single _ h := nomatch h

theorem Reachable.consistent (h : e.Reachable) : e.Consistent := h.induct .empty .change

/-- The edges that end at a port. -/
def incoming (e : Editor) (node : NodeId) (port : PortId) : List Edge :=
  e.edges.filter (·.stop.isAt node port)

theorem mem_incoming {edge : Edge} {node : NodeId} {port : PortId} :
    edge ∈ e.incoming node port ↔
      edge ∈ e.edges ∧ edge.stop.node = node ∧ edge.stop.port = port := by
  rw [incoming, List.mem_filter, Endpoint.isAt_iff]

/-- An input is free if no edge ends at it. -/
theorem Flagged.connected_eq_false_iff (h : e.Flagged) {n : Node} (hn : n ∈ e.nodes) {p : Port}
    (hp : p ∈ n.ports) : p.connected = false ↔ e.incoming n.id p.id = [] := by
  rw [← Bool.not_eq_true, h.connected_iff n hn p hp, List.eq_nil_iff_forall_not_mem, not_exists]
  exact forall_congr' fun edge => not_congr mem_incoming.symm

theorem Consistent.length_incoming_le (h : e.Consistent) (node : NodeId) (port : PortId) :
    (e.incoming node port).length ≤ 1 := by
  have hedges : e.edges.Nodup := h.edges_nodup.of_map
  have hnodup : (e.incoming node port).Nodup := hedges.filter _
  match hin : e.incoming node port with
  | [] | [_] => simp
  | a :: b :: rest =>
    obtain ⟨ha, hanode, haport⟩ := mem_incoming.mp (hin ▸ List.mem_cons_self)
    obtain ⟨hb, hbnode, hbport⟩ :=
      mem_incoming.mp (hin ▸ List.mem_cons_of_mem a List.mem_cons_self)
    have hab := h.single a ha b hb (hanode.trans hbnode.symm) (haport.trans hbport.symm)
    rw [hin, hab] at hnodup
    exact absurd List.mem_cons_self (List.nodup_cons.mp hnodup).1

/-- The flag of every port in every graph made by edits says how many edges end there: one if it
is set and none if it is not, and it is never set at a port that is not an input. -/
theorem Reachable.flags_exact (he : e.Reachable) {n : Node} (hn : n ∈ e.nodes) {p : Port}
    (hp : p ∈ n.ports) :
    (p.connected = true ↔ (e.incoming n.id p.id).length = 1) ∧
    (p.connected = false ↔ e.incoming n.id p.id = []) ∧
    (e.incoming n.id p.id).length ≤ 1 ∧
    (p.role ≠ .input → p.connected = false) := by
  have hc := he.consistent
  have hle := hc.length_incoming_le n.id p.id
  have hset : p.connected = true ↔ e.incoming n.id p.id ≠ [] := by
    rw [hc.connected_iff n hn p hp, ne_eq, List.eq_nil_iff_forall_not_mem, not_forall_not]
    exact exists_congr fun edge => mem_incoming.symm
  have hfree : p.connected = false ↔ e.incoming n.id p.id = [] := by
    rw [← Bool.not_eq_true, hset, ne_eq, not_not]
  refine ⟨?_, hfree, hle, fun hrole => ?_⟩
  · rw [hset, ← List.length_pos_iff]
    omega
  · -- An edge that ends at the port would make it an input.
    rw [hfree, List.eq_nil_iff_forall_not_mem]
    intro edge hedge
    obtain ⟨hedge, -, hport⟩ := mem_incoming.mp hedge
    obtain ⟨_, _, _, _, n', hn', p', hp', hj⟩ := hc.joins edge hedge
    rw [hj.stop] at hport
    obtain ⟨-, rfl⟩ := hc.port_eq hn' hp' hn hp hport
    exact hrole hj.input

/-- A blur between the G-buffer and the present node: without the G-buffer its input is free, and
the input of the present node is still taken. -/
theorem flags_after_removal :
    let e := [Edit.addKind .gaussianBlur, .connect 5 "Position" 13 "Image",
      .connect 11 "Final Image" 13 "Blurred Image", .remove 5].foldl apply seeded
    ∃ blur ∈ e.nodes, ∃ image ∈ blur.ports, ∃ present ∈ e.nodes, ∃ final ∈ present.ports,
      image.connected = false ∧ e.incoming blur.id image.id = [] ∧
      final.connected = true ∧ (e.incoming present.id final.id).length = 1 := by
  intro e
  have he : e.Reachable := Reachable.seeded.foldl _
  have hblur := List.get_mem e.nodes ⟨2, by decide⟩
  have himage := List.get_mem (e.nodes.get ⟨2, by decide⟩).ports ⟨0, by decide⟩
  have hpresent := List.get_mem e.nodes ⟨1, by decide⟩
  have hfinal := List.get_mem (e.nodes.get ⟨1, by decide⟩).ports ⟨0, by decide⟩
  refine ⟨_, hblur, _, himage, _, hpresent, _, hfinal, by decide, ?_, by decide, ?_⟩
  · exact (Reachable.flags_exact he hblur himage).2.1.mp (by decide)
  · exact (Reachable.flags_exact he hpresent hfinal).1.mp (by decide)

end Editor

end FrameGraph
