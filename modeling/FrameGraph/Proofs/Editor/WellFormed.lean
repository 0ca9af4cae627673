import FrameGraph.Proofs.Editor.Edits
import Mathlib.Data.List.Flatten
import Mathlib.Data.List.Nodup

/-!
# Well-formed graphs

What a compile, its wiring and a description rely on without looking: ids are unique, nodes stand
in the order of their ids, every edge joins an output to an input that both exist, and no kind of
which there is one stands twice. The flags on ports play no part in it
(`Editor.WellFormed.withFlags`), and taking nodes and edges away only needs that no edge is left
over (`Editor.WellFormed.restrict`), so that each change is a short step.
-/

namespace FrameGraph

/-- The edge runs from port `o` of node `m` to port `p` of another node `n`, under the names and
with the payload that the two ports have. -/
structure Edge.Joins (edge : Edge) (m : Node) (o : Port) (n : Node) (p : Port) : Prop where
  start : edge.start = ⟨m.id, o.id, o.name⟩
  stop : edge.stop = ⟨n.id, p.id, p.name⟩
  ne : m.id ≠ n.id
  output : o.role = .output
  input : p.role = .input
  start_payload : o.payload = edge.payload
  stop_payload : p.payload = edge.payload

namespace Editor

/-- The ids of all nodes, ports and edges of a graph. -/
def ids (e : Editor) : List Nat := e.nodes.flatMap Node.ids ++ e.edges.map (·.id)

structure WellFormed (e : Editor) : Prop where
  ids_nodup : e.ids.Nodup
  ids_lt : ∀ id ∈ e.ids, id < e.nextId
  ascending : e.nodes.Pairwise (·.id < ·.id)
  joins : ∀ edge ∈ e.edges, ∃ m ∈ e.nodes, ∃ o ∈ m.ports, ∃ n ∈ e.nodes, ∃ p ∈ n.ports,
    edge.Joins m o n p
  /-- No two edges join the same two ports. -/
  unrepeated : e.edges.Pairwise fun a b =>
    ¬(a.start.node = b.start.node ∧ a.start.port = b.start.port ∧
      a.stop.node = b.stop.node ∧ a.stop.port = b.stop.port)
  singletons : ∀ kind ∈ [PassKind.sceneProvider, .present],
    e.nodes.countP (·.kind == kind) ≤ 1

end Editor

/-! ## Flags -/

theorem Edge.Joins.withFlags {edge : Edge} {m n : Node} {o p : Port} {f g : Port → Bool}
    {a b : Bool} (h : edge.Joins m o n p) :
    edge.Joins (m.withFlags f) { o with connected := a } (n.withFlags g)
      { p with connected := b } := by
  obtain ⟨hstart, hstop, hne, ho, hp, ho', hp'⟩ := h
  exact ⟨hstart, hstop, hne, ho, hp, ho', hp'⟩

namespace Editor

variable {e e' : Editor}

theorem WellFormed.withFlags (h : e.WellFormed) (flag : Node → Port → Bool) :
    WellFormed { e with nodes := e.nodes.map fun n => n.withFlags (flag n) } := by
  have hids : ids { e with nodes := e.nodes.map fun n => n.withFlags (flag n) } = e.ids := by
    simp only [ids, List.flatMap_map, Node.ids_withFlags]
  refine ⟨hids ▸ h.ids_nodup, hids ▸ h.ids_lt, ?_, fun edge hedge => ?_, h.unrepeated, ?_⟩
  · simpa only [List.pairwise_map, Node.id_withFlags] using h.ascending
  · obtain ⟨m, hm, o, ho, n, hn, p, hp, hj⟩ := h.joins edge hedge
    exact ⟨_, List.mem_map_of_mem hm, _, Node.mem_ports_withFlags.mpr ⟨o, ho, rfl⟩,
      _, List.mem_map_of_mem hn, _, Node.mem_ports_withFlags.mpr ⟨p, hp, rfl⟩, hj.withFlags⟩
  · simpa only [List.countP_map, Function.comp_def, Node.kind_withFlags] using h.singletons

/-! ## Taking nodes and edges away -/

theorem WellFormed.restrict (h : e.WellFormed) (keepNode : Node → Bool) (keepEdge : Edge → Bool)
    (hkeep : ∀ edge ∈ e.edges, keepEdge edge = true → ∀ n ∈ e.nodes, edge.touches n.id = true →
      keepNode n = true) :
    WellFormed { e with nodes := e.nodes.filter keepNode, edges := e.edges.filter keepEdge } := by
  have hids : (ids { e with
      nodes := e.nodes.filter keepNode, edges := e.edges.filter keepEdge }).Sublist e.ids :=
    (List.filter_sublist.flatMap _).append (List.filter_sublist.map _)
  refine ⟨hids.nodup h.ids_nodup, fun id hid => h.ids_lt id (hids.subset hid),
    h.ascending.filter _, fun edge hedge => ?_, h.unrepeated.filter _, fun kind hkind =>
      Nat.le_trans List.filter_sublist.countP_le (h.singletons kind hkind)⟩
  obtain ⟨hedge, hk⟩ := List.mem_filter.mp hedge
  obtain ⟨m, hm, o, ho, n, hn, p, hp, hj⟩ := h.joins edge hedge
  have hstart : edge.touches m.id = true := by simp [Edge.touches, hj.start]
  have hstop : edge.touches n.id = true := by simp [Edge.touches, hj.stop]
  exact ⟨m, List.mem_filter.mpr ⟨hm, hkeep edge hedge hk m hm hstart⟩, o, ho,
    n, List.mem_filter.mpr ⟨hn, hkeep edge hedge hk n hn hstop⟩, p, hp, hj⟩

theorem WellFormed.withoutNode (h : e.WellFormed) (id : NodeId) :
    (e.withoutNode id).WellFormed := by
  have hrest := h.restrict (·.id != id) (!·.touches id)
    fun edge _ hk n _ ht => by
      by_contra hn
      have hn : n.id = id := by simpa using hn
      simp [← hn, ht] at hk
  exact hrest.withFlags fun n p =>
    p.connected && !(e.edges.filter (·.touches id)).any (·.stop.isAt n.id p.id)

theorem WellFormed.withoutEdge (h : e.WellFormed) (edge : Edge) :
    (e.withoutEdge edge).WellFormed := by
  have hrest := h.restrict (fun _ => true) (·.id != edge.id) fun _ _ _ _ _ _ => rfl
  rw [List.filter_true] at hrest
  exact hrest.withFlags fun n p =>
    if edge.stop.isAt n.id p.id then false else p.connected

/-! ## Adding nodes and edges -/

/-- New ids from the sequence are unique beside the old ones. -/
theorem WellFormed.fresh_ids (h : e.WellFormed) (e' : Editor) (count : Nat)
    (hids : e'.ids.Perm (e.ids ++ List.range' e.nextId count))
    (hnext : e'.nextId = e.nextId + count) :
    e'.ids.Nodup ∧ ∀ id ∈ e'.ids, id < e'.nextId := by
  refine ⟨hids.nodup_iff.mpr ?_, fun id hid => ?_⟩
  · refine List.nodup_append.mpr ⟨h.ids_nodup, List.nodup_range', fun a ha b hb hab => ?_⟩
    have hlt := h.ids_lt a ha
    have hle := (List.mem_range'_1.mp hb).1
    omega
  · rcases List.mem_append.mp (hids.mem_iff.mp hid) with hid | hid
    · have hlt := h.ids_lt id hid
      omega
    · have hlt := (List.mem_range'_1.mp hid).2
      omega

theorem ids_newNode (e : Editor) (name : String) (kind : PassKind) (specs : List PortSpec) :
    (e.newNode name kind specs).ids = List.range' e.nextId (1 + specs.length) := by
  have hports : (e.newNode name kind specs).ports.map (·.id) =
      List.range' (e.nextId + 1) specs.length := by
    simp only [newNode, List.map_map, Function.comp_def]
    exact List.zipIdx_map_snd (e.nextId + 1) specs
  rw [Node.ids, hports, Nat.add_comm 1, List.range'_succ]
  rfl

theorem WellFormed.insert (h : e.WellFormed) {name : String} {kind : PassKind}
    {specs : List PortSpec} (hkind : kind.isSingleton = true → ∀ n ∈ e.nodes, n.kind ≠ kind) :
    (e.insert name kind specs).WellFormed := by
  have hids : (e.insert name kind specs).ids.Perm
      (e.ids ++ List.range' e.nextId (1 + specs.length)) := by
    simp only [ids, Editor.insert, List.flatMap_append, List.flatMap_singleton, ids_newNode,
      List.append_assoc]
    exact List.perm_append_comm.append_left _
  obtain ⟨hnodup, hlt⟩ := h.fresh_ids _ _ hids (Nat.add_assoc ..)
  refine ⟨hnodup, hlt, ?_, fun edge hedge => ?_, h.unrepeated, fun k hk => ?_⟩
  · refine List.pairwise_append.mpr ⟨h.ascending, List.pairwise_singleton .., ?_⟩
    intro n hn n' hn'
    cases List.mem_singleton.mp hn'
    exact h.ids_lt n.id (List.mem_append_left _ (List.mem_flatMap.mpr ⟨n, hn, List.mem_cons_self⟩))
  · obtain ⟨m, hm, o, ho, n, hn, p, hp, hj⟩ := h.joins edge hedge
    exact ⟨m, List.mem_append_left _ hm, o, ho, n, List.mem_append_left _ hn, p, hp, hj⟩
  · have hold := h.singletons k hk
    simp only [Editor.insert, List.countP_append, List.countP_singleton, newNode]
    split
    · next heq =>
      -- The new node is the first of its kind.
      have heq : kind = k := by simpa using heq
      subst heq
      have hsingle : kind.isSingleton = true := by
        simp only [List.mem_cons, List.not_mem_nil, or_false] at hk
        rcases hk with rfl | rfl <;> rfl
      have hnone : e.nodes.countP (·.kind == kind) = 0 :=
        List.countP_eq_zero.mpr fun n hn => by simpa using hkind hsingle n hn
      omega
    · exact hold

theorem Linkable.joins {m n : Node} {o p : Port} (h : e.Linkable m o n p) :
    (e.newEdge (m.id, o) (n.id, p)).Joins m o n p :=
  ⟨rfl, rfl, h.ne, h.output, h.input, rfl, h.payload.symm⟩

theorem WellFormed.withEdge (h : e.WellFormed) {m n : Node} {o p : Port}
    (hl : e.Linkable m o n p) : (e.withEdge (m.id, o) (n.id, p)).WellFormed := by
  -- The flag that is set with the edge does not matter, so the edge is added first.
  have hadd : WellFormed { e with
      edges := e.edges ++ [e.newEdge (m.id, o) (n.id, p)], nextId := e.nextId + 1 } := by
    obtain ⟨hnodup, hlt⟩ := h.fresh_ids { e with
      edges := e.edges ++ [e.newEdge (m.id, o) (n.id, p)], nextId := e.nextId + 1 } 1
      (by simp [ids, newEdge]) rfl
    refine ⟨hnodup, hlt, h.ascending, fun edge hedge => ?_, ?_, h.singletons⟩
    · rcases List.mem_append.mp hedge with hedge | hedge
      · exact h.joins edge hedge
      · cases List.mem_singleton.mp hedge
        exact ⟨m, hl.start_mem, o, hl.output_mem, n, hl.stop_mem, p, hl.input_mem, hl.joins⟩
    · refine List.pairwise_append.mpr ⟨h.unrepeated, List.pairwise_singleton .., ?_⟩
      intro a ha b hb
      cases List.mem_singleton.mp hb
      have hfresh := hl.fresh a ha
      simp only [Edge.samePorts, Endpoint.isAt, Bool.and_eq_false_iff,
        beq_eq_false_iff_ne] at hfresh
      tauto
  exact hadd.withFlags fun n' p' =>
    if (e.newEdge (m.id, o) (n.id, p)).stop.isAt n'.id p'.id then true else p'.connected

/-! ## All changes -/

theorem WellFormed.empty : Editor.empty.WellFormed where
  ids_nodup := List.nodup_nil
  ids_lt _ h := nomatch h
  ascending := .nil
  joins _ h := nomatch h
  unrepeated := .nil
  singletons _ _ := Nat.zero_le _

theorem WellFormed.change (h : e.WellFormed) (hc : e.Change e') : e'.WellFormed := by
  cases hc with
  | insert _ _ _ hkind => exact h.insert hkind
  | remove id => exact h.withoutNode id
  | link hl => exact h.withEdge hl
  | unlink => exact h.withoutEdge _

end Editor

end FrameGraph
