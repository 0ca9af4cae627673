import FrameGraph.Proofs.Editor.Catalogue
import FrameGraph.Proofs.Renumber.Snapshot
import Mathlib.Data.List.Induction

/-!
# Loading what was described

A description of a graph of catalogue nodes can always be loaded, and the graph that comes of it is
the same but for its ids, which are now given in one sequence: those of nodes and ports first, then
those of edges (`Editor.Catalogued.load_describe`). While it is loaded, the graph is what was there
with the first of its edges only (`Editor.loading`), so that no link is refused that the editor had
once accepted.
-/

namespace FrameGraph

/-- A port with the flag that some edges set. -/
def Port.flagged (edges : List Edge) (node : NodeId) (p : Port) : Port :=
  { p with connected := edges.any (·.stop.isAt node p.id) }

/-- A node with the flags that some edges set. -/
def Node.flagged (edges : List Edge) (n : Node) : Node :=
  n.withFlags fun p => edges.any (·.stop.isAt n.id p.id)

theorem Node.ports_flagged (edges : List Edge) (n : Node) :
    (n.flagged edges).ports = n.ports.map (.flagged edges n.id) := rfl

namespace Editor

/-! ## Ids in one sequence -/

/-- The place of an id among those of a graph, nodes with their ports first. -/
def rank (e : Editor) (id : Nat) : Nat := e.ids.idxOf id

/-- The graph under other ids, as many as it has. -/
def renumber (ρ : Nat → Nat) (e : Editor) : Editor :=
  ⟨e.nodes.map (.renumber ρ), e.edges.map (.renumber ρ), e.ids.length⟩

variable {e : Editor} {ρ : Nat → Nat}

theorem map_rank (h : e.ids.Nodup) : e.ids.map e.rank = List.range e.ids.length := by
  refine List.ext_getElem (by simp) fun i hi _ => ?_
  rw [List.getElem_map, List.getElem_range]
  exact h.idxOf_getElem i (by simpa using hi)

/-- Ids that count a list count every part of it. -/
theorem map_eq_range' {before ids after : List Nat}
    (h : (before ++ ids ++ after).map ρ = List.range (before ++ ids ++ after).length) :
    ids.map ρ = List.range' before.length ids.length := by
  refine List.ext_getElem (by simp) fun i hi _ => ?_
  have hi : i < ids.length := by simpa using hi
  have hget := congrArg (·[before.length + i]?) h
  simp only [List.append_assoc, List.getElem?_map, List.length_append,
    List.getElem?_append_right (Nat.le_add_right ..), Nat.add_sub_cancel_left,
    List.getElem?_append_left hi, List.getElem?_eq_getElem hi, Option.map_some] at hget
  rw [List.getElem?_range (by omega)] at hget
  simpa using hget

namespace WellFormed

theorem mem_ids_of_node {n : Node} (hn : n ∈ e.nodes) {id : Nat} (hid : id ∈ n.ids) :
    id ∈ e.ids := List.mem_append_left _ (List.mem_flatMap.mpr ⟨n, hn, hid⟩)

theorem mem_ids_of_numbered (h : e.WellFormed) {id : Nat}
    (hid : Numbered e.nodes e.edges id) : id ∈ e.ids := by
  have hnode : ∀ {n}, n ∈ e.nodes → n.id ∈ e.ids := fun hn => mem_ids_of_node hn List.mem_cons_self
  have hport : ∀ {n p}, n ∈ e.nodes → p ∈ n.ports → p.id ∈ e.ids :=
    fun hn hp => mem_ids_of_node hn (List.mem_cons_of_mem _ (List.mem_map_of_mem hp))
  cases hid with
  | node hn => exact hnode hn
  | port hn hp => exact hport hn hp
  | startNode hx | startPort hx =>
    obtain ⟨m, hm, o, ho, _, _, _, _, hj⟩ := h.joins _ hx
    simp only [hj.start]
    first | exact hnode hm | exact hport hm ho
  | stopNode hx | stopPort hx =>
    obtain ⟨_, _, _, _, n, hn, p, hp, hj⟩ := h.joins _ hx
    simp only [hj.stop]
    first | exact hnode hn | exact hport hn hp

/-- Nodes stand in the order of their ids, and are counted in that order. -/
theorem renumbers (h : e.WellFormed) (hρ : e.ids.map ρ = List.range e.ids.length) :
    Renumbers ρ e.nodes e.edges := by
  have hinj : Set.InjOn ρ {id | id ∈ e.ids} := fun a ha b hb =>
    List.inj_on_of_nodup_map (hρ ▸ List.nodup_range) ha hb
  refine ⟨hinj.mono fun _ hid => h.mem_ids_of_numbered hid, fun m hm n hn hlt => ?_⟩
  have hsub : (e.nodes.map (·.id)).Sublist e.ids :=
    (Node.sublist_ids e.nodes).trans (List.sublist_append_left ..)
  have hcounted : e.nodes.Pairwise fun m n => ρ m.id < ρ n.id := by
    have hρsub := hsub.map ρ
    rw [hρ, List.map_map] at hρsub
    exact List.pairwise_map.mp (List.pairwise_lt_range.sublist hρsub)
  obtain ⟨i, hi, rfl⟩ := List.getElem_of_mem hm
  obtain ⟨j, hj, rfl⟩ := List.getElem_of_mem hn
  rcases Nat.lt_trichotomy i j with hij | rfl | hji
  · exact List.pairwise_iff_getElem.mp hcounted i j hi hj hij
  · exact absurd hlt (Nat.lt_irrefl _)
  · exact absurd (List.pairwise_iff_getElem.mp h.ascending j i hj hi hji) (Nat.lt_asymm hlt)

/-- Before a node of a kind of which there is one stands no other node of that kind. -/
theorem kind_ne_of_singleton (h : e.WellFormed) {before after : List Node} {n : Node}
    (hsplit : e.nodes = before ++ n :: after) (hsingle : n.kind.isSingleton = true) :
    ∀ m ∈ before, m.kind ≠ n.kind := by
  intro m hm hkind
  have hone := h.singletons n.kind (PassKind.mem_of_isSingleton hsingle)
  rw [hsplit, List.countP_append, List.countP_cons, if_pos (beq_self_eq_true n.kind)] at hone
  have hpos : 0 < before.countP (·.kind == n.kind) :=
    List.countP_pos_iff.mpr ⟨m, hm, beq_iff_eq.mpr hkind⟩
  omega

end WellFormed

/-! ## The stages of loading -/

/-- A description of nodes and edges being loaded, once these are. -/
def loading (ρ : Nat → Nat) (nodes : List Node) (edges : List Edge) : Description.Loading where
  editor := ⟨(nodes.map (.flagged edges)).map (.renumber ρ), edges.map (.renumber ρ),
    (nodes.flatMap Node.ids).length + edges.length⟩
  keys := (nodes.map fun n => (key n.id, ρ n.id)).reverse

theorem flagged_eq (h : e.Flagged) {n : Node} (hn : n ∈ e.nodes) : n.flagged e.edges = n := by
  have hports : n.ports.map (.flagged e.edges n.id) = n.ports := by
    refine (List.map_congr_left fun p hp => ?_).trans (List.map_id _)
    have hflag : e.edges.any (·.stop.isAt n.id p.id) = p.connected := by
      rw [Bool.eq_iff_iff, h.connected_iff n hn p hp, List.any_eq_true]
      simp only [Endpoint.isAt_iff]
    rw [Port.flagged, hflag]
    rfl
  change { n with ports := n.ports.map (.flagged e.edges n.id) } = n
  rw [hports]

theorem key_inj {a b : NodeId} (h : key a = key b) : a = b := by
  have hdigits := (String.append_right_inj _).mp h
  rw [Nat.toString_eq_ofList_toDigits, Nat.toString_eq_ofList_toDigits,
    String.ofList_inj] at hdigits
  rw [← Nat.ofDigitChars_ten_toDigits (n := a), hdigits, Nat.ofDigitChars_ten_toDigits]

theorem shownName_describeNode (n : Node) : (describeNode n).shownName = n.name := by
  unfold describeNode NodeEntry.shownName
  split
  · next h => exact h.symm
  · rfl

variable {nodes : List Node} {edges : List Edge} {n : Node}

theorem lookup_loading (hn : n ∈ nodes) :
    (loading ρ nodes edges).keys.lookup (key n.id) = some (ρ n.id) := by
  have hentry : (key n.id, ρ n.id) ∈ (loading ρ nodes edges).keys :=
    List.mem_reverse.mpr (List.mem_map_of_mem hn)
  cases hfind : (loading ρ nodes edges).keys.lookup (key n.id) with
  | none => simpa using List.lookup_eq_none_iff.mp hfind _ hentry
  | some id =>
    obtain ⟨_, _, hsplit, -⟩ := List.lookup_eq_some_iff.mp hfind
    have hmem : (key n.id, id) ∈ (loading ρ nodes edges).keys := by rw [hsplit]; simp
    obtain ⟨m, -, hm⟩ := List.mem_map.mp (List.mem_reverse.mp hmem)
    obtain ⟨hkey, rfl⟩ := Prod.mk.inj hm
    rw [key_inj hkey]

theorem lookup_loading_eq_none (hn : ∀ m ∈ nodes, m.id ≠ n.id) :
    (loading ρ nodes edges).keys.lookup (key n.id) = none := by
  refine List.lookup_eq_none_iff.mpr fun entry hentry => ?_
  obtain ⟨m, hm, rfl⟩ := List.mem_map.mp (List.mem_reverse.mp hentry)
  exact bne_iff_ne.mpr fun h => hn m hm (key_inj h).symm

/-! ## Nodes -/

theorem newNode_eq_renumber (hn : n.FromCatalogue)
    (hids : n.ids.map ρ = List.range' e.nextId n.ids.length) :
    e.newNode n.name n.kind n.kind.ports = (n.flagged []).renumber ρ := by
  have hlength : n.ids.length = n.ports.length + 1 := by simp [Node.ids]
  rw [hlength, List.range'_succ, Node.ids, List.map_cons, List.map_map] at hids
  obtain ⟨hid, hports⟩ := List.cons.inj hids
  have hzip : n.kind.ports.zipIdx (e.nextId + 1) = n.ports.map fun p => (p.spec, ρ p.id) := by
    rw [List.zipIdx_eq_zip_range', ← hn, List.length_map, ← hports]
    exact List.zip_map'
  unfold newNode
  rw [hzip, ← hid, List.map_map]
  simp only [Node.renumber, Node.ports_flagged, List.map_map]
  rfl

theorem addNode_loading (hn : n.FromCatalogue)
    (hids : n.ids.map ρ = List.range' (nodes.flatMap Node.ids).length n.ids.length)
    (hnew : ∀ m ∈ nodes, m.id ≠ n.id)
    (hkind : n.kind.isSingleton = true → ∀ m ∈ nodes, m.kind ≠ n.kind) :
    (loading ρ nodes []).addNode (describeNode n) = .ok (loading ρ (nodes ++ [n]) []) := by
  have hnone : ¬ (n.kind.isSingleton = true ∧
      ((loading ρ nodes []).editor.nodeOfKind? n.kind).isSome = true) := by
    rintro ⟨hsingle, hsome⟩
    obtain ⟨m', hm', hmkind⟩ := nodeOfKind?_isSome.mp hsome
    obtain ⟨m₁, hm₁, rfl⟩ := List.mem_map.mp hm'
    obtain ⟨m, hm, rfl⟩ := List.mem_map.mp hm₁
    exact hkind hsingle m hm hmkind
  have hnext : (nodes.flatMap Node.ids).length + 1 + n.kind.ports.length =
      ((nodes ++ [n]).flatMap Node.ids).length := by
    simp [hn.length_ports, Node.ids, Nat.add_assoc, Nat.add_comm 1]
  have hadd : (loading ρ nodes []).editor.addNamed (describeNode n).shownName
      (describeNode n).kind =
        .ok ((n.flagged []).renumber ρ, (loading ρ (nodes ++ [n]) []).editor) := by
    rw [shownName_describeNode]
    change add _ n.name n.kind n.kind.ports = _
    rw [add, if_neg hnone, insert, newNode_eq_renumber hn hids]
    refine congrArg (fun e => Except.ok (_, e)) ?_
    simp only [loading, List.map_append, List.length_nil, Nat.add_zero, hnext]
    rfl
  have hkey : (loading ρ nodes []).keys.lookup (describeNode n).key = none :=
    lookup_loading_eq_none hnew
  rw [Description.Loading.addNode, hadd, hkey]
  simp only [loading, List.map_append, List.reverse_append]
  rfl

/-! ## Links -/

theorem newEdge_loading {x : Edge} {m n : Node} {o p : Port} (hj : x.Joins m o n p)
    (hid : ρ x.id = (nodes.flatMap Node.ids).length + edges.length) :
    (loading ρ nodes edges).editor.newEdge (ρ m.id, o.renumber ρ) (ρ n.id, p.renumber ρ) =
      x.renumber ρ := by
  unfold newEdge Edge.renumber
  rw [hj.start, hj.stop, hid, ← hj.start_payload]
  rfl

section

variable (h : Renumbers ρ e.nodes e.edges)

include h

theorem samePorts_renumber {x y : Edge} (hx : x ∈ e.edges) (hy : y ∈ e.edges) :
    (x.renumber ρ).samePorts (y.renumber ρ) = x.samePorts y := by
  unfold Edge.samePorts
  rw [← h.isAt_eq (.startNode hx) (.startPort hx) (.startNode hy) (.startPort hy),
    ← h.isAt_eq (.stopNode hx) (.stopPort hx) (.stopNode hy) (.stopPort hy)]
  rfl

theorem node?_loading (hw : e.WellFormed) (hn : n ∈ e.nodes) (edges : List Edge) :
    (loading ρ e.nodes edges).editor.node? (ρ n.id) =
      some ((n.flagged edges).renumber ρ) := by
  obtain ⟨m, hfind, hm, hid⟩ := exists_find? (p := fun m : Node => ρ m.id == ρ n.id) hn
    (beq_self_eq_true _)
  obtain rfl : m = n := hw.node_eq hm hn ((h.eq_iff (.node hm) (.node hn)).mp (beq_iff_eq.mp hid))
  unfold node? loading
  rw [List.find?_map, List.find?_map]
  exact congrArg (fun m? => Option.map _ (Option.map _ m?)) hfind

theorem port_loading (hw : e.WellFormed) (hcat : e.Catalogued) (hn : n ∈ e.nodes) {p : Port}
    (hp : p ∈ n.ports) (edges : List Edge) :
    (loading ρ e.nodes edges).editor.port (ρ n.id) p.name =
      .ok ((p.flagged edges n.id).renumber ρ) := by
  have hport : ((n.flagged edges).renumber ρ).portNamed? p.name =
      some ((p.flagged edges n.id).renumber ρ) := by
    unfold Node.portNamed?
    rw [Node.ports_renumber, Node.ports_flagged, List.find?_map, List.find?_map]
    exact congrArg (fun q? => Option.map _ (Option.map _ q?)) ((hcat n hn).portNamed?_eq hp)
  rw [port, node?_loading h hw hn edges]
  simp only [hport]

/-- No id is given twice. -/
theorem ids_nodup_loading (hw : e.WellFormed) (edges : List Edge) :
    ((loading ρ e.nodes edges).editor.nodes.flatMap Node.ids).Nodup := by
  have hids : (loading ρ e.nodes edges).editor.nodes.flatMap Node.ids =
      (e.nodes.flatMap Node.ids).map ρ := by
    simp only [loading, List.map_map, List.flatMap_map, List.map_flatMap]
    refine List.flatMap_congr fun n _ => ?_
    simp [Node.ids, Node.flagged, Node.withFlags, Node.renumber, Port.renumber]
  have hnumbered : ∀ id ∈ e.nodes.flatMap Node.ids, Numbered e.nodes e.edges id := by
    intro id hid
    obtain ⟨n, hn, hid⟩ := List.mem_flatMap.mp hid
    rcases List.mem_cons.mp hid with rfl | hid
    · exact .node hn
    · obtain ⟨p, hp, rfl⟩ := List.mem_map.mp hid
      exact .port hn hp
  rw [hids]
  exact hw.nodes_ids_nodup.map_on fun a ha b hb => h.apart (hnumbered a ha) (hnumbered b hb)

theorem marked_loading {edges : List Edge} {x : Edge} (hx : x ∈ e.edges) :
    marked (loading ρ e.nodes edges).editor.nodes (x.renumber ρ).stop true =
      (loading ρ e.nodes (edges ++ [x])).editor.nodes := by
  unfold loading marked
  simp only [List.map_map]
  refine List.map_congr_left fun n hn => ?_
  simp only [Function.comp_apply, Node.renumber, Node.flagged, Node.withFlags, List.map_map]
  congr 1
  refine List.map_congr_left fun p hp => ?_
  have hat := h.isAt_eq (.stopNode hx) (.stopPort hx) (.node hn) (.port hn hp)
  simp only [Function.comp_apply, Edge.renumber, Port.renumber, hat, List.any_append,
    List.any_cons, List.any_nil, Bool.or_false]
  cases x.stop.isAt n.id p.id <;> simp

end

section

variable (h : Renumbers ρ e.nodes e.edges) (hc : e.Consistent) {before after : List Edge}
  {x : Edge} (hsplit : e.edges = before ++ x :: after)
  (hid : ρ x.id = (e.nodes.flatMap Node.ids).length + before.length)

include h hc hsplit hid

/-- The next of the edges joins two ports that may be joined: what the editor has accepted once is
not refused when it is loaded. -/
theorem linkable_loading {m n : Node} {o p : Port} (hm : m ∈ e.nodes) (ho : o ∈ m.ports)
    (hn : n ∈ e.nodes) (hp : p ∈ n.ports) (hj : x.Joins m o n p) :
    (loading ρ e.nodes before).editor.Linkable
      ((m.flagged before).renumber ρ) ((o.flagged before m.id).renumber ρ)
      ((n.flagged before).renumber ρ) ((p.flagged before n.id).renumber ρ) where
  start_mem := List.mem_map_of_mem (List.mem_map_of_mem hm)
  output_mem := List.mem_map_of_mem (List.mem_map_of_mem ho)
  stop_mem := List.mem_map_of_mem (List.mem_map_of_mem hn)
  input_mem := List.mem_map_of_mem (List.mem_map_of_mem hp)
  ne := fun heq => hj.ne ((h.eq_iff (.node hm) (.node hn)).mp heq)
  output := hj.output
  input := hj.input
  payload := hj.start_payload.trans hj.stop_payload.symm
  fresh := by
    intro y' hy'
    obtain ⟨y, hy, rfl⟩ := List.mem_map.mp hy'
    have hunrepeated := hc.unrepeated
    rw [hsplit, List.pairwise_append] at hunrepeated
    have hxy := hunrepeated.2.2 y hy x List.mem_cons_self
    have hsame : (y.renumber ρ).samePorts (x.renumber ρ) = y.samePorts x :=
      samePorts_renumber h (by simp [hsplit, hy]) (by simp [hsplit])
    change (y.renumber ρ).samePorts ((loading ρ e.nodes before).editor.newEdge
      (ρ m.id, o.renumber ρ) (ρ n.id, p.renumber ρ)) = false
    rw [newEdge_loading hj hid, hsame, Bool.eq_false_iff]
    simpa [Edge.samePorts, and_assoc] using hxy
  free := by
    refine List.any_eq_false.mpr fun y hy hat => ?_
    obtain ⟨hnode, hport⟩ := Endpoint.isAt_iff.mp hat
    have hnodup : e.edges.Nodup := hc.edges_nodup.of_map
    rw [hsplit, List.nodup_middle, List.nodup_cons] at hnodup
    have hyx : y = x := hc.single y (by simp [hsplit, hy]) x (by simp [hsplit])
      (by rw [hnode, hj.stop]) (by rw [hport, hj.stop])
    exact hnodup.1 (List.mem_append_left _ (hyx ▸ hy))

theorem addLink_loading (hcat : e.Catalogued) :
    (loading ρ e.nodes before).addLink (describeEdge x) =
      .ok (loading ρ e.nodes (before ++ [x])) := by
  have hx : x ∈ e.edges := by simp [hsplit]
  obtain ⟨m, hm, o, ho, n, hn, p, hp, hj⟩ := hc.joins x hx
  have hedge := newEdge_loading hj hid
  have hwith : (loading ρ e.nodes before).editor.withEdge (ρ m.id, o.renumber ρ)
      (ρ n.id, p.renumber ρ) = (loading ρ e.nodes (before ++ [x])).editor := by
    rw [withEdge, hedge, marked_loading h hx]
    simp only [loading, List.map_append, List.length_append, List.length_singleton, Nat.add_assoc]
    rfl
  obtain ⟨hconnect, -⟩ := (linkable_loading h hc hsplit hid hm ho hn hp hj).connect
    (ids_nodup_loading h hc.toWellFormed before)
    (port_loading h hc.toWellFormed hcat hm ho before)
    (port_loading h hc.toWellFormed hcat hn hp before)
  have hstart : (loading ρ e.nodes before).node (key m.id) = .ok (ρ m.id) := by
    rw [Description.Loading.node, lookup_loading hm]
  have hstop : (loading ρ e.nodes before).node (key n.id) = .ok (ρ n.id) := by
    rw [Description.Loading.node, lookup_loading hn]
  have hlink : (loading ρ e.nodes before).connect (describeEdge x) =
      .ok (x.renumber ρ, (loading ρ e.nodes (before ++ [x])).editor) := by
    unfold Description.Loading.connect describeEdge
    simp only [hj.start, hj.stop, hstart, hstop]
    refine hconnect.trans ?_
    rw [← hwith, ← hedge]
    rfl
  rw [Description.Loading.addLink, hlink]
  rfl

end

/-! ## All of it -/

section

variable (hc : e.Consistent) (hcat : e.Catalogued)
  (hρ : e.ids.map ρ = List.range e.ids.length)

include hc hcat hρ

theorem load_nodes :
    (e.nodes.map describeNode).foldlM Description.Loading.addNode {} =
      .ok (loading ρ e.nodes []) := by
  have hprefix : ∀ nodes, nodes <+: e.nodes →
      (nodes.map describeNode).foldlM Description.Loading.addNode {} =
        .ok (loading ρ nodes []) := by
    intro nodes
    induction nodes using List.reverseRecOn with
    | nil => exact fun _ => rfl
    | append_singleton nodes n ih =>
      rintro ⟨rest, hsplit⟩
      have hn : n ∈ e.nodes := by simp [← hsplit]
      have hsplit : e.nodes = nodes ++ n :: rest := by simp [← hsplit]
      have hparts : e.ids = nodes.flatMap Node.ids ++ n.ids ++
          (rest.flatMap Node.ids ++ e.edges.map (·.id)) := by
        simp [ids, hsplit]
      have hids : n.ids.map ρ = List.range' (nodes.flatMap Node.ids).length n.ids.length :=
        map_eq_range' (hparts ▸ hρ)
      have hnew : ∀ m ∈ nodes, m.id ≠ n.id := fun m hm => by
        have hascending := hc.ascending
        rw [hsplit, List.pairwise_append] at hascending
        exact Nat.ne_of_lt (hascending.2.2 m hm n List.mem_cons_self)
      rw [List.map_append]
      exact Description.foldlM_concat_eq_ok_iff.mpr ⟨_, ih ⟨n :: rest, hsplit.symm⟩,
        addNode_loading (hcat n hn) hids hnew (hc.toWellFormed.kind_ne_of_singleton hsplit)⟩
  exact hprefix e.nodes List.prefix_rfl

theorem load_links :
    (e.edges.map describeEdge).foldlM Description.Loading.addLink (loading ρ e.nodes []) =
      .ok (loading ρ e.nodes e.edges) := by
  have hprefix : ∀ edges, edges <+: e.edges →
      (edges.map describeEdge).foldlM Description.Loading.addLink (loading ρ e.nodes []) =
        .ok (loading ρ e.nodes edges) := by
    intro edges
    induction edges using List.reverseRecOn with
    | nil => exact fun _ => rfl
    | append_singleton edges x ih =>
      rintro ⟨rest, hsplit⟩
      have hsplit : e.edges = edges ++ x :: rest := by simp [← hsplit]
      have hparts : e.ids = e.nodes.flatMap Node.ids ++ edges.map (·.id) ++ [x.id] ++
          rest.map (·.id) := by
        simp [ids, hsplit]
      have hid : ρ x.id = (e.nodes.flatMap Node.ids).length + edges.length := by
        have hone : [x.id].map ρ = List.range' _ 1 := map_eq_range' (hparts ▸ hρ)
        rw [(List.cons.inj hone).1, List.length_append, List.length_map]
      rw [List.map_append]
      exact Description.foldlM_concat_eq_ok_iff.mpr ⟨_, ih ⟨x :: rest, hsplit.symm⟩,
        addLink_loading (hc.toWellFormed.renumbers hρ) hc hsplit hid hcat⟩
  exact hprefix e.edges List.prefix_rfl

end

/-- A graph of catalogue nodes can be loaded from its description, and is the same but for its
ids. -/
theorem Catalogued.load_describe (hcat : e.Catalogued) (hc : e.Consistent) :
    e.describe.load = .ok (e.renumber e.rank) := by
  have hrank := map_rank hc.ids_nodup
  have hloaded : (loading e.rank e.nodes e.edges).editor = e.renumber e.rank := by
    have hflagged : e.nodes.map (.flagged e.edges) = e.nodes :=
      (List.map_congr_left fun n hn => flagged_eq hc.toFlagged hn).trans (List.map_id _)
    unfold loading renumber ids
    rw [hflagged, List.length_append, List.length_map]
  unfold Description.load describe
  simp only [load_nodes hc hcat hrank, bind, Except.bind, load_links hc hcat hrank, hloaded]
  rfl

end Editor

end FrameGraph
