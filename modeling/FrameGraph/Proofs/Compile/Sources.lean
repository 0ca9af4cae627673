import FrameGraph.Proofs.Compile.Allocation
import FrameGraph.Proofs.Editor.Flags
import FrameGraph.Proofs.Order.Forward
import FrameGraph.Proofs.Packing.Logicals
import FrameGraph.Proofs.Reachability

/-!
# Where the data of a port comes from

An output port is the source of its own data; an input reads the port at which the edge that feeds
it starts (`Editor.source?`). In a graph made by an editor, the uses of logical resources say the
same: a resource is used at a port exactly if it is the source of that port
(`Editor.source?_of_use`, `Editor.exists_use`). Uses name ports, so this holds for nodes whose
ports have distinct names.
-/

namespace FrameGraph

/-- Whether an edge feeds a port from one of some nodes. -/
def Edge.feeds (nodes : List NodeId) (n : Node) (p : Port) (edge : Edge) : Bool :=
  edge.stop.isAt n.id p.id && nodes.contains edge.start.node

theorem Edge.feeds_iff {nodes : List NodeId} {n : Node} {p : Port} {edge : Edge} :
    edge.feeds nodes n p = true ↔
      edge.stop.isAt n.id p.id = true ∧ edge.start.node ∈ nodes := by
  rw [feeds, Bool.and_eq_true, List.contains_iff_mem]

namespace Editor

/-- The edge that feeds an input, among those that start at nodes of an order. -/
def feed? (e : Editor) (order : List NodeId) (n : Node) (p : Port) : Option Edge :=
  e.edges.find? (·.feeds order n p)

/-- The output port whose data a port writes or reads, given the nodes that run. -/
def source? (e : Editor) (order : List NodeId) (n : Node) (p : Port) : Option PortId :=
  match p.role with
  | .output => some p.id
  | .input => (e.feed? order n p).map (·.start.port)
  | .unknown => none

/-- Nodes of a graph in an order in which every edge between two of them runs forward. -/
structure Orders (e : Editor) (order : List Node) : Prop where
  mem : ∀ n ∈ order, n ∈ e.nodes
  nodup : (order.map (·.id)).Nodup
  forward : ∀ before n after, order = before ++ n :: after → ∀ m ∈ order, ∀ edge ∈ e.edges,
    edge.start.node = m.id → edge.stop.node = n.id → m ∈ before

variable {e : Editor} {order : List Node} {m n : Node} {o p : Port} {edge : Edge}

theorem source?_output (ho : o.role = .output) (ids : List NodeId) :
    e.source? ids m o = some o.id := by
  rw [source?, ho]

theorem Consistent.orders (h : e.Consistent) {strategy : Strategy} {s : Schedule}
    (hs : Schedule.of strategy e.nodes e.edges = .ok s) : e.Orders s.order := by
  obtain ⟨kept, hkept, horder, -⟩ := Schedule.of_ok hs
  have hsub : kept.Sublist e.nodes := by
    obtain ⟨_, -, rfl⟩ := reachable_ok hkept
    exact List.filter_sublist
  have hids : (kept.map (·.id)).Nodup := (hsub.map _).nodup h.nodes_nodup
  have hperm := inOrder_perm horder
  exact ⟨fun n hn => hsub.subset (hperm.subset hn), (hperm.map _).nodup_iff.mpr hids,
    fun _ _ _ hsplit _ hm _ he => mem_before_of_inOrder hids horder hsplit hm he⟩

theorem Orders.exists_mem (h : e.Orders order) (hc : e.Consistent) (hm : m ∈ e.nodes)
    (hid : m.id ∈ order.map (·.id)) : m ∈ order := by
  obtain ⟨k, hk, heq⟩ := List.mem_map.mp hid
  exact hc.node_eq (h.mem k hk) hm heq ▸ hk

/-- An edge is known by the ports that it joins. -/
theorem Consistent.joins_of_isAt (h : e.Consistent) (he : edge ∈ e.edges) (hm : m ∈ e.nodes)
    (ho : o ∈ m.ports) (hn : n ∈ e.nodes) (hp : p ∈ n.ports)
    (hstart : edge.start.isAt m.id o.id = true) (hstop : edge.stop.isAt n.id p.id = true) :
    edge.Joins m o n p := by
  obtain ⟨m', hm', o', ho', n', hn', p', hp', hj⟩ := h.joins edge he
  obtain ⟨-, ho'o⟩ := Endpoint.isAt_iff.mp hstart
  obtain ⟨-, hp'p⟩ := Endpoint.isAt_iff.mp hstop
  rw [hj.start] at ho'o
  rw [hj.stop] at hp'p
  obtain ⟨rfl, rfl⟩ := h.port_eq hm' ho' hm ho ho'o
  obtain ⟨rfl, rfl⟩ := h.port_eq hn' hp' hn hp hp'p
  exact hj

theorem feed?_eq_some_iff (h : e.Consistent) {ids : List NodeId} :
    e.feed? ids n p = some edge ↔
      edge ∈ e.edges ∧ edge.stop.isAt n.id p.id = true ∧ edge.start.node ∈ ids := by
  constructor
  · intro hfeed
    have hfound := List.find?_some (p := Edge.feeds ids n p) hfeed
    exact ⟨List.mem_of_find?_eq_some hfeed, Edge.feeds_iff.mp hfound⟩
  · rintro ⟨he, hfeeds⟩
    obtain ⟨other, hfeed, hmem, hfound⟩ := exists_find? he (Edge.feeds_iff.mpr hfeeds)
    -- No two edges end at one port.
    obtain ⟨hnode, hport⟩ := Endpoint.isAt_iff.mp (Edge.feeds_iff.mp hfound).1
    obtain ⟨hnode', hport'⟩ := Endpoint.isAt_iff.mp hfeeds.1
    have heq := h.single other hmem edge he (hnode.trans hnode'.symm) (hport.trans hport'.symm)
    exact heq ▸ hfeed

/-- The end of an edge from a node that runs has the start of the edge as its source. -/
theorem source?_of_joins (h : e.Consistent) (he : edge ∈ e.edges) (hj : edge.Joins m o n p)
    {ids : List NodeId} (hm : m.id ∈ ids) : e.source? ids n p = some o.id := by
  have hstop : edge.stop.isAt n.id p.id = true := by simp [hj.stop]
  have hstart : edge.start.node ∈ ids := by rwa [hj.start]
  rw [source?, hj.input, (feed?_eq_some_iff h).mpr ⟨he, hstop, hstart⟩]
  simp only [Option.map_some, hj.start]

/-! ## The uses of logical resources -/

open Logical

variable {x : Logical} {u : UsagePoint}

/-- A resource that is used by a node is the source of a port of that name, and has its payload. -/
theorem exists_port_of_use (hc : e.Consistent) (h : e.Orders order) (hn : n ∈ order)
    (hx : x ∈ all order e.edges) (hu : u ∈ x.points) (hnode : u.node = n.id) :
    ∃ q ∈ n.ports, q.name = u.portName ∧ e.source? (order.map (·.id)) n q = some x.port ∧
      x.payload = q.payload := by
  obtain ⟨i, m, o, hm, ho, rfl⟩ := mem_all.mp hx
  have hmo := List.mem_of_getElem? hm
  obtain ⟨ho, hrole⟩ := List.mem_filter.mp ho
  rcases mem_points.mp hu with rfl | ⟨edge, he, hstart, hne, c, hcons, rfl⟩
  · -- The use is the origin, so the port is the output itself.
    obtain rfl : m = n := hc.node_eq (h.mem m hmo) (h.mem n hn) hnode
    exact ⟨o, ho, rfl, source?_output (beq_iff_eq.mp hrole) _, rfl⟩
  · -- The use is the end of an edge from the output, so that edge feeds the port.
    obtain ⟨k, -, hkid, hcnode, -, hcname⟩ := consumer?_eq_some hcons
    obtain ⟨m', hm', o', ho', n', hn', p', hp', hj⟩ := hc.joins edge he
    have hstop : n'.id = n.id := by
      rw [hj.stop] at hkid
      exact hkid.symm.trans (hcnode.symm.trans hnode)
    obtain rfl := hc.node_eq hn' (h.mem n hn) hstop
    have hend : edge.stop.isAt n'.id p'.id = true := by simp [hj.stop]
    have hj' := hc.joins_of_isAt he (h.mem m hmo) ho hn' hp' hstart hend
    refine ⟨p', hp', ?_, source?_of_joins hc he hj' (List.mem_map_of_mem hmo),
      hj'.start_payload.trans hj'.stop_payload.symm⟩
    rw [hj.stop] at hcname
    exact hcname.symm

/-- A resource that is used at a port of a node is the source of that port, and has its payload. -/
theorem source?_of_use (hc : e.Consistent) (h : e.Orders order) (hn : n ∈ order)
    (hp : p ∈ n.ports) (hnames : (n.ports.map (·.name)).Nodup) (hx : x ∈ all order e.edges)
    (hu : u ∈ x.points) (hnode : u.node = n.id) (hname : u.portName = p.name) :
    e.source? (order.map (·.id)) n p = some x.port ∧ x.payload = p.payload := by
  obtain ⟨q, hq, hqname, hused⟩ := exists_port_of_use hc h hn hx hu hnode
  obtain rfl : q = p := List.inj_on_of_nodup_map hnames hq hp (hqname.trans hname)
  exact hused

/-- The source of a port is a logical resource of the port's payload that is used there. -/
theorem exists_use (hc : e.Consistent) (h : e.Orders order) (hn : n ∈ order) (hp : p ∈ n.ports)
    {port : PortId} (hsource : e.source? (order.map (·.id)) n p = some port) :
    ∃ x ∈ all order e.edges, x.port = port ∧
      ∃ u ∈ x.points, u.node = n.id ∧ u.portName = p.name := by
  unfold source? at hsource
  split at hsource
  · next hrole =>
    cases hsource
    obtain ⟨i, hi⟩ := List.mem_iff_getElem?.mp hn
    have hout : p ∈ n.outputs := List.mem_filter.mpr ⟨hp, beq_iff_eq.mpr hrole⟩
    exact ⟨_, mem_all.mpr ⟨i, n, p, hi, hout, rfl⟩, rfl, _, List.mem_cons_self, rfl, rfl⟩
  · obtain ⟨edge, hfeed, rfl⟩ := Option.map_eq_some_iff.mp hsource
    obtain ⟨he, hstop, hstart⟩ := (feed?_eq_some_iff hc).mp hfeed
    obtain ⟨m, hm, o, ho, n', hn', p', hp', hj⟩ := hc.joins edge he
    obtain ⟨hsnode, hsport⟩ := Endpoint.isAt_iff.mp hstop
    rw [hj.stop] at hsport
    obtain ⟨rfl, rfl⟩ := hc.port_eq hn' hp' (h.mem n hn) hp hsport
    rw [hj.start] at hstart
    have hmo := h.exists_mem hc hm hstart
    obtain ⟨i, hi⟩ := List.mem_iff_getElem?.mp hmo
    obtain ⟨j, hjn⟩ := List.mem_iff_getElem?.mp hn
    have hout : o ∈ m.outputs := List.mem_filter.mpr ⟨ho, beq_iff_eq.mpr hj.output⟩
    have hposition : position? order edge.stop.node = some j := by
      rw [hj.stop]
      exact position?_of_getElem? h.nodup hjn
    obtain ⟨c, hcons, -⟩ := exists_consumer? hposition
    obtain ⟨k, -, hkid, hcnode, -, hcname⟩ := consumer?_eq_some hcons
    refine ⟨_, mem_all.mpr ⟨i, m, o, hi, hout, rfl⟩, by rw [hj.start]; rfl, _,
      mem_points.mpr (.inr ⟨edge, he, by simp [hj.start], ?_, c, hcons, rfl⟩), ?_, ?_⟩
    · rw [hj.stop]
      exact hj.ne.symm
    · exact hcnode.trans (hkid.trans (by rw [hj.stop]))
    · exact hcname.trans (by rw [hj.stop])
  · cases hsource

end Editor

end FrameGraph
