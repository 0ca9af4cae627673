import FrameGraph.Proofs.Compile.Outcome
import FrameGraph.Proofs.Compile.Reference
import FrameGraph.Proofs.Packing.Logicals

/-!
# What is left out has no say

A compile leaves out the nodes that the scene provider does not feed, but every later stage is
still given all edges. Each of them looks at the edges between its own nodes only: the order at
those between the nodes it sorts (`inOrder_filter`), packing at those from an output of one of its
nodes to another (`Logical.all_filter`). Where all edges join nodes of the snapshot, a compile
therefore comes to the same as one of the nodes that are kept and the edges between them
(`compile_kept`).
-/

namespace FrameGraph

open Relation Reachability

/-- Whether both ends of an edge are at listed nodes. -/
def Edge.isBetween (nodes : List Node) (e : Edge) : Bool :=
  (nodes.map (·.id)).contains e.start.node && (nodes.map (·.id)).contains e.stop.node

theorem Edge.isBetween_iff {nodes : List Node} {e : Edge} :
    e.isBetween nodes = true ↔
      e.start.node ∈ nodes.map (·.id) ∧ e.stop.node ∈ nodes.map (·.id) := by
  rw [isBetween, Bool.and_eq_true, List.contains_iff_mem, List.contains_iff_mem]

variable {nodes kept : List Node} {edges : List Edge} {keep : Edge → Bool}

/-! ## Edges that a stage does not look at -/

/-- Where listed nodes are reached from listed nodes only, the edges between them are enough to
reach them. -/
theorem Reachability.reached_between {start a : NodeId}
    (h : ∀ e ∈ edges, ReflTransGen (Arc edges) start e.start.node →
      e.stop.node ∈ nodes.map (·.id) → e.start.node ∈ nodes.map (·.id))
    (ha : a ∈ nodes.map (·.id)) :
    ReflTransGen (Arc (edges.filter (·.isBetween nodes))) start a ↔
      ReflTransGen (Arc edges) start a := by
  constructor
  · intro hreach
    exact hreach.lift id fun b c ⟨e, he, harc⟩ => ⟨e, List.mem_of_mem_filter he, harc⟩
  · intro hreach
    induction hreach with
    | refl => exact .refl
    | tail hab harc ih =>
      obtain ⟨e, he, rfl, rfl⟩ := harc
      have hstart := h e he hab ha
      have hkeep : e ∈ edges.filter (·.isBetween nodes) :=
        List.mem_filter.mpr ⟨he, Edge.isBetween_iff.mpr ⟨hstart, ha⟩⟩
      exact (ih hstart).tail ⟨e, hkeep, rfl, rfl⟩

/-- The scene provider feeds nodes through nodes only: an id of no node that it reaches leads to
no node. -/
def FeedsThroughNodes (nodes : List Node) (edges : List Edge) : Prop :=
  ∀ start, root nodes = .ok start → ∀ e ∈ edges, ReflTransGen (Arc edges) start e.start.node →
    e.stop.node ∈ nodes.map (·.id) → e.start.node ∈ nodes.map (·.id)

theorem reachable_between (h : FeedsThroughNodes nodes edges) :
    reachable nodes (edges.filter (·.isBetween nodes)) = reachable nodes edges := by
  unfold reachable
  cases hroot : root nodes with
  | error err => rfl
  | ok start =>
    have hvisited : ∀ n ∈ nodes,
        (visited (edges.filter (·.isBetween nodes)) start).contains n.id =
          (visited edges start).contains n.id := by
      intro n hn
      rw [Bool.eq_iff_iff, List.contains_iff_mem, List.contains_iff_mem, mem_visited, mem_visited,
        reached_between (h start hroot) (List.mem_map_of_mem hn)]
    exact congrArg Except.ok (List.filter_congr hvisited)

theorem Order.links_filter (h : ∀ e ∈ edges, e.isBetween nodes = true → keep e = true) :
    links nodes (edges.filter keep) = links nodes edges := by
  unfold links
  rw [List.filterMap_filter]
  refine List.filterMap_congr fun e he => ?_
  split
  · rfl
  · next hkeep =>
    split
    · next i j hi hj =>
      exact absurd (h e he (Edge.isBetween_iff.mpr ⟨mem_of_position? hi, mem_of_position? hj⟩))
        hkeep
    · rfl

theorem inOrder_filter (h : ∀ e ∈ edges, e.isBetween nodes = true → keep e = true) :
    inOrder nodes (edges.filter keep) = inOrder nodes edges := by
  unfold inOrder Order.result
  rw [Order.links_filter h]

theorem Logical.all_filter (h : ∀ e ∈ edges, ∀ n ∈ nodes, ∀ p ∈ n.outputs,
    e.start.isAt n.id p.id = true → e.stop.node ∈ nodes.map (·.id) → keep e = true) :
    all nodes (edges.filter keep) = all nodes edges := by
  unfold all
  refine List.map_congr_left fun ⟨i, n, p⟩ hmem => ?_
  obtain ⟨hn, hp⟩ := mem_outputs.mp hmem
  have hconsumers : (outgoing (edges.filter keep) n.id p.id).filterMap (consumer? nodes) =
      (outgoing edges n.id p.id).filterMap (consumer? nodes) := by
    unfold outgoing
    rw [List.filter_filter, List.filterMap_filter, List.filterMap_filter]
    refine List.filterMap_congr fun e he => ?_
    cases hkeep : keep e
    · -- An edge that is not kept makes no consumer.
      rw [Bool.and_false, if_neg Bool.false_ne_true]
      split
      · next hstart =>
        cases hc : consumer? nodes e with
        | none => rfl
        | some c =>
          obtain ⟨-, -, -, -, hposition, -⟩ := consumer?_eq_some hc
          have hstart := (Bool.and_eq_true_iff.mp hstart).1
          have htrue := h e he n (List.mem_of_getElem? hn) p hp hstart (mem_of_position? hposition)
          exact absurd (hkeep.symm.trans htrue) Bool.false_ne_true
      · rfl
    · rw [Bool.and_true]
  simp only [ofPort, hconsumers]

theorem Logical.ignored_eq_nil (h : ∀ e ∈ edges, ∀ n ∈ nodes,
    e.start.node = n.id → e.stop.node ∈ nodes.map (·.id)) : ignored nodes edges = [] := by
  unfold ignored
  refine List.flatMap_eq_nil_iff.mpr fun ⟨i, n, p⟩ hmem => List.filter_eq_nil_iff.mpr ?_
  intro e he hnone
  obtain ⟨he, hstart⟩ := List.mem_filter.mp he
  have hstart := Endpoint.isAt_iff.mp (Bool.and_eq_true_iff.mp hstart).1
  have hn := List.mem_of_getElem? (mem_outputs.mp hmem).1
  exact lastIndex?_eq_none.mp (Option.isNone_iff_eq_none.mp hnone) (h e he n hn hstart.1)

/-! ## What is kept -/

section

variable (hclosed : ∀ e ∈ edges, e.isBetween nodes = true)
  (hkept : reachable nodes edges = .ok kept)

include hkept

/-- A node is kept or left out by its id. -/
theorem mem_kept_iff {n : Node} (hn : n ∈ nodes) : n ∈ kept ↔ n.id ∈ kept.map (·.id) := by
  obtain ⟨root, -, rfl⟩ := reachable_ok hkept
  refine ⟨fun h => List.mem_map_of_mem h, fun hid => ?_⟩
  obtain ⟨m, hm, hmn⟩ := List.mem_map.mp hid
  have hvisited := (List.mem_filter.mp hm).2
  rw [hmn] at hvisited
  exact List.mem_filter.mpr ⟨hn, hvisited⟩

theorem root_kept : root kept = root nodes := by
  obtain ⟨n, hn, rfl⟩ := reachable_ok hkept
  have hvisited : (visited edges n.id).contains n.id = true :=
    List.contains_iff_mem.mpr (mem_visited.mpr .refl)
  have hroots : (nodes.filter fun m => (visited edges n.id).contains m.id).filter
      (·.kind == .sceneProvider) = nodes.filter (·.kind == .sceneProvider) := by
    rw [List.filter_comm, hn, List.filter_singleton, hvisited]
    rfl
  unfold root
  rw [hroots]

include hclosed

theorem stop_mem_kept {e : Edge} (he : e ∈ edges) (hstart : e.start.node ∈ kept.map (·.id)) :
    e.stop.node ∈ kept.map (·.id) := by
  obtain ⟨n, -, rfl⟩ := reachable_ok hkept
  obtain ⟨m, hm, hid⟩ := List.mem_map.mp hstart
  obtain ⟨k, hk, hkid⟩ := List.mem_map.mp (Edge.isBetween_iff.mp (hclosed e he)).2
  have hreach := mem_visited.mp (List.contains_iff_mem.mp (List.mem_filter.mp hm).2)
  have hnext : k.id ∈ visited edges n.id :=
    mem_visited.mpr (hreach.tail ⟨e, he, hid.symm, hkid.symm⟩)
  exact List.mem_map.mpr ⟨k, List.mem_filter.mpr ⟨hk, List.contains_iff_mem.mpr hnext⟩, hkid⟩

theorem reachable_kept : reachable kept (edges.filter (·.isBetween kept)) = .ok kept := by
  have hroot := root_kept hkept
  obtain ⟨n, hn, hfilter⟩ := reachable_ok hkept
  have hstart : root nodes = .ok n.id := by
    unfold root
    rw [hn]
  have hall : reachable kept edges = .ok kept := by
    unfold reachable
    rw [hroot, hstart]
    refine congrArg Except.ok (List.filter_eq_self.mpr fun m hm => ?_)
    rw [hfilter] at hm
    exact (List.mem_filter.mp hm).2
  rw [reachable_between, hall]
  intro start hroot' e he hreach _
  cases hstart.symm.trans (hroot.symm.trans hroot')
  obtain ⟨m, hm, hid⟩ := List.mem_map.mp (Edge.isBetween_iff.mp (hclosed e he)).1
  have hvisited := List.contains_iff_mem.mpr (mem_visited.mpr hreach)
  exact List.mem_map.mpr ⟨m, hfilter ▸ List.mem_filter.mpr ⟨hm, hid ▸ hvisited⟩, hid⟩

/-- What is kept has the schedule of the whole snapshot. -/
theorem Schedule.of_kept (strategy : Strategy) :
    Schedule.of strategy kept (edges.filter (·.isBetween kept)) =
      Schedule.of strategy nodes edges := by
  have hagain := reachable_kept hclosed hkept
  have hsame : inOrder kept (edges.filter (·.isBetween kept)) = inOrder kept edges :=
    inOrder_filter fun _ _ => id
  cases horder : inOrder kept edges with
  | error err => rw [of_unordered hagain (hsame.trans horder), of_unordered hkept horder]
  | ok order =>
    have hids : ∀ id, id ∈ order.map (·.id) ↔ id ∈ kept.map (·.id) :=
      fun id => ((inOrder_perm horder).map _).mem_iff
    have hnext : ∀ e ∈ edges, ∀ n ∈ order, e.start.node = n.id →
        e.start.node ∈ kept.map (·.id) ∧ e.stop.node ∈ kept.map (·.id) := by
      intro e he n hn hstart
      have hstart : e.start.node ∈ kept.map (·.id) :=
        (hids _).mp (hstart ▸ List.mem_map_of_mem hn)
      exact ⟨hstart, stop_mem_kept hclosed hkept he hstart⟩
    have hall : Logical.all order (edges.filter (·.isBetween kept)) = Logical.all order edges :=
      Logical.all_filter fun e he n hn p _ hstart _ =>
        Edge.isBetween_iff.mpr (hnext e he n hn (Endpoint.isAt_iff.mp hstart).1)
    have hnone : Logical.ignored order edges = [] :=
      Logical.ignored_eq_nil fun e he n hn hstart => (hids _).mpr (hnext e he n hn hstart).2
    have hnone' : Logical.ignored order (edges.filter (·.isBetween kept)) = [] :=
      Logical.ignored_eq_nil fun e he n hn hstart =>
        (hids _).mpr (hnext e (List.mem_of_mem_filter he) n hn hstart).2
    rw [of_inOrder hagain (hsame.trans horder), of_inOrder hkept horder, Packing.pack,
      Packing.pack, hall, hnone, hnone']

end

/-! ## Compiles -/

/-- Whether a bucket has to do with a node: as the producer or a consumer of its origin, or as a
user. -/
def Bucket.Mentions (b : Bucket) (id : NodeId) : Prop :=
  b.origin.node = id ∨ (∃ c ∈ b.origin.consumers, c.node = id) ∨ ∃ u ∈ b.points, u.node = id

/-- Buckets have to do with the packed nodes only. -/
theorem Packing.mem_of_mentions {strategy : Strategy} {b : Bucket} {id : NodeId}
    (hb : b ∈ (pack strategy nodes edges).buckets) (h : b.Mentions id) :
    id ∈ nodes.map (·.id) := by
  have hholds := holds_placeAll b hb
  have huser : ∀ u ∈ b.points, u.node ∈ nodes.map (·.id) := by
    intro u hu
    obtain ⟨x, hx, hux⟩ := hholds.mem_points.mp hu
    obtain ⟨n, hn, hid⟩ := Logical.getElem?_position ((residents_sublist ..).subset hx) hux
    exact hid ▸ List.mem_map_of_mem (List.mem_of_getElem? hn)
  have horigin : ∀ u ∈ b.origin.points, u ∈ b.points := by
    obtain ⟨rest, hrest, -⟩ := hholds.first
    exact fun u hu => hholds.mem_points.mpr ⟨b.origin, hrest ▸ List.mem_cons_self, hu⟩
  rcases h with rfl | ⟨c, hc, rfl⟩ | ⟨u, hu, rfl⟩
  · exact huser _ (horigin _ List.mem_cons_self)
  · exact huser _ (horigin _ (List.mem_cons_of_mem _ (List.mem_map_of_mem hc)))
  · exact huser u hu

section

variable {δ : Type} [Allocator δ] {w : Workshop δ} {verbose : Bool} {nodes' : List Node}
  {edges' : List Edge}

/-- A compile without what it tells about itself on the way. -/
def Compiled.silent (c : Compiled δ) : Compiled δ :=
  { c with result := { c.result with lines := [] }, notes := [] }

theorem compile_silent
    (h : Schedule.of w.settings.strategy nodes' edges' =
      Schedule.of w.settings.strategy nodes edges) :
    (compile w verbose nodes' edges').silent = (compile w verbose nodes edges).silent := by
  unfold compile
  rw [h]
  cases Schedule.of w.settings.strategy nodes edges with
  | error err => rfl
  | ok s =>
    dsimp only
    cases (Allocation.of ⟨w.settings, w.scene, w.clock.stamp⟩ w.device s.packing.buckets).resources
    · rfl
    · rfl

/-- The kept nodes and the edges between them compile to what the whole snapshot compiles to: the
result with its order, packing and plan, the device and the files. What is left out is in no
bucket. -/
theorem compile_kept (hclosed : ∀ e ∈ edges, e.isBetween nodes = true)
    (hkept : reachable nodes edges = .ok kept) :
    let whole := compile w verbose nodes edges
    (compile w verbose kept (edges.filter (·.isBetween kept))).silent = whole.silent ∧
      ∀ packing, whole.result.packing = some packing → ∀ b ∈ packing.buckets, ∀ n ∈ nodes,
        n ∉ kept → ¬ b.Mentions n.id := by
  intro whole
  refine ⟨compile_silent (Schedule.of_kept hclosed hkept _), ?_⟩
  intro packing hpacking b hb n hn hdropped hmentions
  cases horder : inOrder kept edges with
  | error err =>
    have hfails : whole.result.Fails err none :=
      compile_unscheduled (Schedule.of_unordered hkept horder)
    cases hpacking.symm.trans hfails.packing
  | ok order =>
    have hpack : whole.result.packing = some (.pack w.settings.strategy order edges) :=
      (compile_scheduled (Schedule.of_inOrder hkept horder)).1
    cases hpacking.symm.trans hpack
    obtain ⟨m, hm, hid⟩ := List.mem_map.mp (Packing.mem_of_mentions hb hmentions)
    have hid : n.id ∈ kept.map (·.id) :=
      hid ▸ List.mem_map_of_mem ((inOrder_perm horder).subset hm)
    exact hdropped ((mem_kept_iff hkept hn).mpr hid)

end

/-- Two blurs that feed each other and a lighting pass, beside a chain of blurs. The scene provider
feeds the lighting pass but neither of the two. -/
def Editor.strayRing : Editor :=
  [Edit.addKind .gaussianBlur, .addKind .gaussianBlur, .addKind .lighting,
    .connect 5 "Normal" 33 "Normal", .connect 27 "Blurred Image" 30 "Image",
    .connect 30 "Blurred Image" 27 "Image", .connect 27 "Blurred Image" 33 "AO Image"].foldl apply
      blurChain

theorem strayRing_culled :
    let w : Workshop := { device := {}, clock := ⟨"", "", ""⟩ }
    let e := Editor.strayRing
    ∃ kept, reachable e.nodes e.edges = .ok kept ∧ kept.length + 2 = e.nodes.length ∧
      (compile w false e.nodes e.edges).result.success = true ∧
      (compile w false kept (e.edges.filter (·.isBetween kept))).silent =
        (compile w false e.nodes e.edges).silent := by
  intro w e
  have hclosed : ∀ edge ∈ e.edges, edge.isBetween e.nodes = true := by decide +kernel
  obtain ⟨kept, hkept, hlength⟩ :
      ∃ kept, reachable e.nodes e.edges = .ok kept ∧ kept.length + 2 = e.nodes.length :=
    ⟨_, rfl, by decide +kernel⟩
  exact ⟨kept, hkept, hlength, by decide +kernel, (compile_kept hclosed hkept).1⟩

end FrameGraph
