import FrameGraph.Proofs.Compile.Sources
import FrameGraph.Proofs.Compile.Wiring
import FrameGraph.Proofs.Packing.Residents

/-!
# The frame of a graph

What a plan records can be read off the graph (`Editor.frame`): the passes in execution order, and
for each port the bucket that holds its source. The plan itself gets there by names of ports, usage
points that were merged and sorted, and bindings of which a later one replaces an earlier one; that
none is lost or replaced by another rests on each input having one edge, each node having its own
port names, and each resource having one bucket (`Editor.bound?_bindings`).
-/

namespace FrameGraph

/-- The bucket that holds a logical resource. -/
def Packing.holder? (p : Packing) (port : PortId) : Option BucketId :=
  (p.buckets.find? (·.members.contains port)).map (·.id)

namespace Editor

/-- The bucket that a port uses. Nothing stands behind data of unknown payload. -/
def resource? (e : Editor) (order : List NodeId) (packing : Packing) (n : Node) (p : Port) :
    Option BucketId :=
  if p.payload = .unknown then none else (e.source? order n p).bind packing.holder?

/-- The commands of one frame, read off the graph. -/
def frame (e : Editor) (order : List NodeId) (packing : Packing) (frame : Nat) : Frame :=
  ((order.filterMap e.node?).filter (·.isPass)).flatMap fun n =>
    n.block frame (e.resource? order packing n)

end Editor

namespace Packing

variable {strategy : Strategy} {xs : List Logical} {x : Logical} {b c : Bucket}

theorem mem_members (hb : b ∈ placeAll strategy xs) {port : PortId} :
    port ∈ b.members ↔ ∃ x ∈ residents strategy xs b.id, x.port = port := by
  rw [(holds_placeAll b hb).members, List.mem_map]

/-- No other bucket lists the port of a resident. -/
theorem eq_of_mem_members (hports : (xs.map (·.port)).Nodup) (hb : b ∈ placeAll strategy xs)
    (hc : c ∈ placeAll strategy xs) (hx : x ∈ residents strategy xs b.id)
    (hmem : x.port ∈ c.members) : c = b := by
  obtain ⟨y, hy, hport⟩ := (mem_members hc).mp hmem
  exact List.inj_on_of_nodup_map (ids_nodup strategy xs) hc hb (resident_unique hports hy hx hport)

theorem holder?_eq_some {p : Packing} (hp : p.buckets = placeAll strategy xs)
    (hports : (xs.map (·.port)).Nodup) (hb : b ∈ placeAll strategy xs)
    (hx : x ∈ residents strategy xs b.id) : p.holder? x.port = some b.id := by
  have hmem : x.port ∈ b.members := (mem_members hb).mpr ⟨x, hx, rfl⟩
  obtain ⟨c, hfind, hc, hfound⟩ := exists_find? (p := (·.members.contains x.port)) hb
    (List.contains_iff_mem.mpr hmem)
  rw [holder?, hp, hfind, eq_of_mem_members hports hb hc hx (List.contains_iff_mem.mp hfound)]
  rfl

end Packing

namespace Wiring

theorem mem_bindings {buckets : List Bucket} {t : ResourceTable} {b : Binding} :
    b ∈ bindings buckets t ↔
      ∃ c ∈ buckets, t.has c.id = true ∧ ∃ u ∈ c.points, ⟨c.id, u⟩ = b := by
  simp only [bindings, List.mem_flatMap, List.mem_filter, List.mem_map, and_assoc]

end Wiring

namespace Editor

open Packing Wiring

variable {e : Editor} {order : List Node} {n : Node} {p : Port} {strategy : Strategy}

theorem Orders.ports_nodup (h : e.Orders order) (hc : e.Consistent) :
    ((Logical.all order e.edges).map (·.port)).Nodup := by
  rw [Logical.ports_all, List.nodup_flatMap]
  refine ⟨fun n hn => ?_, ?_⟩
  · have hports := (List.nodup_flatMap.mp hc.ports_nodup).1 n (h.mem n hn)
    exact (List.filter_sublist.map _).nodup hports
  · refine h.nodup.of_map.imp_of_mem fun {m n} hm hn hne port ho hp => ?_
    obtain ⟨o, hom, hoid⟩ := List.mem_map.mp ho
    obtain ⟨p, hpn, hpid⟩ := List.mem_map.mp hp
    have hom := List.mem_of_mem_filter hom
    have hpn := List.mem_of_mem_filter hpn
    exact hne (hc.port_eq (h.mem m hm) hom (h.mem n hn) hpn (hoid.trans hpid.symm)).1

section

variable (hc : e.Consistent) (h : e.Orders order) (hn : n ∈ order) (hp : p ∈ n.ports)
  (hnames : (n.ports.map (·.name)).Nodup)

include hc h hn hp hnames

/-- The source of a port is resident in one bucket, which has the payload of the port. -/
theorem exists_home {port : PortId} (hsource : e.source? (order.map (·.id)) n p = some port)
    (strategy : Strategy) :
    ∃ b ∈ (pack strategy order e.edges).buckets,
      ∃ x ∈ residents strategy (Logical.all order e.edges) b.id, x.port = port ∧
        b.payload = p.payload ∧ ∃ u ∈ b.points, u.node = n.id ∧ u.portName = p.name := by
  obtain ⟨x, hx, hport, u, hu, hnode, hname⟩ := exists_use hc h hn hp hsource
  obtain ⟨b, hb, hxb⟩ : ∃ b ∈ placeAll strategy (Logical.all order e.edges),
      x ∈ residents strategy (Logical.all order e.edges) b.id := exists_resident hx
  have hholds := holds_placeAll b hb
  obtain ⟨-, hpayload⟩ := source?_of_use hc h hn hp hnames hx hu hnode hname
  exact ⟨b, hb, x, hxb, hport, (hholds.payload_eq hxb).trans hpayload, u,
    hholds.mem_points.mpr ⟨x, hxb, hu⟩, hnode, hname⟩

variable {t : ResourceTable}
  (ht : ∀ b ∈ (pack strategy order e.edges).buckets, t.has b.id = true ↔ b.payload ≠ .unknown)

include ht

/-- Whatever is bound at a port is a bucket of known payload that holds the source of the port. -/
theorem source?_of_binding {binding : Binding}
    (hmem : binding ∈ bindings (pack strategy order e.edges).buckets t)
    (hfor : binding.isFor n.id p.name = true) :
    p.payload ≠ .unknown ∧
      ∃ x ∈ residents strategy (Logical.all order e.edges) binding.bucket,
        e.source? (order.map (·.id)) n p = some x.port := by
  obtain ⟨b, hb, hhas, u, hu, rfl⟩ := mem_bindings.mp hmem
  obtain ⟨hnode, hname⟩ := Binding.isFor_iff.mp hfor
  have hholds := holds_placeAll b hb
  obtain ⟨x, hx, hux⟩ := hholds.mem_points.mp hu
  have hxall := (residents_sublist ..).subset hx
  obtain ⟨hsource, hpayload⟩ := source?_of_use hc h hn hp hnames hxall hux hnode hname
  refine ⟨?_, x, hx, hsource⟩
  rw [← hpayload, ← hholds.payload_eq hx]
  exact (ht b hb).mp hhas

/-- Wiring binds each port to the bucket of its source, and other ports to nothing. -/
theorem bound?_bindings :
    bound? (bindings (pack strategy order e.edges).buckets t) n.id p.name =
      e.resource? (order.map (·.id)) (pack strategy order e.edges) n p := by
  have hports := h.ports_nodup hc
  unfold resource?
  by_cases hunknown : p.payload = .unknown
  · rw [if_pos hunknown]
    exact bound?_eq_none fun binding hmem => Bool.eq_false_iff.mpr fun hfor =>
      (source?_of_binding hc h hn hp hnames ht hmem hfor).1 hunknown
  · rw [if_neg hunknown]
    cases hsource : e.source? (order.map (·.id)) n p with
    | none =>
      refine bound?_eq_none fun binding hmem => Bool.eq_false_iff.mpr fun hfor => ?_
      obtain ⟨-, x, -, hx⟩ := source?_of_binding hc h hn hp hnames ht hmem hfor
      rw [hsource] at hx
      cases hx
    | some port =>
      obtain ⟨b, hb, x, hx, rfl, hpayload, u, hu, hnode, hname⟩ :=
        exists_home hc h hn hp hnames hsource strategy
      rw [Option.bind_some, holder?_eq_some rfl hports hb hx]
      refine bound?_eq_some ⟨⟨b.id, u⟩, ?_, Binding.isFor_iff.mpr ⟨hnode, hname⟩⟩ ?_
      · exact mem_bindings.mpr ⟨b, hb, (ht b hb).mpr (hpayload ▸ hunknown), u, hu, rfl⟩
      · intro binding hmem hfor
        obtain ⟨-, y, hy, hsource'⟩ := source?_of_binding hc h hn hp hnames ht hmem hfor
        have hport : y.port = x.port := Option.some.inj (hsource'.symm.trans hsource)
        exact resident_unique hports hy hx hport

end

/-! ## Every compile -/

theorem Orders.filterMap_node? (h : e.Orders order) (hc : e.Consistent) :
    (order.map (·.id)).filterMap e.node? = order := by
  rw [List.filterMap_map]
  have hall : order.filterMap (e.node? ∘ fun n => n.id) = order.filterMap some :=
    List.filterMap_congr fun n hn => hc.node?_eq (h.mem n hn)
  rw [hall, List.filterMap_some]

section

variable {δ : Type} [Allocator δ] {w : Workshop δ} {verbose : Bool}

/-- The plan of an allocated packing records the blocks of the passes in order. -/
theorem Orders.run_assemble (h : e.Orders order) (hc : e.Consistent)
    (hfactory : w.factory = .standard) (hnames : ∀ n ∈ e.nodes, (n.ports.map (·.name)).Nodup)
    {a : Allotment} {d : δ} {t : ResourceTable}
    (ht : (Allocation.of a d (pack strategy order e.edges).buckets).resources = .ok t)
    (frame : Nat) :
    (Compile.assemble w ⟨order, pack strategy order e.edges⟩ t).run frame =
      (order.filter (·.isPass)).flatMap fun n =>
        n.block frame (e.resource? (order.map (·.id)) (pack strategy order e.edges) n) := by
  have hhas : ∀ b ∈ (pack strategy order e.edges).buckets,
      t.has b.id = true ↔ b.payload ≠ .unknown :=
    fun b hb => Allocation.has_iff ht (ids_nodup ..) hb
  simp only [Plan.run, Compile.assemble, hfactory, run_bindAll h.nodup]
  refine List.flatMap_congr fun n hn => ?_
  have hn := List.mem_of_mem_filter hn
  have hblock : ∀ p ∈ n.ports,
      bound? (bindings (pack strategy order e.edges).buckets t) n.id p.name =
        e.resource? (order.map (·.id)) (pack strategy order e.edges) n p :=
    fun p hp => bound?_bindings hc h hn hp (hnames n (h.mem n hn)) hhas
  unfold Node.block
  rw [List.filterMap_congr fun p hp => congrArg (Option.map p.use) (hblock p hp)]

/-- What a successful compile of a graph made by edits consists of. -/
theorem Consistent.compile_ok (hc : e.Consistent) (hfactory : w.factory = .standard)
    (hnames : ∀ n ∈ e.nodes, (n.ports.map (·.name)).Nodup)
    (h : (compile w verbose e.nodes e.edges).result.success = true) :
    ∃ order plan, Schedule.of w.settings.strategy e.nodes e.edges =
        .ok ⟨order, pack w.settings.strategy order e.edges⟩ ∧
      (compile w verbose e.nodes e.edges).result.plan = some plan ∧
      (compile w verbose e.nodes e.edges).result.packing =
        some (pack w.settings.strategy order e.edges) ∧
      (compile w verbose e.nodes e.edges).result.order = order.map (·.id) ∧
      ∀ frame, plan.run frame = (order.filter (·.isPass)).flatMap fun n =>
        n.block frame (e.resource? (order.map (·.id)) (pack w.settings.strategy order e.edges) n)
      := by
  obtain ⟨⟨order, packing⟩, t, hs, ht, hplan, hpacking, horder⟩ := FrameGraph.compile_ok h
  obtain ⟨_, -, -, hpack⟩ := Schedule.of_ok hs
  obtain rfl : packing = pack w.settings.strategy order e.edges := hpack
  exact ⟨order, _, hs, hplan, hpacking, horder,
    (hc.orders hs).run_assemble hc hfactory hnames ht⟩

/-- A successful compile of any graph made by edits, in which no node has two ports of one name,
has the order and the packing of the graph's schedule and records exactly the frame of the graph;
and the source of each port that runs is held by one bucket. -/
theorem Reachable.run_eq_frame (he : e.Reachable)
    (hnames : ∀ n ∈ e.nodes, (n.ports.map (·.name)).Nodup) (hfactory : w.factory = .standard)
    (h : (compile w verbose e.nodes e.edges).result.success = true) :
    let result := (compile w verbose e.nodes e.edges).result
    ∃ s plan, Schedule.of w.settings.strategy e.nodes e.edges = .ok s ∧
      result.plan = some plan ∧ result.packing = some s.packing ∧
      result.order = s.order.map (·.id) ∧
      (∀ frame, plan.run frame = e.frame result.order s.packing frame) ∧
      ∀ n ∈ result.order.filterMap e.node?, ∀ p ∈ n.ports, ∀ port,
        e.source? result.order n p = some port →
          ∃ b ∈ s.packing.buckets, port ∈ b.members ∧ s.packing.holder? port = some b.id ∧
            ∀ c ∈ s.packing.buckets, port ∈ c.members → c = b := by
  have hc := he.consistent
  obtain ⟨order, plan, hs, hplan, hpacking, horder, hrun⟩ := hc.compile_ok hfactory hnames h
  have ho : e.Orders order := hc.orders hs
  have hports := ho.ports_nodup hc
  simp only [horder, Editor.frame, ho.filterMap_node? hc]
  refine ⟨_, plan, hs, hplan, hpacking, rfl, hrun, fun n hn p hp port hsource => ?_⟩
  obtain ⟨b, hb, x, hx, rfl, -, -⟩ :=
    exists_home hc ho hn hp (hnames n (ho.mem n hn)) hsource w.settings.strategy
  exact ⟨b, hb, (mem_members hb).mpr ⟨x, hx, rfl⟩, holder?_eq_some rfl hports hb hx,
    fun c hcb hmem => eq_of_mem_members hports hb hcb hx hmem⟩

end

/-- A G-buffer, three blurs in a row, and the present node. The first and the last blur share an
image. -/
def blurChain : Editor :=
  [Edit.addKind .gaussianBlur, .addKind .gaussianBlur, .addKind .gaussianBlur,
    .connect 0 "Scene" 5 "Scene", .connect 5 "Position" 13 "Image",
    .connect 13 "Blurred Image" 16 "Image", .connect 16 "Blurred Image" 19 "Image",
    .connect 19 "Blurred Image" 11 "Final Image"].foldl apply seeded

theorem blurChain_reachable : blurChain.Reachable := Reachable.seeded.foldl _

theorem blurChain_run_eq_frame :
    let w : Workshop := { device := {}, clock := ⟨"", "", ""⟩ }
    let result := (compile w false blurChain.nodes blurChain.edges).result
    result.success = true ∧
      ∃ s plan, Schedule.of .optimized blurChain.nodes blurChain.edges = .ok s ∧
        result.plan = some plan ∧ result.order = s.order.map (·.id) ∧
        ∀ frame, plan.run frame = blurChain.frame result.order s.packing frame := by
  intro w result
  have hsuccess : result.success = true := by decide +kernel
  obtain ⟨s, plan, hs, hplan, -, horder, hrun, -⟩ :=
    Reachable.run_eq_frame blurChain_reachable (by decide) rfl hsuccess
  exact ⟨hsuccess, s, plan, hs, hplan, horder, hrun⟩

end Editor

end FrameGraph
