import FrameGraph.Proofs.Compile.Aliasing
import FrameGraph.Proofs.Compile.Strategies

/-!
# Reads past a node without a pass

A node without a pass keeps its place in the order, and its outputs are packed like those of any
other node, but nothing writes them. A pass that reads such an output is bound to its bucket all
the same. From the place of the skipped node on, the bucket is left alone; what a read finds there
was written before that place, by a pass with an output in the same bucket
(`Editor.Reachable.read_past_skipped`). Without sharing there is none, with it there may be.
-/

namespace FrameGraph

namespace Editor

open Packing

variable {e : Editor} {order : List Node} {m n k : Node} {o p q : Port}

section

variable {strategy : Strategy} {id : BucketId}

theorem Orders.exists_holder? (h : e.Orders order) (hc : e.Consistent) (hm : m ∈ order)
    (ho : o ∈ m.outputs) (strategy : Strategy) :
    ∃ id, (pack strategy order e.edges).holder? o.id = some id := by
  obtain ⟨i, hi⟩ := List.mem_iff_getElem?.mp hm
  obtain ⟨b, hb, hx⟩ := exists_resident (Logical.mem_all.mpr ⟨i, m, o, hi, ho, rfl⟩)
  exact ⟨b.id, holder?_eq_some rfl (h.ports_nodup hc) hb hx⟩

/-- The bucket that holds an output has its payload. -/
theorem Orders.payload_of_holder? (h : e.Orders order) (hc : e.Consistent) (hk : k ∈ order)
    (hq : q ∈ k.ports) (hid : (pack strategy order e.edges).holder? q.id = some id) :
    ∃ b ∈ placeAll strategy (Logical.all order e.edges), b.id = id ∧ b.payload = q.payload := by
  obtain ⟨b, hb, hbid, x, hx, hport⟩ := exists_of_holder? hid
  obtain ⟨i, k', q', hk', hq', rfl⟩ := Logical.mem_all.mp ((residents_sublist ..).subset hx)
  obtain ⟨-, rfl⟩ := hc.port_eq (h.mem k' (List.mem_of_getElem? hk')) (List.mem_of_mem_filter hq')
    (h.mem k hk) hq hport
  exact ⟨b, hb, hbid, (holds_placeAll b hb).payload_eq hx⟩

/-- Outputs in one bucket have one payload. -/
theorem Orders.payload_eq_of_holder? (h : e.Orders order) (hc : e.Consistent) (hk : k ∈ order)
    (hq : q ∈ k.ports) (hm : m ∈ order) (ho : o ∈ m.ports)
    (hqid : (pack strategy order e.edges).holder? q.id = some id)
    (hoid : (pack strategy order e.edges).holder? o.id = some id) : q.payload = o.payload := by
  obtain ⟨b, hb, hbid, hbq⟩ := h.payload_of_holder? hc hk hq hqid
  obtain ⟨c, hcm, hcid, hco⟩ := h.payload_of_holder? hc hm ho hoid
  obtain rfl := List.inj_on_of_nodup_map (ids_nodup ..) hb hcm (hbid.trans hcid.symm)
  exact hbq.symm.trans hco

/-- The writes to the bucket of an output come from the outputs of passes that are in it. -/
theorem Orders.write_mem_iff (h : e.Orders order) (hc : e.Consistent) {nodes : List Node}
    (hnodes : nodes ⊆ order) (hm : m ∈ order) (ho : o ∈ m.ports) (hpayload : o.payload ≠ .unknown)
    (hoid : (pack strategy order e.edges).holder? o.id = some id) (frame : Nat) (name : String) :
    let packing := pack strategy order e.edges
    .write name id ∈ (nodes.filter (·.isPass)).flatMap
        (fun k => k.block frame (e.resource? (order.map (·.id)) packing k)) ↔
      ∃ k ∈ nodes, k.isPass = true ∧ ∃ q ∈ k.outputs, q.name = name ∧
        packing.holder? q.id = some id := by
  intro packing
  simp only [List.mem_flatMap, List.mem_filter, Node.block, List.mem_append, List.mem_cons,
    reduceCtorEq, List.not_mem_nil, or_false, false_or, and_assoc, Node.outputs, beq_iff_eq]
  refine exists_congr fun k => and_congr_right fun hk => and_congr_right fun _ => ?_
  rw [mem_uses_write]
  refine exists_congr fun q => and_congr_right fun hq => ?_
  constructor
  · rintro ⟨hid, hrole, hname⟩
    exact ⟨hrole, hname, holder?_of_resource? hrole hid⟩
  · rintro ⟨hrole, hname, hid⟩
    have hknown : q.payload ≠ .unknown :=
      h.payload_eq_of_holder? hc (hnodes hk) hq hm ho hid hoid ▸ hpayload
    exact ⟨resource?_eq_some hknown (source?_output hrole _) hid, hrole, hname⟩

/-- Without sharing, no two outputs are in one bucket. -/
theorem Orders.eq_of_holder?_naive (h : e.Orders order) (hc : e.Consistent) (hk : k ∈ order)
    (hq : q ∈ k.ports) (hm : m ∈ order) (ho : o ∈ m.ports)
    (hqid : (pack .naive order e.edges).holder? q.id = some id)
    (hoid : (pack .naive order e.edges).holder? o.id = some id) : k = m ∧ q = o := by
  obtain ⟨b, hb, hbid, x, hx, hxq⟩ := exists_of_holder? hqid
  obtain ⟨c, hcm, hcid, y, hy, hyo⟩ := exists_of_holder? hoid
  obtain rfl := List.inj_on_of_nodup_map (ids_nodup ..) hb hcm (hbid.trans hcid.symm)
  have hmembers := members_naive hb
  have hxb : x.port ∈ b.members := (mem_members hb).mpr ⟨x, hx, rfl⟩
  have hyb : y.port ∈ b.members := (mem_members hb).mpr ⟨y, hy, rfl⟩
  rw [hmembers, List.mem_singleton] at hxb hyb
  exact hc.port_eq (h.mem k hk) hq (h.mem m hm) ho
    (hxq.symm.trans (hxb.trans (hyb.symm.trans hyo)))

/-- In the blocks of an order, an input that a skipped node feeds is read after what the passes
before that node wrote to its bucket, and after no other write to it. -/
theorem Orders.exists_read (h : e.Orders order) (hc : e.Consistent)
    {before between after : List Node} (hsplit : order = before ++ m :: (between ++ n :: after))
    {edge : Edge} (hj : edge.Joins m o n p) (ho : o ∈ m.ports) (hp : p ∈ n.ports)
    (hmpass : m.isPass = false) (hnpass : n.isPass = true) (hpayload : edge.payload ≠ .unknown)
    (hsource : e.source? (order.map (·.id)) n p = some o.id)
    (hoid : (pack strategy order e.edges).holder? o.id = some id) (frame : Nat) :
    let packing := pack strategy order e.edges
    let block := fun k : Node => k.block frame (e.resource? (order.map (·.id)) packing k)
    let record := fun nodes : List Node => (nodes.filter (·.isPass)).flatMap block
    record order = record before ++ (record between ++ (block n ++ record after)) ∧
      ∃ n₁ n₂, block n = n₁ ++ .read p.name id :: n₂ ∧
        ∀ name, .write name id ∈ record before ++ (record between ++ n₁) ↔
          ∃ k ∈ before, k.isPass = true ∧ ∃ q ∈ k.outputs, q.name = name ∧
            packing.holder? q.id = some id := by
  intro packing block record
  have hfilter : order.filter (·.isPass) = before.filter (·.isPass) ++
      (between.filter (·.isPass) ++ n :: after.filter (·.isPass)) := by
    rw [hsplit, List.filter_append, List.filter_cons_of_neg (by simp [hmpass]),
      List.filter_append, List.filter_cons_of_pos hnpass]
  obtain ⟨ps, ps', hps⟩ := List.append_of_mem ho
  obtain ⟨qs, qs', hqs⟩ := List.append_of_mem hp
  have huse : p.use id = .read p.name id := by rw [Port.use, hj.input]
  have hread := resource?_eq_some (hj.stop_payload ▸ hpayload) hsource hoid
  refine ⟨?_, _, _, huse ▸ Node.block_eq hqs hread frame, fun name => ?_⟩
  · simp only [record, hfilter, List.flatMap_append, List.flatMap_cons]
  · -- From the place of the skipped node on, nothing is written to the bucket.
    have hlate := h.write_not_mem hc hsplit hj hsource hps hqs hoid frame name
    dsimp only at hlate
    rw [List.append_assoc, List.mem_append, not_or] at hlate
    have hm : m ∈ order := by simp [hsplit]
    have hbefore : before ⊆ order := fun k hk => by simp [hsplit, hk]
    have hknown : o.payload ≠ .unknown := hj.start_payload ▸ hpayload
    rw [List.mem_append, or_iff_left hlate.2]
    exact h.write_mem_iff hc hbefore hm ho hknown hoid frame name

end

variable {δ : Type} [Allocator δ] {w : Workshop δ} {verbose : Bool}

/-- Along an edge from a node without a pass to a pass of a compiled graph, the pass reads the
bucket that holds the start of the edge. What was written to that bucket before was written by the
passes before the skipped node that have an output in it, and there are none without sharing. -/
theorem Reachable.read_past_skipped (he : e.Reachable)
    (hnames : ∀ n ∈ e.nodes, (n.ports.map (·.name)).Nodup) (hfactory : w.factory = .standard)
    (h : (compile w verbose e.nodes e.edges).result.success = true)
    {edge : Edge} (hedge : edge ∈ e.edges) (hm : m ∈ e.nodes) (ho : o ∈ m.ports) (hn : n ∈ e.nodes)
    (hp : p ∈ n.ports) (hstart : edge.start.isAt m.id o.id = true)
    (hstop : edge.stop.isAt n.id p.id = true)
    (hmo : m.id ∈ (compile w verbose e.nodes e.edges).result.order)
    (hno : n.id ∈ (compile w verbose e.nodes e.edges).result.order)
    (hmpass : (w.factory m).isSome = false) (hnpass : (w.factory n).isSome = true)
    (hpayload : edge.payload ≠ .unknown) :
    let result := (compile w verbose e.nodes e.edges).result
    ∃ plan packing id before between after,
      result.plan = some plan ∧ result.packing = some packing ∧ packing.holder? o.id = some id ∧
      result.order.filterMap e.node? = before ++ m :: (between ++ n :: after) ∧
      (w.settings.strategy = .naive →
        ∀ k ∈ before, ∀ q ∈ k.outputs, packing.holder? q.id ≠ some id) ∧
      ∀ frame,
        let block := fun k : Node => k.block frame (e.resource? result.order packing k)
        let record := fun nodes : List Node => (nodes.filter (·.isPass)).flatMap block
        plan.run frame = record before ++ (record between ++ (block n ++ record after)) ∧
        ∃ n₁ n₂, block n = n₁ ++ .read p.name id :: n₂ ∧
          ∀ name, .write name id ∈ record before ++ (record between ++ n₁) ↔
            ∃ k ∈ before, k.isPass = true ∧ ∃ q ∈ k.outputs, q.name = name ∧
              packing.holder? q.id = some id := by
  have hc := he.consistent
  have hj := hc.joins_of_isAt hedge hm ho hn hp hstart hstop
  obtain ⟨order, plan, hs, hplan, hpacking, horder, hrun⟩ := hc.compile_ok hfactory hnames h
  have horders : e.Orders order := hc.orders hs
  rw [hfactory, PassFactory.isSome_standard] at hmpass hnpass
  rw [horder] at hmo hno
  have hmo := horders.exists_mem hc hm hmo
  have hno := horders.exists_mem hc hn hno
  obtain ⟨before, between, after, hsplit⟩ := horders.exists_split hedge hj hmo hno
  have hsource : e.source? (order.map (·.id)) n p = some o.id :=
    source?_of_joins hc hedge hj (List.mem_map_of_mem hmo)
  have hout : o ∈ m.outputs := List.mem_filter.mpr ⟨ho, beq_iff_eq.mpr hj.output⟩
  obtain ⟨id, hoid⟩ := horders.exists_holder? hc hmo hout w.settings.strategy
  simp only [horder, horders.filterMap_node? hc]
  refine ⟨plan, _, id, before, between, after, hplan, hpacking, hoid, hsplit, ?_, fun frame => ?_⟩
  · intro hnaive k hk q hq hqid
    rw [hnaive] at hqid hoid
    have hko : k ∈ order := by simp [hsplit, hk]
    obtain ⟨rfl, -⟩ :=
      horders.eq_of_holder?_naive hc hko (List.mem_of_mem_filter hq) hmo ho hqid hoid
    have hids := horders.nodup.of_map
    rw [hsplit, List.nodup_middle, List.nodup_cons] at hids
    exact hids.1 (List.mem_append_left _ hk)
  · rw [hrun]
    exact horders.exists_read hc hsplit hj ho hp hmpass hnpass hpayload hsource hoid frame

/-- Two blurs and a painter that no pass runs for, in a row before the present node. The canvas of
the painter shares the image of the first blur. -/
def unpainted : Editor :=
  [Edit.addKind .gaussianBlur, .addKind .gaussianBlur,
    .add "Painter" .unknown
      [.imageInput "Image" .rgba16Float, .imageOutput "Canvas" .rgba16Float],
    .connect 0 "Scene" 5 "Scene", .connect 5 "Position" 13 "Image",
    .connect 13 "Blurred Image" 16 "Image", .connect 16 "Blurred Image" 19 "Image",
    .connect 19 "Canvas" 11 "Final Image"].foldl apply seeded

theorem unpainted_reachable : unpainted.Reachable := Reachable.seeded.foldl _

theorem unpainted_reads_past_painter :
    let w : Workshop := { device := {}, clock := ⟨"", "", ""⟩ }
    let result := (compile w false unpainted.nodes unpainted.edges).result
    ∃ plan packing id, ∃ before : List Node, result.plan = some plan ∧
      result.packing = some packing ∧ ∀ frame, ∃ earlier later,
        plan.run frame = earlier ++ .read "Final Image" id :: later ∧
        ∀ name, .write name id ∈ earlier ↔ ∃ k ∈ before, k.isPass = true ∧
          ∃ q ∈ k.outputs, q.name = name ∧ packing.holder? q.id = some id := by
  intro w result
  have hsuccess : result.success = true := by decide +kernel
  let m := unpainted.nodes.get ⟨5, by decide⟩
  let n := unpainted.nodes.get ⟨2, by decide⟩
  have hedge := List.get_mem unpainted.edges ⟨4, by decide⟩
  have ho := List.get_mem m.ports ⟨1, by decide⟩
  have hp := List.get_mem n.ports ⟨0, by decide⟩
  obtain ⟨plan, packing, id, before, between, after, hplan, hpacking, -, -, -, hrun⟩ :=
    Reachable.read_past_skipped unpainted_reachable (by decide) rfl hsuccess hedge
      (List.get_mem ..) ho (List.get_mem ..) hp (by decide) (by decide) (by decide +kernel)
      (by decide +kernel) (by decide) (by decide) (by decide)
  refine ⟨plan, packing, id, before, hplan, hpacking, fun frame => ?_⟩
  obtain ⟨hframe, n₁, n₂, hblock, hwrites⟩ := hrun frame
  let record := fun nodes : List Node => (nodes.filter (·.isPass)).flatMap fun k =>
    k.block frame (unpainted.resource? result.order packing k)
  refine ⟨record before ++ (record between ++ n₁), n₂ ++ record after, ?_, hwrites⟩
  rw [hframe, hblock]
  simp only [List.append_assoc, List.cons_append]
  rfl

/-- The present node is shown what the first blur wrote, in place of the canvas. -/
theorem unpainted_shows_blur :
    let w : Workshop := { device := {}, clock := ⟨"", "", ""⟩ }
    let result := (compile w false unpainted.nodes unpainted.edges).result
    unpainted.Reachable ∧ (∀ n ∈ unpainted.nodes, (n.ports.map (·.name)).Nodup) ∧
      result.success = true ∧
      unpainted.edges.any (fun edge => edge.start.isAt 19 21 && edge.stop.isAt 11 12) = true ∧
      (unpainted.node? 19).bind w.factory = none ∧
      ∃ plan packing, result.plan = some plan ∧ result.packing = some packing ∧
        packing.holder? 15 = some 8 ∧ packing.holder? 21 = some 8 ∧
        plan.run 0 =
          [.beginPass "G-Buffer" 0, .read "Scene" 0, .write "Position" 4, .write "Normal" 5,
            .write "Albedo" 6, .write "Depth" 7, .endPass,
            .beginPass "Gaussian Blur" 0, .read "Image" 4, .write "Blurred Image" 8, .endPass,
            .beginPass "Gaussian Blur" 0, .read "Image" 8, .write "Blurred Image" 9, .endPass,
            .beginPass "Present" 0, .read "Final Image" 8, .endPass] := by
  intro w result
  have hsuccess : result.success = true := by decide +kernel
  have hnames : ∀ n ∈ unpainted.nodes, (n.ports.map (·.name)).Nodup := by decide
  refine ⟨unpainted_reachable, hnames, hsuccess, by decide +kernel, by decide +kernel, ?_⟩
  have hc := unpainted_reachable.consistent
  obtain ⟨order, plan, hs, hplan, hpacking, horder, hrun⟩ := hc.compile_ok rfl hnames hsuccess
  have hnodes : order = result.order.filterMap unpainted.node? := by
    rw [horder, (hc.orders hs).filterMap_node? hc]
  refine ⟨plan, _, hplan, hpacking, ?_, ?_, ?_⟩
  · rw [hnodes]
    decide +kernel
  · rw [hnodes]
    decide +kernel
  · rw [hrun, hnodes]
    decide +kernel

end Editor

end FrameGraph
