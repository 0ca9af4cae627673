import FrameGraph.Proofs.Compile.Reference

/-!
# Reads see their producers

A bucket serves many resources, one after another. Between the pass that writes a resource and a
pass that reads it, no other resource of the bucket is alive (`Editor.Orders.eq_of_holder?`), and
the order puts the writing pass first. So what a pass reads through an edge is what the start of
the edge wrote, however buckets are shared.
-/

namespace FrameGraph

/-- A port with a resource splits the block of its node at its use. -/
theorem Node.block_eq {n : Node} {p : Port} {ps qs : List Port} (hports : n.ports = ps ++ p :: qs)
    {resource? : Port → Option BucketId} {id : BucketId} (hp : resource? p = some id)
    (frame : Nat) :
    n.block frame resource? =
      (.beginPass n.name frame :: ps.filterMap fun p => (resource? p).map p.use) ++
        p.use id :: ((qs.filterMap fun p => (resource? p).map p.use) ++ [.endPass]) := by
  rw [Node.block, hports, List.filterMap_append, List.filterMap_cons, hp]
  simp

/-- A write is recorded for an output with that resource. -/
theorem mem_uses_write {ps : List Port} {resource? : Port → Option BucketId} {name : String}
    {id : BucketId} :
    .write name id ∈ ps.filterMap (fun p => (resource? p).map p.use) ↔
      ∃ p ∈ ps, resource? p = some id ∧ p.role = .output ∧ p.name = name := by
  simp only [List.mem_filterMap, Option.map_eq_some_iff]
  refine exists_congr fun p => and_congr_right fun _ => ?_
  constructor
  · rintro ⟨id', hid, huse⟩
    unfold Port.use at huse
    split at huse <;> cases huse
    exact ⟨hid, ‹_›, rfl⟩
  · rintro ⟨hid, hrole, rfl⟩
    exact ⟨id, hid, by rw [Port.use, hrole]⟩

namespace Editor

open Packing

variable {e : Editor} {order : List Node} {m n k : Node} {o p q : Port}

section

variable {strategy : Strategy} {i l j : Nat}

/-- A resource is alive at the position of every node that has a port it is the source of. -/
theorem Orders.contains_span (h : e.Orders order) (hc : e.Consistent) {x : Logical}
    (hx : x ∈ Logical.all order e.edges) (hl : order[l]? = some k) (hq : q ∈ k.ports)
    (hsource : e.source? (order.map (·.id)) k q = some x.port) : x.span.contains l = true := by
  obtain ⟨x', hx', hport, u, hu, hnode, -⟩ := exists_use hc h (List.mem_of_getElem? hl) hq hsource
  obtain rfl := List.inj_on_of_nodup_map (h.ports_nodup hc) hx' hx hport
  obtain ⟨k', hk', hid⟩ := Logical.getElem?_position hx' hu
  have hl' : (order.map (·.id))[l]? = some k.id := by rw [List.getElem?_map, hl, Option.map_some]
  have hu' : (order.map (·.id))[u.position]? = some k.id := by
    rw [List.getElem?_map, hk', Option.map_some, hid, hnode]
  have hlt := (List.getElem?_eq_some_iff.mp hl').1
  have hposition : l = u.position := (List.getElem?_inj hlt h.nodup).mp (hl'.trans hu'.symm)
  exact hposition ▸ Logical.contains_span hu

theorem exists_of_holder? {port : PortId} {id : BucketId}
    (h : (pack strategy order e.edges).holder? port = some id) :
    ∃ b ∈ (pack strategy order e.edges).buckets, b.id = id ∧
      ∃ x ∈ residents strategy (Logical.all order e.edges) b.id, x.port = port := by
  obtain ⟨b, hb, hid⟩ := Option.map_eq_some_iff.mp h
  have hfound := List.find?_some (p := fun b : Bucket => b.members.contains port) hb
  have hmem := List.mem_of_find?_eq_some hb
  exact ⟨b, hmem, hid, (mem_members hmem).mp (List.contains_iff_mem.mp hfound)⟩

/-- From its producer to any of its readers, a resource has its bucket to itself. -/
theorem Orders.eq_of_holder? (h : e.Orders order) (hc : e.Consistent)
    (hi : order[i]? = some m) (hl : order[l]? = some k) (hj : order[j]? = some n)
    (hil : i ≤ l) (hlj : l ≤ j) (ho : o ∈ m.ports) (hoo : o.role = .output) (hp : p ∈ n.ports)
    (hsource : e.source? (order.map (·.id)) n p = some o.id)
    (hq : q ∈ k.ports) (hqo : q.role = .output) {id : BucketId}
    (hoid : (pack strategy order e.edges).holder? o.id = some id)
    (hqid : (pack strategy order e.edges).holder? q.id = some id) : k = m ∧ q = o := by
  -- The resident that `o` is, alive from `m` to `n`.
  obtain ⟨b, hb, hbid, x, hx, hxo⟩ := exists_of_holder? hoid
  have hxall := (residents_sublist ..).subset hx
  have hxi := h.contains_span hc hxall hi ho (hxo ▸ source?_output hoo _)
  have hxj := h.contains_span hc hxall hj hp (hxo ▸ hsource)
  have hxl : x.span.contains l = true := by
    rw [Span.contains_iff] at hxi hxj ⊢
    exact ⟨Nat.le_trans hxi.1 hil, Nat.le_trans hlj hxj.2⟩
  -- The resident that `q` is, alive at `k`.
  obtain ⟨c, -, hcid, y, hy, hyq⟩ := exists_of_holder? hqid
  have hyall := (residents_sublist ..).subset hy
  have hyl := h.contains_span hc hyall hl hq (hyq ▸ source?_output hqo _)
  rw [hcid, ← hbid] at hy
  have hxy := (holds_placeAll b hb).eq_of_overlaps hx hy (Span.overlaps_iff.mpr ⟨l, hxl, hyl⟩)
  have hk := h.mem k (List.mem_of_getElem? hl)
  have hm := h.mem m (List.mem_of_getElem? hi)
  exact hc.port_eq hk hq hm ho (by rw [← hyq, ← hxo, hxy])

theorem resource?_eq_some {ids : List NodeId} {packing : Packing} {port : PortId} {id : BucketId}
    (hpayload : q.payload ≠ .unknown) (hsource : e.source? ids k q = some port)
    (hid : packing.holder? port = some id) : e.resource? ids packing k q = some id := by
  rw [resource?, if_neg hpayload, hsource, Option.bind_some, hid]

theorem holder?_of_resource? {ids : List NodeId} {packing : Packing} {id : BucketId}
    (hqo : q.role = .output) (h : e.resource? ids packing k q = some id) :
    packing.holder? q.id = some id := by
  unfold resource? source? at h
  split at h
  · cases h
  · rwa [hqo] at h

/-- Two nodes of an order that are joined by an edge stand in it one before the other. -/
theorem Orders.exists_split (h : e.Orders order) {edge : Edge} (he : edge ∈ e.edges)
    (hj : edge.Joins m o n p) (hm : m ∈ order) (hn : n ∈ order) :
    ∃ before between after, order = before ++ m :: (between ++ n :: after) := by
  obtain ⟨first, after, hsplit⟩ := List.append_of_mem hn
  have hfirst := h.forward first n after hsplit m hm edge he (by rw [hj.start]) (by rw [hj.stop])
  obtain ⟨before, between, rfl⟩ := List.append_of_mem hfirst
  exact ⟨before, between, after, by rw [hsplit]; simp⟩

/-- After the write of a producer and up to the read of a consumer, nothing else is written to the
bucket. -/
theorem Orders.write_not_mem (h : e.Orders order) (hc : e.Consistent)
    {before between after : List Node} (hsplit : order = before ++ m :: (between ++ n :: after))
    {edge : Edge} (hj : edge.Joins m o n p)
    (hsource : e.source? (order.map (·.id)) n p = some o.id) {ps ps' qs qs' : List Port}
    (hm : m.ports = ps ++ o :: ps') (hn : n.ports = qs ++ p :: qs') {id : BucketId}
    (hoid : (pack strategy order e.edges).holder? o.id = some id) (frame : Nat) (name : String) :
    let resource? := e.resource? (order.map (·.id)) (pack strategy order e.edges)
    .write name id ∉
      ((ps'.filterMap fun q => (resource? m q).map q.use) ++ [.endPass]) ++
      (between.filter (·.isPass)).flatMap (fun k => k.block frame (resource? k)) ++
      .beginPass n.name frame :: qs.filterMap fun q => (resource? n q).map q.use := by
  intro resource? hmem
  have hi : order[before.length]? = some m := by rw [hsplit]; simp
  have hjn : order[before.length + (between.length + 1)]? = some n := by
    rw [hsplit, List.getElem?_append_right (by omega)]
    simp
  have ho : o ∈ m.ports := by simp [hm]
  have hp : p ∈ n.ports := by simp [hn]
  have hids := h.nodup.of_map
  rw [hsplit, List.nodup_middle, List.nodup_cons] at hids
  -- A node from `m` to `n` that writes to the bucket is `m`, and it writes port `o`.
  have honly : ∀ k l q, order[l]? = some k → before.length ≤ l →
      l ≤ before.length + (between.length + 1) → q ∈ k.ports → q.role = .output →
      resource? k q = some id → k = m ∧ q = o :=
    fun k l q hl hil hlj hq hqo hid => h.eq_of_holder? hc hi hl hjn hil hlj ho hj.output hp hsource
      hq hqo hoid (holder?_of_resource? hqo hid)
  rw [List.mem_append, List.mem_append] at hmem
  rcases hmem with (hmem | hmem) | hmem
  · simp only [List.mem_append, List.mem_singleton, reduceCtorEq, or_false] at hmem
    obtain ⟨q, hq, hid, hqo, -⟩ := mem_uses_write.mp hmem
    obtain ⟨-, rfl⟩ := honly m _ q hi (Nat.le_refl _) (by omega) (by simp [hm, hq]) hqo hid
    have hports := (List.nodup_flatMap.mp hc.ports_nodup).1 m (h.mem m (List.mem_of_getElem? hi))
    rw [hm, List.map_append, List.nodup_append, List.map_cons, List.nodup_cons] at hports
    exact hports.2.1.1 (List.mem_map_of_mem hq)
  · obtain ⟨k, hk, hblock⟩ := List.mem_flatMap.mp hmem
    have hk := List.mem_of_mem_filter hk
    obtain ⟨l, hl⟩ := List.mem_iff_getElem?.mp hk
    have hlt := (List.getElem?_eq_some_iff.mp hl).1
    have hkl : order[before.length + (l + 1)]? = some k := by
      rw [hsplit, List.getElem?_append_right (by omega), Nat.add_sub_cancel_left,
        List.getElem?_cons_succ, List.getElem?_append_left hlt, hl]
    simp only [Node.block, List.mem_append, List.mem_cons, reduceCtorEq, List.not_mem_nil, or_false,
      false_or] at hblock
    obtain ⟨q, hq, hid, hqo, -⟩ := mem_uses_write.mp hblock
    obtain ⟨rfl, -⟩ := honly k _ q hkl (by omega) (by omega) hq hqo hid
    exact hids.1 (by simp [hk])
  · rw [List.mem_cons] at hmem
    simp only [reduceCtorEq, false_or] at hmem
    obtain ⟨q, hq, hid, hqo, -⟩ := mem_uses_write.mp hmem
    obtain ⟨rfl, -⟩ := honly n _ q hjn (by omega) (Nat.le_refl _) (by simp [hn, hq]) hqo hid
    exact hj.ne rfl

end

variable {δ : Type} [Allocator δ] {w : Workshop δ} {verbose : Bool}

/-- Aliased reads see their producers. Along every edge between two passes of a compiled graph, the
frame holds the read of the input in the block of the reading pass, and the last write to that
bucket before it is the write of the output in the block of the writing pass. -/
theorem Reachable.read_sees_producer (he : e.Reachable)
    (hnames : ∀ n ∈ e.nodes, (n.ports.map (·.name)).Nodup) (hfactory : w.factory = .standard)
    (h : (compile w verbose e.nodes e.edges).result.success = true)
    {edge : Edge} (hedge : edge ∈ e.edges) (hm : m ∈ e.nodes) (ho : o ∈ m.ports) (hn : n ∈ e.nodes)
    (hp : p ∈ n.ports) (hstart : edge.start.isAt m.id o.id = true)
    (hstop : edge.stop.isAt n.id p.id = true)
    (hmo : m.id ∈ (compile w verbose e.nodes e.edges).result.order)
    (hno : n.id ∈ (compile w verbose e.nodes e.edges).result.order)
    (hmpass : (w.factory m).isSome = true) (hnpass : (w.factory n).isSome = true)
    (hpayload : edge.payload ≠ .unknown) :
    let result := (compile w verbose e.nodes e.edges).result
    ∃ plan packing id before between after,
      result.plan = some plan ∧ result.packing = some packing ∧
      (result.order.filterMap e.node?).filter (·.isPass) =
        before ++ m :: (between ++ n :: after) ∧
      ∀ frame,
        let block := fun k : Node => k.block frame (e.resource? result.order packing k)
        plan.run frame = before.flatMap block ++ (block m ++
          (between.flatMap block ++ (block n ++ after.flatMap block))) ∧
        ∃ m₁ m₂ n₁ n₂, block m = m₁ ++ .write o.name id :: m₂ ∧
          block n = n₁ ++ .read p.name id :: n₂ ∧
          ∀ name, .write name id ∉ m₂ ++ between.flatMap block ++ n₁ := by
  have hc := he.consistent
  have hj := hc.joins_of_isAt hedge hm ho hn hp hstart hstop
  obtain ⟨order, plan, hs, hplan, hpacking, horder, hrun⟩ := hc.compile_ok hfactory hnames h
  have horders : e.Orders order := hc.orders hs
  rw [hfactory, PassFactory.isSome_standard] at hmpass hnpass
  rw [horder] at hmo hno
  have hmo := horders.exists_mem hc hm hmo
  have hno := horders.exists_mem hc hn hno
  obtain ⟨before, between, after, hsplit⟩ := horders.exists_split hedge hj hmo hno
  have hfilter : order.filter (·.isPass) = before.filter (·.isPass) ++
      m :: (between.filter (·.isPass) ++ n :: after.filter (·.isPass)) := by
    rw [hsplit, List.filter_append, List.filter_cons_of_pos hmpass, List.filter_append,
      List.filter_cons_of_pos hnpass]
  -- Both ports use the bucket that holds `o`.
  have hself : e.source? (order.map (·.id)) m o = some o.id := source?_output hj.output _
  have hsource : e.source? (order.map (·.id)) n p = some o.id :=
    source?_of_joins hc hedge hj (List.mem_map_of_mem hmo)
  obtain ⟨b, hb, x, hx, hport, -⟩ :=
    exists_home hc horders hmo ho (hnames m hm) hself w.settings.strategy
  have hoid : (pack w.settings.strategy order e.edges).holder? o.id = some b.id :=
    hport ▸ holder?_eq_some rfl (horders.ports_nodup hc) hb hx
  simp only [horder, horders.filterMap_node? hc]
  refine ⟨plan, _, b.id, _, _, _, hplan, hpacking, hfilter, fun frame => ⟨?_, ?_⟩⟩
  · rw [hrun, hfilter]
    simp only [List.flatMap_append, List.flatMap_cons]
  · obtain ⟨ps, ps', hps⟩ := List.append_of_mem ho
    obtain ⟨qs, qs', hqs⟩ := List.append_of_mem hp
    have hmb := resource?_eq_some (hj.start_payload ▸ hpayload) hself hoid
    have hnb := resource?_eq_some (hj.stop_payload ▸ hpayload) hsource hoid
    have hwrite : o.use b.id = .write o.name b.id := by rw [Port.use, hj.output]
    have hread : p.use b.id = .read p.name b.id := by rw [Port.use, hj.input]
    exact ⟨_, _, _, _, hwrite ▸ Node.block_eq hps hmb frame, hread ▸ Node.block_eq hqs hnb frame,
      horders.write_not_mem hc hsplit hj hsource hps hqs hoid frame⟩

/-- The image that the present node reads in a chain of blurs was written by the last blur, though
the first one shares it. -/
theorem blurChain_present_reads_last_blur :
    let w : Workshop := { device := {}, clock := ⟨"", "", ""⟩ }
    let result := (compile w false blurChain.nodes blurChain.edges).result
    ∃ plan id, result.plan = some plan ∧ ∀ frame, ∃ before between after,
      plan.run frame = before ++ .write "Blurred Image" id :: between ++
        .read "Final Image" id :: after ∧
      ∀ name, .write name id ∉ between := by
  intro w result
  have hsuccess : result.success = true := by decide +kernel
  let m := blurChain.nodes.get ⟨5, by decide⟩
  let n := blurChain.nodes.get ⟨2, by decide⟩
  have hedge := List.get_mem blurChain.edges ⟨4, by decide⟩
  have ho := List.get_mem m.ports ⟨1, by decide⟩
  have hp := List.get_mem n.ports ⟨0, by decide⟩
  obtain ⟨plan, packing, id, before, between, after, hplan, -, -, hrun⟩ :=
    Reachable.read_sees_producer blurChain_reachable (by decide) rfl hsuccess hedge
      (List.get_mem ..) ho (List.get_mem ..) hp (by decide) (by decide) (by decide +kernel)
      (by decide +kernel) (by decide) (by decide) (by decide)
  refine ⟨plan, id, hplan, fun frame => ?_⟩
  obtain ⟨hframe, m₁, m₂, n₁, n₂, hm, hn, hnone⟩ := hrun frame
  let block := fun k : Node => k.block frame (blurChain.resource? result.order packing k)
  refine ⟨before.flatMap block ++ m₁, _, n₂ ++ after.flatMap block, ?_, hnone⟩
  rw [hframe, hm, hn]
  simp only [List.append_assoc, List.cons_append]
  rfl

end Editor

end FrameGraph
