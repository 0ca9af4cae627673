import FrameGraph.Proofs.Compile.AnyOrder

/-!
# The payloads of what passes use

An edge joins ports of one payload, and resources share a bucket only if their payloads agree; but
what is bound to a port is found by the name of the port, and a custom node may give one name to
several ports. What a pass uses at a port therefore is in the table, with the payload of a port of
that name on its node (`Editor.Reachable.uses_typed`), which is the port's own where these agree.
-/

namespace FrameGraph

/-- A resource is found with the payload of its bucket. -/
theorem Allocation.get?_of_has {δ : Type} [Allocator δ] {a : Allotment} {d : δ} {b : Bucket}
    {buckets : List Bucket} {t : ResourceTable}
    (h : (Allocation.of a d buckets).resources = .ok t) (hids : (buckets.map (·.id)).Nodup)
    (hb : b ∈ buckets) (hhas : t.has b.id = true) :
    ∃ backing, t.get? b.id = some backing ∧ backing.payload = b.payload := by
  obtain ⟨backing, hget⟩ := Option.isSome_iff_exists.mp hhas
  refine ⟨backing, hget, ?_⟩
  have hmem : (b.id, backing.payload) ∈ t.map fun r => (r.1, r.2.payload) := by
    obtain ⟨before, after, rfl, -⟩ := List.lookup_eq_some_iff.mp hget
    exact List.mem_map.mpr ⟨(b.id, backing), by simp, rfl⟩
  rw [payloads_of_ok h] at hmem
  obtain ⟨c, hc, heq⟩ := List.mem_map.mp hmem
  obtain ⟨hid, hpayload⟩ := Prod.mk.inj heq
  cases List.inj_on_of_nodup_map hids (List.mem_of_mem_filter hc) hb hid
  exact hpayload.symm

namespace Wiring

open Packing

theorem exists_of_bound? {bs : List Binding} {node : NodeId} {name : String} {id : BucketId}
    (h : bound? bs node name = some id) :
    ∃ b ∈ bs, b.isFor node name = true ∧ b.bucket = id := by
  obtain ⟨b, hfind, hid⟩ := Option.map_eq_some_iff.mp h
  have hfor := List.find?_some (p := (Binding.isFor · node name)) hfind
  exact ⟨b, List.mem_reverse.mp (List.mem_of_find?_eq_some hfind), hfor, hid⟩

/-- Of the buckets with something behind them and a use at a port, the last is bound there. -/
theorem bound?_eq_last (strategy : Strategy) (xs : List Logical) (t : ResourceTable)
    (node : NodeId) (name : String) :
    bound? (bindings (placeAll strategy xs) t) node name =
      (((placeAll strategy xs).filter fun b => t.has b.id).reverse.find? fun b =>
        (residents strategy xs b.id).any fun x => x.points.any fun u =>
          u.node == node && u.portName == name).map (·.id) := by
  have hany : ∀ b ∈ placeAll strategy xs,
      (b.points.any fun u => u.node == node && u.portName == name) =
        (residents strategy xs b.id).any fun x => x.points.any fun u =>
          u.node == node && u.portName == name :=
    fun b hb => by rw [(holds_placeAll b hb).points.any_eq, List.any_flatMap]
  have hsub : ((placeAll strategy xs).filter fun b => t.has b.id) ⊆ placeAll strategy xs :=
    List.filter_subset_self _
  unfold bindings
  generalize (placeAll strategy xs).filter (fun b => t.has b.id) = buckets at hsub ⊢
  induction buckets using List.reverseRecOn with
  | nil => rfl
  | append_singleton buckets b ih =>
    have hrest := ih fun c hc => hsub (List.mem_append_left _ hc)
    have hb := hany b (hsub (List.mem_append_right _ List.mem_cons_self))
    rw [List.flatMap_append, List.flatMap_singleton, bound?_append, bound?_points, hb, hrest,
      List.reverse_append, List.reverse_singleton, List.singleton_append, List.find?_cons]
    split
    · next h => rw [h]; rfl
    · next h => rw [Bool.eq_false_iff.mpr h]; rfl

end Wiring

namespace Editor

open Packing Wiring

variable {e : Editor} {order : List Node} {n : Node} {p : Port} {strategy : Strategy}

/-- A bucket that is bound at a port has the payload of a port of that name on the node. -/
theorem payload_of_binding (hc : e.Consistent) (h : e.Orders order) (hn : n ∈ order)
    {t : ResourceTable} {binding : Binding}
    (hmem : binding ∈ bindings (pack strategy order e.edges).buckets t)
    (hfor : binding.isFor n.id p.name = true) :
    ∃ b ∈ (pack strategy order e.edges).buckets, b.id = binding.bucket ∧ t.has b.id = true ∧
      ∃ q ∈ n.ports, q.name = p.name ∧ q.payload = b.payload := by
  obtain ⟨b, hb, hhas, u, hu, rfl⟩ := mem_bindings.mp hmem
  obtain ⟨hnode, hname⟩ := Binding.isFor_iff.mp hfor
  have hholds := holds_placeAll b hb
  obtain ⟨x, hx, hux⟩ := hholds.mem_points.mp hu
  obtain ⟨q, hq, hqname, -, hpayload⟩ :=
    exists_port_of_use hc h hn ((residents_sublist ..).subset hx) hux hnode
  exact ⟨b, hb, rfl, hhas, q, hq, hqname.trans hname,
    hpayload.symm.trans (hholds.payload_eq hx).symm⟩

section

variable {δ : Type} [Allocator δ] {w : Workshop δ} {verbose : Bool}

/-- A successful compile uses, for each port of each pass, the resource that is bound at the name
of the port. -/
theorem Consistent.run_eq_bound (hc : e.Consistent) (hfactory : w.factory = .standard)
    (h : (compile w verbose e.nodes e.edges).result.success = true) :
    ∃ order plan, e.Orders order ∧
      (compile w verbose e.nodes e.edges).result.order = order.map (·.id) ∧
      (compile w verbose e.nodes e.edges).result.plan = some plan ∧
      (compile w verbose e.nodes e.edges).result.packing =
        some (pack w.settings.strategy order e.edges) ∧
      (Allocation.of w.allotment w.device
        (pack w.settings.strategy order e.edges).buckets).resources = .ok plan.resources ∧
      ∀ frame, plan.run frame = (order.filter (·.isPass)).flatMap fun n =>
        n.block frame fun p =>
          bound? (bindings (pack w.settings.strategy order e.edges).buckets plan.resources) n.id
            p.name := by
  obtain ⟨⟨order, packing⟩, t, hs, ht, hplan, hpacking, horder⟩ := FrameGraph.compile_ok h
  obtain ⟨-, -, -, hpack⟩ := Schedule.of_ok hs
  obtain rfl : packing = pack w.settings.strategy order e.edges := hpack
  have ho : e.Orders order := hc.orders hs
  refine ⟨order, _, ho, horder, hplan, hpacking, ht, fun frame => ?_⟩
  simp only [Plan.run, Compile.assemble, hfactory, run_bindAll ho.nodup]

/-- A successful compile of any graph made by edits records, for each port of each pass, the use of
what is bound at the name of the port, if anything is. That is a resource of the plan, with the
payload of a port of that name on the node, and so of the port itself if all of them have its
payload. -/
theorem Reachable.uses_typed (he : e.Reachable) (hfactory : w.factory = .standard)
    (h : (compile w verbose e.nodes e.edges).result.success = true) :
    let result := (compile w verbose e.nodes e.edges).result
    ∃ plan packing, result.plan = some plan ∧ result.packing = some packing ∧
      let bound? (n : Node) (p : Port) :=
        Wiring.bound? (bindings packing.buckets plan.resources) n.id p.name
      (∀ frame, plan.run frame = ((result.order.filterMap e.node?).filter (·.isPass)).flatMap
        fun n => n.block frame (bound? n)) ∧
      ∀ n ∈ result.order.filterMap e.node?, ∀ p ∈ n.ports, ∀ id, bound? n p = some id →
        ∃ backing, plan.resources.get? id = some backing ∧
          (∃ q ∈ n.ports, q.name = p.name ∧ q.payload = backing.payload) ∧
          ((∀ q ∈ n.ports, q.name = p.name → q.payload = p.payload) →
            p.payload = backing.payload) := by
  have hc := he.consistent
  obtain ⟨order, plan, ho, horder, hplan, hpacking, ht, hrun⟩ := hc.run_eq_bound hfactory h
  simp only [horder, ho.filterMap_node? hc]
  refine ⟨plan, _, hplan, hpacking, hrun, fun n hn p hp id hbound => ?_⟩
  obtain ⟨binding, hmem, hfor, rfl⟩ := exists_of_bound? hbound
  obtain ⟨b, hb, hid, hhas, q, hq, hname, hpayload⟩ := payload_of_binding hc ho hn hmem hfor
  obtain ⟨backing, hget, hbacking⟩ := Allocation.get?_of_has ht (ids_nodup ..) hb hhas
  have hsame : q.payload = backing.payload := hpayload.trans hbacking.symm
  exact ⟨backing, hid ▸ hget, ⟨q, hq, hname, hsame⟩,
    fun hall => (hall q hq hname).symm.trans hsame⟩

end

/-- A pass that makes an image and a camera under one name. -/
def twinPorts : Editor :=
  [Edit.add "Twins" .gaussianBlur
      [.input "Scene" .scene, .imageOutput "Out" .rgba16Float, .output "Out" .camera],
    .connect 0 "Scene" 13 "Scene"].foldl apply seeded

theorem twinPorts_reachable : twinPorts.Reachable := Reachable.seeded.foldl _

theorem twinPorts_uses_typed :
    let w : Workshop := { device := {}, clock := ⟨"", "", ""⟩ }
    let result := (compile w false twinPorts.nodes twinPorts.edges).result
    result.success = true ∧ ∃ plan packing, result.plan = some plan ∧
      result.packing = some packing ∧
      ∀ n ∈ result.order.filterMap twinPorts.node?, ∀ p ∈ n.ports, ∀ id,
        bound? (bindings packing.buckets plan.resources) n.id p.name = some id →
          ∃ backing, plan.resources.get? id = some backing ∧
            ∃ q ∈ n.ports, q.name = p.name ∧ q.payload = backing.payload := by
  intro w result
  have hsuccess : result.success = true := by decide +kernel
  obtain ⟨plan, packing, hplan, hpacking, -, htyped⟩ :=
    Reachable.uses_typed twinPorts_reachable rfl hsuccess
  refine ⟨hsuccess, plan, packing, hplan, hpacking, fun n hn p hp id hbound => ?_⟩
  obtain ⟨backing, hget, hport, -⟩ := htyped n hn p hp id hbound
  exact ⟨backing, hget, hport⟩

/-- Both outputs of that pass are written as the camera. -/
theorem twinPorts_writes_camera :
    let w : Workshop := { device := {}, clock := ⟨"", "", ""⟩ }
    let result := (compile w false twinPorts.nodes twinPorts.edges).result
    twinPorts.Reachable ∧ result.success = true ∧
      (twinPorts.node? 13).map (fun n => n.ports.map fun p => (p.name, p.role, p.payload)) =
        some [("Scene", .input, .scene), ("Out", .output, .image), ("Out", .output, .camera)] ∧
      ∃ plan, result.plan = some plan ∧
        (plan.resources.get? 5).map (·.payload) = some .camera ∧
        plan.run 0 =
          [.beginPass "Twins" 0, .read "Scene" 0, .write "Out" 5, .write "Out" 5, .endPass] := by
  intro w result
  have hsuccess : result.success = true := by decide +kernel
  refine ⟨twinPorts_reachable, hsuccess, by decide +kernel, ?_⟩
  have hc := twinPorts_reachable.consistent
  obtain ⟨order, plan, ho, horder, hplan, -, -, hrun⟩ := hc.run_eq_bound rfl hsuccess
  have hresources : plan.resources = result.plan.elim [] (·.resources) := by
    rw [hplan]
    rfl
  have hnodes : order = result.order.filterMap twinPorts.node? := by
    rw [horder, ho.filterMap_node? hc]
  refine ⟨plan, hplan, ?_, ?_⟩
  · rw [hresources]
    decide +kernel
  · rw [hrun, hresources, hnodes]
    simp only [pack, bound?_eq_last]
    decide +kernel

end Editor

end FrameGraph
