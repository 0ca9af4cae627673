import FrameGraph.Compile
import FrameGraph.Proofs.Order.Positions
import Mathlib.Data.List.Induction

/-!
# What a wired plan records

Wiring makes bindings one after another, and a later one replaces an earlier one at the same port.
So each port is bound to the bucket of the last binding made for it (`Wiring.bound?`), and a frame
is, for one node after another, the uses of its ports of the buckets bound to them
(`Wiring.run_bindAll`).
-/

namespace FrameGraph

/-- What a pass records for a port that is bound to a resource. -/
def Port.use (p : Port) (resource : BucketId) : Command :=
  match p.role with
  | .output => .write p.name resource
  | .input | .unknown => .read p.name resource

namespace Node

/-- Whether a pass of the catalogue runs for the node. -/
def isPass (n : Node) : Bool := n.kind != .sceneProvider && n.kind != .unknown

/-- The commands of one pass, given the resources of its ports. -/
def block (n : Node) (frame : Nat) (resource? : Port → Option BucketId) : Frame :=
  .beginPass n.name frame :: (n.ports.filterMap fun p => (resource? p).map p.use) ++ [.endPass]

end Node

theorem PassFactory.standard_eq (n : Node) :
    standard n = if n.isPass then some (.ofNode n) else none := by
  unfold standard Node.isPass
  cases n.kind <;> rfl

theorem PassFactory.isSome_standard (n : Node) : (standard n).isSome = n.isPass := by
  rw [standard_eq]
  cases n.isPass <;> rfl

namespace Wiring

/-- Whether the binding is for the port of that name. -/
def Binding.isFor (b : Binding) (node : NodeId) (name : String) : Bool :=
  b.point.node == node && b.point.portName == name

@[simp] theorem Binding.isFor_iff {b : Binding} {node : NodeId} {name : String} :
    b.isFor node name = true ↔ b.point.node = node ∧ b.point.portName = name := by
  simp only [isFor, Bool.and_eq_true, beq_iff_eq]

/-- The bucket that a port is bound to in the end: that of the last binding for it. -/
def bound? (bs : List Binding) (node : NodeId) (name : String) : Option BucketId :=
  (bs.reverse.find? (·.isFor node name)).map (·.bucket)

variable {bs : List Binding} {node : NodeId} {name : String}

theorem bound?_concat (bs : List Binding) (b : Binding) (node : NodeId) (name : String) :
    bound? (bs ++ [b]) node name =
      if b.isFor node name then some b.bucket else bound? bs node name := by
  rw [bound?, List.reverse_append, List.reverse_singleton, List.singleton_append, List.find?_cons]
  cases b.isFor node name <;> rfl

theorem bound?_eq_none (h : ∀ b ∈ bs, b.isFor node name = false) : bound? bs node name = none := by
  rw [bound?, List.find?_eq_none.mpr, Option.map_none]
  intro b hb
  rw [h b (List.mem_reverse.mp hb)]
  exact Bool.false_ne_true

/-- Where all bindings for a port name one bucket, and there is one, the port is bound to it. -/
theorem bound?_eq_some {id : BucketId} (hex : ∃ b ∈ bs, b.isFor node name = true)
    (hall : ∀ b ∈ bs, b.isFor node name = true → b.bucket = id) :
    bound? bs node name = some id := by
  obtain ⟨b, hb, hfor⟩ := hex
  obtain ⟨c, hc, hmem, hcfor⟩ := exists_find? (p := (·.isFor node name))
    (List.mem_reverse.mpr hb) hfor
  rw [bound?, hc, Option.map_some, hall c (List.mem_reverse.mp hmem) hcfor]

/-! ## One pass -/

/-- What one binding does to the pass of a node. -/
def wire (node : NodeId) (pass : Pass) (b : Binding) : Pass :=
  if b.point.node = node then (pass.bind? b.point.portName b.bucket).getD pass else pass

/-- A pass that all bindings were offered to differs in its bindings alone, and each of its ports
is bound to what was bound to it last. -/
theorem foldl_wire (node : NodeId) (pass : Pass) (bs : List Binding) :
    ∃ bindings, bs.foldl (wire node) pass = { pass with bindings } ∧
      ∀ name, pass.hasPort name = true →
        bindings.get? name = (bound? bs node name).or (pass.bindings.get? name) := by
  induction bs using List.reverseRecOn with
  | nil => exact ⟨pass.bindings, rfl, fun _ _ => rfl⟩
  | append_singleton bs b ih =>
    obtain ⟨bindings, hfold, hget⟩ := ih
    rw [List.foldl_concat, hfold]
    by_cases hbound : b.point.node = node ∧ pass.hasPort b.point.portName = true
    · obtain ⟨hnode, hport⟩ := hbound
      refine ⟨bindings.insert b.point.portName b.bucket, ?_, fun name hname => ?_⟩
      · have hport' : ({ pass with bindings } : Pass).hasPort b.point.portName = true := hport
        rw [wire, if_pos hnode, Pass.bind?, if_pos hport', Option.getD_some]
      · rw [Bindings.get?_insert, bound?_concat, hget name hname]
        by_cases heq : name = b.point.portName
        · rw [if_pos heq, if_pos (Binding.isFor_iff.mpr ⟨hnode, heq.symm⟩), Option.some_or]
        · rw [if_neg heq, if_neg fun h => heq (Binding.isFor_iff.mp h).2.symm]
    · refine ⟨bindings, ?_, fun name hname => ?_⟩
      · unfold wire
        split
        · next hnode =>
          have hport : ¬ ({ pass with bindings } : Pass).hasPort b.point.portName = true :=
            fun hport => hbound ⟨hnode, hport⟩
          rw [Pass.bind?, if_neg hport, Option.getD_none]
        · rfl
      · rw [hget name hname, bound?_concat, if_neg]
        intro hfor
        obtain ⟨hnode, rfl⟩ := Binding.isFor_iff.mp hfor
        exact hbound ⟨hnode, hname⟩

theorem commands_wired (n : Node) (bs : List Binding) (frame : Nat) :
    (bs.foldl (wire n.id) (.ofNode n)).commands frame =
      n.block frame fun p => bound? bs n.id p.name := by
  obtain ⟨bindings, hfold, hget⟩ := foldl_wire n.id (.ofNode n) bs
  rw [hfold]
  have hports : (Pass.ofNode n).ports.filterMap ({ Pass.ofNode n with bindings } : Pass).command? =
      n.ports.filterMap fun p => (bound? bs n.id p.name).map p.use := by
    rw [Pass.ofNode, List.filterMap_map]
    refine List.filterMap_congr fun p hp => ?_
    have hport : (Pass.ofNode n).hasPort p.name = true :=
      List.any_eq_true.mpr ⟨(p.name, p.role), List.mem_map_of_mem hp, beq_self_eq_true _⟩
    have hp : bindings.get? p.name = bound? bs n.id p.name :=
      (hget p.name hport).trans (Option.or_none ..)
    simp only [Function.comp_apply, Pass.command?, hp]
    rfl
  simp only [Pass.commands, Node.block, hports]
  rfl

/-! ## All passes -/

theorem keys_bind (placed : List Placed) (b : Binding) :
    (bind placed b).map (·.1) = placed.map (·.1) := by
  unfold bind
  split
  · rfl
  · refine List.ext_getElem? fun k => ?_
    rw [List.getElem?_map, List.getElem?_modify, List.getElem?_map]
    cases placed[k]? with
    | none => rfl
    | some e => simp only [Option.map_eq_map, Option.map_some]; split <;> rfl

/-- Wiring leaves every pass where it is. -/
theorem keys_bindAll (placed : List Placed) (bs : List Binding) :
    (bindAll placed bs).map (·.1) = placed.map (·.1) := by
  unfold bindAll
  induction bs generalizing placed with
  | nil => rfl
  | cons b bs ih => rw [List.foldl_cons, ih, keys_bind]

/-- One binding, offered to every pass: ids that are distinct single out the one it is for. -/
theorem bind_eq_map {placed : List Placed} (hids : (placed.map (·.1)).Nodup) (b : Binding) :
    bind placed b = placed.map fun e => (e.1, wire e.1 e.2 b) := by
  refine List.ext_getElem? fun k => ?_
  rw [List.getElem?_map]
  unfold bind index?
  split
  · next hnone =>
    cases hk : placed[k]? with
    | none => rfl
    | some e =>
      have hne : b.point.node ≠ e.1 := fun h =>
        lastIndex?_eq_none.mp hnone (h ▸ List.mem_map_of_mem (List.mem_of_getElem? hk))
      rw [Option.map_some, wire, if_neg hne]
  · next i hi =>
    rw [List.getElem?_modify]
    cases hk : placed[k]? with
    | none => rfl
    | some e =>
      have hkey : (placed.map (·.1))[k]? = some e.1 := by
        rw [List.getElem?_map, hk, Option.map_some]
      by_cases hik : i = k
      · subst hik
        have hnode : b.point.node = e.1 :=
          Option.some.inj ((getElem?_of_lastIndex? hi).symm.trans hkey)
        simp only [if_true, Option.map_eq_map, Option.map_some, wire, hnode]
      · have hnode : b.point.node ≠ e.1 := fun h =>
          hik (Option.some.inj (hi.symm.trans (h ▸ lastIndex?_of_nodup hids hkey)))
        simp only [hik, if_false, Option.map_some, wire, hnode, id_map']

theorem bindAll_eq_map {placed : List Placed} (hids : (placed.map (·.1)).Nodup)
    (bs : List Binding) :
    bindAll placed bs = placed.map fun e => (e.1, bs.foldl (wire e.1) e.2) := by
  unfold bindAll
  induction bs generalizing placed with
  | nil => simp
  | cons b bs ih =>
    have hkeep : (placed.map fun e => (e.1, wire e.1 e.2 b)).map (·.1) = placed.map (·.1) := by
      rw [List.map_map]
      rfl
    rw [List.foldl_cons, bind_eq_map hids, ih (hkeep ▸ hids), List.map_map]
    rfl

theorem passes_standard (order : List Node) :
    passes .standard order = (order.filter (·.isPass)).map fun n => (n.id, .ofNode n) := by
  unfold passes
  induction order with
  | nil => rfl
  | cons n order ih =>
    rw [List.filterMap_cons, List.filter_cons, ih, PassFactory.standard_eq]
    cases n.isPass <;> rfl

/-- A frame is the passes of the nodes in order, each using what its ports are bound to. -/
theorem run_bindAll {order : List Node} (hids : (order.map (·.id)).Nodup) (bs : List Binding)
    (frame : Nat) :
    ((bindAll (passes .standard order) bs).map (·.2)).flatMap (·.commands frame) =
      (order.filter (·.isPass)).flatMap fun n => n.block frame fun p => bound? bs n.id p.name := by
  have hplaced : (passes .standard order).map (·.1) = (order.filter (·.isPass)).map (·.id) := by
    rw [passes_standard, List.map_map]
    rfl
  have hnodup : ((passes .standard order).map (·.1)).Nodup :=
    hplaced ▸ (List.filter_sublist.map _).nodup hids
  rw [bindAll_eq_map hnodup, passes_standard, List.map_map, List.map_map, List.flatMap_map]
  simp only [Function.comp_apply, commands_wired]

end Wiring

end FrameGraph
