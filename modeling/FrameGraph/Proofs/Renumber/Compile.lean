import FrameGraph.Proofs.Compile.Outcome
import FrameGraph.Proofs.Compile.Reference
import FrameGraph.Proofs.Renumber.Order
import FrameGraph.Proofs.Renumber.Packing

/-!
# Compiles under other ids

No stage of a compile looks at ids but to compare them, and what a frame does is said in names of
passes and ports and in numbers of buckets. A snapshot under other ids is therefore compiled to the
same plan, or refused for the same reason (`compile_renumber`).
-/

namespace FrameGraph

variable {ρ : Nat → Nat} {nodes : List Node} {edges : List Edge}

/-! ## Scheduling -/

theorem Schedule.of_renumber (strategy : Strategy) (h : Renumbers ρ nodes edges) :
    (∃ err, Schedule.of strategy nodes edges = .error err ∧
      Schedule.of strategy (nodes.map (.renumber ρ)) (edges.map (.renumber ρ)) =
        .error (err.renumber ρ)) ∨
    ∃ order ⊆ nodes, Schedule.of strategy nodes edges = .ok ⟨order, .pack strategy order edges⟩ ∧
      Schedule.of strategy (nodes.map (.renumber ρ)) (edges.map (.renumber ρ)) =
        .ok ⟨order.map (.renumber ρ),
          .pack strategy (order.map (.renumber ρ)) (edges.map (.renumber ρ))⟩ := by
  have hreachable := reachable_renumber h
  rcases reachable_cases nodes edges with ⟨-, hkept⟩ | ⟨n, -, -, hkept⟩ | ⟨-, hkept⟩
  · rw [hkept] at hreachable
    exact .inl ⟨_, of_unreachable hkept, of_unreachable hreachable⟩
  · rw [hkept] at hreachable
    have hsub : (nodes.filter fun m => (Reachability.visited edges n.id).contains m.id) ⊆ nodes :=
      List.filter_subset_self _
    have hinOrder := inOrder_renumber (h.of_subset hsub)
    cases horder : inOrder _ edges with
    | error err =>
      rw [horder] at hinOrder
      exact .inl ⟨err, of_unordered hkept horder, of_unordered hreachable hinOrder⟩
    | ok order =>
      rw [horder] at hinOrder
      exact .inr ⟨order, List.Subset.trans (inOrder_perm horder).subset hsub,
        of_inOrder hkept horder, of_inOrder hreachable hinOrder⟩
  · rw [hkept] at hreachable
    exact .inl ⟨_, of_unreachable hkept, of_unreachable hreachable⟩

/-! ## Allocation and wiring -/

section

variable {δ : Type} [Allocator δ] {a : Allotment} {d : δ} {err : CompileError}

theorem Allotment.error_renumber {b : Bucket} (h : (a.back d b).1 = .error err) :
    err.renumber ρ = err := by
  cases himage : b.imageKind? with
  | some kind =>
    rw [back_image himage] at h
    cases hcreate : (Allocator.create d kind (a.descriptor b)).1 with
    | error refused =>
      rw [hcreate] at h
      cases h
      rfl
    | ok image =>
      rw [hcreate] at h
      cases h
  | none =>
    by_cases hunknown : b.payload = .unknown
    · rw [back_unknown hunknown] at h
      split at h
      · cases h
        rfl
      · cases h
    · obtain ⟨_, hback⟩ := back_handle (a := a) (d := d) himage hunknown
      rw [hback] at h
      cases h

/-- Allocation names no nodes in its errors. -/
theorem Allocation.error_renumber {buckets : List Bucket}
    (h : (Allocation.of a d buckets).resources = .error err) : err.renumber ρ = err := by
  induction buckets generalizing d with
  | nil => cases h
  | cons b buckets ih =>
    rw [resources_cons] at h
    cases hback : (a.back d b).1 with
    | error err' =>
      rw [hback] at h
      cases h
      exact Allotment.error_renumber hback
    | ok backing? =>
      cases hrest : (Allocation.of a (a.back d b).2 buckets).resources with
      | error err' =>
        simp only [hback, hrest] at h
        cases h
        exact ih hrest
      | ok t =>
        simp only [hback, hrest] at h
        cases h

end

theorem Allocation.resources_renumber {δ : Type} [Allocator δ] (a : Allotment) (d : δ)
    (buckets : List Bucket) :
    (Allocation.of a d (buckets.map (.renumber ρ))).resources =
      (Allocation.of a d buckets).resources := by
  refine resources_congr ?_
  rw [List.forall₂_map_left_iff, List.forall₂_same]
  exact fun b _ => ⟨rfl, rfl⟩

namespace Wiring

section

variable (ρ : Nat → Nat)

def Binding.renumber (b : Binding) : Binding := { b with point := b.point.renumber ρ }

/-- The pass with another id for its node. -/
def Placed.renumber (e : Placed) : Placed := (ρ e.1, e.2)

end

theorem passes_renumber {factory : PassFactory} (hfactory : ∀ n, factory (n.renumber ρ) = factory n)
    (order : List Node) :
    passes factory (order.map (.renumber ρ)) =
      (passes factory order).map (Placed.renumber ρ) := by
  unfold passes
  rw [List.filterMap_map, List.map_filterMap]
  refine List.filterMap_congr fun n _ => ?_
  rw [Function.comp_apply, hfactory, Option.map_map]
  rfl

theorem bindings_renumber (buckets : List Bucket) (t : ResourceTable) :
    bindings (buckets.map (.renumber ρ)) t = (bindings buckets t).map (.renumber ρ) := by
  unfold bindings
  rw [List.filter_map, List.flatMap_map, List.map_flatMap]
  refine congrArg (List.flatMap · _) (funext fun b => ?_)
  rw [Bucket.renumber, List.map_map, List.map_map]
  rfl

variable {placed : List Placed}

/-- A binding is made for the pass of the same node, if other ids tell it from the others. -/
theorem bind_renumber {b : Binding}
    (h : ∀ e ∈ placed, ρ e.1 = ρ b.point.node → e.1 = b.point.node) :
    bind (placed.map (Placed.renumber ρ)) (b.renumber ρ) =
      (bind placed b).map (Placed.renumber ρ) := by
  have hindex : index? (placed.map (Placed.renumber ρ)) (b.renumber ρ).point.node =
      index? placed b.point.node := by
    have hkeys : (placed.map (Placed.renumber ρ)).map (·.1) = (placed.map (·.1)).map ρ := by
      rw [List.map_map, List.map_map]
      rfl
    rw [index?, hkeys]
    change lastIndex? (ρ b.point.node) _ = _
    refine lastIndex?_map fun id hid => ?_
    obtain ⟨e, he, rfl⟩ := List.mem_map.mp hid
    exact h e he
  unfold bind
  rw [hindex]
  cases index? placed b.point.node with
  | none => rfl
  | some i =>
    refine List.ext_getElem? fun k => ?_
    simp only [List.getElem?_modify, List.getElem?_map]
    cases placed[k]? with
    | none => rfl
    | some e =>
      simp only [Option.map_some]
      split <;> rfl

theorem bindAll_renumber {bs : List Binding}
    (h : ∀ b ∈ bs, ∀ e ∈ placed, ρ e.1 = ρ b.point.node → e.1 = b.point.node) :
    bindAll (placed.map (Placed.renumber ρ)) (bs.map (.renumber ρ)) =
      (bindAll placed bs).map (Placed.renumber ρ) := by
  unfold bindAll
  induction bs generalizing placed with
  | nil => rfl
  | cons b bs ih =>
    rw [List.map_cons, List.foldl_cons, List.foldl_cons,
      bind_renumber (h b List.mem_cons_self)]
    refine ih fun c hc e he => ?_
    have hkey : e.1 ∈ placed.map (·.1) := keys_bind placed b ▸ List.mem_map_of_mem he
    obtain ⟨e', he', hid⟩ := List.mem_map.mp hkey
    rw [← hid]
    exact h c (List.mem_cons_of_mem _ hc) e' he'

/-- A binding is for a node that is packed. -/
theorem exists_node_of_binding {strategy : Strategy} {t : ResourceTable} {b : Binding}
    (hb : b ∈ bindings (Packing.pack strategy nodes edges).buckets t) :
    ∃ n ∈ nodes, n.id = b.point.node := by
  obtain ⟨c, hc, -, u, hu, rfl⟩ := mem_bindings.mp hb
  obtain ⟨x, hx, hux⟩ := (Packing.holds_placeAll c hc).mem_points.mp hu
  obtain ⟨n, hn, hid⟩ :=
    Logical.getElem?_position ((Packing.residents_sublist ..).subset hx) hux
  exact ⟨n, List.mem_of_getElem? hn, hid⟩

end Wiring

section

variable {δ : Type} {w : Workshop δ}
  (hfactory : ∀ n, w.factory (n.renumber ρ) = w.factory n)

include hfactory

/-- The plan does not change at all. -/
theorem Compile.assemble_renumber (h : Renumbers ρ nodes edges) (strategy : Strategy)
    (t : ResourceTable) :
    assemble w ⟨nodes.map (.renumber ρ),
        .pack strategy (nodes.map (.renumber ρ)) (edges.map (.renumber ρ))⟩ t =
      assemble w ⟨nodes, .pack strategy nodes edges⟩ t := by
  have happart : ∀ b ∈ Wiring.bindings (Packing.pack strategy nodes edges).buckets t,
      ∀ e ∈ Wiring.passes w.factory nodes, ρ e.1 = ρ b.point.node → e.1 = b.point.node := by
    intro b hb e he
    obtain ⟨m, hm, hid⟩ := Wiring.exists_node_of_binding hb
    obtain ⟨n, hn, hpass⟩ := List.mem_filterMap.mp he
    obtain ⟨pass, -, rfl⟩ := Option.map_eq_some_iff.mp hpass
    rw [← hid]
    exact (h.eq_iff (.node hn) (.node hm)).mp
  unfold assemble
  simp only [Packing.pack_renumber strategy h, Wiring.passes_renumber hfactory,
    Wiring.bindings_renumber, Wiring.bindAll_renumber happart, List.map_map]
  rfl

end

/-! ## Compiles -/

/-- Results of which the second has other ids for nodes and ports, and differs in nothing else. -/
structure CompileResult.Renumbered (ρ : Nat → Nat) (r r' : CompileResult) : Prop where
  success : r'.success = r.success
  error : r'.error = r.error.map (.renumber ρ)
  plan : r'.plan = r.plan
  order : r'.order = r.order.map ρ
  buckets : r'.packing.map (·.buckets) = r.packing.map (·.buckets.map (.renumber ρ))

theorem CompileResult.Fails.renumber {r r' : CompileResult} {err : CompileError}
    {s s' : Option Schedule} (h : r.Fails err s) (h' : r'.Fails (err.renumber ρ) s')
    (horder : s'.map (·.order) = s.map (·.order.map (.renumber ρ)))
    (hbuckets : s'.map (·.packing.buckets) = s.map (·.packing.buckets.map (.renumber ρ))) :
    r.Renumbered ρ r' where
  success := by rw [h.success, h'.success]
  error := by rw [h.error, h'.error, Option.map_some]
  plan := by rw [h.plan, h'.plan]
  order := by
    have hids := congrArg (Option.map fun order : List Node => order.map (·.id)) horder
    simp only [Option.map_map, Function.comp_def, Order.map_id_renumber] at hids
    rw [h.order, h'.order, hids]
    cases s <;> rfl
  buckets := by rw [h.packing, h'.packing, Option.map_map, Option.map_map]; exact hbuckets

/-- A snapshot under other ids is compiled to the same plan, or refused for the same reason. -/
theorem compile_renumber {δ : Type} [Allocator δ] {w : Workshop δ}
    (hfactory : ∀ n, w.factory (n.renumber ρ) = w.factory n) (h : Renumbers ρ nodes edges)
    (verbose : Bool) :
    (compile w verbose nodes edges).result.Renumbered ρ
      (compile w verbose (nodes.map (.renumber ρ)) (edges.map (.renumber ρ))).result := by
  rcases Schedule.of_renumber w.settings.strategy h with
    ⟨err, hs, hs'⟩ | ⟨order, hsub, hs, hs'⟩
  · exact (compile_unscheduled hs).renumber (compile_unscheduled hs') rfl rfl
  · have h := h.of_subset hsub
    have hbuckets := Packing.pack_renumber w.settings.strategy h
    have hresources := Allocation.resources_renumber (ρ := ρ) w.allotment w.device
      (Packing.pack w.settings.strategy order edges).buckets
    rw [← hbuckets] at hresources
    cases ht : (Allocation.of w.allotment w.device
      (Packing.pack w.settings.strategy order edges).buckets).resources with
    | error err =>
      have ht' := hresources.trans ht
      rw [← Allocation.error_renumber (ρ := ρ) ht] at ht'
      exact (compile_unallocated hs ht).renumber (compile_unallocated hs' ht') rfl
        (congrArg some hbuckets)
    | ok t =>
      have hf : (compile w verbose nodes edges).result.Finishes _ _ := compile_finished hs ht
      have hf' : (compile w verbose (nodes.map (.renumber ρ)) _).result.Finishes _ _ :=
        compile_finished hs' (hresources.trans ht)
      refine ⟨?_, ?_, ?_, ?_, ?_⟩
      · rw [hf.success, hf'.success]
      · rw [hf.error, hf'.error, Option.map_none]
      · rw [hf.plan, hf'.plan, Compile.assemble_renumber hfactory h]
      · rw [hf.order, hf'.order, Order.map_id_renumber]
      · rw [hf.packing, hf'.packing]
        exact congrArg some hbuckets

end FrameGraph
