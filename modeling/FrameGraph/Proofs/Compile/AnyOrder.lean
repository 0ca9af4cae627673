import FrameGraph.Proofs.Compile.Outcome
import FrameGraph.Proofs.Compile.Reference
import FrameGraph.Proofs.Order.Least
import FrameGraph.Proofs.Packing.Similar

/-!
# Snapshots in any order

A snapshot lists its nodes and edges in some order, and no result of a compile depends on it
(`compile_similar`). Nothing is asked of the snapshot but that ids are distinct: its edges may end
at nodes that are not there, may stand twice or meet in one input, and ports may share names, so
that several buckets are bound at one name. The last of these counts, and that is settled by the
numbers of the buckets, not by the order of uses in one of them (`Wiring.bound?_similar`).
-/

namespace FrameGraph

/-! ## Allocation and wiring -/

/-- Buckets that are alike get the same resources, or the same error. -/
theorem Allocation.resources_similar {δ : Type} [Allocator δ] {a : Allotment} {d : δ}
    {bs cs : List Bucket} (h : List.Forall₂ Bucket.Similar bs cs) :
    (Allocation.of a d bs).resources = (Allocation.of a d cs).resources :=
  resources_congr (h.imp fun _ _ hb => ⟨hb.id, hb.spec⟩)

namespace Wiring

theorem bound?_append (bs cs : List Binding) (node : NodeId) (name : String) :
    bound? (bs ++ cs) node name = (bound? cs node name).or (bound? bs node name) := by
  rw [bound?, List.reverse_append, List.find?_append, Option.map_or, bound?, bound?]

/-- A bucket is bound at a port if one of its uses is there, whichever it is. -/
theorem bound?_points (id : BucketId) (points : List UsagePoint) (node : NodeId) (name : String) :
    bound? (points.map (⟨id, ·⟩)) node name =
      if points.any fun u => u.node == node && u.portName == name then some id else none := by
  split
  · next h =>
    obtain ⟨u, hu, hfor⟩ := List.any_eq_true.mp h
    refine bound?_eq_some ⟨⟨id, u⟩, List.mem_map_of_mem hu, hfor⟩ fun b hb _ => ?_
    obtain ⟨_, -, rfl⟩ := List.mem_map.mp hb
    rfl
  · next h =>
    refine bound?_eq_none fun b hb => ?_
    obtain ⟨u, hu, rfl⟩ := List.mem_map.mp hb
    exact Bool.eq_false_iff.mpr fun hfor => h (List.any_eq_true.mpr ⟨u, hu, hfor⟩)

theorem bound?_similar {bs cs : List Bucket} (h : List.Forall₂ Bucket.Similar bs cs)
    (t : ResourceTable) (node : NodeId) (name : String) :
    bound? (bindings bs t) node name = bound? (bindings cs t) node name := by
  induction h with
  | nil => rfl
  | cons hb _ ih =>
    unfold bindings at ih ⊢
    rw [List.filter_cons, List.filter_cons, hb.id]
    split
    · rw [List.flatMap_cons, List.flatMap_cons, bound?_append, bound?_append, ih, bound?_points,
        bound?_points, hb.points.any_eq, hb.id]
    · exact ih

end Wiring

/-! ## Compiles -/

/-- Results that differ in nothing but the order of uses and of consumers in buckets. -/
structure CompileResult.Similar (r r' : CompileResult) : Prop where
  success : r.success = r'.success
  error : r.error = r'.error
  order : r.order = r'.order
  packing : Option.Rel (fun p p' => List.Forall₂ Bucket.Similar p.buckets p'.buckets)
    r.packing r'.packing
  plan : Option.Rel (fun p p' => p.resources = p'.resources ∧ ∀ frame, p.run frame = p'.run frame)
    r.plan r'.plan

section

variable {δ : Type} [Allocator δ] {w : Workshop δ} {verbose : Bool} {nodes nodes' : List Node}
  {edges edges' : List Edge}

theorem CompileResult.Fails.similar {r r' : CompileResult} {err : CompileError}
    {s s' : Option Schedule} (h : r.Fails err s) (h' : r'.Fails err s')
    (hs : Option.Rel (fun s s' => s.order = s'.order ∧
      List.Forall₂ Bucket.Similar s.packing.buckets s'.packing.buckets) s s') : r.Similar r' := by
  refine ⟨?_, ?_, ?_, ?_, ?_⟩
  · rw [h.success, h'.success]
  · rw [h.error, h'.error]
  · rw [h.order, h'.order]
    cases hs with
    | none => rfl
    | some hs => rw [Option.map_some, Option.map_some, hs.1]
  · rw [h.packing, h'.packing]
    cases hs with
    | none => exact .none
    | some hs => exact .some hs.2
  · rw [h.plan, h'.plan]
    exact .none

theorem Schedule.of_similar (strategy : Strategy) (hids : (nodes.map (·.id)).Nodup)
    (hnodes : nodes.Perm nodes') (hedges : edges.Perm edges') :
    (∃ err, Schedule.of strategy nodes edges = .error err ∧
      Schedule.of strategy nodes' edges' = .error err) ∨
    ∃ order, (order.map (·.id)).Nodup ∧
      Schedule.of strategy nodes edges = .ok ⟨order, .pack strategy order edges⟩ ∧
      Schedule.of strategy nodes' edges' = .ok ⟨order, .pack strategy order edges'⟩ := by
  rcases reachable_perm hnodes hedges with ⟨err, h, h'⟩ | ⟨kept, kept', h, h', hperm, hsub⟩
  · exact .inl ⟨err, Schedule.of_unreachable h, Schedule.of_unreachable h'⟩
  · have hkept : (kept.map (·.id)).Nodup := (hsub.map _).nodup hids
    have heq := inOrder_eq_of_perm hkept hperm hedges
    cases horder : inOrder kept edges with
    | error err =>
      exact .inl ⟨err, Schedule.of_unordered h horder,
        Schedule.of_unordered h' (heq.symm.trans horder)⟩
    | ok order =>
      exact .inr ⟨order, ((inOrder_perm horder).map _).nodup_iff.mpr hkept,
        Schedule.of_inOrder h horder, Schedule.of_inOrder h' (heq.symm.trans horder)⟩

/-- A compile gives the same for the same nodes and edges, in whatever order they are listed. -/
theorem compile_similar (hfactory : w.factory = .standard) (hids : (nodes.map (·.id)).Nodup)
    (hnodes : nodes.Perm nodes') (hedges : edges.Perm edges') :
    (compile w verbose nodes edges).result.Similar (compile w verbose nodes' edges').result := by
  rcases Schedule.of_similar w.settings.strategy hids hnodes hedges with
    ⟨err, h, h'⟩ | ⟨order, hnodup, h, h'⟩
  · exact (compile_unscheduled h).similar (compile_unscheduled h') .none
  · have hbuckets := Packing.pack_similar w.settings.strategy order hedges
    have hresources := Allocation.resources_similar (a := w.allotment) (d := w.device) hbuckets
    cases ht : (Allocation.of w.allotment w.device
      (Packing.pack w.settings.strategy order edges).buckets).resources with
    | error err =>
      exact (compile_unallocated h ht).similar
        (compile_unallocated h' (hresources.symm.trans ht)) (.some ⟨rfl, hbuckets⟩)
    | ok t =>
      have hf : (compile w verbose nodes edges).result.Finishes _ _ := compile_finished h ht
      have hf' : (compile w verbose nodes' edges').result.Finishes _ _ :=
        compile_finished h' (hresources.symm.trans ht)
      refine ⟨?_, ?_, ?_, ?_, ?_⟩
      · rw [hf.success, hf'.success]
      · rw [hf.error, hf'.error]
      · rw [hf.order, hf'.order]
      · rw [hf.packing, hf'.packing]
        exact .some hbuckets
      · rw [hf.plan, hf'.plan]
        refine .some ⟨rfl, fun frame => ?_⟩
        simp only [Plan.run, Compile.assemble, hfactory, Wiring.run_bindAll hnodup,
          Wiring.bound?_similar hbuckets]

end

/-- A chain of blurs, listed from its end. -/
theorem blurChain_reversed :
    let w : Workshop := { device := {}, clock := ⟨"", "", ""⟩ }
    let e := Editor.blurChain
    (compile w false e.nodes e.edges).result.success = true ∧
      (compile w false e.nodes e.edges).result.Similar
        (compile w false e.nodes.reverse e.edges.reverse).result := by
  intro w e
  refine ⟨by decide +kernel, ?_⟩
  exact compile_similar rfl (by decide) (List.reverse_perm _).symm (List.reverse_perm _).symm

end FrameGraph
