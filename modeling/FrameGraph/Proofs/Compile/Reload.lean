import FrameGraph.Proofs.Editor.Reload
import FrameGraph.Proofs.Renumber.Compile

/-!
# Compiles after a reload

A graph of catalogue nodes that is saved and loaded again has other ids, and is compiled to the same
plan (`Editor.CatalogueReachable.compile_reloaded`): removals leave gaps in the ids of a graph, but
never change the order of its nodes, so that counting ids anew keeps it.
-/

namespace FrameGraph

/-- The standard factory reads no ids. -/
theorem PassFactory.standard_renumber (ρ : Nat → Nat) (n : Node) :
    standard (n.renumber ρ) = standard n := by
  have hpass : Pass.ofNode (n.renumber ρ) = .ofNode n := by
    unfold Pass.ofNode
    rw [Node.ports_renumber, List.map_map]
    rfl
  rw [standard_eq, standard_eq, hpass]
  rfl

namespace Editor

/-- Saving a graph of catalogue nodes and loading it again never changes what it is compiled to:
with the same settings and the same device, the plan is the same with all that it runs, or else the
error is the same up to the ids that it names, and the buckets are the same in number, specs and
ranges. -/
theorem CatalogueReachable.compile_reloaded {δ : Type} [Allocator δ] {w : Workshop δ}
    {e : Editor} (h : e.CatalogueReachable) (hfactory : w.factory = .standard) (verbose : Bool) :
    ∃ e', e.describe.load = .ok e' ∧
      let result := (compile w verbose e.nodes e.edges).result
      let result' := (compile w verbose e'.nodes e'.edges).result
      result'.success = result.success ∧
      result'.error = result.error.map (.renumber e.rank) ∧
      result'.plan = result.plan ∧
      result'.order = result.order.map e.rank ∧
      result'.packing.map (·.buckets.map fun b => (b.id, b.spec, b.span)) =
        result.packing.map (·.buckets.map fun b => (b.id, b.spec, b.span)) := by
  have hc := h.reachable.consistent
  have hrenumbers := hc.toWellFormed.renumbers (map_rank hc.ids_nodup)
  have hcompiled := compile_renumber (w := w)
    (fun n => hfactory ▸ PassFactory.standard_renumber _ n) hrenumbers verbose
  refine ⟨_, h.catalogued.load_describe hc, hcompiled.success, hcompiled.error, hcompiled.plan,
    hcompiled.order, ?_⟩
  have hbuckets := congrArg
    (Option.map fun buckets : List Bucket => buckets.map fun b => (b.id, b.spec, b.span))
    hcompiled.buckets
  simp only [Option.map_map, Function.comp_def, List.map_map] at hbuckets
  exact hbuckets

/-- A blur between the G-buffer and the present node, added after another blur that is gone. -/
def gappedBlur : Editor :=
  [Edit.addKind .gaussianBlur, .addNamed "Soft" .gaussianBlur, .remove 13,
    .connect 0 "Scene" 5 "Scene", .connect 5 "Position" 16 "Image",
    .connect 16 "Blurred Image" 11 "Final Image"].foldl apply seeded

theorem gappedBlur_reloaded :
    let w : Workshop := { device := {}, clock := ⟨"", "", ""⟩ }
    let result := (compile w false gappedBlur.nodes gappedBlur.edges).result
    result.success = true ∧ result.order = [0, 5, 16, 11] ∧
      ∃ e', gappedBlur.describe.load = .ok e' ∧
        let result' := (compile w false e'.nodes e'.edges).result
        result'.order = [0, 5, 13, 11] ∧ result'.plan = result.plan := by
  intro w result
  have horder : result.order = [0, 5, 16, 11] := by decide +kernel
  have hreachable : gappedBlur.CatalogueReachable :=
    CatalogueReachable.seeded.foldl _ (by simp [Edit.FromCatalogue])
  obtain ⟨e', hload, -, -, hplan, horder', -⟩ :=
    CatalogueReachable.compile_reloaded (w := w) hreachable rfl false
  have hrank : [0, 5, 16, 11].map gappedBlur.rank = [0, 5, 13, 11] := by decide +kernel
  refine ⟨by decide +kernel, horder, e', hload, ?_, hplan⟩
  rw [horder', ← hrank, ← horder]

end Editor

end FrameGraph
