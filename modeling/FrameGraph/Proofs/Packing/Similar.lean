import FrameGraph.Proofs.Packing.Residents
import Mathlib.Data.List.Forall2

/-!
# Packing edges in any order

The order in which edges are listed is the order in which a logical resource has its consumers, and
reaches nothing else that packing looks at: spans are bounds of positions, and members are placed in
execution order. So the buckets agree one by one, up to the order of the consumers of their origins
and of uses at one position (`Packing.pack_similar`).
-/

namespace FrameGraph

theorem Span.extend_right_comm (s : Span) (i j : Nat) :
    (s.extend i).extend j = (s.extend j).extend i := by
  simp only [extend, hull, point, Span.mk.injEq]
  omega

namespace Logical

/-- The same resource, with its consumers in any order. -/
inductive Similar (x : Logical) : Logical → Prop
  | consumers {cs : List Consumer} : x.consumers.Perm cs → x.Similar { x with consumers := cs }

variable {x y : Logical}

theorem Similar.span (h : x.Similar y) : x.span = y.span := by
  cases h with
  | consumers hperm => exact hperm.foldl_eq' (fun _ _ _ _ s => s.extend_right_comm ..) _

theorem Similar.points (h : x.Similar y) : x.points.Perm y.points := by
  cases h with
  | consumers hperm => exact (hperm.map x.readAt).cons x.origin

theorem Similar.spec (h : x.Similar y) : x.spec = y.spec := by
  cases h
  rfl

theorem Similar.port (h : x.Similar y) : x.port = y.port := by
  cases h
  rfl

theorem all_similar (order : List Node) {edges edges' : List Edge} (h : edges.Perm edges') :
    List.Forall₂ Similar (all order edges) (all order edges') := by
  rw [all, all, List.forall₂_map_left_iff, List.forall₂_map_right_iff, List.forall₂_same]
  intro ⟨i, n, p⟩ _
  exact .consumers ((h.filter _).filterMap _)

end Logical

namespace Bucket

/-- The same bucket, with its uses and the consumers of its origin in any order. -/
structure Similar (b c : Bucket) : Prop where
  id : b.id = c.id
  origin : b.origin.Similar c.origin
  members : b.members = c.members
  points : b.points.Perm c.points
  span : b.span = c.span

variable {b c : Bucket} {x y : Logical}

theorem Similar.spec (h : b.Similar c) : b.spec = c.spec := h.origin.spec

theorem Similar.accepts (h : b.Similar c) (hx : x.Similar y) : b.accepts x = c.accepts y := by
  have haliasable : b.origin.isAliasable = c.origin.isAliasable :=
    congrArg (fun spec : PortSpec => spec.payload.isAliasable) h.spec
  rw [Bucket.accepts, Bucket.accepts, haliasable, h.span, h.spec, hx.span, hx.spec]

theorem single_similar (id : BucketId) (hx : x.Similar y) :
    (single id x).Similar (single id y) where
  id := rfl
  origin := hx
  members := by rw [single, single, hx.port]
  points := (sortPoints_perm _).trans (hx.points.trans (sortPoints_perm _).symm)
  span := hx.span

theorem Similar.merge (h : b.Similar c) (hx : x.Similar y) : (b.merge x).Similar (c.merge y) where
  id := h.id
  origin := h.origin
  members := by rw [Bucket.merge, Bucket.merge, h.members, hx.port]
  points := (sortPoints_perm _).trans ((h.points.append hx.points).trans (sortPoints_perm _).symm)
  span := by rw [Bucket.merge, Bucket.merge, h.span, hx.span]

end Bucket

namespace Packing

variable {bs cs : List Bucket} {x y : Logical}

theorem mergeFirst_similar (h : List.Forall₂ Bucket.Similar bs cs) (hx : x.Similar y) :
    List.Forall₂ Bucket.Similar (mergeFirst x bs) (mergeFirst y cs) := by
  induction h with
  | nil => exact .nil
  | cons hb hbs ih =>
    rw [mergeFirst, mergeFirst, hb.accepts hx]
    split
    · exact .cons (hb.merge hx) hbs
    · exact .cons hb ih

theorem isSome_target?_similar (strategy : Strategy) (h : List.Forall₂ Bucket.Similar bs cs)
    (hx : x.Similar y) : (target? strategy bs x).isSome = (target? strategy cs y).isSome := by
  cases strategy with
  | naive => rfl
  | optimized =>
    have haliasable : x.isAliasable = y.isAliasable :=
      congrArg (fun spec : PortSpec => spec.payload.isAliasable) hx.spec
    simp only [target?, haliasable]
    split
    · induction h with
      | nil => rfl
      | cons hb _ ih =>
        rw [List.find?_cons, List.find?_cons, hb.accepts hx]
        split
        · rfl
        · exact ih
    · rfl

theorem place_similar (strategy : Strategy) (h : List.Forall₂ Bucket.Similar bs cs)
    (hx : x.Similar y) :
    List.Forall₂ Bucket.Similar (place strategy bs x) (place strategy cs y) := by
  have htarget := isSome_target?_similar strategy h hx
  unfold place
  cases hbs : target? strategy bs x <;> cases hcs : target? strategy cs y <;>
    rw [hbs, hcs] at htarget
  · rw [h.length_eq]
    exact List.rel_append h (.cons (Bucket.single_similar _ hx) .nil)
  · cases htarget
  · cases htarget
  · exact mergeFirst_similar h hx

theorem foldl_place_similar (strategy : Strategy) {xs ys : List Logical}
    (hxs : List.Forall₂ Logical.Similar xs ys) (h : List.Forall₂ Bucket.Similar bs cs) :
    List.Forall₂ Bucket.Similar (xs.foldl (place strategy) bs) (ys.foldl (place strategy) cs) := by
  induction hxs generalizing bs cs with
  | nil => exact h
  | cons hx _ ih => exact ih (place_similar strategy h hx)

/-- The same nodes with the same edges in any order are packed alike. -/
theorem pack_similar (strategy : Strategy) (order : List Node) {edges edges' : List Edge}
    (h : edges.Perm edges') :
    List.Forall₂ Bucket.Similar (pack strategy order edges).buckets
      (pack strategy order edges').buckets :=
  foldl_place_similar strategy (Logical.all_similar order h) .nil

end Packing

end FrameGraph
