import FrameGraph.Proofs.Packing.Logicals
import FrameGraph.Proofs.Packing.Residents
import FrameGraph.Proofs.Renumber.Snapshot

/-!
# Packing under other ids

Packing compares signatures and positions, and an id serves it only to find the edges that lead
from a port (`Logical.all_renumber`). Once these are found, ids are carried along and no longer
looked at (`Packing.placeAll_renumber`).
-/

namespace FrameGraph

section

variable (ρ : Nat → Nat)

def Consumer.renumber (c : Consumer) : Consumer := { c with node := ρ c.node, port := ρ c.port }

def Logical.renumber (x : Logical) : Logical :=
  { x with node := ρ x.node, port := ρ x.port, consumers := x.consumers.map (.renumber ρ) }

def UsagePoint.renumber (u : UsagePoint) : UsagePoint :=
  { u with resource := ρ u.resource, node := ρ u.node }

/-- The bucket with other ids for what it holds. It keeps its own number. -/
def Bucket.renumber (b : Bucket) : Bucket :=
  { b with
    origin := b.origin.renumber ρ
    members := b.members.map ρ
    points := b.points.map (.renumber ρ) }

end

variable {ρ : Nat → Nat}

/-! ## Logical resources -/

namespace Logical

theorem span_renumber (x : Logical) : (x.renumber ρ).span = x.span := by
  unfold span renumber
  rw [List.foldl_map]
  rfl

theorem points_renumber (x : Logical) : (x.renumber ρ).points = x.points.map (.renumber ρ) := by
  unfold points
  rw [List.map_cons, renumber, List.map_map, List.map_map]
  rfl

variable {nodes : List Node} {edges : List Edge}

theorem outputs_renumber (nodes : List Node) :
    outputs (nodes.map (.renumber ρ)) =
      (outputs nodes).map fun (i, n, p) => (i, n.renumber ρ, p.renumber ρ) := by
  unfold outputs
  rw [List.zipIdx_map, List.flatMap_map, List.map_flatMap]
  refine congrArg (List.flatMap · _) (funext fun (n, i) => ?_)
  simp only [Prod.map_apply, id_eq, Node.outputs_renumber, List.map_map]
  rfl

section

variable (h : Renumbers ρ nodes edges) {n : Node} (hn : n ∈ nodes)

include h hn

theorem outgoing_renumber {p : Port} (hp : p ∈ n.ports) :
    outgoing (edges.map (.renumber ρ)) (ρ n.id) (ρ p.id) =
      (outgoing edges n.id p.id).map (.renumber ρ) := by
  unfold outgoing
  rw [List.filter_map]
  refine congrArg _ (List.filter_congr fun e he => ?_)
  have hstart := h.isAt_eq (.startNode he) (.startPort he) (.node hn) (.port hn hp)
  have hstop := h.beq_eq (.stopNode he) (.node hn)
  change ((e.start.renumber ρ).isAt (ρ n.id) (ρ p.id) && !(ρ e.stop.node == ρ n.id)) = _
  rw [hstart, hstop]
  rfl

theorem port?_renumber {id : PortId} (hid : Numbered nodes edges id) :
    (n.renumber ρ).port? (ρ id) = (n.port? id).map (.renumber ρ) := by
  unfold Node.port?
  rw [Node.ports_renumber, List.find?_map, ← List.head?_filter, ← List.head?_filter]
  refine congrArg _ (congrArg _ (List.filter_congr fun p hp => ?_))
  exact h.beq_eq (.port hn hp) hid

end

section

variable (h : Renumbers ρ nodes edges)

include h

theorem consumer?_renumber {e : Edge} (he : e ∈ edges) :
    consumer? (nodes.map (.renumber ρ)) (e.renumber ρ) =
      (consumer? nodes e).map (.renumber ρ) := by
  have hposition := position?_renumber h (.stopNode he)
  unfold consumer?
  simp only [Edge.renumber, Endpoint.renumber, hposition, List.getElem?_map]
  cases position? nodes e.stop.node with
  | none => rfl
  | some i =>
    simp only [Option.bind_eq_bind, Option.bind_some]
    cases hn : nodes[i]? with
    | none => rfl
    | some n =>
      have hport := port?_renumber h (List.mem_of_getElem? hn) (.stopPort he)
      simp only [Option.map_some, Option.bind_some, hport, Option.map_map]
      rfl

theorem ofPort_renumber {n : Node} (hn : n ∈ nodes) {p : Port} (hp : p ∈ n.ports) (i : Nat) :
    ofPort (nodes.map (.renumber ρ)) (edges.map (.renumber ρ)) i (n.renumber ρ) (p.renumber ρ) =
      (ofPort nodes edges i n p).renumber ρ := by
  have hconsumers : ((outgoing edges n.id p.id).map (.renumber ρ)).filterMap
      (consumer? (nodes.map (.renumber ρ))) =
        ((outgoing edges n.id p.id).filterMap (consumer? nodes)).map (.renumber ρ) := by
    rw [List.filterMap_map, List.map_filterMap]
    exact List.filterMap_congr fun e he => consumer?_renumber h (List.mem_of_mem_filter he)
  rw [← outgoing_renumber h hn hp] at hconsumers
  unfold ofPort renumber
  rw [← hconsumers]
  rfl

/-- The logical resources are the same, under their other ids. -/
theorem all_renumber :
    all (nodes.map (.renumber ρ)) (edges.map (.renumber ρ)) =
      (all nodes edges).map (.renumber ρ) := by
  unfold all
  rw [outputs_renumber, List.map_map, List.map_map]
  refine List.map_congr_left fun (i, n, p) hmem => ?_
  obtain ⟨hn, hp⟩ := mem_outputs.mp hmem
  exact ofPort_renumber h (List.mem_of_getElem? hn) (List.mem_of_mem_filter hp) i

end

end Logical

/-! ## Buckets -/

namespace Bucket

theorem sortPoints_renumber (points : List UsagePoint) :
    sortPoints (points.map (.renumber ρ)) = (sortPoints points).map (.renumber ρ) := by
  refine (List.map_mergeSort ?_).symm
  exact fun _ _ _ _ => rfl

theorem single_renumber (id : BucketId) (x : Logical) :
    single id (x.renumber ρ) = (single id x).renumber ρ := by
  simp only [single, renumber, x.points_renumber, sortPoints_renumber, x.span_renumber]
  rfl

theorem merge_renumber (b : Bucket) (x : Logical) :
    (b.renumber ρ).merge (x.renumber ρ) = (b.merge x).renumber ρ := by
  simp only [merge, renumber, x.points_renumber, ← List.map_append, sortPoints_renumber,
    x.span_renumber]
  simp only [List.map_append]
  rfl

theorem accepts_renumber (b : Bucket) (x : Logical) :
    (b.renumber ρ).accepts (x.renumber ρ) = b.accepts x := by
  unfold accepts
  rw [x.span_renumber]
  rfl

end Bucket

namespace Packing

theorem mergeFirst_renumber (x : Logical) (buckets : List Bucket) :
    mergeFirst (x.renumber ρ) (buckets.map (.renumber ρ)) =
      (mergeFirst x buckets).map (.renumber ρ) := by
  induction buckets with
  | nil => rfl
  | cons b buckets ih =>
    rw [List.map_cons, mergeFirst, mergeFirst, b.accepts_renumber, ih]
    split
    · rw [List.map_cons, b.merge_renumber]
    · rfl

theorem target?_renumber (strategy : Strategy) (buckets : List Bucket) (x : Logical) :
    target? strategy (buckets.map (.renumber ρ)) (x.renumber ρ) =
      (target? strategy buckets x).map (.renumber ρ) := by
  cases strategy with
  | naive => rfl
  | optimized =>
    have haccepts : (fun b : Bucket => (b.renumber ρ).accepts (x.renumber ρ)) =
        fun b => b.accepts x := funext fun b => b.accepts_renumber x
    have haliasable : (x.renumber ρ).isAliasable = x.isAliasable := rfl
    simp only [target?, haliasable]
    split
    · rw [List.find?_map]
      exact congrArg (fun p => (buckets.find? p).map _) haccepts
    · rfl

theorem place_renumber (strategy : Strategy) (buckets : List Bucket) (x : Logical) :
    place strategy (buckets.map (.renumber ρ)) (x.renumber ρ) =
      (place strategy buckets x).map (.renumber ρ) := by
  unfold place
  rw [target?_renumber]
  cases target? strategy buckets x with
  | none => rw [List.map_append, List.length_map, Bucket.single_renumber]; rfl
  | some b => exact mergeFirst_renumber x buckets

theorem placeAll_renumber (strategy : Strategy) (xs : List Logical) :
    placeAll strategy (xs.map (.renumber ρ)) = (placeAll strategy xs).map (.renumber ρ) := by
  induction xs using List.reverseRecOn with
  | nil => rfl
  | append_singleton xs x ih =>
    rw [List.map_append, List.map_singleton, placeAll_concat, placeAll_concat, ih, place_renumber]

/-- Nodes in their order are packed alike under other ids. -/
theorem pack_renumber (strategy : Strategy) {nodes : List Node} {edges : List Edge}
    (h : Renumbers ρ nodes edges) :
    (pack strategy (nodes.map (.renumber ρ)) (edges.map (.renumber ρ))).buckets =
      (pack strategy nodes edges).buckets.map (.renumber ρ) := by
  unfold pack
  simp only [Logical.all_renumber h, placeAll_renumber]

end Packing

end FrameGraph
