import FrameGraph.Proofs.Order.Arrangements
import FrameGraph.Proofs.Packing.Census
import FrameGraph.Proofs.Packing.Logicals

/-!
# Nothing is lost in packing

The logical resources are the output ports of the listed nodes in their order, and the uses of each
are read off the edges (`Logical.IsOutput`). Every one of them is in one bucket, and a bucket
records what is in it: their ports, their uses from first to last, and the least span over these
(`Bucket.Accounts`). Nothing else is recorded anywhere (`Packing.pack_accounts`).
-/

namespace FrameGraph

open FrameGraph.Order

/-! ## Uses -/

/-- Whether an edge carries what a port of a node makes to another listed node. -/
def Edge.carries (nodes : List Node) (n : Node) (p : Port) (e : Edge) : Bool :=
  e.start.isAt n.id p.id && e.stop.node != n.id && (nodes.map (·.id)).contains e.stop.node

namespace Logical

/-- What the end of an edge uses of a resource: at the last position of the node it ends at, and
under the name that the edge has for the port there. A port that the node does not have is an
input. -/
structure ReadBy (nodes : List Node) (resource : PortId) (e : Edge) (u : UsagePoint) : Prop where
  last : StandsLast nodes e.stop.node u.position
  resource : u.resource = resource
  portName : u.portName = e.stop.portName
  node : u.node = e.stop.node
  user : ∃ n, nodes[u.position]? = some n ∧ u.nodeName = n.name ∧
    u.role = ((n.port? e.stop.port).map (·.role)).getD .input

/-- The resource is the output port `p` of the node `n` at position `i`: it is used there, and by
every edge from the port to another listed node. -/
structure IsOutput (nodes : List Node) (edges : List Edge) (i : Nat) (n : Node) (p : Port)
    (x : Logical) : Prop where
  position : x.position = i
  node : x.node = n.id
  port : x.port = p.id
  spec : x.spec = p.spec
  points : ∃ reads, x.points = ⟨i, p.id, p.name, n.id, n.name, .output⟩ :: reads ∧
    List.Forall₂ (ReadBy nodes p.id) (edges.filter (Edge.carries nodes n p)) reads

variable {nodes : List Node} {edges : List Edge} {i : Nat} {n : Node} {p : Port} {x : Logical}

theorem readBy_readAt {e : Edge} {c : Consumer} (h : consumer? nodes e = some c) :
    ReadBy nodes x.port e (x.readAt c) := by
  obtain ⟨m, hm, hid, hnode, hposition, hname⟩ := consumer?_eq_some h
  simp only [consumer?, hposition, hm, Option.bind_eq_bind, Option.bind_some, Option.pure_def,
    Option.some.injEq] at h
  have hnodeName : c.nodeName = m.name := by rw [← h]
  have hrole : c.role = ((m.port? e.stop.port).map (·.role)).getD .input := by rw [← h]
  exact ⟨position?_eq_some.mp hposition, rfl, hname, hnode.trans hid, m, hm, hnodeName, hrole⟩

theorem consumer?_eq_none {e : Edge} (h : e.stop.node ∉ nodes.map (·.id)) :
    consumer? nodes e = none := by
  simp only [consumer?, position?, lastIndex?_eq_none.mpr h, Option.bind_eq_bind, Option.bind_none]

/-- One use for each edge from the port to another listed node. -/
theorem forall₂_reads (x : Logical) (edges : List Edge) :
    List.Forall₂ (ReadBy nodes x.port) (edges.filter (Edge.carries nodes n p))
      (((outgoing edges n.id p.id).filterMap (consumer? nodes)).map x.readAt) := by
  induction edges with
  | nil => exact .nil
  | cons e edges ih =>
    unfold outgoing at ih ⊢
    rw [List.filter_cons, List.filter_cons, Edge.carries]
    by_cases hout : (e.start.isAt n.id p.id && e.stop.node != n.id) = true
    · rw [hout, Bool.true_and, if_pos rfl, List.filterMap_cons]
      by_cases hmem : e.stop.node ∈ nodes.map (·.id)
      · obtain ⟨c, hc, -⟩ := exists_consumer? (position?_of_mem hmem)
        rw [List.contains_iff_mem.mpr hmem, if_pos rfl, hc]
        exact .cons (readBy_readAt hc) ih
      · rw [Bool.eq_false_iff.mpr (mt List.contains_iff_mem.mp hmem), consumer?_eq_none hmem]
        exact ih
    · rw [Bool.eq_false_iff.mpr hout]
      exact ih

theorem isOutput_ofPort (nodes : List Node) (edges : List Edge) (i : Nat) (n : Node) (p : Port) :
    IsOutput nodes edges i n p (ofPort nodes edges i n p) :=
  ⟨rfl, rfl, rfl, rfl, _, rfl, forall₂_reads (ofPort nodes edges i n p) edges⟩

end Logical

namespace Bucket

/-! ## Records -/

/-- What a bucket records of the resources that were placed in it. -/
structure Accounts (b : Bucket) (xs : List Logical) : Prop where
  nonempty : xs ≠ []
  members : b.members = xs.map (·.port)
  points : b.points.Perm (xs.flatMap Logical.points)
  ascending : b.points.Pairwise (·.position ≤ ·.position)
  covers : ∀ u ∈ b.points, b.span.contains u.position = true
  least : ∀ s : Span, (∀ u ∈ b.points, s.contains u.position = true) →
    s.first ≤ b.span.first ∧ b.span.last ≤ s.last
  alone : ∀ x ∈ xs, x.isAliasable = false → xs = [x]

variable {b : Bucket} {xs : List Logical} {x : Logical}

theorem Holds.ne_nil (h : b.Holds xs) : xs ≠ [] := by
  obtain ⟨rest, rfl, -⟩ := h.first
  exact List.cons_ne_nil _ _

theorem Holds.contains_position (h : b.Holds xs) {u : UsagePoint} (hu : u ∈ b.points) :
    b.span.contains u.position = true := by
  obtain ⟨x, hx, hux⟩ := h.mem_points.mp hu
  exact h.covers x hx _ (Logical.contains_span hux)

/-- A resource that cannot be aliased shares with no other. -/
theorem Holds.eq_singleton (h : b.Holds xs) (hx : x ∈ xs) (ha : x.isAliasable = false) :
    xs = [x] := by
  have hpayload := h.payload_eq hx
  obtain ⟨rest, rfl, hrest⟩ := h.first
  cases rest with
  | nil => rw [List.mem_singleton.mp hx]
  | cons y rest =>
    have horigin : b.payload.isAliasable = true := (hrest y List.mem_cons_self).1
    rw [hpayload] at horigin
    exact absurd (ha.symm.trans horigin) Bool.false_ne_true

end Bucket

namespace Packing

variable {strategy : Strategy} {xs : List Logical}

theorem accounts_placeAll :
    ∀ b ∈ placeAll strategy xs, b.Accounts (residents strategy xs b.id) := by
  intro b hb
  have h := holds_placeAll b hb
  refine ⟨h.ne_nil, h.members, h.points, points_placeAll b hb, fun _ => h.contains_position,
    fun s hs => (ends_placeAll b hb).le fun i hi => ?_, fun _ => h.eq_singleton⟩
  obtain ⟨u, hu, rfl⟩ := List.mem_map.mp hi
  exact hs u hu

/-! ## Counts -/

/-- There are at least as many buckets as resources that cannot be aliased. -/
theorem fixedCount_le (strategy : Strategy) (xs : List Logical) :
    xs.countP (!·.isAliasable) ≤ (placeAll strategy xs).length := by
  rw [← (residents_perm strategy xs).countP_eq, ← List.countP_true]
  refine countP_flatMap_le fun b hb => countP_le_one ?_
  refine (holds_placeAll b hb).pairwise_shares.imp fun {x y} hxy hfixed => ?_
  have hx : x.isAliasable = true := Logical.isAliasable_iff.mpr (hxy.payload.imp And.left And.left)
  simp [hx] at hfixed

/-- There are no more buckets than resources. -/
theorem bucketCount_le (strategy : Strategy) (xs : List Logical) :
    (placeAll strategy xs).length ≤ xs.length := by
  rw [← (residents_perm strategy xs).length_eq, ← List.countP_true, ← List.countP_true]
  refine countP_le_flatMap fun b hb _ => ?_
  obtain ⟨x, hx⟩ := List.exists_mem_of_ne_nil _ (holds_placeAll b hb).ne_nil
  exact ⟨x, hx, rfl⟩

/-- Whatever nodes and edges are packed, buckets are numbered as they stand, the logical resources
are the ports of the nodes that have the role of an output, and every one of them is in one bucket,
which records it with all its uses. Without sharing a bucket has one resource. No count of resources
or buckets comes out negative. -/
theorem pack_accounts (strategy : Strategy) (nodes : List Node) (edges : List Edge) :
    let packing := pack strategy nodes edges
    packing.buckets.map (·.id) = List.range packing.bucketCount ∧
    List.Forall₂ (fun (i, n, p) x => Logical.IsOutput nodes edges i n p x)
      (nodes.zipIdx.flatMap fun (n, i) =>
        (n.ports.filter (·.role = .output)).map fun p => (i, n, p)) packing.logicals ∧
    (∃ placed : BucketId → List Logical,
      (packing.buckets.flatMap fun b => placed b.id).Perm packing.logicals ∧
      ∀ b ∈ packing.buckets, b.Accounts (placed b.id)) ∧
    (packing.buckets.flatMap (·.members)).Perm
      (nodes.flatMap fun n => (n.ports.filter (·.role = .output)).map (·.id)) ∧
    (strategy = .naive → ∀ b ∈ packing.buckets, b.members.length = 1) ∧
    (packing.fixedCount ≤ packing.bucketCount ∧ packing.bucketCount ≤ packing.logicalCount) ∧
    packing.fixedCount + packing.aliasableCount = packing.logicalCount ∧
    packing.bucketCount + packing.savedCount = packing.logicalCount := by
  have hperm := residents_perm strategy (Logical.all nodes edges)
  have hfixed := fixedCount_le strategy (Logical.all nodes edges)
  have hbuckets := bucketCount_le strategy (Logical.all nodes edges)
  refine ⟨ids_placeAll .., ?_, ⟨_, hperm, accounts_placeAll⟩, ?_, fun hnaive b hb => ?_,
    ⟨hfixed, hbuckets⟩, Nat.add_sub_of_le (hfixed.trans hbuckets), Nat.add_sub_of_le hbuckets⟩
  · refine List.forall₂_map_right_iff.mpr (List.forall₂_same.mpr fun (i, n, p) _ => ?_)
    exact Logical.isOutput_ofPort nodes edges i n p
  · have hmembers : (placeAll strategy (Logical.all nodes edges)).flatMap (·.members) =
        ((placeAll strategy (Logical.all nodes edges)).flatMap fun b =>
          residents strategy (Logical.all nodes edges) b.id).map (·.port) := by
      rw [List.map_flatMap]
      exact List.flatMap_congr fun b hb => (holds_placeAll b hb).members
    exact hmembers ▸ (hperm.map (·.port)).trans (.of_eq (Logical.ports_all nodes edges))
  · subst hnaive
    rw [members_naive hb, List.length_singleton]

end Packing

end FrameGraph
