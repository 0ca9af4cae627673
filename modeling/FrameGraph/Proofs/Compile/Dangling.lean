import FrameGraph.Proofs.Compile.Culling

/-!
# Edges that lead nowhere

A snapshot may hold edges whose ends are not there. An edge with an end at no node does not count,
as long as nothing leads from there back to a node (`compile_dangling`). Ports are another matter.
Nodes are kept and ordered by the nodes that edges join, whatever the ports; packing then takes up
an edge by the output it starts at, so that an edge from no output makes no use
(`Logical.all_leaves`), and an edge to a port that its last node does not have makes the use of an
input of the name on the edge (`Packing.exists_point`).
-/

namespace FrameGraph

open Relation Reachability

/-- Whether an edge starts at an output of a listed node. -/
def Edge.leaves (nodes : List Node) (e : Edge) : Bool :=
  nodes.any fun n => n.outputs.any fun p => e.start.isAt n.id p.id

/-- Whether both ends of an edge are ports of listed nodes. -/
def Edge.isProper (nodes : List Node) (e : Edge) : Bool :=
  (nodes.any fun n => n.ports.any fun p => e.start.isAt n.id p.id) &&
    nodes.any fun n => n.ports.any fun p => e.stop.isAt n.id p.id

def Packing.silent (p : Packing) : Packing := { p with notes := [] }

def Schedule.silent (s : Schedule) : Schedule := { s with packing := s.packing.silent }

/-- A compile without what it tells about itself and about packing. -/
def Compiled.mute {δ : Type} (c : Compiled δ) : Compiled δ :=
  { c.silent with
    result := { c.silent.result with packing := c.result.packing.map Packing.silent } }

variable {nodes : List Node} {edges : List Edge} {strategy : Strategy}

theorem Logical.all_leaves (nodes : List Node) (edges : List Edge) :
    all nodes (edges.filter (·.leaves nodes)) = all nodes edges :=
  all_filter fun _ _ n hn p hp hstart _ =>
    List.any_eq_true.mpr ⟨n, hn, List.any_eq_true.mpr ⟨p, hp, hstart⟩⟩

/-- Packings of the same resources differ in their notes alone. -/
theorem Packing.silent_pack {edges' : List Edge}
    (h : Logical.all nodes edges' = Logical.all nodes edges) :
    (pack strategy nodes edges').silent = (pack strategy nodes edges).silent := by
  simp only [silent, pack, h]

/-- An edge from an output to another packed node makes a use of the bucket of the output, at the
port that the edge names. -/
theorem Packing.exists_point (hids : (nodes.map (·.id)).Nodup) {e : Edge} {m n : Node} {p : Port}
    (he : e ∈ edges) (hn : n ∈ nodes) (hp : p ∈ n.outputs)
    (hstart : e.start.isAt n.id p.id = true) (hm : m ∈ nodes) (hstop : e.stop.node = m.id)
    (hne : m.id ≠ n.id) (strategy : Strategy) :
    ∃ b ∈ (pack strategy nodes edges).buckets, p.id ∈ b.members ∧
      ∃ i, nodes[i]? = some m ∧
        ⟨i, p.id, e.stop.portName, m.id, m.name,
          ((m.port? e.stop.port).map (·.role)).getD .input⟩ ∈ b.points := by
  obtain ⟨i, hi⟩ := List.mem_iff_getElem?.mp hm
  obtain ⟨j, hj⟩ := List.mem_iff_getElem?.mp hn
  have hposition : position? nodes e.stop.node = some i := by
    rw [hstop]
    exact position?_of_getElem? hids hi
  have hconsumer : Logical.consumer? nodes e = some ⟨m.id, i, m.name, e.stop.port,
      e.stop.portName, ((m.port? e.stop.port).map (·.role)).getD .input⟩ := by
    simp only [Logical.consumer?, hposition, hi, Option.bind_eq_bind, Option.bind_some,
      Option.pure_def]
  have hx : Logical.ofPort nodes edges j n p ∈ Logical.all nodes edges :=
    Logical.mem_all.mpr ⟨j, n, p, hj, hp, rfl⟩
  obtain ⟨b, hb, hxb⟩ : ∃ b ∈ placeAll strategy (Logical.all nodes edges),
      Logical.ofPort nodes edges j n p ∈ residents strategy (Logical.all nodes edges) b.id :=
    exists_resident hx
  refine ⟨b, hb, (mem_members hb).mpr ⟨_, hxb, rfl⟩, i, hi, ?_⟩
  refine (holds_placeAll b hb).mem_points.mpr ⟨_, hxb, Logical.mem_points.mpr (.inr ?_)⟩
  exact ⟨e, he, hstart, fun h => hne (hstop.symm.trans h), _, hconsumer, rfl⟩

/-! ## Compiles -/

theorem Schedule.of_between (h : FeedsThroughNodes nodes edges) (strategy : Strategy) :
    (Schedule.of strategy nodes (edges.filter (·.isBetween nodes))).map silent =
      (Schedule.of strategy nodes edges).map silent := by
  have hreach := reachable_between h
  cases hkept : reachable nodes edges with
  | error err => rw [of_unreachable (hreach.trans hkept), of_unreachable hkept]
  | ok kept =>
    have hsub : ∀ id, id ∈ kept.map (·.id) → id ∈ nodes.map (·.id) := by
      obtain ⟨n, -, rfl⟩ := reachable_ok hkept
      exact fun id hid => (List.filter_sublist.map _).subset hid
    have hsame : inOrder kept (edges.filter (·.isBetween nodes)) = inOrder kept edges :=
      inOrder_filter fun e _ hbetween =>
        have ⟨hstart, hstop⟩ := Edge.isBetween_iff.mp hbetween
        Edge.isBetween_iff.mpr ⟨hsub _ hstart, hsub _ hstop⟩
    cases horder : inOrder kept edges with
    | error err =>
      rw [of_unordered (hreach.trans hkept) (hsame.trans horder), of_unordered hkept horder]
    | ok order =>
      have hids : ∀ id, id ∈ order.map (·.id) → id ∈ nodes.map (·.id) :=
        fun id hid => hsub id (((inOrder_perm horder).map _).subset hid)
      have hall : Logical.all order (edges.filter (·.isBetween nodes)) =
          Logical.all order edges := by
        refine Logical.all_filter fun e _ n hn p _ hstart hstop => Edge.isBetween_iff.mpr ?_
        obtain ⟨hstart, -⟩ := Endpoint.isAt_iff.mp hstart
        exact ⟨hids _ (hstart ▸ List.mem_map_of_mem hn), hids _ hstop⟩
      rw [of_inOrder (hreach.trans hkept) (hsame.trans horder), of_inOrder hkept horder]
      exact congrArg (fun p => Except.ok (mk order p)) (Packing.silent_pack hall)

section

variable {δ : Type} [Allocator δ] {w : Workshop δ} {verbose : Bool} {nodes' : List Node}
  {edges' : List Edge}

theorem compile_mute
    (h : (Schedule.of w.settings.strategy nodes' edges').map Schedule.silent =
      (Schedule.of w.settings.strategy nodes edges).map Schedule.silent) :
    (compile w verbose nodes' edges').mute = (compile w verbose nodes edges).mute := by
  unfold compile
  cases hs : Schedule.of w.settings.strategy nodes edges with
  | error err =>
    cases hs' : Schedule.of w.settings.strategy nodes' edges' with
    | error err' =>
      rw [hs, hs'] at h
      cases h
      rfl
    | ok s' =>
      rw [hs, hs'] at h
      cases h
  | ok s =>
    cases hs' : Schedule.of w.settings.strategy nodes' edges' with
    | error err' =>
      rw [hs, hs'] at h
      cases h
    | ok s' =>
      rw [hs, hs'] at h
      obtain ⟨order, logicals, buckets, notes, timeline⟩ := s
      obtain ⟨order', logicals', buckets', notes', timeline'⟩ := s'
      cases h
      dsimp only
      cases (Allocation.of ⟨w.settings, w.scene, w.clock.stamp⟩ w.device buckets).resources
      · rfl
      · rfl

/-- Edges with an end at no node have no say where the scene provider feeds nodes through nodes
only. Of the others, packing takes up those that start at an output of an ordered node, and makes
an input of the port at which they end if its node has no such port. -/
theorem compile_dangling (hids : (nodes.map (·.id)).Nodup)
    (hfeeds : FeedsThroughNodes nodes edges) :
    let whole := compile w verbose nodes edges
    (compile w verbose nodes (edges.filter (·.isBetween nodes))).mute = whole.mute ∧
      ∀ packing, whole.result.packing = some packing → ∃ order, order ⊆ nodes ∧
        order.map (·.id) = whole.result.order ∧
        (Packing.pack w.settings.strategy order (edges.filter (·.leaves order))).silent =
          packing.silent ∧
        ∀ e ∈ edges, ∀ n ∈ order, ∀ p ∈ n.outputs, e.start.isAt n.id p.id = true →
          ∀ m ∈ order, e.stop.node = m.id → m.id ≠ n.id → m.port? e.stop.port = none →
            ∃ b ∈ packing.buckets, p.id ∈ b.members ∧ ∃ i, order[i]? = some m ∧
              ⟨i, p.id, e.stop.portName, m.id, m.name, .input⟩ ∈ b.points := by
  intro whole
  refine ⟨compile_mute (Schedule.of_between hfeeds _), fun packing hpacking => ?_⟩
  cases hs : Schedule.of w.settings.strategy nodes edges with
  | error err =>
    have hfails : whole.result.Fails err none := compile_unscheduled hs
    cases hpacking.symm.trans hfails.packing
  | ok s =>
    obtain ⟨hpack, horderIds⟩ : whole.result.packing = some s.packing ∧
        whole.result.order = s.order.map (·.id) := compile_scheduled hs
    cases hpacking.symm.trans hpack
    obtain ⟨kept, hkept, horder, hpacked⟩ := Schedule.of_ok hs
    obtain ⟨_, -, rfl⟩ := reachable_ok hkept
    have hperm := inOrder_perm horder
    have hnodup : (s.order.map (·.id)).Nodup :=
      (hperm.map _).nodup_iff.mpr ((List.filter_sublist.map _).nodup hids)
    refine ⟨s.order, fun n hn => List.mem_of_mem_filter (hperm.subset hn), horderIds.symm, ?_, ?_⟩
    · rw [hpacked]
      exact Packing.silent_pack (Logical.all_leaves ..)
    · intro e he n hn p hp hstart m hm hstop hne hport
      have hpoint := Packing.exists_point hnodup he hn hp hstart hm hstop hne w.settings.strategy
      rwa [hport, ← hpacked] at hpoint

end

/-- A chain of blurs with an edge to no node, an edge from no node, an edge from no port and an edge
to no port. -/
def Editor.looseEnds : List Edge :=
  blurChain.edges ++ [⟨27, ⟨5, 8, "Normal"⟩, ⟨99, 1, "Image"⟩, .image⟩,
    ⟨28, ⟨98, 2, "Image"⟩, ⟨13, 14, "Image"⟩, .image⟩,
    ⟨29, ⟨5, 77, "Position"⟩, ⟨16, 17, "Image"⟩, .image⟩,
    ⟨30, ⟨5, 7, "Position"⟩, ⟨19, 78, "Mask"⟩, .image⟩]

theorem looseEnds_between :
    let w : Workshop := { device := {}, clock := ⟨"", "", ""⟩ }
    let nodes := Editor.blurChain.nodes
    let edges := Editor.looseEnds
    (compile w false nodes edges).result.success = true ∧
      (edges.filter (·.isBetween nodes)).length + 2 = edges.length ∧
      (compile w false nodes (edges.filter (·.isBetween nodes))).mute =
        (compile w false nodes edges).mute := by
  intro w nodes edges
  have hids : (nodes.map (·.id)).Nodup := by decide
  have hfeeds : FeedsThroughNodes nodes edges := by
    intro start hroot e he hreach
    cases hroot
    have hvisited : ∀ e ∈ edges, e.start.node ∈ visited edges 0 →
        e.start.node ∈ nodes.map (·.id) := by decide +kernel
    exact fun _ => hvisited e he (mem_visited.mpr hreach)
  exact ⟨by decide +kernel, by decide +kernel, (compile_dangling hids hfeeds).1⟩

/-- Edges without proper ends that count: one from no port and one to no port, by which a node is
kept and ordered, and two that lead to a node through an id of no node. -/
theorem improper_edges_count :
    let w : Workshop := { device := {}, clock := ⟨"", "", ""⟩ }
    let nodes := Editor.seeded.nodes
    let order (edges : List Edge) := (compile w false nodes edges).result.order
    (nodes.map (·.id)).Nodup ∧
      ∀ edges ∈ [[⟨13, ⟨0, 99, "Scene"⟩, ⟨5, 6, "Scene"⟩, .scene⟩],
          [⟨13, ⟨0, 1, "Scene"⟩, ⟨5, 99, "Scene"⟩, .scene⟩],
          [⟨13, ⟨0, 1, "Scene"⟩, ⟨99, 1, "Scene"⟩, .scene⟩,
            ⟨14, ⟨99, 2, "Scene"⟩, ⟨5, 6, "Scene"⟩, .scene⟩]],
        order edges = [0, 5] ∧ order (edges.filter (·.isProper nodes)) = [0] := by
  decide +kernel

end FrameGraph
