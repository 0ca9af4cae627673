import FrameGraph.Proofs.Editor.Flags

/-!
# Links that are accepted

The editor goes through its checks in a fixed order and reads the flag of an input as well as the
edges. In graphs made by edits the two agree, and what the checks come to is one condition on two
ports (`Editor.Legal`), in which the order of the two plays no part. A link is accepted exactly if
it is legal, and adds one edge and sets one flag (`Editor.Linked`); a link that is refused changes
nothing (`Editor.Reachable.connect_exact`).
-/

namespace FrameGraph

namespace Editor

/-- An edge may run from an output of one node to a free input of another. -/
structure Legal (e : Editor) (m : Node) (o : Port) (n : Node) (p : Port) : Prop where
  ne : m.id ≠ n.id
  output : o.role = .output
  input : p.role = .input
  payload : o.payload = p.payload
  free : e.incoming n.id p.id = []

/-- The second graph is the first with one more edge, from `o` of `m` to `p` of `n`, and the flag
of that input set. -/
structure Linked (e : Editor) (m : Node) (o : Port) (n : Node) (p : Port) (edge : Edge)
    (e' : Editor) : Prop where
  edge_eq : edge = ⟨e.nextId, ⟨m.id, o.id, o.name⟩, ⟨n.id, p.id, p.name⟩, o.payload⟩
  edges : e'.edges = e.edges ++ [edge]
  nodes : e'.nodes =
    e.nodes.map fun k => k.withFlags fun q => if k = n ∧ q = p then true else q.connected
  nextId : e'.nextId = e.nextId + 1

variable {e e' : Editor} {m n : Node} {o p : Port} {edge : Edge}
  {a b : NodeId} {aPort bPort : String}

/-! ## Ports by name -/

theorem Finds.port_eq (hf : e.Finds a aPort m o) (h : e.WellFormed) :
    e.port m.id aPort = .ok o := by
  rw [port, h.node?_eq hf.mem]
  simp only [hf.first]

theorem Asked.symm (h : e.Asked a aPort b bPort m o n p) : e.Asked b bPort a aPort m o n p :=
  Or.symm h

theorem Asked.mem (h : e.Asked a aPort b bPort m o n p) :
    (m ∈ e.nodes ∧ o ∈ m.ports) ∧ n ∈ e.nodes ∧ p ∈ n.ports := by
  rcases h with ⟨ho, hp⟩ | ⟨ho, hp⟩
  · exact ⟨⟨ho.mem, ho.port_mem⟩, hp.mem, hp.port_mem⟩
  · exact ⟨⟨ho.mem, ho.port_mem⟩, hp.mem, hp.port_mem⟩

/-! ## Two ports -/

/-- The flag of the input and the edges say the same, and no edge repeats another if none ends at
the input. -/
theorem Consistent.linkable_iff (h : e.Consistent) (hm : m ∈ e.nodes) (ho : o ∈ m.ports)
    (hn : n ∈ e.nodes) (hp : p ∈ n.ports) : e.Linkable m o n p ↔ e.Legal m o n p := by
  have hfree := h.connected_eq_false_iff hn hp
  constructor
  · intro hl
    exact ⟨hl.ne, hl.output, hl.input, hl.payload, hfree.mp hl.free⟩
  · intro hl
    refine ⟨hm, ho, hn, hp, hl.ne, hl.output, hl.input, hl.payload, ?_, hfree.mpr hl.free⟩
    intro edge hedge
    rw [Bool.eq_false_iff]
    intro hsame
    have hstop : edge.stop.isAt n.id p.id = true := (Bool.and_eq_true_iff.mp hsame).2
    have hmem : edge ∈ e.incoming n.id p.id := List.mem_filter.mpr ⟨hedge, hstop⟩
    rw [hl.free] at hmem
    cases hmem

/-- Ids are unique, so that the flag set with a new edge is that of its input. -/
theorem Consistent.linked_iff (h : e.Consistent) (hn : n ∈ e.nodes) (hp : p ∈ n.ports) :
    e.Linked m o n p edge e' ↔
      edge = e.newEdge (m.id, o) (n.id, p) ∧ e' = e.withEdge (m.id, o) (n.id, p) := by
  have hnodes : (e.withEdge (m.id, o) (n.id, p)).nodes =
      e.nodes.map fun k => k.withFlags fun q => if k = n ∧ q = p then true else q.connected := by
    rw [withEdge, marked]
    refine List.map_congr_left fun k hk => ?_
    simp only [Node.withFlags, Node.mk.injEq, true_and]
    refine List.map_congr_left fun q hq => ?_
    have hat : (e.newEdge (m.id, o) (n.id, p)).stop.isAt k.id q.id = true ↔ k = n ∧ q = p := by
      rw [Endpoint.isAt_iff]
      constructor
      · rintro ⟨-, hport⟩
        exact h.port_eq hk hq hn hp hport.symm
      · rintro ⟨rfl, rfl⟩
        exact ⟨rfl, rfl⟩
    simp only [hat]
  constructor
  · rintro ⟨rfl, hedges, hnodes', hnext⟩
    refine ⟨rfl, ?_⟩
    cases e'
    simp only at hedges hnodes' hnext
    rw [← hnodes] at hnodes'
    subst hedges hnodes' hnext
    rfl
  · rintro ⟨rfl, rfl⟩
    exact ⟨rfl, rfl, hnodes, rfl⟩

/-! ## Either order -/

/-- A link is accepted exactly if it is legal. -/
theorem Consistent.connect_eq_ok_iff (h : e.Consistent) :
    e.connect a aPort b bPort = .ok (edge, e') ↔
      ∃ m o n p, e.Asked a aPort b bPort m o n p ∧ e.Legal m o n p ∧
        e.Linked m o n p edge e' := by
  constructor
  · intro hconnect
    obtain ⟨m, o, n, p, hasked, hl, hedge, he'⟩ := h.connect_ok hconnect
    obtain ⟨⟨hm, ho⟩, hn, hp⟩ := hasked.mem
    exact ⟨m, o, n, p, hasked, (h.linkable_iff hm ho hn hp).mp hl,
      (h.linked_iff hn hp).mpr ⟨hedge, he'⟩⟩
  · rintro ⟨m, o, n, p, hasked, hlegal, hlinked⟩
    obtain ⟨⟨hm, ho⟩, hn, hp⟩ := hasked.mem
    have hl := (h.linkable_iff hm ho hn hp).mpr hlegal
    obtain ⟨rfl, rfl⟩ := (h.linked_iff hn hp).mp hlinked
    rcases hasked with ⟨hfirst, hsecond⟩ | ⟨hfirst, hsecond⟩
    · rw [← hfirst.id, ← hsecond.id]
      exact (hl.connect h.nodes_ids_nodup (hfirst.port_eq h.toWellFormed)
        (hsecond.port_eq h.toWellFormed)).1
    · rw [← hfirst.id, ← hsecond.id]
      exact (hl.connect h.nodes_ids_nodup (hfirst.port_eq h.toWellFormed)
        (hsecond.port_eq h.toWellFormed)).2

theorem Consistent.connect_comm (h : e.Consistent) (a : NodeId) (aPort : String) (b : NodeId)
    (bPort : String) :
    (e.connect a aPort b bPort).toOption = (e.connect b bPort a aPort).toOption := by
  have hiff : ∀ r, e.connect a aPort b bPort = .ok r ↔ e.connect b bPort a aPort = .ok r := by
    rintro ⟨edge, e'⟩
    rw [h.connect_eq_ok_iff, h.connect_eq_ok_iff]
    constructor
    · rintro ⟨m, o, n, p, hasked, hlinked⟩
      exact ⟨m, o, n, p, hasked.symm, hlinked⟩
    · rintro ⟨m, o, n, p, hasked, hlinked⟩
      exact ⟨m, o, n, p, hasked.symm, hlinked⟩
  cases hab : e.connect a aPort b bPort with
  | ok r => rw [(hiff r).mp hab]
  | error err =>
    cases hba : e.connect b bPort a aPort with
    | ok r => rw [(hiff r).mpr hba] at hab; cases hab
    | error => rfl

/-- In every graph made by edits, two ports are linked exactly if that is legal. An accepted link
appends its edge, sets the flag of the input, takes one id and changes nothing else; a refused one
changes nothing. Naming the ports the other way round gives the same edge and the same graph, or is
refused as well. -/
theorem Reachable.connect_exact (he : e.Reachable) (a : NodeId) (aPort : String) (b : NodeId)
    (bPort : String) :
    ((∃ edge e', e.connect a aPort b bPort = .ok (edge, e')) ↔
      ∃ m o n p, e.Asked a aPort b bPort m o n p ∧ e.Legal m o n p) ∧
    (∀ edge e', e.connect a aPort b bPort = .ok (edge, e') →
      ∃ m o n p, e.Asked a aPort b bPort m o n p ∧ e.Legal m o n p ∧ e.Linked m o n p edge e') ∧
    (∀ err, e.connect a aPort b bPort = .error err →
      e.apply (.connect a aPort b bPort) = e) ∧
    (e.connect a aPort b bPort).toOption = (e.connect b bPort a aPort).toOption := by
  have h := he.consistent
  refine ⟨⟨?_, ?_⟩, ?_, ?_, h.connect_comm a aPort b bPort⟩
  · rintro ⟨edge, e', hconnect⟩
    obtain ⟨m, o, n, p, hasked, hlegal, -⟩ := h.connect_eq_ok_iff.mp hconnect
    exact ⟨m, o, n, p, hasked, hlegal⟩
  · rintro ⟨m, o, n, p, hasked, hlegal⟩
    obtain ⟨-, hn, hp⟩ := hasked.mem
    have hlinked := (h.linked_iff (m := m) (o := o) hn hp).mpr ⟨rfl, rfl⟩
    exact ⟨_, _, h.connect_eq_ok_iff.mpr ⟨m, o, n, p, hasked, hlegal, hlinked⟩⟩
  · intro edge e' hconnect
    exact h.connect_eq_ok_iff.mp hconnect
  · intro err hconnect
    rw [apply, edit, hconnect]
    rfl

/-- Of two ports of one name the first is meant: an input, which can be linked to the G-buffer,
whichever of them is named first, and not to the present node. -/
theorem painter_connect :
    let e := seeded.apply (.add "Painter" .unknown
      [.imageInput "Image" .rgba16Float, .imageOutput "Image" .rgba16Float])
    e.Reachable ∧
    (∃ m o n p, e.Asked 13 "Image" 5 "Position" m o n p ∧ e.Legal m o n p) ∧
    (∃ edge e', e.connect 5 "Position" 13 "Image" = .ok (edge, e') ∧ edge.id = 16 ∧
      (e.connect 13 "Image" 5 "Position").toOption = some (edge, e')) ∧
    ¬ ∃ m o n p, e.Asked 13 "Image" 11 "Final Image" m o n p ∧ e.Legal m o n p := by
  intro e
  have he : e.Reachable := Reachable.seeded.edited _
  obtain ⟨hlegal, -, -, hcomm⟩ := Reachable.connect_exact he 13 "Image" 5 "Position"
  obtain ⟨hinputs, -⟩ := Reachable.connect_exact he 13 "Image" 11 "Final Image"
  refine ⟨he, hlegal.mp ⟨_, _, rfl⟩, ⟨_, _, rfl, rfl, hcomm⟩, ?_⟩
  rw [← hinputs]
  rintro ⟨_, _, hconnect⟩
  cases hconnect

end Editor

end FrameGraph
