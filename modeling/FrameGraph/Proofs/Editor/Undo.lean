import FrameGraph.Proofs.Editor.Links
import FrameGraph.Proofs.Editor.Reload
import FrameGraph.Proofs.Editor.Removal

/-!
# Edits that are undone

Flags are read off the edges, so that two graphs with the same nodes up to flags are the same as
soon as their edges end at the same ports (`Editor.Flagged.nodes_eq`). What an edit has to leave
behind when it is undone is then a matter of edges alone: a graph with one link more runs beside the
one without it (`Editor.Beside`), and a new node is touched by the edges that are linked to it and
by no others (`Editor.Grown`).
-/

namespace FrameGraph

/-- The edit asks for a link. -/
def Edit.IsLink : Edit → Prop
  | .connect .. => True
  | _ => False

/-- The edit asks for a link from or to a node. -/
def Edit.IsLinkOf (node : NodeId) : Edit → Prop
  | .connect a _ b _ => a = node ∨ b = node
  | _ => False

/-- The edge under the next id. -/
def Edge.next (edge : Edge) : Edge := { edge with id := edge.id + 1 }

/-! ## Flags are read off the edges -/

namespace Node

variable {edges : List Edge} {n : Node}

theorem flagged_withFlags (flag : Port → Bool) :
    (n.withFlags flag).flagged edges = n.flagged edges := by
  simp only [flagged, withFlags, List.map_map, Function.comp_def]

theorem flagged_flagged (others : List Edge) :
    (n.flagged others).flagged edges = n.flagged edges := flagged_withFlags _

theorem portNamed?_flagged (name : String) :
    (n.flagged edges).portNamed? name = (n.portNamed? name).map (.flagged edges n.id) := by
  unfold portNamed?
  rw [ports_flagged, List.find?_map]
  rfl

/-- Of the edges only their ends matter to flags. -/
theorem flagged_congr {others : List Edge} (h : edges.map (·.stop) = others.map (·.stop)) :
    n.flagged edges = n.flagged others := by
  have hany : ∀ port : PortId,
      edges.any (·.stop.isAt n.id port) = others.any (·.stop.isAt n.id port) := by
    intro port
    have hstops := congrArg (List.any · (Endpoint.isAt · n.id port)) h
    simpa only [List.any_map, Function.comp_def] using hstops
  simp only [flagged, hany]

end Node

namespace Editor

/-- Edits one after the other, up to one that is refused. -/
def editAll (e : Editor) (edits : List Edit) : Except EditorError Editor := edits.foldlM edit e

/-- The nodes with all their inputs free. -/
def bareNodes (e : Editor) : List Node := e.nodes.map (.flagged [])

variable {e e' : Editor}

theorem Flagged.nodes_eq (h : e.Flagged) (h' : e'.Flagged) (hbare : e.bareNodes = e'.bareNodes)
    (hstops : e.edges.map (·.stop) = e'.edges.map (·.stop)) : e.nodes = e'.nodes := by
  have hread : ∀ {g : Editor}, g.Flagged → g.bareNodes.map (.flagged g.edges) = g.nodes := by
    intro g hg
    rw [bareNodes, List.map_map]
    refine (List.map_congr_left fun n hn => ?_).trans (List.map_id _)
    rw [Function.comp_apply, Node.flagged_flagged, flagged_eq hg hn, id]
  calc e.nodes = e.bareNodes.map (.flagged e.edges) := (hread h).symm
    _ = e'.bareNodes.map (.flagged e'.edges) := by
      rw [hbare]
      exact List.map_congr_left fun n _ => Node.flagged_congr hstops
    _ = e'.nodes := hread h'

/-! ## What changes keep but for flags -/

theorem bareNodes_of_map {nodes : List Node} {flag : Node → Port → Bool}
    (he' : e'.nodes = nodes.map fun n => n.withFlags (flag n)) :
    e'.bareNodes = nodes.map (.flagged []) := by
  rw [bareNodes, he', List.map_map]
  exact List.map_congr_left fun n _ => Node.flagged_withFlags _

theorem bareNodes_withEdge (start stop : NodeId × Port) :
    (e.withEdge start stop).bareNodes = e.bareNodes := bareNodes_of_map rfl

theorem bareNodes_withoutEdge (edge : Edge) : (e.withoutEdge edge).bareNodes = e.bareNodes :=
  bareNodes_of_map rfl

theorem bareNodes_withoutNode (id : NodeId) :
    (e.withoutNode id).bareNodes = e.bareNodes.filter (·.id != id) := by
  refine (bareNodes_of_map rfl).trans ?_
  rw [bareNodes, List.filter_map]
  rfl

/-- A port is found by name among the same nodes with other flags. -/
theorem Finds.of_bareNodes {id : NodeId} {name : String} {n' : Node} {p' : Port}
    (hf : e'.Finds id name n' p') (hbare : e.bareNodes = e'.bareNodes) :
    ∃ n p, e.Finds id name n p ∧ n.id = n'.id ∧ p.id = p'.id ∧ p.spec = p'.spec := by
  have hmem : n'.flagged [] ∈ e.bareNodes := hbare ▸ List.mem_map_of_mem hf.mem
  obtain ⟨n, hn, heq⟩ := List.mem_map.mp hmem
  have hid : n.id = n'.id := congrArg (·.id) heq
  have hport : (n.portNamed? name).map (.flagged [] n.id) = some (p'.flagged [] n'.id) := by
    rw [← Node.portNamed?_flagged, heq, Node.portNamed?_flagged, hf.first]
    rfl
  obtain ⟨p, hfirst, hp⟩ := Option.map_eq_some_iff.mp hport
  have hpid : p.id = p'.id := congrArg (·.id) hp
  have hspec : p.spec = p'.spec := congrArg (·.spec) hp
  exact ⟨n, p, ⟨hn, hid.trans hf.id, hfirst⟩, hid, hpid, hspec⟩

/-- So are two ports that are to be linked, from the output to the input. -/
theorem Asked.of_bareNodes {a b : NodeId} {aPort bPort : String} {m' n' : Node} {o' p' : Port}
    (h : e'.Asked a aPort b bPort m' o' n' p') (hbare : e.bareNodes = e'.bareNodes) :
    ∃ m o n p, e.Asked a aPort b bPort m o n p ∧ m.id = m'.id ∧ o.id = o'.id ∧
      o.spec = o'.spec ∧ n.id = n'.id ∧ p.id = p'.id ∧ p.spec = p'.spec := by
  rcases h with ⟨ho, hp⟩ | ⟨ho, hp⟩
  all_goals
    obtain ⟨m, o, hmo, hm, hoid, hospec⟩ := ho.of_bareNodes hbare
    obtain ⟨n, p, hnp, hn, hpid, hpspec⟩ := hp.of_bareNodes hbare
  · exact ⟨m, o, n, p, .inl ⟨hmo, hnp⟩, hm, hoid, hospec, hn, hpid, hpspec⟩
  · exact ⟨m, o, n, p, .inr ⟨hmo, hnp⟩, hm, hoid, hospec, hn, hpid, hpspec⟩

/-! ## With one link more and without it -/

/-- The same links have been made in two graphs, of which the second had `edge` as well: after the
edges that both had, its edges have ids that are one higher. -/
structure Beside (first : List Edge) (edge : Edge) (near far : Editor) : Prop where
  bareNodes : near.bareNodes = far.bareNodes
  edges : ∃ later, near.edges = first ++ later ∧ far.edges = first ++ edge :: later.map .next
  nextId : far.nextId = near.nextId + 1

variable {near far far' : Editor} {first : List Edge} {edge : Edge} {edits : List Edit}
  {a b : NodeId} {aPort bPort : String}

namespace Beside

theorem start {start stop : NodeId × Port} :
    Beside e.edges (e.newEdge start stop) e (e.withEdge start stop) :=
  ⟨(bareNodes_withEdge ..).symm, ⟨[], (List.append_nil _).symm, rfl⟩, rfl⟩

/-- An input that is free beside one link more is free without it. -/
theorem incoming_eq_nil (h : Beside first edge near far) {node : NodeId} {port : PortId}
    (hfree : far.incoming node port = []) : near.incoming node port = [] := by
  obtain ⟨later, hnear, hfar⟩ := h.edges
  rw [incoming, hfar, List.filter_append, List.append_eq_nil_iff] at hfree
  rw [incoming, hnear, List.filter_append, List.append_eq_nil_iff]
  refine ⟨hfree.1, List.filter_eq_nil_iff.mpr fun x hx => ?_⟩
  exact List.filter_eq_nil_iff.mp hfree.2 x.next (List.mem_cons_of_mem _ (List.mem_map_of_mem hx))

/-- A link that is made beside one more is made without it. -/
theorem connect (h : Beside first edge near far) (hnear : near.Consistent)
    (hfar : far.Consistent) {x' : Edge} (hx : far.connect a aPort b bPort = .ok (x', far')) :
    ∃ x near', near.connect a aPort b bPort = .ok (x, near') ∧ Beside first edge near' far' := by
  obtain ⟨m', o', n', p', hasked', hlegal', hlinked'⟩ := hfar.connect_eq_ok_iff.mp hx
  obtain ⟨-, hn', hp'⟩ := hasked'.mem
  obtain ⟨rfl, rfl⟩ := (hfar.linked_iff hn' hp').mp hlinked'
  obtain ⟨m, o, n, p, hasked, hm, hoid, hospec, hn, hpid, hpspec⟩ :=
    hasked'.of_bareNodes h.bareNodes
  obtain ⟨-, hnmem, hpmem⟩ := hasked.mem
  have hlegal : near.Legal m o n p := {
    ne := hm ▸ hn ▸ hlegal'.ne
    output := (congrArg PortSpec.role hospec).trans hlegal'.output
    input := (congrArg PortSpec.role hpspec).trans hlegal'.input
    payload := by
      have hpayload : o'.spec.payload = p'.spec.payload := hlegal'.payload
      rwa [← hospec, ← hpspec] at hpayload
    free := h.incoming_eq_nil (hn ▸ hpid ▸ hlegal'.free) }
  have hedge : far.newEdge (m'.id, o') (n'.id, p') = (near.newEdge (m.id, o) (n.id, p)).next := by
    simp only [newEdge, Edge.next, h.nextId, hm, hn, hoid, hpid, Port.name, Port.payload, hospec,
      hpspec]
  obtain ⟨later, hnearEdges, hfarEdges⟩ := h.edges
  have hlinked := (hnear.linked_iff (m := m) (o := o) hnmem hpmem).mpr ⟨rfl, rfl⟩
  refine ⟨_, _, hnear.connect_eq_ok_iff.mpr ⟨m, o, n, p, hasked, hlegal, hlinked⟩, ?_,
    ⟨later ++ [near.newEdge (m.id, o) (n.id, p)], ?_, ?_⟩, congrArg (· + 1) h.nextId⟩
  · rw [bareNodes_withEdge, bareNodes_withEdge, h.bareNodes]
  · rw [withEdge, hnearEdges, List.append_assoc]
  · rw [withEdge, hfarEdges, hedge]
    simp

theorem edit (h : Beside first edge near far) (hnear : near.Consistent) (hfar : far.Consistent)
    {x : Edit} (hlink : x.IsLink) (hx : far.edit x = .ok far') :
    ∃ near', near.edit x = .ok near' ∧ Beside first edge near' far' := by
  match x, hlink, hx with
  | .connect a aPort b bPort, _, hx =>
    obtain ⟨x', hconnect⟩ := map_snd_ok hx
    obtain ⟨x, near', hstep, hbeside⟩ := h.connect hnear hfar hconnect
    refine ⟨near', ?_, hbeside⟩
    rw [Editor.edit, hstep]
    rfl

/-- So is a run of links. -/
theorem editAll (h : Beside first edge near far) (hnear : near.Consistent)
    (hfar : far.Consistent) (hlinks : ∀ x ∈ edits, x.IsLink)
    (hrun : far.editAll edits = .ok far') :
    ∃ near', near.editAll edits = .ok near' ∧ Beside first edge near' far' ∧
      near'.Consistent ∧ far'.Consistent := by
  induction edits generalizing near far with
  | nil => cases hrun; exact ⟨near, rfl, h, hnear, hfar⟩
  | cons x edits ih =>
    rw [Editor.editAll, List.foldlM_cons] at hrun
    match hx : far.edit x, hrun with
    | .ok far₁, hrun =>
      obtain ⟨near₁, hedit, hbeside⟩ := h.edit hnear hfar (hlinks x List.mem_cons_self) hx
      obtain ⟨near', hnear', hrest⟩ := ih hbeside (hnear.change (hnear.edit_ok hedit))
        (hfar.change (hfar.edit_ok hx)) (fun y hy => hlinks y (List.mem_cons_of_mem x hy)) hrun
      refine ⟨near', ?_, hrest⟩
      rw [Editor.editAll, List.foldlM_cons, hedit]
      exact hnear'

/-- Without the additional link the two graphs are the same but for ids of edges. -/
theorem withoutEdge (h : Beside first edge near far) (hnear : near.Consistent)
    (hfar : far.Consistent) :
    edge ∈ far.edges ∧ (far.withoutEdge edge).nodes = near.nodes ∧
      ∃ later, near.edges = first ++ later ∧
        (far.withoutEdge edge).edges = first ++ later.map .next := by
  obtain ⟨later, hnearEdges, hfarEdges⟩ := h.edges
  have hmem : edge ∈ far.edges := by simp [hfarEdges]
  have hids : (far.edges.map (·.id)).Nodup := hfar.edges_nodup
  rw [hfarEdges, List.map_append, List.map_cons, List.nodup_middle, List.nodup_cons,
    ← List.map_append] at hids
  have hothers : ∀ x ∈ first ++ later.map .next, x.id != edge.id := by
    intro x hx
    rw [bne_iff_ne]
    intro hid
    exact hids.1 (hid ▸ List.mem_map_of_mem hx)
  have hleft : (far.withoutEdge edge).edges = first ++ later.map .next := by
    rw [Editor.withoutEdge, hfarEdges]
    simp only [List.filter_append, List.filter_cons, bne_self_eq_false, Bool.false_eq_true,
      if_false]
    rw [← List.filter_append, List.filter_eq_self.mpr hothers]
  have hconsistent : (far.withoutEdge edge).Consistent := hfar.change (.unlink hmem)
  refine ⟨hmem, hconsistent.toFlagged.nodes_eq hnear.toFlagged ?_ ?_, later, hnearEdges, hleft⟩
  · rw [bareNodes_withoutEdge, h.bareNodes]
  · simp only [hleft, hnearEdges, List.map_append, List.map_map]
    rfl

end Beside

/-! ## With a new node and without it -/

/-- The second graph is the first with one node more, at the end, and edges that touch it, up to
flags. -/
structure Grown (e : Editor) (n : Node) (e' : Editor) : Prop where
  bareNodes : e'.bareNodes = e.bareNodes ++ [n.flagged []]
  edges : ∃ later, e'.edges = e.edges ++ later ∧ ∀ x ∈ later, x.touches n.id = true

namespace Grown

variable {n : Node} {g g' : Editor}

theorem start {name : String} {kind : PassKind} {specs : List PortSpec} :
    e.Grown (e.newNode name kind specs) (e.insert name kind specs) where
  bareNodes := List.map_append ..
  edges := ⟨[], (List.append_nil _).symm, nofun⟩

/-- A link of the new node is an edge that touches it. -/
theorem edit (h : e.Grown n g) (hg : g.WellFormed) {x : Edit} (hx : x.IsLinkOf n.id)
    (hedit : g.edit x = .ok g') : e.Grown n g' := by
  match x, hx, hedit with
  | .connect a aPort b bPort, hends, hedit =>
    obtain ⟨edge, hconnect⟩ := map_snd_ok hedit
    obtain ⟨m, o, k, p, hasked, -, -, rfl⟩ := hg.connect_ok hconnect
    have hid : m.id = n.id ∨ k.id = n.id := by
      rcases hasked with ⟨hm, hk⟩ | ⟨hm, hk⟩
      · rwa [hm.id, hk.id]
      · rw [hm.id, hk.id]
        exact hends.symm
    obtain ⟨later, hedges, htouch⟩ := h.edges
    refine ⟨(bareNodes_withEdge ..).trans h.bareNodes, later ++ [g.newEdge (m.id, o) (k.id, p)],
      ?_, fun x hx => ?_⟩
    · rw [withEdge, hedges, List.append_assoc]
    · rcases List.mem_append.mp hx with hx | hx
      · exact htouch x hx
      · obtain rfl := List.mem_singleton.mp hx
        simpa [Edge.touches, newEdge] using hid

theorem foldl (h : e.Grown n g) (hg : g.WellFormed) (hlinks : ∀ x ∈ edits, x.IsLinkOf n.id) :
    e.Grown n (edits.foldl Editor.apply g) := by
  induction edits generalizing g with
  | nil => exact h
  | cons x edits ih =>
    have happly : e.Grown n (g.apply x) ∧ (g.apply x).WellFormed := by
      unfold Editor.apply
      cases hedit : g.edit x with
      | error => exact ⟨h, hg⟩
      | ok g' =>
        exact ⟨h.edit hg (hlinks x List.mem_cons_self) hedit, hg.change (hg.edit_ok hedit)⟩
    exact ih happly.1 happly.2 fun y hy => hlinks y (List.mem_cons_of_mem x hy)

/-- Without the new node the graph is what it was. -/
theorem withoutNode (h : e.Grown n g) (he : e.Consistent) (hg : g.Consistent)
    (hnew : n.id = e.nextId) :
    (∃ k ∈ g.nodes, k.id = n.id) ∧ (g.withoutNode n.id).nodes = e.nodes ∧
      (g.withoutNode n.id).edges = e.edges := by
  have hold : ∀ m ∈ e.nodes, m.id ≠ n.id := by
    intro m hm
    have hlt := he.ids_lt m.id (WellFormed.mem_ids_of_node hm List.mem_cons_self)
    exact Nat.ne_of_lt (hnew ▸ hlt)
  obtain ⟨later, hedges, htouch⟩ := h.edges
  have hkept : e.edges.filter (!·.touches n.id) = e.edges := by
    refine List.filter_eq_self.mpr fun x hx => ?_
    obtain ⟨m, hm, o, -, k, hk, p, -, hj⟩ := he.joins x hx
    simp [Edge.touches, hj.start, hj.stop, hold m hm, hold k hk]
  have hgone : later.filter (!·.touches n.id) = [] :=
    List.filter_eq_nil_iff.mpr fun x hx => by simp [htouch x hx]
  have hleft : (g.withoutNode n.id).edges = e.edges := by
    change g.edges.filter (!·.touches n.id) = e.edges
    rw [hedges, List.filter_append, hkept, hgone, List.append_nil]
  have hbare : (g.withoutNode n.id).bareNodes = e.bareNodes := by
    have hothers : e.bareNodes.filter (·.id != n.id) = e.bareNodes := by
      refine List.filter_eq_self.mpr fun k hk => ?_
      obtain ⟨m, hm, rfl⟩ := List.mem_map.mp hk
      exact bne_iff_ne.mpr (hold m hm)
    have hself : ((n.flagged []).id != n.id) = false := bne_self_eq_false n.id
    rw [bareNodes_withoutNode, h.bareNodes, List.filter_append, hothers, List.filter_singleton,
      hself, Bool.cond_false, List.append_nil]
  refine ⟨?_, ?_, hleft⟩
  · have hmem : n.flagged [] ∈ g.bareNodes := by simp [h.bareNodes]
    obtain ⟨k, hk, heq⟩ := List.mem_map.mp hmem
    exact ⟨k, hk, congrArg (·.id) heq⟩
  · have hwithout : (g.withoutNode n.id).Consistent := hg.change (.remove n.id)
    exact hwithout.toFlagged.nodes_eq he.toFlagged hbare (congrArg _ hleft)

end Grown

/-! ## Undone -/

theorem add_eq_newNode {name : String} {kind : PassKind} {specs : List PortSpec} {n : Node}
    (h : e.add name kind specs = .ok (n, e')) : n = e.newNode name kind specs := by
  unfold add at h
  split at h
  · cases h
  · cases h
    rfl

/-- In every graph made by edits: taking out an edge, after any links that were made since, leaves
the nodes and edges that these links make without it, the ids of their edges being one higher; and
removing a node, after any links from or to it, leaves the nodes, with their flags, and the edges
that were there before it was added. -/
theorem Reachable.edits_undone (he : e.Reachable) :
    (∀ a aPort b bPort edge e', e.connect a aPort b bPort = .ok (edge, e') →
      ∀ edits : List Edit, (∀ x ∈ edits, x.IsLink) → ∀ far, e'.editAll edits = .ok far →
        ∃ near last later, e.editAll edits = .ok near ∧
          far.disconnect edge.id = .ok (edge, last) ∧ last.nodes = near.nodes ∧
          near.edges = e.edges ++ later ∧ last.edges = e.edges ++ later.map .next) ∧
    (∀ name kind specs n e', e.add name kind specs = .ok (n, e') →
      ∀ edits : List Edit, (∀ x ∈ edits, x.IsLinkOf n.id) →
        ∃ removal last, (edits.foldl apply e').remove n.id = .ok (removal, last) ∧
          last.nodes = e.nodes ∧ last.edges = e.edges) := by
  have hc := he.consistent
  constructor
  · intro a aPort b bPort edge e' hconnect edits hlinks far hrun
    obtain ⟨m, o, n, p, -, hl, rfl, rfl⟩ := hc.connect_ok hconnect
    obtain ⟨near, hnear, hbeside, hcnear, hcfar⟩ :=
      Beside.start.editAll hc (hc.change (.link hl)) hlinks hrun
    obtain ⟨hmem, hnodes, later, hnearEdges, hedges⟩ := hbeside.withoutEdge hcnear hcfar
    have hundone := hcfar.toWellFormed.disconnect_of_mem hmem
    exact ⟨near, _, later, hnear, hundone, hnodes, hnearEdges, hedges⟩
  · intro name kind specs n e' hadd edits hlinks
    obtain rfl := add_eq_newNode hadd
    obtain ⟨-, rfl⟩ := add_ok hadd
    have hadded : e.apply (.add name kind specs) = e.insert name kind specs := by
      rw [apply, edit, hadd]
      rfl
    have hinserted : (e.insert name kind specs).Reachable :=
      hadded ▸ he.edited (.add name kind specs)
    have hgrown := (hinserted.foldl edits).consistent
    obtain ⟨⟨k, hk, hid⟩, hnodes, hedges⟩ :=
      (Grown.start.foldl hinserted.consistent.toWellFormed hlinks).withoutNode hc hgrown rfl
    exact ⟨_, _, hid ▸ hgrown.toWellFormed.remove_of_mem hk, hnodes, hedges⟩

/-- A seeded graph with a link and two blurs. -/
def looseBlurs : Editor :=
  [Edit.addKind .gaussianBlur, .addKind .gaussianBlur, .connect 0 "Scene" 5 "Scene"].foldl apply
    seeded

/-- The first link of a chain is taken out after the other two were made; a third blur is removed
after two links and one that was refused, since the input was taken. -/
theorem looseBlurs_undone :
    (∃ edge e' far near last, looseBlurs.connect 13 "Image" 5 "Position" = .ok (edge, e') ∧
      e'.editAll [.connect 13 "Blurred Image" 16 "Image",
        .connect 16 "Blurred Image" 11 "Final Image"] = .ok far ∧
      looseBlurs.editAll [.connect 13 "Blurred Image" 16 "Image",
        .connect 16 "Blurred Image" 11 "Final Image"] = .ok near ∧
      far.disconnect edge.id = .ok (edge, last) ∧ last.nodes = near.nodes ∧
      near.edges.map (·.id) = [19, 20, 21] ∧ last.edges.map (·.id) = [19, 21, 22]) ∧
    ∃ n e' removal last, looseBlurs.add "Third" .gaussianBlur PassKind.gaussianBlur.ports =
        .ok (n, e') ∧ n.id = 20 ∧
      ([Edit.connect 5 "Position" 20 "Image", .connect 20 "Blurred Image" 11 "Final Image",
        .connect 5 "Normal" 20 "Image"].foldl apply e').remove n.id = .ok (removal, last) ∧
      removal.edges.map (·.id) = [23, 24] ∧
      last.nodes = looseBlurs.nodes ∧ last.edges = looseBlurs.edges := by
  have he : looseBlurs.Reachable := Reachable.seeded.foldl _
  have hnext : looseBlurs.nextId = 20 := by decide
  constructor
  · obtain ⟨near, last, later, hnear, hdisconnect, hnodes, hedges, hlast⟩ :=
      (Reachable.edits_undone he).1 13 "Image" 5 "Position" _ _ rfl
        [.connect 13 "Blurred Image" 16 "Image", .connect 16 "Blurred Image" 11 "Final Image"]
        (by simp [Edit.IsLink]) _ rfl
    refine ⟨_, _, _, near, last, rfl, rfl, hnear, hdisconnect, hnodes, ?_, ?_⟩
    · cases hnear
      decide
    · cases hdisconnect
      decide
  · obtain ⟨removal, last, hremove, hnodes, hedges⟩ :=
      (Reachable.edits_undone he).2 "Third" .gaussianBlur PassKind.gaussianBlur.ports _ _ rfl
        [.connect 5 "Position" 20 "Image", .connect 20 "Blurred Image" 11 "Final Image",
          .connect 5 "Normal" 20 "Image"]
        (by simp [Edit.IsLinkOf, newNode, hnext])
    refine ⟨_, _, removal, last, rfl, hnext, hremove, ?_, hnodes, hedges⟩
    cases hremove
    decide

end Editor

end FrameGraph
