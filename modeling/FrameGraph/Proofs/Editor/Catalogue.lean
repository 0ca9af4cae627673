import FrameGraph.Proofs.Editor.Flags

/-!
# Graphs of catalogue nodes

A description names the kind of a node and none of its ports, so that what it can bring back are
nodes with the ports of their kind. These are all that an editor has while nobody adds a node with
ports of its own (`Editor.CatalogueReachable.catalogued`): no edit changes what a port declares.
-/

namespace FrameGraph

/-- The node has the ports that its kind declares. -/
def Node.FromCatalogue (n : Node) : Prop := n.ports.map (·.spec) = n.kind.ports

/-- The edit adds no node, or one from the catalogue. -/
def Edit.FromCatalogue : Edit → Prop
  | .add _ kind specs => specs = kind.ports
  | _ => True

namespace Editor

/-- The editors that a caller can come to who adds nodes from the catalogue only. -/
inductive CatalogueReachable : Editor → Prop
  | empty : CatalogueReachable .empty
  | seeded : CatalogueReachable .seeded
  | loaded {d : Description} {e : Editor} : d.load = .ok e → CatalogueReachable e
  | edited {e : Editor} {edit : Edit} : edit.FromCatalogue → CatalogueReachable e →
      CatalogueReachable (e.apply edit)

/-- All nodes have the ports that their kinds declare. -/
def Catalogued (e : Editor) : Prop := ∀ n ∈ e.nodes, n.FromCatalogue

end Editor

/-- The kinds of which a graph holds at most one node. -/
theorem PassKind.mem_of_isSingleton {kind : PassKind} (h : kind.isSingleton = true) :
    kind ∈ [sceneProvider, present] := by
  revert h
  cases kind <;> simp [isSingleton]

namespace Node.FromCatalogue

variable {n : Node}

theorem withFlags (h : n.FromCatalogue) (flag : Port → Bool) :
    (n.withFlags flag).FromCatalogue := by
  unfold FromCatalogue
  rw [Node.withFlags, List.map_map]
  exact h

theorem length_ports (h : n.FromCatalogue) : n.kind.ports.length = n.ports.length := by
  rw [← h, List.length_map]

/-- The names of a node's ports are distinct, as those of its kind are. -/
theorem names_nodup (h : n.FromCatalogue) : (n.ports.map (·.name)).Nodup := by
  have hnames := congrArg (List.map PortSpec.name) h
  rw [List.map_map] at hnames
  exact hnames ▸ n.kind.port_names_nodup

theorem port_eq (h : n.FromCatalogue) {p q : Port} (hp : p ∈ n.ports) (hq : q ∈ n.ports)
    (hname : p.name = q.name) : p = q := List.inj_on_of_nodup_map h.names_nodup hp hq hname

/-- Every port is the first of its name. -/
theorem portNamed?_eq (h : n.FromCatalogue) {p : Port} (hp : p ∈ n.ports) :
    n.portNamed? p.name = some p := by
  obtain ⟨q, hfind, hq, hname⟩ := exists_find? (p := fun q : Port => q.name == p.name) hp
    (beq_self_eq_true _)
  rw [Node.portNamed?, hfind, h.port_eq hq hp (beq_iff_eq.mp hname)]

end Node.FromCatalogue

namespace Editor

variable {e e' : Editor}

theorem fromCatalogue_newNode (e : Editor) (name : String) (kind : PassKind) :
    (e.newNode name kind kind.ports).FromCatalogue := by
  unfold Node.FromCatalogue
  rw [newNode, List.map_map]
  exact List.zipIdx_map_fst ..

namespace Catalogued

theorem insert (h : e.Catalogued) (name : String) (kind : PassKind) :
    (e.insert name kind kind.ports).Catalogued := by
  intro n hn
  rcases List.mem_append.mp hn with hn | hn
  · exact h n hn
  · exact List.mem_singleton.mp hn ▸ e.fromCatalogue_newNode name kind

/-- Other nodes are taken from those that were there, with other flags at most. -/
theorem of_map {nodes : List Node} {flag : Node → Port → Bool} (h : e.Catalogued)
    (hsub : nodes ⊆ e.nodes) (he' : e'.nodes = nodes.map fun n => n.withFlags (flag n)) :
    e'.Catalogued := by
  intro n' hn'
  rw [he'] at hn'
  obtain ⟨n, hn, rfl⟩ := List.mem_map.mp hn'
  exact (h n (hsub hn)).withFlags _

theorem withoutNode (h : e.Catalogued) (id : NodeId) : (e.withoutNode id).Catalogued :=
  h.of_map (fun _ => List.mem_of_mem_filter) rfl

theorem withoutEdge (h : e.Catalogued) (edge : Edge) : (e.withoutEdge edge).Catalogued :=
  h.of_map (List.Subset.refl _) rfl

theorem withEdge (h : e.Catalogued) (start stop : NodeId × Port) :
    (e.withEdge start stop).Catalogued :=
  h.of_map (List.Subset.refl _) rfl

theorem edit {x : Edit} (h : e.Catalogued) (hw : e.WellFormed) (hx : x.FromCatalogue)
    (he : e.edit x = .ok e') : e'.Catalogued := by
  cases x with
  | add name kind specs =>
    obtain rfl : specs = kind.ports := hx
    obtain ⟨n, he⟩ := map_snd_ok he
    exact (add_ok he).2 ▸ h.insert name kind
  | addNamed | addKind =>
    obtain ⟨n, he⟩ := map_snd_ok he
    exact (add_ok he).2 ▸ h.insert _ _
  | remove id =>
    obtain ⟨r, he⟩ := map_snd_ok he
    exact hw.remove_ok he ▸ h.withoutNode id
  | connect =>
    obtain ⟨edge, he⟩ := map_snd_ok he
    obtain ⟨_, _, _, _, -, -, -, rfl⟩ := hw.connect_ok he
    exact h.withEdge _ _
  | disconnect =>
    obtain ⟨edge, he⟩ := map_snd_ok he
    exact (hw.disconnect_ok he).2 ▸ h.withoutEdge edge

theorem load {d : Description} (h : d.load = .ok e) : e.Catalogued := by
  refine Description.load_induct h nofun (fun he hadd => ?_) fun hw he hconnect => ?_
  · exact (add_ok hadd).2 ▸ he.insert _ _
  · obtain ⟨_, _, _, _, -, -, -, rfl⟩ := hw.connect_ok hconnect
    exact he.withEdge _ _

end Catalogued

namespace CatalogueReachable

theorem reachable (h : e.CatalogueReachable) : e.Reachable := by
  induction h with
  | empty => exact .empty
  | seeded => exact .seeded
  | loaded h => exact .loaded h
  | edited _ _ ih => exact ih.edited _

theorem catalogued (h : e.CatalogueReachable) : e.Catalogued := by
  induction h with
  | empty => exact nofun
  | seeded =>
    have hempty : Editor.empty.Catalogued := nofun
    exact ((hempty.insert _ .sceneProvider).insert _ .gBuffer).insert _ .present
  | loaded h => exact .load h
  | @edited e x hx he ih =>
    unfold apply
    cases hedit : e.edit x with
    | error => exact ih
    | ok => exact ih.edit he.reachable.consistent.toWellFormed hx hedit

/-- Any run of such edits leads on to such editors. -/
theorem foldl (h : e.CatalogueReachable) (edits : List Edit)
    (hedits : ∀ x ∈ edits, x.FromCatalogue) : (edits.foldl apply e).CatalogueReachable := by
  induction edits generalizing e with
  | nil => exact h
  | cons x edits ih =>
    exact ih (h.edited (hedits x List.mem_cons_self)) fun y hy =>
      hedits y (List.mem_cons_of_mem _ hy)

end CatalogueReachable

end Editor

end FrameGraph
