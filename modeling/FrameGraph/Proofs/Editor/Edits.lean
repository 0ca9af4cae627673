import FrameGraph.Description

/-!
# Edits

The edits that a caller can ask for, and the editors that come of them. Every accepted edit changes
a graph in one of four ways: it inserts a node, takes one out, links two ports, or takes a link out.
`Editor.Change` says what each of them finds and leaves. The editor itself looks for the first node,
port or edge of an id and changes that one; a change here is to all of that id, of which there is
one as long as ids are unique (`Editor.WellFormed.edit_ok`).
-/

namespace FrameGraph

/-- One edit of a graph, as its caller asks for it. -/
inductive Edit
  | add (name : String) (kind : PassKind) (specs : List PortSpec)
  | addNamed (name : String) (kind : PassKind)
  | addKind (kind : PassKind)
  | remove (node : NodeId)
  | connect (a : NodeId) (aPort : String) (b : NodeId) (bPort : String)
  | disconnect (edge : EdgeId)

namespace Editor

/-- The editor that an edit gives, or why it is refused. -/
def edit (e : Editor) : Edit → Except EditorError Editor
  | .add name kind specs => (e.add name kind specs).map (·.2)
  | .addNamed name kind => (e.addNamed name kind).map (·.2)
  | .addKind kind => (e.addKind kind).map (·.2)
  | .remove node => (e.remove node).map (·.2)
  | .connect a aPort b bPort => (e.connect a aPort b bPort).map (·.2)
  | .disconnect edge => (e.disconnect edge).map (·.2)

/-- The editor after an edit, accepted or not: a refused edit leaves it as it was. -/
def apply (e : Editor) (edit : Edit) : Editor := (e.edit edit).toOption.getD e

/-- The editors that a caller can come to: a fresh one, seeded or not, or one loaded from a
description, after any edits. -/
inductive Reachable : Editor → Prop
  | empty : Reachable .empty
  | seeded : Reachable .seeded
  | loaded {d : Description} {e : Editor} : d.load = .ok e → Reachable e
  | edited {e : Editor} (edit : Edit) : Reachable e → Reachable (e.apply edit)

end Editor

/-! ## What an accepted edit changes -/

/-- The ids of a node: its own, then those of its ports. -/
def Node.ids (n : Node) : List Nat := n.id :: n.ports.map (·.id)

/-- The node with other flags on its ports. -/
def Node.withFlags (flag : Port → Bool) (n : Node) : Node :=
  { n with ports := n.ports.map fun p => { p with connected := flag p } }

namespace Node

variable {flag : Port → Bool} {n : Node}

@[simp] theorem id_withFlags : (n.withFlags flag).id = n.id := rfl

@[simp] theorem kind_withFlags : (n.withFlags flag).kind = n.kind := rfl

@[simp] theorem ids_withFlags : (n.withFlags flag).ids = n.ids := by
  simp only [ids, withFlags, List.map_map, Function.comp_def]

theorem mem_ports_withFlags {q : Port} :
    q ∈ (n.withFlags flag).ports ↔ ∃ p ∈ n.ports, { p with connected := flag p } = q := by
  simp only [withFlags, List.mem_map]

theorem withFlags_connected : n.withFlags (·.connected) = n := by
  simp only [withFlags, List.map_id']

end Node

namespace Editor

/-- The nodes with the flag of the port at an endpoint set or cleared. -/
def marked (nodes : List Node) (port : Endpoint) (connected : Bool) : List Node :=
  nodes.map fun n => n.withFlags fun p => if port.isAt n.id p.id then connected else p.connected

/-- The nodes with the inputs free that some edges end at. -/
def freed (nodes : List Node) (gone : List Edge) : List Node :=
  nodes.map fun n => n.withFlags fun p => p.connected && !gone.any (·.stop.isAt n.id p.id)

/-- The graph without a node and the edges that touch it. -/
def withoutNode (e : Editor) (id : NodeId) : Editor :=
  { e with
    nodes := freed (e.nodes.filter (·.id != id)) (e.edges.filter (·.touches id))
    edges := e.edges.filter (!·.touches id) }

/-- The graph with one more edge. -/
def withEdge (e : Editor) (start stop : NodeId × Port) : Editor :=
  { nodes := marked e.nodes (e.newEdge start stop).stop true
    edges := e.edges ++ [e.newEdge start stop]
    nextId := e.nextId + 1 }

/-- The graph without the edges of an id, the input that one of them ended at being free. -/
def withoutEdge (e : Editor) (edge : Edge) : Editor :=
  { e with nodes := marked e.nodes edge.stop false, edges := e.edges.filter (·.id != edge.id) }

/-- The port is the first of its name on the node with that id. -/
structure Finds (e : Editor) (id : NodeId) (name : String) (n : Node) (p : Port) : Prop where
  mem : n ∈ e.nodes
  id : n.id = id
  first : n.portNamed? name = some p

/-- The two ports asked for are `o` of `m` and `p` of `n`, in either order. -/
def Asked (e : Editor) (a : NodeId) (aPort : String) (b : NodeId) (bPort : String)
    (m : Node) (o : Port) (n : Node) (p : Port) : Prop :=
  e.Finds a aPort m o ∧ e.Finds b bPort n p ∨ e.Finds b bPort m o ∧ e.Finds a aPort n p

/-- A start port and a stop port that an edge may join. -/
structure Linkable (e : Editor) (m : Node) (o : Port) (n : Node) (p : Port) : Prop where
  start_mem : m ∈ e.nodes
  output_mem : o ∈ m.ports
  stop_mem : n ∈ e.nodes
  input_mem : p ∈ n.ports
  ne : m.id ≠ n.id
  output : o.role = .output
  input : p.role = .input
  payload : o.payload = p.payload
  fresh : ∀ edge ∈ e.edges, edge.samePorts (e.newEdge (m.id, o) (n.id, p)) = false
  free : p.connected = false

/-- One accepted edit: what it found, and what it left. -/
inductive Change (e : Editor) : Editor → Prop
  | insert (name : String) (kind : PassKind) (specs : List PortSpec) :
      (kind.isSingleton = true → ∀ n ∈ e.nodes, n.kind ≠ kind) →
        Change e (e.insert name kind specs)
  | remove (id : NodeId) : Change e (e.withoutNode id)
  | link {m n : Node} {o p : Port} : e.Linkable m o n p → Change e (e.withEdge (m.id, o) (n.id, p))
  | unlink {edge : Edge} : edge ∈ e.edges → Change e (e.withoutEdge edge)

variable {e e' : Editor}

theorem nodeOfKind?_isSome {kind : PassKind} :
    (e.nodeOfKind? kind).isSome = true ↔ ∃ n ∈ e.nodes, n.kind = kind := by
  simp only [nodeOfKind?, Option.isSome_map, List.find?_isSome, beq_iff_eq]

theorem add_ok {name : String} {kind : PassKind} {specs : List PortSpec} {n : Node}
    (h : e.add name kind specs = .ok (n, e')) :
    (kind.isSingleton = true → ∀ n ∈ e.nodes, n.kind ≠ kind) ∧ e' = e.insert name kind specs := by
  unfold add at h
  split at h
  · cases h
  · next hs =>
    cases h
    refine ⟨fun hk n hn hkind => hs ⟨hk, ?_⟩, rfl⟩
    exact nodeOfKind?_isSome.mpr ⟨n, hn, hkind⟩

theorem port_ok {node : NodeId} {name : String} {p : Port} (h : e.port node name = .ok p) :
    ∃ n, e.Finds node name n p := by
  unfold port node? at h
  split at h
  · cases h
  · next n hn =>
    split at h
    · cases h
    · next q hq =>
      cases h
      exact ⟨n, List.mem_of_find?_eq_some hn, by simpa using List.find?_some hn, hq⟩

theorem Finds.port_mem {node : NodeId} {name : String} {n : Node} {p : Port}
    (h : e.Finds node name n p) : p ∈ n.ports := List.mem_of_find?_eq_some h.first

theorem map_snd_ok {α : Type} {r : Except EditorError (α × Editor)} (h : r.map (·.2) = .ok e') :
    ∃ a, r = .ok (a, e') := by
  match r, h with
  | .ok (a, _), rfl => exact ⟨a, rfl⟩

end Editor

namespace Description

open Editor

theorem addNode_ok {l l' : Loading} {entry : NodeEntry} (h : l.addNode entry = .ok l') :
    ∃ n, l.editor.addNamed entry.shownName entry.kind = .ok (n, l'.editor) := by
  unfold Loading.addNode at h
  split at h
  · cases h
  · next n e hadd =>
    split at h
    · cases h
    · cases h
      exact ⟨n, hadd⟩

theorem addLink_ok {l l' : Loading} {link : LinkEntry} (h : l.addLink link = .ok l') :
    ∃ a b edge, l.editor.connect a link.source.port b link.target.port = .ok (edge, l'.editor) := by
  unfold Loading.addLink at h
  match hc : l.connect link, h with
  | .ok (edge, e), h =>
    cases h
    unfold Loading.connect at hc
    split at hc
    · cases hc
    · split at hc
      · cases hc
      · exact ⟨_, _, edge, hc⟩

/-- A loop over entries that may stop keeps what each of its rounds keeps. -/
theorem foldlM_induct {α : Type} {f : Loading → α → Except EditorError Loading}
    {P : Loading → Prop} (hf : ∀ {l l' : Loading} {a : α}, P l → f l a = .ok l' → P l')
    (as : List α) {l l' : Loading} (hl : P l) (h : as.foldlM f l = .ok l') : P l' := by
  induction as generalizing l with
  | nil => cases h; exact hl
  | cons a as ih =>
    rw [List.foldlM_cons] at h
    match hr : f l a, h with
    | .ok l₁, h => exact ih (hf hl hr) h

/-- A loop over a list with one more entry is the loop over the list and one more round. -/
theorem foldlM_concat_eq_ok_iff {α : Type} {f : Loading → α → Except EditorError Loading}
    {as : List α} {a : α} {l l' : Loading} : (as ++ [a]).foldlM f l = .ok l' ↔
      ∃ m, as.foldlM f l = .ok m ∧ f m a = .ok l' := by
  rw [List.foldlM_append]
  cases has : as.foldlM f l with
  | error err => exact iff_of_false nofun nofun
  | ok m =>
    change f m a >>= pure = .ok l' ↔ _
    rw [bind_pure]
    constructor
    · exact fun h => ⟨m, rfl, h⟩
    · rintro ⟨_, hm, h⟩
      exact Except.ok.inj hm ▸ h

theorem load_ok {d : Description} {e : Editor} (h : d.load = .ok e) :
    ∃ l l', d.nodes.foldlM Loading.addNode {} = .ok l ∧ d.links.foldlM Loading.addLink l = .ok l' ∧
      l'.editor = e := by
  unfold load at h
  match hn : d.nodes.foldlM Loading.addNode {}, h with
  | .ok l, h =>
    change (d.links.foldlM Loading.addLink l >>= fun l => .ok l.editor) = .ok e at h
    match hl : d.links.foldlM Loading.addLink l, h with
    | .ok l', h => exact ⟨l, l', rfl, hl, Except.ok.inj h⟩

end Description

end FrameGraph
