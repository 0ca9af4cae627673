import FrameGraph.Editor.Record

/-!
# Graph descriptions

A graph without ids: nodes of the catalogue under keys of the description's own, and links
between ports named by key and port name.
-/

namespace FrameGraph

/-- A node: its key in the description, its kind, and a name if it has one of its own. -/
structure NodeEntry where
  key : String
  kind : PassKind
  name : Option String := none
  deriving DecidableEq, Repr

/-- A port, by the key of its node. -/
structure PortRef where
  node : String
  port : String
  deriving DecidableEq, Repr

structure LinkEntry where
  source : PortRef
  target : PortRef
  deriving DecidableEq, Repr

structure Description where
  nodes : List NodeEntry := []
  links : List LinkEntry := []
  deriving DecidableEq, Repr

namespace NodeEntry

/-- The name that the node is shown under. -/
def shownName (n : NodeEntry) : String := n.name.getD n.kind.displayName

end NodeEntry

namespace Description

/-- The deferred lighting pipeline: G-buffer, ambient occlusion, lighting, anti-aliasing and
present. -/
def deferredLighting : Description where
  nodes :=
    [{ key := "scene", kind := .sceneProvider }, { key := "gbuffer", kind := .gBuffer },
      { key := "ao", kind := .ambientOcclusion }, { key := "lighting", kind := .lighting },
      { key := "aa", kind := .antiAliasing }, { key := "present", kind := .present }]
  links :=
    [⟨⟨"scene", "Scene"⟩, ⟨"gbuffer", "Scene"⟩⟩,
      ⟨⟨"gbuffer", "Position"⟩, ⟨"ao", "Position"⟩⟩,
      ⟨⟨"gbuffer", "Normal"⟩, ⟨"ao", "Normal"⟩⟩,
      ⟨⟨"scene", "Camera"⟩, ⟨"ao", "Camera"⟩⟩,
      ⟨⟨"scene", "TLAS"⟩, ⟨"ao", "TLAS"⟩⟩,
      ⟨⟨"scene", "Camera"⟩, ⟨"lighting", "Camera"⟩⟩,
      ⟨⟨"scene", "TLAS"⟩, ⟨"lighting", "TLAS"⟩⟩,
      ⟨⟨"gbuffer", "Position"⟩, ⟨"lighting", "Position"⟩⟩,
      ⟨⟨"gbuffer", "Normal"⟩, ⟨"lighting", "Normal"⟩⟩,
      ⟨⟨"gbuffer", "Albedo"⟩, ⟨"lighting", "Albedo"⟩⟩,
      ⟨⟨"gbuffer", "Depth"⟩, ⟨"lighting", "Depth"⟩⟩,
      ⟨⟨"ao", "AO Image"⟩, ⟨"lighting", "AO Image"⟩⟩,
      ⟨⟨"lighting", "Lighting Result"⟩, ⟨"aa", "Image"⟩⟩,
      ⟨⟨"aa", "Anti-Aliased Image"⟩, ⟨"present", "Final Image"⟩⟩]

/-! ## Loading -/

/-- A description being loaded: the graph so far, and the nodes of the keys so far. -/
structure Loading where
  editor : Editor := .empty
  keys : List (String × NodeId) := []

namespace Loading

/-- Adds a node and binds its key, which must be new. -/
def addNode (l : Loading) (entry : NodeEntry) : Except EditorError Loading :=
  match l.editor.addNamed entry.shownName entry.kind with
  | .error err => .error err
  | .ok (n, editor) =>
    if (l.keys.lookup entry.key).isSome then .error (.duplicateKey entry.key)
    else .ok { editor, keys := (entry.key, n.id) :: l.keys }

def node (l : Loading) (key : String) : Except EditorError NodeId :=
  match l.keys.lookup key with
  | none => .error (.unknownKey key)
  | some id => .ok id

/-- Connects the two ports of a link. -/
def connect (l : Loading) (link : LinkEntry) : Except EditorError (Edge × Editor) :=
  match l.node link.source.node with
  | .error err => .error err
  | .ok a =>
    match l.node link.target.node with
    | .error err => .error err
    | .ok b => l.editor.connect a link.source.port b link.target.port

def addLink (l : Loading) (link : LinkEntry) : Except EditorError Loading :=
  (l.connect link).map fun r => { l with editor := r.2 }

end Loading

/-- Builds the graph of a description, all nodes before all links. -/
def load (d : Description) : Except EditorError Editor := do
  let l ← d.nodes.foldlM Loading.addNode {}
  let l ← d.links.foldlM Loading.addLink l
  return l.editor

/-- The records of adding nodes until one is refused, and the loading if none is. A node whose
key is taken has been added before it is refused. -/
def nodeRecords (l : Loading) : List NodeEntry → List Record × Option Loading
  | [] => ([], some l)
  | entry :: entries =>
    match l.editor.addNamed entry.shownName entry.kind with
    | .error _ => ([], none)
    | .ok (n, _) =>
      match l.addNode entry with
      | .error _ => ([Editor.added n], none)
      | .ok l =>
        let (records, result) := nodeRecords l entries
        (Editor.added n :: records, result)

/-- The records of adding links until one is refused. -/
def linkRecords (l : Loading) : List LinkEntry → List Record
  | [] => []
  | link :: links =>
    match l.connect link with
    | .error _ => []
    | .ok (edge, editor) => Editor.linked edge :: linkRecords { l with editor } links

/-- What loading a description logs, as far as it comes. -/
def loadRecords (d : Description) : List Record :=
  match nodeRecords {} d.nodes with
  | (records, none) => records
  | (records, some l) => records ++ linkRecords l d.links

end Description

/-! ## Describing -/

namespace Editor

/-- The key under which a node is described. -/
def key (id : NodeId) : String := "node" ++ toString id

/-- A name is described only where it is not the one of the node's kind. -/
def describeNode (n : Node) : NodeEntry :=
  { key := key n.id, kind := n.kind
    name := if n.name = n.kind.displayName then none else some n.name }

def describeEdge (e : Edge) : LinkEntry :=
  ⟨⟨key e.start.node, e.start.portName⟩, ⟨key e.stop.node, e.stop.portName⟩⟩

/-- Describes a graph. Loading takes ports from the catalogue, so ports that a node has beside it
do not survive. -/
def describe (e : Editor) : Description := ⟨e.nodes.map describeNode, e.edges.map describeEdge⟩

end Editor

end FrameGraph
