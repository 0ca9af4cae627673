import FrameGraph.Description
import FrameGraph.Ron.Document
import FrameGraph.Ron.Layout

/-!
# Descriptions as text

The text of a description is a record of its nodes and links. Reading allows what any document
allows; writing has one form.
-/

namespace FrameGraph

open Ron

/-! ## Reading -/

/-- What is known of a node while its fields are read. -/
structure NodeFields where
  key : Option String := none
  kind : Option PassKind := none
  name : Option (Option String) := none

def NodeFields.all (s : Scope) : List (RecordField NodeFields) :=
  [.of "key" text (·.key) fun known v => { known with key := some v },
    .of "kind" (oneOf "kind" PassKind.all PassKind.name) (·.kind)
      fun known v => { known with kind := some v },
    .of "name" (optional s.bare text) (·.name) fun known v => { known with name := some v }]

def NodeEntry.reader (s : Scope) : Reader NodeEntry := fun cs => do
  let (known, rest) ← fieldsOf "NodeDescription" (NodeFields.all s) s {} cs
  let key ← required "key" known.key rest
  let kind ← required "kind" known.kind rest
  return ({ key, kind, name := known.name.getD none }, rest)

structure PortFields where
  node : Option String := none
  port : Option String := none

def PortFields.all : List (RecordField PortFields) :=
  [.of "node" text (·.node) fun known v => { known with node := some v },
    .of "port" text (·.port) fun known v => { known with port := some v }]

def PortRef.reader (s : Scope) : Reader PortRef := fun cs => do
  let (known, rest) ← fieldsOf "PortRef" PortFields.all s {} cs
  let node ← required "node" known.node rest
  let port ← required "port" known.port rest
  return (⟨node, port⟩, rest)

structure LinkFields where
  source : Option PortRef := none
  target : Option PortRef := none

def LinkFields.all (s : Scope) : List (RecordField LinkFields) :=
  [.of "from" (PortRef.reader s.into) (·.source) fun known v => { known with source := some v },
    .of "to" (PortRef.reader s.into) (·.target) fun known v => { known with target := some v }]

def LinkEntry.reader (s : Scope) : Reader LinkEntry := fun cs => do
  let (known, rest) ← fieldsOf "LinkDescription" (LinkFields.all s) s {} cs
  let source ← required "from" known.source rest
  let target ← required "to" known.target rest
  return (⟨source, target⟩, rest)

structure DescriptionFields where
  nodes : Option (List NodeEntry) := none
  links : Option (List LinkEntry) := none

def DescriptionFields.all (s : Scope) : List (RecordField DescriptionFields) :=
  [.of "nodes" (listOf (NodeEntry.reader s.into.into)) (·.nodes)
      fun known v => { known with nodes := some v },
    .of "links" (listOf (LinkEntry.reader s.into.into)) (·.links)
      fun known v => { known with links := some v }]

namespace Description

def reader (s : Scope) : Reader Description := fun cs => do
  let (known, rest) ← fieldsOf "GraphDescription" (DescriptionFields.all s) s {} cs
  let nodes ← required "nodes" known.nodes rest
  return ({ nodes, links := known.links.getD [] }, rest)

/-- Reads the text of a description. -/
def ofText (source : String) : Except EditorError Description :=
  match document reader source.toList with
  | .ok d => .ok d
  | .error fault => .error (.unreadable (fault.text source.toList))

end Description

/-! ## Writing -/

def NodeEntry.layout (n : NodeEntry) : Layout :=
  .fields [("key", .quote n.key), ("kind", .word n.kind.name),
    ("name", .optional (n.name.map .quote))]

def PortRef.layout (p : PortRef) : Layout :=
  .fields [("node", .quote p.node), ("port", .quote p.port)]

def LinkEntry.layout (l : LinkEntry) : Layout :=
  .fields [("from", l.source.layout), ("to", l.target.layout)]

namespace Description

def layout (d : Description) : Layout :=
  .fields [("nodes", .list (d.nodes.map NodeEntry.layout)),
    ("links", .list (d.links.map LinkEntry.layout))]

/-- Writes a description. -/
def toText (d : Description) : String := String.ofList (d.layout 0)

end Description

end FrameGraph
