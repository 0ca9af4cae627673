import FrameGraph.Editor.Basic
import FrameGraph.Log

/-!
# What the editor logs
-/

namespace FrameGraph

namespace Editor

def record (text : String) : Record := ⟨.debug, .editor, text⟩

def added (n : Node) : Record :=
  record s!"Editor: added node {n.id} '{n.name}' ({n.kind.name})"

def linked (e : Edge) : Record :=
  record <| s!"Editor: linked {e.start.node}:'{e.start.portName}' -> " ++
    s!"{e.stop.node}:'{e.stop.portName}' as edge {e.id}"

def removed (r : Removal) : Record :=
  record s!"Editor: removed node {r.node.id} '{r.node.name}' and {r.edges.length} edge(s)"

/-- The records of making the seeded graph. -/
def seededRecords : List Record := seeded.nodes.map added

end Editor

end FrameGraph
