import FrameGraph.Graph

/-!
# Refused edits
-/

namespace FrameGraph

/-- Why an edit of a graph, or the loading of a description, is refused. -/
inductive EditorError
  | unknownNode (node : NodeId)
  | unknownPort (node : NodeId) (port : String)
  | unknownEdge (edge : EdgeId)
  | selfLink (node : NodeId)
  | roleMismatch (start stop : Role)
  | payloadMismatch (start stop : Payload)
  | inputTaken (node : NodeId) (port : String)
  | duplicateEdge (edge : EdgeId)
  | singletonExists (kind : PassKind)
  | duplicateKey (key : String)
  | unknownKey (key : String)
  /-- The text of a description cannot be read. -/
  | unreadable (reason : String)
  deriving DecidableEq, Repr

namespace EditorError

def message : EditorError → String
  | unknownNode node => s!"node {node} does not exist"
  | unknownPort node port => s!"node {node} has no port named '{port}'"
  | unknownEdge edge => s!"edge {edge} does not exist"
  | selfLink node => s!"cannot link node {node} to itself"
  | roleMismatch start stop => s!"cannot link {start.name} port to {stop.name} port"
  | payloadMismatch start stop =>
    s!"cannot link {start.name} to {stop.name}: resource types differ"
  | inputTaken node port => s!"input '{port}' on node {node} is already connected"
  | duplicateEdge edge => s!"an identical edge already exists ({edge})"
  | singletonExists kind => s!"graph already has a {kind.displayName} node"
  | duplicateKey key => s!"invalid graph description: duplicate node key '{key}'"
  | unknownKey key => s!"invalid graph description: link references unknown node '{key}'"
  | unreadable reason => s!"invalid graph description: {reason}"

end EditorError

end FrameGraph
