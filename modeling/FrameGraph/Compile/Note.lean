import FrameGraph.Compile.Error
import FrameGraph.Report
import FrameGraph.Settings

/-!
# What a compile reports

A compile keeps a list of lines for its caller and logs records. Most notes are both.
-/

namespace FrameGraph

/-- Readings of the clock, as text. -/
structure Clock where
  /-- The minute in which the compile started. -/
  stamp : String
  /-- How long packing took. -/
  packing : String
  /-- How many milliseconds the compile took. -/
  total : String

namespace Compile

inductive Note
  | started (stamp : String) (strategy : Strategy)
  | input (nodes : List Node)
  | culled (count : Nat)
  | order (nodes : List Node)
  | packing (note : Packing.Note)
  | packed (logicals buckets fixed : Nat) (elapsed : String)
  | mapped (logicals buckets fixed : Nat)
  | requested (record : Record)
  | skipped (bucket : Bucket)
  | noPass (node : Node)
  | rejected (node : String) (id : BucketId) (port : String)
  | reportsWritten (directory : String)
  | reportsLost (directory : String) (error : FileError)
  | reportLine (line : String)
  | holds (passes resources : Nat)
  | finished (milliseconds : String)
  | failed (error : CompileError)
  deriving DecidableEq, Repr

namespace Note

def listing (separator : String) (nodes : List Node) : String :=
  separator.intercalate (nodes.map Node.listing)

def text : Note → String
  | started stamp strategy =>
    s!"[Compiler] Compiling started at {stamp} ({strategy.name} strategy)"
  | input nodes => "[Compiler] Input nodes: " ++ listing ", " nodes
  | culled count => s!"[Compiler] Culled {count} unreachable node(s)"
  | order nodes => "[Compiler] Execution order: " ++ listing " -> " nodes
  | packing note => note.text
  | packed logicals buckets fixed elapsed =>
    s!"Optimizer: {logicals} logical resources packed into {buckets} ({fixed} non-optimizable) " ++
      s!"in {elapsed}"
  | mapped logicals buckets fixed =>
    s!"[Compiler] {logicals} logical resources mapped to {buckets} physical " ++
      s!"({fixed} non-optimizable)"
  | requested record => record.text
  | skipped b =>
    s!"[Compiler] Skipping resource {b.id} ('{b.origin.portName}' of '{b.origin.nodeName}'): " ++
      s!"unsupported type {Payload.unknown.name}"
  | noPass n =>
    s!"[Compiler] No runtime pass for node '{n.name}' ({n.kind.displayName}), skipping"
  | rejected node id port => s!"[Compiler] Node '{node}' rejected resource {id} on port '{port}'"
  | reportsWritten directory => s!"[Compiler] Reports written to {directory}"
  | reportsLost directory error =>
    s!"[Compiler] Could not write reports to {directory}: {error.message}"
  | reportLine line => line
  | holds passes resources =>
    s!"[Compiler] Render path holds {passes} node(s) and {resources} resource(s)"
  | finished milliseconds => s!"[Compiler] Compilation finished in {milliseconds} ms"
  | failed error => s!"[Error] {error.message}"

/-- The line that a note adds to those kept for the caller. -/
def line? : Note → Option String
  | packed .. | requested _ => none
  | note => some note.text

def compilerRecord (level : Level) (note : Note) : Record := ⟨level, .compiler, note.text⟩

/-- What a note logs. Lines of reports are kept only. -/
def records (note : Note) : List Record :=
  match note with
  | reportLine _ => []
  | requested record => [record]
  | packing note => note.records
  | packed .. => [⟨.debug, .packing, note.text⟩]
  | started .. | mapped .. | finished _ => [compilerRecord .info note]
  | skipped _ | noPass _ | rejected .. | reportsLost .. => [compilerRecord .warn note]
  | input _ | culled _ | order _ | reportsWritten _ | holds .. => [compilerRecord .debug note]
  | failed _ => [compilerRecord .error note]

end Note

end Compile

end FrameGraph
