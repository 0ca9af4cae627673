import FrameGraph.CommandLine.Run
import FrameGraph.Log.Filter
import FrameGraph.Number.Duration
import FrameGraph.Text.ControlSequence
import FrameGraph.Version
import Std.Time

/-!
# The program

Reads the clock, the environment and the files that the arguments name, does the run, and prints,
logs and writes what it leaves. Everything that is decided is decided by the run.
-/

namespace FrameGraph

namespace Program

/-- The names under which log filters know the parts of the program. -/
def target : Origin → String
  | .editor => "frame_graph::editor"
  | .packing => "frame_graph::packing"
  | .compiler => "frame_graph::compile"
  | .device => "frame_graph::device"
  | .pass => "frame_graph::pass"
  | .plan => "frame_graph::plan"
  | .slot => "frame_graph::slot"
  | .command => "compile_graph"

/-- The names from the root of the tree to a path that is given from a directory. -/
def resolve (here : FilePath) (path : String) : FilePath :=
  (Files.names path).foldl
    (fun found name =>
      if name = "." then found else if name = ".." then found.dropLast else found ++ [name])
    (if path.startsWith "/" then [] else here)

/-- The entry at a path: the text of a file, nothing for a directory, or no entry. -/
def entryAt (path : FilePath) : IO (Option (Option String)) := do
  match ← (IO.FS.readFile ("/" ++ "/".intercalate path)).toBaseIO with
  | .ok text => return some (some text)
  | .error (.inappropriateType ..) => return some none
  | .error _ => return none

/-- Adds the entries at a path and at those above it to a tree. -/
def gather (t : Files) (path : String) : IO Files := do
  let names := resolve t.here path
  (List.range names.length).foldlM (fun t n => do
    let above := names.take (n + 1)
    if (t.entries.lookup above).isSome then return t
    return match ← entryAt above with
      | some entry => { t with entries := Files.put above entry t.entries }
      | none => t) t

/-- The tree of the files that arguments name. -/
def filesFor (a : CommandLine.Arguments) : IO Files := do
  let here := Files.names (toString (← IO.currentDir))
  let root : Files :=
    { here, entries := (List.range here.length).map fun n => (here.take (n + 1), none) }
  let named := [a.config, a.graph, a.writeDefault].filterMap id
  let t ← named.foldlM gather root
  match a.settings t with
  | .error _ => return t
  | .ok settings =>
    match settings.dumpDir with
    | none => return t
    | some directory =>
      ["optimization_timeline.txt", "graph_state.txt"].foldlM
        (fun t name => gather t (Files.join directory name)) t

/-- Writes the entries of a tree that another does not have. -/
def store (before after : Files) : IO Unit :=
  after.entries.forM fun (path, entry) => do
    if before.entries.lookup path ≠ some entry then
      let name := "/" ++ "/".intercalate path
      match entry with
      | none => IO.FS.createDirAll name
      | some text => IO.FS.writeFile name text

/-- Takes the time of a computation in nanoseconds. -/
def timed {α : Type} (compute : Unit → α) : IO (α × Nat) := do
  let start ← IO.monoNanosNow
  let a ← IO.lazyPure compute
  return (a, (← IO.monoNanosNow) - start)

/-- The current time of the prime meridian. -/
def universalTime : IO Std.Time.PlainDateTime :=
  return .ofWallTime (.ofTimestamp (← Std.Time.Timestamp.now) .zero)

/-- The current time of this place, as far as it is known. -/
def localTime : IO Std.Time.PlainDateTime :=
  try Std.Time.PlainDateTime.now catch _ => universalTime

/-- Nanoseconds in milliseconds, with three decimal places. -/
def milliseconds (nanoseconds : Nat) : String :=
  let micro := (nanoseconds + 500) / 1000
  let rest := toString (micro % 1000)
  toString (micro / 1000) ++ "." ++ "".pushn '0' (3 - rest.length) ++ rest

/-- The clock for a run: the current minute, and how long packing and all of the run take. -/
def clockFor (a : CommandLine.Arguments) (files : Files) : IO Clock := do
  let stamp := (← localTime).format "uuuu-MM-dd HH:mm"
  let (_, total) ← timed fun _ => a.run ⟨stamp, "", ""⟩ files
  let scheduled : Except CommandLine.RunError (Strategy × List Node × List Edge) := do
    let settings ← a.settings files
    let editor ← ((← a.description files).load).mapError .graph
    let order := reachable editor.nodes editor.edges >>= fun kept => inOrder kept editor.edges
    return (settings.strategy, order.toOption.getD [], editor.edges)
  let (strategy, order, edges) := scheduled.toOption.getD default
  let (_, packing) ← timed fun _ => Packing.pack strategy order edges
  return ⟨stamp, Duration.text ⟨packing⟩, milliseconds total⟩

/-- A record as text of the log. -/
def line (now : String) (r : Record) : String :=
  ControlSequence.shown s!"[{now} {padRight 5 r.level.name} {target r.origin}] {r.indented}\n"

/-- Does what the arguments ask for, and gives the exit code. -/
def execute (args : List String) : IO UInt32 := do
  match CommandLine.Request.ofList args with
  | .error err =>
    IO.eprintln s!"error: {err.message}"
    return 2
  | .ok .help =>
    IO.print (unlines usage)
    return 0
  | .ok (.run a) =>
    let log := LogFilter.ofText ((← IO.getEnv "FRAME_GRAPH_LOG").getD "info")
    log.complaints.forM IO.eprintln
    let files ← filesFor a
    let outcome := a.run (← clockFor a files) files
    store files outcome.files
    IO.print outcome.text
    let now := (← universalTime).format "uuuu-MM-dd'T'HH:mm:ss'Z'"
    (outcome.records.filter (log.filter.shows target)).forM fun r => IO.eprint (line now r)
    return if outcome.succeeded then 0 else 1

end Program

end FrameGraph

def main (args : List String) : IO UInt32 := FrameGraph.Program.execute args
