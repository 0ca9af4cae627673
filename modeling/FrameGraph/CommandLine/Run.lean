import FrameGraph.CommandLine.Arguments
import FrameGraph.Description.Text
import FrameGraph.Settings.Text
import FrameGraph.Slot

/-!
# Runs

A run compiles a graph on a fresh device, prints what the compile says, adopts the plan, and prints
the commands of some frames. It reads and writes a tree of files and leaves log records.
-/

namespace FrameGraph

namespace CommandLine

/-- Why a run fails. -/
inductive RunError
  | graph (error : EditorError)
  | settings (error : SettingsError)
  | file (path : String) (error : FileError)
  | adoption (error : AdoptError)
  | noPlan
  deriving DecidableEq, Repr

namespace RunError

def message : RunError → String
  | graph error => error.message
  | settings error => error.message
  | file path error => s!"{path}: {error.message}"
  | adoption error => s!"compile failed: {error.message}"
  | noPlan => "compile failed: no render path installed"

end RunError

/-! ## What is printed -/

/-- A part of what a run prints. -/
inductive Section
  | compileLines (lines : List String)
  | timeline (packing : Packing) (elapsed : String)
  | summary (plan : Plan) (made : Nat)
  | frame (index : Nat) (commands : Frame)
  deriving DecidableEq, Repr

namespace Section

def commandLine? : Command → Option String
  | .beginPass name _ => some s!"  {name}"
  | .read port resource => some s!"    read  {padRight 20 port} <- resource {resource}"
  | .write port resource => some s!"    write {padRight 20 port} -> resource {resource}"
  | .endPass => none

def text : Section → String
  | compileLines lines => unlines lines
  | timeline packing elapsed => "\n" ++ Report.timeline packing elapsed
  | summary plan made =>
    unlines ["", "Render path: " ++ " -> ".intercalate plan.passNames,
      s!"Resources: {plan.resources.length} ({plan.resources.imageCount} image(s) allocated by " ++
        s!"{made})"]
  | frame index commands =>
    unlines ("" :: s!"Frame {index}:" :: commands.filterMap commandLine?)

end Section

/-- What a run leaves. -/
structure Outcome where
  error : Option RunError := none
  sections : List Section := []
  records : List Record := []
  files : Files

namespace Outcome

def succeeded (o : Outcome) : Bool := o.error.isNone

/-- All that is printed. -/
def text (o : Outcome) : String := String.join (o.sections.map Section.text)

/-- An outcome that ends with an error, which is logged last. -/
def failed (error : RunError) (sections : List Section) (records : List Record) (files : Files) :
    Outcome :=
  { error := some error, sections, files
    records := records ++ [⟨.error, .command, error.message⟩] }

end Outcome

namespace Arguments

/-- The settings: those of the file, or the default ones, with what the options change. -/
def settings (a : Arguments) (files : Files) : Except RunError Settings := do
  let base ← match a.config with
    | none => pure {}
    | some path => (Settings.load files path).mapError .settings
  let resolution := match a.width, a.height with
    | some width, some height => ⟨width, height⟩
    | _, _ => base.resolution
  return { strategy := if a.naive then .naive else a.strategy.getD base.strategy
           resolution
           verbose := base.verbose || a.verbose
           dumpDir := a.dumpDir.or base.dumpDir
           strict := base.strict || a.strict }

/-- The description of the graph. -/
def description (a : Arguments) (files : Files) : Except RunError Description :=
  match a.graph with
  | none => .ok .deferredLighting
  | some path =>
    match files.read path with
    | .error err => .error (.file path err)
    | .ok source => (Description.ofText source).mapError .graph

/-- Writes the deferred lighting pipeline to a file. -/
def writeDefaultTo (path : String) (files : Files) : Outcome :=
  match files.write path Description.deferredLighting.toText with
  | .error err => .failed (.file path err) [] [] files
  | .ok files => { files, records := [⟨.info, .command, s!"Wrote default graph to {path}"⟩] }

/-- Prints and runs what a compile gives. -/
def execute (frames : Nat) (verbose : Bool) (clock : Clock) (c : Compiled)
    (records : List Record) : Outcome :=
  let printed := .compileLines c.result.lines ::
    match c.result.packing with
    | some packing => if verbose then [] else [.timeline packing clock.packing]
    | none => []
  let slot : Slot := {}
  let records := records ++ c.records ++ slot.adoptRecords c.result
  match slot.adopt c.result with
  | .error err => .failed (.adoption err) printed records c.files
  | .ok slot =>
    match slot.current with
    | none => .failed .noPlan printed records c.files
    | some plan =>
      let shown := (List.range frames).map fun i => Section.frame i (plan.run i)
      { sections := printed ++ .summary plan c.device.made :: shown
        records := records ++ (List.range frames).flatMap plan.runRecords
        files := c.files }

/-- Compiles and runs a graph. -/
def compileGraph (a : Arguments) (clock : Clock) (files : Files) : Outcome :=
  match a.settings files with
  | .error err => .failed err [] [] files
  | .ok settings =>
    match a.description files with
    | .error err => .failed err [] [] files
    | .ok d =>
      match d.load with
      | .error err => .failed (.graph err) [] d.loadRecords files
      | .ok editor =>
        let loaded : Record := ⟨.info, .command,
          s!"Loaded graph with {editor.nodes.length} node(s) and {editor.edges.length} edge(s)"⟩
        let w : Workshop := { settings, device := {}, files, clock }
        execute (a.frames.getD 1) settings.verbose clock
          (compile w false editor.nodes editor.edges) (d.loadRecords ++ [loaded])

/-- Does what a command line asks for. -/
def run (a : Arguments) (clock : Clock) (files : Files) : Outcome :=
  match a.writeDefault with
  | some path => writeDefaultTo path files
  | none => a.compileGraph clock files

end Arguments

end CommandLine

end FrameGraph
