import FrameGraph.Compile.Stages

/-!
# Compiling

Turns a snapshot of a graph into a plan. A compile that fails still gives its lines, and the order
and the packing as far as it came; its caller keeps running the plan it has.
-/

namespace FrameGraph

/-- What a compile works with, beside the snapshot. -/
structure Workshop (δ : Type := Device) where
  settings : Settings := {}
  factory : PassFactory := .standard
  scene : SceneHandles := {}
  device : δ
  files : Files := {}
  clock : Clock

/-- The outcome of a compile, for its caller. -/
structure CompileResult where
  success : Bool
  plan : Option Plan
  lines : List String
  failure : Option String
  error : Option CompileError
  packing : Option Packing
  /-- The nodes in execution order, those without a pass included. -/
  order : List NodeId
  deriving DecidableEq, Repr

/-- A compile, with all it leaves behind. -/
structure Compiled (δ : Type := Device) where
  result : CompileResult
  device : δ
  files : Files
  notes : List Compile.Note

namespace Compiled

/-- What the compile logs. -/
def records {δ : Type} (c : Compiled δ) : List Record := c.notes.flatMap Compile.Note.records

end Compiled

namespace Compile

variable {δ : Type}

/-- The notes about packing. -/
def packingNotes (p : Packing) (elapsed : String) : List Note :=
  p.notes.map .packing ++ [.packed p.logicalCount p.bucketCount p.fixedCount elapsed]

/-- The notes of the stages that come before allocation. -/
def scheduleNotes (w : Workshop δ) (verbose : Bool) (nodes : List Node) (edges : List Edge) :
    List Note :=
  let talk (note : Note) : List Note := if verbose then [note] else []
  let started := .started w.clock.stamp w.settings.strategy :: talk (.input nodes)
  match reachable nodes edges with
  | .error _ => started
  | .ok kept =>
    let culled := started ++ talk (.culled (nodes.length - kept.length))
    match inOrder kept edges with
    | .error _ => culled
    | .ok order =>
      let p := Packing.pack w.settings.strategy order edges
      culled ++ talk (.order order) ++ packingNotes p w.clock.packing ++
        [.mapped p.logicalCount p.bucketCount p.fixedCount]

/-- The reports of a compile under the names of their files. -/
def reports (w : Workshop δ) (s : Schedule) : List (String × String) :=
  [("optimization_timeline.txt", Report.timeline s.packing w.clock.packing),
    ("graph_state.txt", Report.state s.order s.packing)]

/-- Writes reports where the settings ask for it, and gives the files and the notes. -/
def publish (w : Workshop δ) (texts : List (String × String)) : Files × List Note :=
  match w.settings.dumpDir with
  | none => (w.files, [])
  | some directory =>
    match w.files.writeInto directory texts with
    | (files, .ok ()) => (files, [.reportsWritten directory])
    | (files, .error err) => (files, [.reportsLost directory err])

/-- Writes the reports of a verbose compile and keeps their lines. -/
def report (w : Workshop δ) (verbose : Bool) (s : Schedule) : Files × List Note :=
  if verbose then
    let texts := reports w s
    let (files, notes) := publish w texts
    (files, notes ++ (texts.flatMap fun text => linesOf text.2).map .reportLine)
  else (w.files, [])

/-- The result of a compile that stops at an error. -/
def failed (notes : List Note) (error : CompileError) (schedule : Option Schedule) :
    CompileResult × List Note :=
  let notes := notes ++ [.failed error]
  ({ success := false, plan := none, lines := notes.filterMap Note.line?,
     failure := some error.message, error := some error, packing := schedule.map (·.packing),
     order := (schedule.map fun s => s.order.map (·.id)).getD [] }, notes)

/-- The result of a compile that gives a plan. -/
def finished (notes : List Note) (clock : Clock) (schedule : Schedule) (plan : Plan) :
    CompileResult × List Note :=
  let notes := notes ++ [.finished clock.total]
  ({ success := true, plan := some plan, lines := notes.filterMap Note.line?, failure := none,
     error := none, packing := some schedule.packing, order := schedule.order.map (·.id) }, notes)

/-- The plan of a schedule whose buckets are allocated. -/
def assemble (w : Workshop δ) (s : Schedule) (resources : ResourceTable) : Plan :=
  let placed := Wiring.passes w.factory s.order
  let wired := Wiring.bindAll placed (Wiring.bindings s.packing.buckets resources)
  { passes := wired.map (·.2), resources, resolution := w.settings.resolution }

/-- What is reported about building and wiring passes. -/
def wiringNotes (w : Workshop δ) (s : Schedule) (resources : ResourceTable) : List Note :=
  let placed := Wiring.passes w.factory s.order
  (Wiring.passless w.factory s.order).map .noPass ++
    Wiring.rejections placed (Wiring.bindings s.packing.buckets resources)

end Compile

/-- Compiles a snapshot. `verbose` asks for reports beside what the settings ask for. -/
def compile {δ : Type} [Allocator δ] (w : Workshop δ) (verbose : Bool) (nodes : List Node)
    (edges : List Edge) : Compiled δ :=
  let verbose := verbose || w.settings.verbose
  let notes := Compile.scheduleNotes w verbose nodes edges
  match Schedule.of w.settings.strategy nodes edges with
  | .error err =>
    let (result, notes) := Compile.failed notes err none
    ⟨result, w.device, w.files, notes⟩
  | .ok s =>
    let a := Allocation.of ⟨w.settings, w.scene, w.clock.stamp⟩ w.device s.packing.buckets
    let notes := notes ++ a.notes
    match a.resources with
    | .error err =>
      let (result, notes) := Compile.failed notes err (some s)
      ⟨result, a.device, w.files, notes⟩
    | .ok resources =>
      let plan := Compile.assemble w s resources
      let (files, reported) := Compile.report w verbose s
      let notes := notes ++ Compile.wiringNotes w s resources ++ reported ++
        [.holds plan.passes.length resources.length]
      let (result, notes) := Compile.finished notes w.clock s plan
      ⟨result, a.device, files, notes⟩

end FrameGraph
