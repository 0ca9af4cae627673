import FrameGraph.CommandLine.Run
import FrameGraph.Proofs.Compile.Adoption
import FrameGraph.Proofs.Compile.Runnable

/-!
# Runs

A run succeeds exactly if its graph is runnable, whatever the settings and the options are: such a
graph compiles on the fresh device, which has no limit, and its plan is adopted. The chart of the
packing is printed once then. It stands among the lines of a verbose compile, in one block with
the listing of the buckets (`Compiled.Reports`), and after these lines otherwise. The frames follow
it, each with the uses of its passes (`CommandLine.Listed`). A run that fails prints the lines of
its compile and none of this. All of it is said about the text that is printed
(`CommandLine.Arguments.run_outcome`). That the chart is nowhere else in it rests on what the other
lines of a compile begin with (`Compile.Note.isTagged`).
-/

namespace FrameGraph

/-! ## Lines of reports -/

namespace Compile

/-- The line of a report that a note adds, if it adds one. -/
def Note.report? : Note → Option String
  | reportLine line => some line
  | _ => none

/-- A line of the compile itself: it begins with the part that says it, in brackets. -/
def IsTagged (line : String) : Prop := line.toList.head? = some '['

theorem IsTagged.ofList (cs : List Char) : IsTagged (String.ofList ('[' :: cs)) := by
  rw [IsTagged, String.toList_ofList]
  rfl

theorem IsTagged.append {line : String} (h : IsTagged line) (rest : String) :
    IsTagged (line ++ rest) := by
  rw [IsTagged, String.toList_append, List.head?_append, h]
  rfl

theorem isTagged_packing (note : Packing.Note) : IsTagged note.text := by
  -- Not rewritten: to find the equations of the texts would take comparing them.
  cases note <;> unfold Packing.Note.text <;>
    (repeat with_reducible refine IsTagged.append ?_ _) <;> exact .ofList _

theorem Note.isTagged {note : Note} (h : note.report? = none) {line : String}
    (hline : note.line? = some line) : IsTagged line := by
  cases note with
  | reportLine => cases h
  | packed | requested => cases hline
  | packing note =>
    obtain rfl := Option.some.inj hline
    exact isTagged_packing note
  | _ =>
    obtain rfl := Option.some.inj hline
    unfold Note.text
    repeat with_reducible refine IsTagged.append ?_ _
    exact .ofList _

/-- None of the notes is a line of a report. -/
def ReportFree (notes : List Note) : Prop := ∀ note ∈ notes, note.report? = none

theorem ReportFree.isTagged {notes : List Note} (h : ReportFree notes) :
    ∀ line ∈ notes.filterMap Note.line?, IsTagged line := by
  intro line hline
  obtain ⟨note, hnote, hline⟩ := List.mem_filterMap.mp hline
  exact Note.isTagged (h note hnote) hline

@[simp] theorem reportFree_nil : ReportFree [] := fun _ h => nomatch h

@[simp] theorem reportFree_cons {note : Note} {notes : List Note} :
    ReportFree (note :: notes) ↔ note.report? = none ∧ ReportFree notes :=
  List.forall_mem_cons

@[simp] theorem reportFree_append {notes more : List Note} :
    ReportFree (notes ++ more) ↔ ReportFree notes ∧ ReportFree more :=
  List.forall_mem_append

theorem reportFree_map {α : Type} {f : α → Note} (h : ∀ x, (f x).report? = none) (xs : List α) :
    ReportFree (xs.map f) := by
  intro note hnote
  obtain ⟨x, -, rfl⟩ := List.mem_map.mp hnote
  exact h x

theorem reportFree_ite {verbose : Bool} {notes : List Note} (h : ReportFree notes) :
    ReportFree (if verbose then notes else []) := by
  split
  · exact h
  · exact reportFree_nil

theorem reportFree_packingNotes (p : Packing) (elapsed : String) :
    ReportFree (packingNotes p elapsed) :=
  reportFree_append.mpr ⟨reportFree_map (fun _ => rfl) _, by simp [Note.report?]⟩

variable {δ : Type}

/-- Scheduling reports nothing, however much it says. -/
theorem reportFree_scheduleNotes (w : Workshop δ) (verbose : Bool) (nodes : List Node)
    (edges : List Edge) : ReportFree (scheduleNotes w verbose nodes edges) := by
  have htalk : ∀ note : Note, note.report? = none →
      ReportFree (if verbose then [note] else []) :=
    fun note hnote => reportFree_ite (by simp [hnote])
  have hstarted : ReportFree (.started w.clock.stamp w.settings.strategy ::
      if verbose then [.input nodes] else []) :=
    reportFree_cons.mpr ⟨rfl, htalk _ rfl⟩
  unfold scheduleNotes
  cases reachable nodes edges with
  | error err => exact hstarted
  | ok kept =>
    have hculled := reportFree_append.mpr
      ⟨hstarted, htalk (.culled (nodes.length - kept.length)) rfl⟩
    cases horder : inOrder kept edges with
    | error err => simpa only [horder] using hculled
    | ok order =>
      have hordered := reportFree_append.mpr ⟨hculled, htalk (.order order) rfl⟩
      simp only [horder]
      exact reportFree_append.mpr
        ⟨reportFree_append.mpr ⟨hordered, reportFree_packingNotes _ _⟩, by simp [Note.report?]⟩

theorem reportFree_allocationNotes [Allocator δ] (a : Allotment) (d : δ) (buckets : List Bucket) :
    ReportFree (Allocation.of a d buckets).notes := by
  induction buckets generalizing d with
  | nil => exact reportFree_nil
  | cons b buckets ih =>
    have hb : ReportFree (a.notes d b) := by
      unfold Allotment.notes
      split
      case h_3 => split <;> simp [Note.report?]
      case h_4 => exact reportFree_nil
      all_goals exact reportFree_map (fun _ => rfl) _
    unfold Allocation.of
    split
    · exact hb
    · exact reportFree_append.mpr ⟨hb, ih _⟩

theorem reportFree_wiringNotes (w : Workshop δ) (s : Schedule) (resources : ResourceTable) :
    ReportFree (wiringNotes w s resources) :=
  reportFree_append.mpr ⟨reportFree_map (fun _ => rfl) _, reportFree_map (fun _ => rfl) _⟩

theorem reportFree_publish (w : Workshop δ) (texts : List (String × String)) :
    ReportFree (publish w texts).2 := by
  unfold publish
  split
  · exact reportFree_nil
  · split <;> simp [Note.report?]

/-- The rows of the reports of a schedule, if they are asked for. -/
def reportRows (w : Workshop δ) (verbose : Bool) (s : Schedule) : List (List String) :=
  if verbose then
    [Report.timelineRows s.packing w.clock.packing, Report.stateRows s.order s.packing]
  else []

/-- Reporting a schedule notes the lines of its reports, after anything else. -/
theorem exists_report_notes (w : Workshop δ) (verbose : Bool) (s : Schedule) :
    ∃ notes, ReportFree notes ∧ (report w verbose s).2 = notes ++
      ((reportRows w verbose s).flatMap fun rows => linesOf (unlines rows)).map .reportLine := by
  cases verbose with
  | true => exact ⟨_, reportFree_publish w (reports w s), rfl⟩
  | false => exact ⟨[], reportFree_nil, rfl⟩

end Compile

/-- The lines of a compile show the rows of some reports, in one block and without the carriage
returns at the ends of lines, and every other line is one of the compile itself. -/
def Compiled.Reports {δ : Type} (c : Compiled δ) (reports : List (List String)) : Prop :=
  ∃ before shown after, c.result.lines = before ++ shown ++ after ∧
    charsOfLines shown = reports.flatMap (fun rows => dropReturns (charsOfLines rows)) ∧
    ∀ line ∈ before ++ after, Compile.IsTagged line

section

open Compile

variable {δ : Type}

theorem Compiled.reports_of_notes {c : Compiled δ} {reports : List (List String)}
    {before after : List Note} (hlines : c.result.lines = c.notes.filterMap Note.line?)
    (hnotes : c.notes = before ++
      (reports.flatMap fun rows => linesOf (unlines rows)).map .reportLine ++ after)
    (hbefore : ReportFree before) (hafter : ReportFree after) : c.Reports reports := by
  have hshown : ∀ lines : List String,
      (lines.map Note.reportLine).filterMap Note.line? = lines := by
    intro lines
    rw [List.filterMap_map]
    exact List.filterMap_some
  refine ⟨before.filterMap Note.line?, reports.flatMap fun rows => linesOf (unlines rows),
    after.filterMap Note.line?, ?_, ?_, fun line hline => ?_⟩
  · rw [hlines, hnotes, List.filterMap_append, List.filterMap_append, hshown]
  · rw [charsOfLines, List.flatMap_assoc]
    exact List.flatMap_congr fun rows _ => charsOfLines_linesOf rows
  · rcases List.mem_append.mp hline with h | h
    · exact hbefore.isTagged line h
    · exact hafter.isTagged line h

variable [Allocator δ] {w : Workshop δ} {verbose : Bool} {nodes : List Node}
  {edges : List Edge} {s : Schedule}

/-- A compile that has no schedule reports nothing. -/
theorem compile_reports_of_error {err : CompileError}
    (hs : Schedule.of w.settings.strategy nodes edges = .error err) :
    (compile w verbose nodes edges).Reports [] := by
  have hfree := reportFree_scheduleNotes w (verbose || w.settings.verbose) nodes edges
  have hfailed : ReportFree [.failed err] := by simp [Note.report?]
  unfold compile
  rw [hs]
  exact Compiled.reports_of_notes rfl (by simp [failed]) hfree hfailed

/-- A compile that succeeds has its reports among its lines if it is verbose. -/
theorem compile_reports_of_ok {t : ResourceTable}
    (hs : Schedule.of w.settings.strategy nodes edges = .ok s)
    (ht : (Allocation.of w.allotment w.device s.packing.buckets).resources = .ok t) :
    (compile w verbose nodes edges).Reports
      (reportRows w (verbose || w.settings.verbose) s) := by
  have hschedule := reportFree_scheduleNotes w (verbose || w.settings.verbose) nodes edges
  have hallocation := reportFree_allocationNotes w.allotment w.device s.packing.buckets
  have hwiring := reportFree_wiringNotes w s t
  obtain ⟨published, hpublished, hreport⟩ :=
    exists_report_notes w (verbose || w.settings.verbose) s
  have hbefore := reportFree_append.mpr ⟨reportFree_append.mpr
    ⟨reportFree_append.mpr ⟨hschedule, hallocation⟩, hwiring⟩, hpublished⟩
  have hfinished : ReportFree
      [.holds (assemble w s t).passes.length t.length, .finished w.clock.total] := by
    simp [Note.report?]
  unfold Workshop.allotment at ht hbefore
  unfold compile
  simp only [hs, hreport]
  rw [ht]
  exact Compiled.reports_of_notes rfl (by simp [finished]) hbefore hfinished

end

/-! ## What is printed -/

/-- The lines of the chart of a packing: its counts, its timeline, and under a heading a row for
each bucket. -/
def Report.chart (p : Packing) (timeline : Span) (elapsed : String) : List String :=
  ["Resource optimization summary",
    s!"  Original resources:        {p.logicalCount}",
    s!"  Optimized resources:       {p.bucketCount}",
    s!"  Non-optimizable resources: {p.fixedCount}",
    s!"  Optimization time:         {elapsed}",
    s!"  Timeline: {timeline.text}", "", "Legend: (- = not used, x = used)",
    heading timeline] ++ p.buckets.map (row p timeline)

theorem Report.timelineRows_eq {p : Packing} {timeline : Span} (h : p.timeline = some timeline)
    (elapsed : String) : timelineRows p elapsed = chart p timeline elapsed := by
  unfold timelineRows
  rw [h]
  rfl

/-- The chart of a schedule is over its whole order, on which the scene provider stands. -/
theorem Schedule.timeline_eq {strategy : Strategy} {nodes : List Node} {edges : List Edge}
    {s : Schedule} (hs : Schedule.of strategy nodes edges = .ok s) :
    s.packing.timeline = some (.between 0 (s.order.length - 1)) := by
  obtain ⟨kept, hkept, horder, hpacking⟩ := Schedule.of_ok hs
  obtain ⟨provider, hprovider, -⟩ := reachable_ok hkept
  have hmem : provider ∈ s.order :=
    (inOrder_perm horder).mem_iff.mpr (provider_mem_kept hprovider hkept)
  have hne : s.order.isEmpty = false := List.isEmpty_eq_false_iff_exists_mem.mpr ⟨_, hmem⟩
  simp [hpacking, Packing.pack, hne]

namespace CommandLine

/-- The lines that are printed for the commands of a frame: the name of each pass, and below it a
line for each of its uses. -/
inductive Listed : Frame → List String → Prop
  | nil : Listed [] []
  | beginPass {name : String} {frame : Nat} {commands : Frame} {lines : List String} :
    Listed commands lines → Listed (.beginPass name frame :: commands) (s!"  {name}" :: lines)
  | read {port : String} {id : BucketId} {commands : Frame} {lines : List String} :
    Listed commands lines → Listed (.read port id :: commands)
      (s!"    read  {padRight 20 port} <- resource {id}" :: lines)
  | write {port : String} {id : BucketId} {commands : Frame} {lines : List String} :
    Listed commands lines → Listed (.write port id :: commands)
      (s!"    write {padRight 20 port} -> resource {id}" :: lines)
  | endPass {commands : Frame} {lines : List String} :
    Listed commands lines → Listed (.endPass :: commands) lines

theorem listed_commands (commands : Frame) :
    Listed commands (commands.filterMap Section.commandLine?) := by
  induction commands with
  | nil => exact .nil
  | cons command commands ih =>
    cases command with
    | beginPass => exact .beginPass ih
    | read => exact .read ih
    | write => exact .write ih
    | endPass => exact .endPass ih

/-- The lines of a part of what is printed. -/
def Section.lines : Section → List String
  | compileLines lines => lines
  | timeline packing elapsed => "" :: Report.timelineRows packing elapsed
  | summary plan made =>
    ["", "Render path: " ++ " -> ".intercalate (plan.passes.map (·.name)),
      s!"Resources: {plan.resources.length} ({plan.resources.imageCount} image(s) allocated by " ++
        s!"{made})"]
  | frame index commands => "" :: s!"Frame {index}:" :: commands.filterMap commandLine?

theorem Section.toList_text (s : Section) : s.text.toList = charsOfLines s.lines := by
  cases s with
  | compileLines lines => exact toList_unlines lines
  | timeline packing elapsed =>
    rw [text, String.toList_append, Report.timeline, toList_unlines]
    rfl
  | summary plan made => exact toList_unlines _
  | frame index commands => exact toList_unlines _

theorem Outcome.toList_text (o : Outcome) :
    o.text.toList = charsOfLines (o.sections.flatMap Section.lines) := by
  rw [text, String.toList_join, List.flatMap_map, charsOfLines, List.flatMap_assoc]
  exact List.flatMap_congr fun s _ => s.toList_text

/-! ## Runs -/

end CommandLine

/-- A compile that finishes with a plan whose passes can run is adopted. -/
theorem CompileResult.Finishes.adopt {r : CompileResult} {s : Schedule} {plan : Plan}
    (h : r.Finishes s plan)
    (hruns : ∀ pass ∈ plan.passes, pass.check plan.resources.has = .ok ()) (slot : Slot) :
    slot.adopt r = .ok ⟨slot.generation + 1, some plan.ready⟩ := by
  unfold Slot.adopt
  rw [CompileResult.offer_eq_ok.mpr ⟨h.success, h.plan⟩]
  exact Slot.install_of_check hruns slot

namespace CommandLine.Arguments

section

variable {c : Compiled} {s : Schedule} {plan : Plan} (frames : Nat) (verbose : Bool)
  (clock : Clock) (records : List Record)

/-- A compile that finishes leaves its lines, the summary of its plan and the frames. -/
theorem execute_of_finishes (h : c.result.Finishes s plan)
    (hruns : ∀ pass ∈ plan.passes, pass.check plan.resources.has = .ok ()) :
    let outcome := execute frames verbose clock c records
    outcome.succeeded = true ∧ outcome.text.toList = charsOfLines (c.result.lines ++
      (if verbose then [] else "" :: Report.timelineRows s.packing clock.packing) ++
      (Section.summary plan c.device.made).lines ++
      (List.range frames).flatMap fun i => (Section.frame i (plan.run i)).lines) := by
  intro outcome
  have houtcome : outcome.succeeded = true ∧ outcome.sections = .compileLines c.result.lines ::
      ((if verbose then [] else [.timeline s.packing clock.packing]) ++
        .summary plan.ready c.device.made ::
          (List.range frames).map fun i => .frame i (plan.run i)) := by
    simp only [outcome, execute, h.packing, h.adopt hruns]
    exact ⟨rfl, rfl⟩
  refine ⟨houtcome.1, ?_⟩
  rw [Outcome.toList_text, houtcome.2]
  cases verbose <;> simp [List.flatMap_map, Section.lines, Plan.ready]

/-- A compile that fails before it has a schedule leaves only its lines. -/
theorem execute_of_fails {err : CompileError} (h : c.result.Fails err none) :
    let outcome := execute frames verbose clock c records
    outcome.succeeded = false ∧ outcome.text.toList = charsOfLines c.result.lines := by
  obtain ⟨reason, hoffer⟩ := CompileResult.offer_eq_error.mpr (.inl h.success)
  unfold execute Slot.adopt
  simp only [h.packing, hoffer]
  exact ⟨rfl, by rw [Outcome.toList_text]; exact congrArg charsOfLines (List.append_nil _)⟩

end

variable {a : Arguments} {files : Files} {settings : Settings} {d : Description} {e : Editor}

/-- A run of a graph that loads compiles it on a fresh device, and prints. -/
theorem run_of_load (clock : Clock) (hwrite : a.writeDefault = none)
    (hsettings : a.settings files = .ok settings) (hgraph : a.description files = .ok d)
    (hload : d.load = .ok e) :
    ∃ records, a.run clock files =
      execute (a.frames.getD 1) settings.verbose clock
        (compile { settings, device := {}, files, clock : Workshop } false e.nodes e.edges)
        records := by
  unfold run compileGraph
  simp only [hwrite, hsettings, hgraph, hload]
  exact ⟨_, rfl⟩

/-- A run succeeds exactly if its graph has a scene provider from which no cycle is reached,
whatever the settings, the options and the files are. It prints the chart of the packing once then,
among the lines of the compile if that is verbose and after them otherwise, and then as many frames
as it is asked for. Otherwise it prints lines of the compile only, neither a chart nor a frame. -/
theorem run_outcome (clock : Clock) (hwrite : a.writeDefault = none)
    (hsettings : a.settings files = .ok settings) (hgraph : a.description files = .ok d)
    (hload : d.load = .ok e) :
    let outcome := a.run clock files
    let compiled :=
      compile { settings, device := {}, files, clock : Workshop } false e.nodes e.edges
    (outcome.succeeded = true ↔ e.Runnable) ∧
    (e.Runnable → ∃ s plan, ∃ uses : Nat → List String,
      Schedule.of settings.strategy e.nodes e.edges = .ok s ∧
      compiled.result.plan = some plan ∧ (∀ i, Listed (plan.run i) (uses i)) ∧
      let chart := Report.chart s.packing (.between 0 (s.order.length - 1)) clock.packing
      let table := plan.resources
      compiled.Reports
        (if settings.verbose then [chart, Report.stateRows s.order s.packing] else []) ∧
      outcome.text.toList = charsOfLines (compiled.result.lines ++
        (if settings.verbose then [] else "" :: chart) ++
        ["", "Render path: " ++ " -> ".intercalate (plan.passes.map (·.name)),
          s!"Resources: {table.length} ({table.imageCount} image(s) allocated by " ++
            s!"{compiled.device.made})"] ++
        (List.range (a.frames.getD 1)).flatMap fun i => "" :: s!"Frame {i}:" :: uses i)) ∧
    (¬ e.Runnable → compiled.Reports [] ∧
      outcome.text.toList = charsOfLines compiled.result.lines) := by
  intro outcome compiled
  let w : Workshop := { settings, device := {}, files, clock }
  obtain ⟨records, hrun⟩ := run_of_load clock hwrite hsettings hgraph hload
  rcases (Editor.CatalogueReachable.loaded hload).compile_cases w rfl false with
    ⟨hrunnable, s, t, hs, ht, hfinishes⟩ | ⟨hrunnable, err, hs, hfails⟩
  · have hruns := Compile.runsOn_assemble (w := w) rfl s t
    obtain ⟨hsucceeded, htext⟩ := execute_of_finishes (a.frames.getD 1) settings.verbose clock
      records hfinishes fun pass hpass => (hruns pass hpass).check
    rw [← hrun] at hsucceeded htext
    refine ⟨iff_of_true hsucceeded hrunnable, fun _ => ⟨s, _, _, hs, hfinishes.plan,
      fun i => listed_commands _, ?_⟩, fun h => absurd hrunnable h⟩
    rw [← Report.timelineRows_eq (Schedule.timeline_eq hs)]
    exact ⟨compile_reports_of_ok hs ht, htext⟩
  · obtain ⟨hsucceeded, htext⟩ := execute_of_fails (a.frames.getD 1) settings.verbose clock
      records hfails
    rw [← hrun] at hsucceeded htext
    exact ⟨iff_of_false (by simp [outcome, hsucceeded]) hrunnable, fun h => absurd h hrunnable,
      fun _ => ⟨compile_reports_of_error hs, htext⟩⟩

/-- A run is not stopped by a directory for reports that is a file. -/
theorem deferredLighting_runs :
    let a : Arguments :=
      { naive := true, verbose := true, strict := true, dumpDir := some "log.txt",
        frames := some 2 }
    let files : Files := { entries := [(["log.txt"], some "")] }
    let outcome := a.run ⟨"", "", ""⟩ files
    outcome.succeeded = true ∧ ∃ (plan : Plan) (before : List String) (uses : Nat → List String),
      (∀ i, Listed (plan.run i) (uses i)) ∧ outcome.text.toList = charsOfLines
        (before ++ (List.range 2).flatMap fun i => "" :: s!"Frame {i}:" :: uses i) := by
  intro a files outcome
  have hschedule : (Description.deferredLighting.load.toOption.map fun e =>
      (Schedule.of .naive e.nodes e.edges).toOption.isSome) = some true := by decide +kernel
  cases hload : Description.deferredLighting.load with
  | error err => rw [hload] at hschedule; cases hschedule
  | ok e =>
    rw [hload] at hschedule
    cases hs : Schedule.of .naive e.nodes e.edges with
    | error err => simp [Except.toOption, hs] at hschedule
    | ok s =>
      have hwellFormed := (Editor.CatalogueReachable.loaded hload).reachable.consistent
      have hrunnable : e.Runnable := (hwellFormed.runnable_iff .naive).mpr ⟨s, hs⟩
      have hsettings : a.settings files = .ok
          { strategy := .naive, verbose := true, strict := true, dumpDir := some "log.txt" } := rfl
      obtain ⟨hiff, hruns, -⟩ := run_outcome ⟨"", "", ""⟩ rfl hsettings rfl hload
      obtain ⟨_, plan, uses, -, -, huses, -, htext⟩ := hruns hrunnable
      exact ⟨hiff.mpr hrunnable, plan, _, uses, huses, htext⟩

end CommandLine.Arguments

end FrameGraph
