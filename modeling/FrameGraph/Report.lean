import FrameGraph.Packing
import FrameGraph.Text.Columns

/-!
# Reports

What a compile made, for people to read: a summary with a chart of when each bucket is used, and
the execution order with every use of every bucket.
-/

namespace FrameGraph

namespace Report

/-- The width of the column of labels in a chart. -/
def labelWidth : Nat := 14

/-- The heading of one position of a chart. -/
def headingCell (position : Nat) : String := padBoth 3 (toString position)

def heading (timeline : Span) : String :=
  padRight labelWidth "" ++ "  " ++ String.join (timeline.positions.map headingCell)

/-- One position in the row of a bucket. -/
def cell (b : Bucket) (position : Nat) : String := if b.isUsedAt position then " x " else " - "

@[simp] theorem length_cell (b : Bucket) (position : Nat) : (cell b position).length = 3 := by
  unfold cell
  split <;> rfl

/-- The logical resources of a bucket by node and port. -/
def memberNames (p : Packing) (b : Bucket) : String :=
  let members := b.members.filterMap fun id => p.logicals.find? (·.port == id)
  ", ".intercalate (members.map fun x => x.nodeName ++ "." ++ x.portName)

def row (p : Packing) (timeline : Span) (b : Bucket) : String :=
  padRight labelWidth s!"Resource {b.id}" ++ "|" ++
    String.join (timeline.positions.map (cell b)) ++
    s!"| {b.payload.name}: {memberNames p b}"

def summary (p : Packing) (elapsed : String) : List String :=
  ["Resource optimization summary",
    s!"  Original resources:        {p.logicalCount}",
    s!"  Optimized resources:       {p.bucketCount}",
    s!"  Non-optimizable resources: {p.fixedCount}",
    s!"  Optimization time:         {elapsed}"]

/-- The summary of a packing and the chart of its buckets, row by row. -/
def timelineRows (p : Packing) (elapsed : String) : List String :=
  summary p elapsed ++
    match p.timeline with
    | none => ["  Timeline: empty"]
    | some timeline =>
      [s!"  Timeline: {timeline.text}", "", "Legend: (- = not used, x = used)", heading timeline]
        ++ p.buckets.map (row p timeline)

/-- The summary of a packing and the chart of its buckets. -/
def timeline (p : Packing) (elapsed : String) : String := unlines (timelineRows p elapsed)

def orderRow (n : Node) (i : Nat) : String :=
  s!"  [{i}] {n.name} (id {n.id}, {n.kind.displayName})"

def bucketRow (b : Bucket) : String :=
  let s := b.spec
  if s.payload.isAliasable then
    s!"  Resource {b.id} {s.payload.name} {s.format.name} {s.size.text} {s.usage.text} " ++
      s!"range {b.span.text}"
  else s!"  Resource {b.id} {s.payload.name} range {b.span.text}"

def originRow (b : Bucket) : String :=
  s!"    origin: '{b.origin.nodeName}'.'{b.origin.portName}' @ {b.origin.position}"

def pointRow (u : UsagePoint) : String :=
  s!"    {u.role.name} '{u.nodeName}'.'{u.portName}' @ {u.position} (logical {u.resource})"

def stateRows (order : List Node) (p : Packing) : List String :=
  ["Execution order:"] ++ order.zipIdx.map (fun (n, i) => orderRow n i) ++ ["Resources:"] ++
    p.buckets.flatMap fun b => bucketRow b :: originRow b :: b.points.map pointRow

/-- The execution order and every bucket with its uses. -/
def state (order : List Node) (p : Packing) : String := unlines (stateRows order p)

end Report

end FrameGraph
