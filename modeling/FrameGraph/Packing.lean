import FrameGraph.Log
import FrameGraph.Packing.Bucket

/-!
# Packing

Gives every logical resource a bucket. A resource that may be aliased goes to the first bucket
that accepts it, and every other resource gets a bucket of its own.
-/

namespace FrameGraph

/-- How buckets are shared. -/
inductive Strategy
  /-- One bucket for each logical resource. -/
  | naive
  /-- Resources of one signature share a bucket where their spans allow it. -/
  | optimized
  deriving DecidableEq, Repr

namespace Strategy

instance : Inhabited Strategy := ⟨optimized⟩

def all : List Strategy := [naive, optimized]

def name : Strategy → String
  | naive => "Naive"
  | optimized => "Optimized"

end Strategy

namespace Packing

/-- What packing reports. -/
inductive Note
  | ignored (edge : Edge)
  | opened (id : BucketId) (resource : Logical)
  | conflicting (id : BucketId) (resource : Logical) (positions : List Nat)
  | merged (id : BucketId) (resource : Logical)
  deriving DecidableEq, Repr

def positionsText (positions : List Nat) : String :=
  "[" ++ ", ".intercalate (positions.map toString) ++ "]"

def Note.text : Note → String
  | ignored edge =>
    s!"[Optimizer] Ignoring edge {edge.id} to node {edge.stop.node} outside the compiled graph"
  | opened id x =>
    let what := if x.isAliasable then "optimizable" else "non-optimizable"
    s!"[Optimizer] New, {what} resource with id {id} added of type {x.payload.name}"
  | conflicting id _ positions =>
    s!"[Optimizer] Warning: usage points {positionsText positions} already present in resource {id}"
  | merged id x =>
    s!"[Optimizer] Resource '{x.portName}' of node '{x.nodeName}' merged into resource with id {id}"

/-- What a note logs. A conflict is logged as a warning too. -/
def Note.records (note : Note) : List Record :=
  let record : Record := ⟨.debug, .packing, note.text⟩
  match note with
  | conflicting id x positions =>
    [⟨.warn, .packing, s!"Resource '{x.portName}' of node '{x.nodeName}' shares usage points " ++
      s!"{positionsText positions} with resource {id}"⟩, record]
  | _ => [record]

/-- The first bucket that accepts a logical resource. -/
def target? (strategy : Strategy) (buckets : List Bucket) (x : Logical) : Option Bucket :=
  match strategy with
  | .naive => none
  | .optimized => if x.isAliasable then buckets.find? (·.accepts x) else none

/-- Merges a logical resource into the first bucket that accepts it. -/
def mergeFirst (x : Logical) : List Bucket → List Bucket
  | [] => []
  | b :: bs => if b.accepts x then b.merge x :: bs else b :: mergeFirst x bs

/-- Places one logical resource. Buckets are numbered in the order in which they are opened. -/
def place (strategy : Strategy) (buckets : List Bucket) (x : Logical) : List Bucket :=
  match target? strategy buckets x with
  | some _ => mergeFirst x buckets
  | none => buckets ++ [.single buckets.length x]

/-- What is reported about placing one logical resource. -/
def placeNotes (strategy : Strategy) (buckets : List Bucket) (x : Logical) : List Note :=
  match target? strategy buckets x with
  | none => [.opened buckets.length x]
  | some b =>
    let conflicts := b.conflicts x
    (if conflicts.isEmpty then [] else [.conflicting b.id x conflicts]) ++ [.merged b.id x]

/-- The buckets after placing logical resources in order. -/
def placeAll (strategy : Strategy) (xs : List Logical) : List Bucket :=
  xs.foldl (place strategy) []

def notesFrom (strategy : Strategy) (buckets : List Bucket) : List Logical → List Note
  | [] => []
  | x :: xs => placeNotes strategy buckets x ++ notesFrom strategy (place strategy buckets x) xs

end Packing

/-- The logical resources of an execution order and the buckets they were given. -/
structure Packing where
  logicals : List Logical
  buckets : List Bucket
  notes : List Packing.Note
  /-- All positions of the execution order, if there are any. -/
  timeline : Option Span
  deriving DecidableEq, Repr

namespace Packing

/-- Packs the logical resources of nodes in execution order. -/
def pack (strategy : Strategy) (nodes : List Node) (edges : List Edge) : Packing :=
  let logicals := Logical.all nodes edges
  { logicals
    buckets := placeAll strategy logicals
    notes := (Logical.ignored nodes edges).map .ignored ++ notesFrom strategy [] logicals
    timeline := if nodes.isEmpty then none else some (.between 0 (nodes.length - 1)) }

/-- How many logical resources there are. -/
def logicalCount (p : Packing) : Nat := p.logicals.length

/-- How many buckets they were given. -/
def bucketCount (p : Packing) : Nat := p.buckets.length

/-- How many logical resources cannot be aliased. -/
def fixedCount (p : Packing) : Nat := p.logicals.countP (!·.isAliasable)

/-- How many logical resources could be aliased. -/
def aliasableCount (p : Packing) : Nat := p.logicalCount - p.fixedCount

/-- How many buckets were saved. -/
def savedCount (p : Packing) : Nat := p.logicalCount - p.bucketCount

def bucket? (p : Packing) (id : BucketId) : Option Bucket := p.buckets.find? (·.id == id)

end Packing

end FrameGraph
