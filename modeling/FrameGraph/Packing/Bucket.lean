import FrameGraph.Packing.Logical
import FrameGraph.Pass

/-!
# Buckets

A bucket is a physical resource: the logical resources that share it, and the positions at which
any of them is used. Two resources share a bucket only if their signatures agree and their spans
have no position in common.
-/

namespace FrameGraph

structure Bucket where
  id : BucketId
  /-- The first logical resource, whose signature all others share. -/
  origin : Logical
  /-- The logical resources, by their output ports. -/
  members : List PortId
  /-- The uses of all members, ascending by position. -/
  points : List UsagePoint
  /-- The least span that covers the spans of all members. -/
  span : Span
  deriving DecidableEq, Repr

namespace Bucket

/-- Usage points in ascending order; points at one position keep their order. -/
def sortPoints (points : List UsagePoint) : List UsagePoint :=
  points.mergeSort fun a b => a.position ≤ b.position

/-- The bucket that holds one logical resource. -/
def single (id : BucketId) (x : Logical) : Bucket :=
  ⟨id, x, [x.port], sortPoints x.points, x.span⟩

def spec (b : Bucket) : PortSpec := b.origin.spec

def payload (b : Bucket) : Payload := b.spec.payload

def isUsedAt (b : Bucket) (position : Nat) : Bool := b.points.any (·.position == position)

/-- Whether a logical resource may join the bucket. -/
def accepts (b : Bucket) (x : Logical) : Bool :=
  b.origin.isAliasable && !b.span.overlaps x.span && b.spec.compatible x.spec

/-- The bucket with one more logical resource. -/
def merge (b : Bucket) (x : Logical) : Bucket :=
  { b with
    members := b.members ++ [x.port]
    points := sortPoints (b.points ++ x.points)
    span := b.span.hull x.span }

@[simp] theorem id_single (id : BucketId) (x : Logical) : (single id x).id = id := rfl

@[simp] theorem id_merge (b : Bucket) (x : Logical) : (b.merge x).id = b.id := rfl

/-- A list without repetitions of neighbours. -/
def dedupNeighbours : List Nat → List Nat
  | [] => []
  | [i] => [i]
  | i :: j :: is => if i = j then dedupNeighbours (j :: is) else i :: dedupNeighbours (j :: is)

/-- The positions at which the bucket and a logical resource are both used. -/
def conflicts (b : Bucket) (x : Logical) : List Nat :=
  dedupNeighbours ((x.points.map (·.position)).filter b.isUsedAt)

end Bucket

end FrameGraph
