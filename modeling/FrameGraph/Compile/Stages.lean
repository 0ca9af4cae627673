import FrameGraph.Compile.Note
import FrameGraph.Order
import FrameGraph.Plan
import FrameGraph.Reachability

/-!
# The stages of a compile

Scheduling settles which nodes run, in which order, and how their resources are packed.
Allocation puts something behind every bucket, and wiring binds the buckets to the ports that use
them.
-/

namespace FrameGraph

/-- The part of a plan that is settled before anything is allocated. -/
structure Schedule where
  order : List Node
  packing : Packing
  deriving DecidableEq, Repr

namespace Schedule

/-- Drops what the scene provider does not feed, orders the rest, and packs its resources. -/
def of (strategy : Strategy) (nodes : List Node) (edges : List Edge) :
    Except CompileError Schedule := do
  let kept ← reachable nodes edges
  let order ← inOrder kept edges
  return ⟨order, .pack strategy order edges⟩

end Schedule

/-! ## Allocation -/

/-- What allocation depends on beside the device. -/
structure Allotment where
  settings : Settings
  scene : SceneHandles
  stamp : String

namespace Allotment

/-- The image of a bucket, in its own size at the resolution of the settings. -/
def descriptor (a : Allotment) (b : Bucket) : ImageDescriptor :=
  { label := some s!"({a.stamp}) OptGenResource-{b.id}"
    size := b.spec.size.resolve a.settings.resolution
    format := b.spec.format
    usage := b.spec.usage ∪ .renderAttachment }

/-- What stands behind a bucket, and the device afterwards. A bucket of unknown payload has
nothing behind it. -/
def back {δ : Type} [Allocator δ] (a : Allotment) (d : δ) (b : Bucket) :
    Except CompileError (Option Backing) × δ :=
  match b.payload with
  | .camera => (.ok (some (.camera a.scene.camera)), d)
  | .objects => (.ok (some (.objects a.scene.objects)), d)
  | .accelerationStructure =>
    (.ok (some (.accelerationStructure a.scene.accelerationStructure)), d)
  | .scene => (.ok (some (.scene a.scene.scene)), d)
  | .image =>
    match Allocator.create d .colour (a.descriptor b) with
    | (.error err, d) => (.error (.device err), d)
    | (.ok image, d) => (.ok (some (.image image)), d)
  | .depthImage =>
    match Allocator.create d .depth (a.descriptor b) with
    | (.error err, d) => (.error (.device err), d)
    | (.ok image, d) => (.ok (some (.depthImage image)), d)
  | .unknown =>
    if a.settings.strict then (.error (.unsupportedPayload b.id b.origin.portName), d)
    else (.ok none, d)

/-- What is reported about a bucket, whether or not it is refused. -/
def notes {δ : Type} [Allocator δ] (a : Allotment) (d : δ) (b : Bucket) : List Compile.Note :=
  match b.payload with
  | .image => (Allocator.records d .colour (a.descriptor b)).map .requested
  | .depthImage => (Allocator.records d .depth (a.descriptor b)).map .requested
  | .unknown => if a.settings.strict then [] else [.skipped b]
  | _ => []

end Allotment

/-- The result of allocation: the resources or the first failure, the device, and the notes. -/
structure Allocation (δ : Type) where
  device : δ
  notes : List Compile.Note
  resources : Except CompileError ResourceTable

namespace Allocation

/-- Allocates for buckets in order, up to the first failure. -/
def of {δ : Type} [Allocator δ] (a : Allotment) (d : δ) : List Bucket → Allocation δ
  | [] => ⟨d, [], .ok []⟩
  | b :: bs =>
    match a.back d b with
    | (.error err, after) => ⟨after, a.notes d b, .error err⟩
    | (.ok backing?, after) =>
      let rest := of a after bs
      let entry := backing?.toList.map (b.id, ·)
      ⟨rest.device, a.notes d b ++ rest.notes, rest.resources.map (entry ++ ·)⟩

end Allocation

/-! ## Wiring -/

namespace Wiring

/-- A pass with the node it stands for. -/
abbrev Placed := NodeId × Pass

/-- The passes of nodes, in order. -/
def passes (factory : PassFactory) (order : List Node) : List Placed :=
  order.filterMap fun n => (factory n).map (n.id, ·)

/-- The nodes without a pass, except providers of the scene. -/
def passless (factory : PassFactory) (order : List Node) : List Node :=
  order.filter fun n => (factory n).isNone && n.kind != .sceneProvider

/-- A bucket to be bound at one of its usage points. -/
structure Binding where
  bucket : BucketId
  point : UsagePoint

/-- All bindings of the buckets that have something behind them. -/
def bindings (buckets : List Bucket) (resources : ResourceTable) : List Binding :=
  (buckets.filter fun b => resources.has b.id).flatMap fun b => b.points.map (⟨b.id, ·⟩)

/-- The pass of a node. Of several passes for the same node the last one counts. -/
def index? (placed : List Placed) (node : NodeId) : Option Nat :=
  lastIndex? node (placed.map (·.1))

/-- Makes one binding, if its node has a pass with that port. -/
def bind (placed : List Placed) (b : Binding) : List Placed :=
  match index? placed b.point.node with
  | none => placed
  | some i =>
    placed.modify i fun (id, pass) => (id, (pass.bind? b.point.portName b.bucket).getD pass)

def bindAll (placed : List Placed) (bs : List Binding) : List Placed := bs.foldl bind placed

/-- Whether the pass of the binding's node has no port of that name. -/
def isRejected (placed : List Placed) (b : Binding) : Bool :=
  match index? placed b.point.node with
  | none => false
  | some i =>
    match placed[i]? with
    | none => false
    | some (_, pass) => !pass.hasPort b.point.portName

/-- What is reported about the bindings that are rejected. -/
def rejections (placed : List Placed) (bs : List Binding) : List Compile.Note :=
  (bs.filter (isRejected placed)).map fun b =>
    .rejected b.point.nodeName b.bucket b.point.portName

end Wiring

end FrameGraph
