import FrameGraph.Device
import FrameGraph.Graph
import FrameGraph.Pass

/-!
# Failed compiles
-/

namespace FrameGraph

/-- Why a compile gives no plan. -/
inductive CompileError
  | missingRoot
  | multipleRoots (count : Nat)
  | cycle (nodes : List NodeId)
  | unsupportedPayload (bucket : BucketId) (resource : String)
  | device (error : DeviceError)
  deriving DecidableEq, Repr

namespace CompileError

def message : CompileError → String
  | missingRoot => "missing root: graph must contain a SceneProvider node"
  | multipleRoots count => s!"graph contains {count} SceneProvider nodes, expected exactly one"
  | cycle nodes =>
    let ids := ", ".intercalate (nodes.map fun id => s!"NodeId({id})")
    s!"given graph is not acyclic: nodes [{ids}] form a cycle"
  | unsupportedPayload bucket resource =>
    s!"resource '{resource}' of bucket {bucket} has unsupported type {Payload.unknown.name}"
  | device error => s!"backend error: {error.message}"

end CompileError

end FrameGraph
