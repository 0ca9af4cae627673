import FrameGraph.Device
import FrameGraph.Pass

/-!
# Plans

What a compile makes and a frame runs: passes in execution order and the resources bound to them.
-/

namespace FrameGraph

/-- What stands behind a physical resource. -/
inductive Backing
  | image (image : Image)
  | depthImage (image : Image)
  | camera (handle : Nat)
  | objects (handle : Nat)
  | accelerationStructure (handle : Nat)
  | scene (handle : Nat)
  deriving DecidableEq, Repr

namespace Backing

def payload : Backing → Payload
  | image _ => .image
  | depthImage _ => .depthImage
  | camera _ => .camera
  | objects _ => .objects
  | accelerationStructure _ => .accelerationStructure
  | scene _ => .scene

def image? : Backing → Option Image
  | image i | depthImage i => some i
  | _ => none

def handle : Backing → Nat
  | image i | depthImage i => i.handle
  | camera h | objects h | accelerationStructure h | scene h => h

end Backing

/-- The physical resources of a plan, ascending by id. -/
abbrev ResourceTable := List (BucketId × Backing)

namespace ResourceTable

def get? (t : ResourceTable) (id : BucketId) : Option Backing := t.lookup id

def has (t : ResourceTable) (id : BucketId) : Bool := (t.get? id).isSome

/-- The number of images among the resources. -/
def imageCount (t : ResourceTable) : Nat := t.countP fun r => r.2.image?.isSome

end ResourceTable

structure Plan where
  passes : List Pass
  resources : ResourceTable
  resolution : Extent
  prepared : Bool := false
  deriving DecidableEq, Repr

namespace Plan

def passNames (p : Plan) : List String := p.passes.map (·.name)

/-- Checks the passes in order up to the first that cannot run. -/
def checkPasses (isPresent : BucketId → Bool) : List Pass → Except PassError Unit
  | [] => .ok ()
  | pass :: passes =>
    match pass.check isPresent with
    | .error err => .error err
    | .ok () => checkPasses isPresent passes

/-- Prepares the plan for its first frame. A prepared plan is left as it is. -/
def prepare (p : Plan) : Except PassError Plan :=
  if p.prepared then .ok p
  else (checkPasses p.resources.has p.passes).map fun _ => { p with prepared := true }

/-- What `prepare` logs: the unbound ports of every pass before the first that cannot run. -/
def prepareRecords (p : Plan) : List Record :=
  if p.prepared then []
  else
    (p.passes.takeWhile fun pass => (pass.check p.resources.has).isOk).flatMap Pass.unbound

/-- Records one frame: every pass in order. -/
def run (p : Plan) (frame : Nat) : Frame := p.passes.flatMap (·.commands frame)

/-- What `run` logs. -/
def runRecords (p : Plan) (frame : Nat) : List Record :=
  if p.prepared then []
  else [⟨.warn, .plan, s!"RenderPath: executing frame {frame} before initialize()"⟩]

/-- A summary for diagnostics. -/
def summary (p : Plan) : String :=
  let names := "[" ++ ", ".intercalate (p.passNames.map quoted) ++ "]"
  let size := "Extent2d \x7b width: " ++ toString p.resolution.width.toNat ++ ", height: " ++
    toString p.resolution.height.toNat ++ " \x7d"
  "RenderPath \x7b nodes: " ++ names ++ ", resources: " ++ toString p.resources.length ++
    ", render_resolution: " ++ size ++ ", initialized: " ++ toString p.prepared ++ " \x7d"

end Plan

end FrameGraph
