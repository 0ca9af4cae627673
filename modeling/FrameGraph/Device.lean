import FrameGraph.Image.Descriptor
import FrameGraph.Log
import FrameGraph.Text.Quoted

/-!
# Devices

What allocates images, and the handles to what the scene owns. A compile works with any allocator;
the device of this library hands out handles in sequence and may refuse after a number of images.
-/

namespace FrameGraph

/-- Whether an image holds colour or depth. -/
inductive ImageKind
  | colour
  | depth
  deriving DecidableEq, Repr

namespace ImageKind

def name : ImageKind → String
  | colour => "image"
  | depth => "depth image"

end ImageKind

/-- An allocated image. -/
structure Image where
  handle : Nat
  descriptor : ImageDescriptor
  deriving DecidableEq, Repr

/-- A refused allocation. -/
structure DeviceError where
  kind : String
  label : String
  reason : String
  deriving DecidableEq, Repr

namespace DeviceError

def message (e : DeviceError) : String :=
  s!"failed to create {e.kind} '{e.label}': {e.reason}"

end DeviceError

/-- What allocates images, as its state. A request may change the state whether or not it is
refused. -/
class Allocator (δ : Type) where
  create : δ → ImageKind → ImageDescriptor → Except DeviceError Image × δ
  /-- What is logged about a request. -/
  records : δ → ImageKind → ImageDescriptor → List Record

/-- A device that has made `made` images and refuses once it has made `limit`. -/
structure Device where
  made : Nat := 0
  limit : Option Nat := none
  deriving DecidableEq, Repr, Inhabited

namespace Device

def name : String := "Dummy Backend"

/-- Whether the device refuses the next image. -/
def isSpent (d : Device) : Bool :=
  match d.limit with
  | none => false
  | some limit => limit ≤ d.made

/-- Allocates an image. Its handle is the number of images made before it. -/
def create (d : Device) (kind : ImageKind) (descriptor : ImageDescriptor) :
    Except DeviceError Image × Device :=
  if d.isSpent then
    (.error ⟨kind.name, descriptor.label.getD "", "dummy allocation limit reached"⟩, d)
  else (.ok ⟨d.made, descriptor⟩, { d with made := d.made + 1 })

theorem create_ok {d e : Device} {kind : ImageKind} {descriptor : ImageDescriptor} {i : Image}
    (h : d.create kind descriptor = (.ok i, e)) :
    i = ⟨d.made, descriptor⟩ ∧ e.made = d.made + 1 ∧ e.limit = d.limit := by
  unfold create at h
  split at h
  · cases h
  · cases h; exact ⟨rfl, rfl, rfl⟩

/-- What is logged about a request, whether or not it is refused. -/
def requested (kind : ImageKind) (descriptor : ImageDescriptor) : Record :=
  let label := match descriptor.label with
    | none => "None"
    | some label => "Some(" ++ quoted label ++ ")"
  ⟨.trace, .device, s!"DummyBackend: creating {kind.name} {label} " ++
    s!"({descriptor.size.text}, {descriptor.format.name}, {descriptor.usage.text})"⟩

instance : Allocator Device where
  create := create
  records _ kind descriptor := [requested kind descriptor]

end Device

/-- Handles to the data of the scene that a plan reads. -/
structure SceneHandles where
  scene : Nat := 0
  camera : Nat := 0
  objects : Nat := 0
  accelerationStructure : Nat := 0
  deriving DecidableEq, Repr, Inhabited

end FrameGraph
