import FrameGraph.Image.Extent
import FrameGraph.Image.PixelFormat
import FrameGraph.Image.Usage

/-!
# Ports

What a pass declares about each of its ports, and that declaration attached to a node of a graph.
-/

namespace FrameGraph

/-- A port's identifier, unique within a graph. -/
abbrev PortId := Nat

/-- What flows through a port. Images belong to the compiled plan; the other payloads are handles
to data that the scene owns. -/
inductive Payload
  | image
  | depthImage
  | camera
  | objects
  | accelerationStructure
  | scene
  | unknown
  deriving DecidableEq, Repr

namespace Payload

def all : List Payload :=
  [image, depthImage, camera, objects, accelerationStructure, scene, unknown]

def name : Payload → String
  | image => "Image"
  | depthImage => "DepthImage"
  | camera => "Camera"
  | objects => "Objects"
  | accelerationStructure => "AccelerationStructure"
  | scene => "Scene"
  | unknown => "Unknown"

/-- Whether resources with this payload may share an allocation. -/
def isAliasable : Payload → Bool
  | image | depthImage => true
  | _ => false

/-- Whether the payload is a handle to data that the scene owns. -/
def isSceneHandle : Payload → Bool
  | camera | objects | accelerationStructure | scene => true
  | _ => false

end Payload

/-- The direction of a port, seen from its node. -/
inductive Role
  | input
  | output
  | unknown
  deriving DecidableEq, Repr

namespace Role

def all : List Role := [input, output, unknown]

def name : Role → String
  | input => "Input"
  | output => "Output"
  | unknown => "Unknown"

end Role

/-- What is declared about a port. Format, size and usage matter for images alone: together with
the payload they are the signature that images sharing an allocation have in common. -/
structure PortSpec where
  name : String
  role : Role
  payload : Payload
  format : PixelFormat := default
  size : ImageSize := default
  usage : Usage := default
  deriving DecidableEq, Repr

namespace PortSpec

def input (name : String) (payload : Payload) : PortSpec :=
  ⟨name, .input, payload, default, default, default⟩

def output (name : String) (payload : Payload) : PortSpec :=
  ⟨name, .output, payload, default, default, default⟩

def imageInput (name : String) (format : PixelFormat) : PortSpec :=
  { input name .image with format }

def imageOutput (name : String) (format : PixelFormat) : PortSpec :=
  { output name .image with format }

def depthOutput (name : String) (format : PixelFormat) : PortSpec :=
  { output name .depthImage with format, usage := .depth }

/-- Whether one allocation can back both ports. -/
def compatible (a b : PortSpec) : Bool :=
  a.payload == b.payload && a.format == b.format && a.size.equal b.size && a.usage == b.usage

theorem compatible_iff {a b : PortSpec} :
    a.compatible b = true ↔ a.payload = b.payload ∧ a.format = b.format ∧
      a.size.equal b.size = true ∧ a.usage = b.usage := by
  simp only [compatible, Bool.and_eq_true, beq_iff_eq, and_assoc]

theorem compatible_comm (a b : PortSpec) : a.compatible b = b.compatible a := by
  rw [Bool.eq_iff_iff, compatible_iff, compatible_iff, ImageSize.equal_comm, eq_comm,
    eq_comm (a := a.format), eq_comm (a := a.usage)]

theorem compatible_trans {a b c : PortSpec} (hab : a.compatible b = true)
    (hbc : b.compatible c = true) : a.compatible c = true := by
  rw [compatible_iff] at *
  exact ⟨hab.1.trans hbc.1, hab.2.1.trans hbc.2.1, ImageSize.equal_trans hab.2.2.1 hbc.2.2.1,
    hab.2.2.2.trans hbc.2.2.2⟩

end PortSpec

/-- A declared port on a node of a graph. -/
structure Port where
  id : PortId
  spec : PortSpec
  /-- Set while an edge ends here; an input takes at most one edge. -/
  connected : Bool := false
  deriving DecidableEq, Repr

namespace Port

def name (p : Port) : String := p.spec.name

def role (p : Port) : Role := p.spec.role

def payload (p : Port) : Payload := p.spec.payload

end Port

end FrameGraph
