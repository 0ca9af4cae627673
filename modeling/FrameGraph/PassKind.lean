import FrameGraph.Port

/-!
# Kinds of passes

The closed catalogue of passes and the ports that each of them declares.
-/

namespace FrameGraph

inductive PassKind
  /-- The root of a graph: it publishes what the scene owns and is not executed. -/
  | sceneProvider
  | gBuffer
  | lighting
  | ambientOcclusion
  | antiAliasing
  | gaussianBlur
  /-- The sink that hands the final image over. -/
  | present
  | unknown
  deriving DecidableEq, Repr

namespace PassKind

/-- All kinds, in catalogue order. -/
def all : List PassKind :=
  [sceneProvider, gBuffer, lighting, ambientOcclusion, antiAliasing, gaussianBlur, present, unknown]

/-- The name of a kind in graph descriptions. -/
def name : PassKind → String
  | sceneProvider => "SceneProvider"
  | gBuffer => "GBuffer"
  | lighting => "Lighting"
  | ambientOcclusion => "AmbientOcclusion"
  | antiAliasing => "AntiAliasing"
  | gaussianBlur => "GaussianBlur"
  | present => "Present"
  | unknown => "Unknown"

/-- The name that a node of this kind is shown under unless it has one of its own. -/
def displayName : PassKind → String
  | sceneProvider => "Scene Provider"
  | gBuffer => "G-Buffer"
  | lighting => "Lighting"
  | ambientOcclusion => "Ambient Occlusion"
  | antiAliasing => "Anti-Aliasing"
  | gaussianBlur => "Gaussian Blur"
  | present => "Present"
  | unknown => "Unknown"

/-- Whether a graph holds at most one node of this kind. -/
def isSingleton : PassKind → Bool
  | sceneProvider | present => true
  | _ => false

/-- The ports that a kind declares, in order. -/
def ports : PassKind → List PortSpec
  | sceneProvider =>
    [.output "Scene" .scene, .output "Objects" .objects, .output "Camera" .camera,
      .output "TLAS" .accelerationStructure]
  | gBuffer =>
    [.input "Scene" .scene, .imageOutput "Position" .rgba32Float, .imageOutput "Normal" .rg16Float,
      .imageOutput "Albedo" .rgba8Unorm, .depthOutput "Depth" .depth32Float]
  | lighting =>
    [.input "Camera" .camera, .input "TLAS" .accelerationStructure,
      .imageInput "Position" .rgba32Float, .imageInput "Normal" .rg16Float,
      .imageInput "Albedo" .rgba8Unorm,
      { PortSpec.input "Depth" .depthImage with format := .depth32Float },
      .imageInput "AO Image" .r32Float, .imageOutput "Lighting Result" .rgba16Float]
  | ambientOcclusion =>
    [.imageInput "Position" .rgba32Float, .imageInput "Normal" .rg16Float, .input "Camera" .camera,
      .input "TLAS" .accelerationStructure, .imageOutput "AO Image" .r32Float]
  | antiAliasing =>
    [.imageInput "Image" .rgba16Float, .imageOutput "Anti-Aliased Image" .rgba16Float]
  | gaussianBlur =>
    [.imageInput "Image" .rgba16Float, .imageOutput "Blurred Image" .rgba16Float]
  | present => [.imageInput "Final Image" .rgba16Float]
  | unknown => []

/-- No kind declares two ports of one name. -/
theorem port_names_nodup (kind : PassKind) : (kind.ports.map (·.name)).Nodup := by
  cases kind <;> decide

/-- Every port of the catalogue says what it carries. -/
theorem payload_ne_unknown (kind : PassKind) : ∀ p ∈ kind.ports, p.payload ≠ .unknown := by
  cases kind <;> decide

end PassKind

end FrameGraph
