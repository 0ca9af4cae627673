/-!
# Pixel formats
-/

namespace FrameGraph

inductive PixelFormat
  | r8Unorm
  | r32Float
  | rg16Float
  | rgba8Unorm
  | rgba8UnormSrgb
  | rgba16Float
  | rgba32Float
  | depth24PlusStencil8
  | depth32Float
  deriving DecidableEq, Repr

namespace PixelFormat

instance : Inhabited PixelFormat := ⟨rgba32Float⟩

def all : List PixelFormat :=
  [r8Unorm, r32Float, rg16Float, rgba8Unorm, rgba8UnormSrgb, rgba16Float, rgba32Float,
    depth24PlusStencil8, depth32Float]

def name : PixelFormat → String
  | r8Unorm => "R8Unorm"
  | r32Float => "R32Float"
  | rg16Float => "Rg16Float"
  | rgba8Unorm => "Rgba8Unorm"
  | rgba8UnormSrgb => "Rgba8UnormSrgb"
  | rgba16Float => "Rgba16Float"
  | rgba32Float => "Rgba32Float"
  | depth24PlusStencil8 => "Depth24PlusStencil8"
  | depth32Float => "Depth32Float"

def isDepthStencil : PixelFormat → Bool
  | depth24PlusStencil8 | depth32Float => true
  | _ => false

/-- Bytes per pixel. -/
def blockSize : PixelFormat → Nat
  | r8Unorm => 1
  | rgba16Float => 8
  | rgba32Float => 16
  | r32Float | rg16Float | rgba8Unorm | rgba8UnormSrgb | depth24PlusStencil8 | depth32Float => 4

end PixelFormat

end FrameGraph
