import FrameGraph.Image.Extent
import FrameGraph.Image.PixelFormat
import FrameGraph.Image.Usage

/-!
# Image descriptors

What a device is asked to allocate.
-/

namespace FrameGraph

structure ImageDescriptor where
  label : Option String := none
  size : Extent
  format : PixelFormat
  usage : Usage
  deriving DecidableEq, Repr

namespace ImageDescriptor

/-- The size of the image in bytes. -/
def byteSize (d : ImageDescriptor) : Nat := d.size.area * d.format.blockSize

end ImageDescriptor

end FrameGraph
