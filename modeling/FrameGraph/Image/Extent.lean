import FrameGraph.Number.Shortest

/-!
# Extents

The size of an image in pixels, and the size an image port asks for: fixed, or relative to the
resolution that a graph is compiled at.
-/

namespace FrameGraph

/-- Width and height in pixels. -/
structure Extent where
  width : UInt32
  height : UInt32
  deriving DecidableEq, Repr

namespace Extent

instance : Inhabited Extent := ⟨⟨1920, 1080⟩⟩

/-- The number of pixels. -/
def area (e : Extent) : Nat := e.width.toNat * e.height.toNat

def text (e : Extent) : String := toString e.width.toNat ++ "x" ++ toString e.height.toNat

end Extent

/-- The size an image port asks for. The scale of a relative size is kept as it was given,
because two images can only share an allocation when their sizes are equal. -/
inductive ImageSize
  | absolute (extent : Extent)
  | relative (scale : Binary32)
  deriving DecidableEq, Repr

namespace ImageSize

/-- The full resolution: scale `1`. -/
def full : ImageSize := .relative ⟨0x3f800000⟩

instance : Inhabited ImageSize := ⟨full⟩

/-- One axis of a resolution, scaled: at least one pixel. -/
def scaleAxis (scale : Binary32) (axis : UInt32) : UInt32 :=
  UInt32.ofNat (max 1 ((Binary32.Value.ofNat axis.toNat).mul scale.value).toWhole)

/-- The pixels that a size comes to at a resolution. -/
def resolve (resolution : Extent) : ImageSize → Extent
  | absolute extent => extent
  | relative scale => ⟨scaleAxis scale resolution.width, scaleAxis scale resolution.height⟩

/-- Equality of sizes compares scales as numbers: a NaN scale equals nothing, and the two zeros
are equal. -/
def equal : ImageSize → ImageSize → Bool
  | absolute a, absolute b => a == b
  | relative s, relative t => s.equal t
  | _, _ => false

theorem equal_comm (x y : ImageSize) : x.equal y = y.equal x := by
  cases x <;> cases y <;> simp only [equal]
  · exact BEq.comm
  · exact Binary32.equal_comm ..

theorem equal_trans {x y z : ImageSize} (hxy : x.equal y = true) (hyz : y.equal z = true) :
    x.equal z = true := by
  cases x <;> cases y <;> cases z <;> simp only [equal, Bool.false_eq_true] at *
  · exact BEq.trans hxy hyz
  · exact Binary32.equal_trans hxy hyz

def text : ImageSize → String
  | absolute extent => extent.text
  | relative scale => scale.text ++ "x render resolution"

end ImageSize

end FrameGraph
