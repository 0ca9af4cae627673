import FrameGraph.Image.Usage
import FrameGraph.Proofs.Image.Resolution

/-!
# What images of one signature have in common

Images share an allocation if their sizes are equal as numbers, which the bit patterns of their
scales need not be: the two zeros are equal. Equal sizes come to the same pixels at every resolution
(`ImageSize.resolve_eq_of_equal`), so that an allocation made for one of them fits all.
-/

namespace FrameGraph

namespace ImageSize

/-- Equal sizes come to the same pixels. -/
theorem resolve_eq_of_equal {x y : ImageSize} (h : x.equal y = true) (resolution : Extent) :
    x.resolve resolution = y.resolve resolution := by
  cases x <;> cases y <;> simp only [equal, Bool.false_eq_true] at h
  case absolute.absolute a b => exact beq_iff_eq.mp h
  case relative.relative s t =>
    -- Neither scale is greater, so that neither makes more of an axis.
    obtain ⟨hst, hts⟩ := Binary32.Value.equal_iff.mp h
    have haxis : ∀ axis, scaleAxis s axis = scaleAxis t axis := fun axis =>
      UInt32.le_antisymm (scaleAxis_mono_left hst axis) (scaleAxis_mono_left hts axis)
    simp only [resolve, haxis]

end ImageSize

/-- The scales `0` and `-0` are equal and come to one pixel. -/
example : (ImageSize.relative ⟨0⟩).equal (.relative ⟨0x80000000⟩) = true ∧
    (ImageSize.relative ⟨0x80000000⟩).resolve ⟨1920, 1080⟩ = ⟨1, 1⟩ := by decide +kernel

namespace Usage

theorem contains_union_left (a b : Usage) : (a ∪ b).contains a = true := by
  change ((a.bits ||| b.bits) &&& a.bits == a.bits) = true
  rw [beq_iff_eq, ← UInt32.toBitVec_inj, UInt32.toBitVec_and, UInt32.toBitVec_or]
  grind

theorem contains_union_right (a b : Usage) : (a ∪ b).contains b = true := by
  change ((a.bits ||| b.bits) &&& b.bits == b.bits) = true
  rw [beq_iff_eq, ← UInt32.toBitVec_inj, UInt32.toBitVec_and, UInt32.toBitVec_or]
  grind

end Usage

end FrameGraph
