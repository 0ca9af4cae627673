import FrameGraph.Image.Extent
import FrameGraph.Proofs.Number.Rounding

/-!
# Relative sizes keep the order

The pixels of a relative size come of four roundings: of the axis to a number, of the product, to a
whole number, and up to one pixel. None of them turns an order round. So a larger axis never comes
to fewer pixels, nor does a larger scale, infinite and negative ones included, and the scale 1
leaves every resolution as it is that numbers can hold exactly (`ImageSize.resolve_ordered`).
-/

namespace FrameGraph

namespace Binary32

namespace Value

/-! ## The order of numbers -/

/-- A finite number as a signed count of units. -/
def signed (negative : Bool) (units : Nat) : Int := if negative then -units else units

/-- The order of numbers: NaN is not in it, and the two zeros are one number. -/
def le : Value → Value → Bool
  | .nan, _ | _, .nan => false
  | .infinite true, _ | _, .infinite false => true
  | .infinite false, _ | _, .infinite true => false
  | .finite a m, .finite b n => signed a m ≤ signed b n

theorem le_cases {x y : Value} (h : x.le y = true) :
    x = .infinite true ∨ y = .infinite false ∨
      ∃ a m b n, x = .finite a m ∧ y = .finite b n ∧ signed a m ≤ signed b n := by
  unfold le at h
  split at h
  · cases h
  · cases h
  · exact .inl rfl
  · exact .inr (.inl rfl)
  · cases h
  · cases h
  · next a m b n => exact .inr (.inr ⟨a, m, b, n, rfl, rfl, of_decide_eq_true h⟩)

/-- Numbers are equal if neither is greater. -/
theorem equal_iff {x y : Value} : x.equal y = true ↔ x.le y = true ∧ y.le x = true := by
  cases x <;> cases y
  case infinite.infinite a b => cases a <;> cases b <;> decide
  case infinite.finite a b n => cases a <;> simp [equal, le]
  case finite.infinite a m b => cases b <;> simp [equal, le]
  case finite.finite a m b n =>
    simp only [equal, le, signed, Bool.and_eq_true, Bool.or_eq_true, beq_iff_eq]
    cases a <;> cases b <;> simp <;> omega
  all_goals simp [equal, le]

/-! ## Rounding to whole numbers -/

theorem toWhole_le (v : Value) : v.toWhole ≤ UInt32.size - 1 := by
  unfold toWhole
  split
  · exact Nat.zero_le _
  · split
    · exact Nat.zero_le _
    · exact Nat.le_refl _
  · split
    · exact Nat.zero_le _
    · exact Nat.min_le_right ..

theorem toWhole_rounded_mono {m n : Nat} (h : m ≤ n) (k : Nat) :
    (rounded false m k).toWhole ≤ (rounded false n k).toWhole := by
  have hround := roundUnits_mono h k
  by_cases hn : roundUnits n k < tooLarge
  · have hwhole : (roundUnits m k + one / 2) / one ≤ (roundUnits n k + one / 2) / one :=
      Nat.div_le_div_right (Nat.add_le_add_right hround _)
    simp only [rounded, if_pos (hround.trans_lt hn), if_pos hn, toWhole, Bool.false_eq_true,
      if_false]
    omega
  · have hlarge : (rounded false n k).toWhole = UInt32.size - 1 := by
      simp only [rounded, if_neg hn, toWhole, Bool.false_eq_true, if_false]
    exact hlarge ▸ toWhole_le _

theorem toWhole_rounded_true (n k : Nat) : (rounded true n k).toWhole = 0 := by
  simp only [rounded]
  split <;> rfl

theorem toWhole_rounded_zero : (rounded false 0 149).toWhole = 0 := by decide +kernel

/-! ## Products with a whole number -/

/-- A whole number up to `2^32` has a finite magnitude. -/
theorem ofNat_eq {n : Nat} (hn : n < UInt32.size) :
    ofNat n = .finite false (roundUnits (n * one) 0) := by
  have hmost : roundUnits (UInt32.size * one) 0 < tooLarge := by decide
  exact if_pos ((roundUnits_mono (Nat.mul_le_mul_right one hn.le) 0).trans_lt hmost)

variable {m n : Nat} {x y : Value}

theorem toWhole_mul_infinite (m : Nat) (negative : Bool) :
    ((finite false m).mul (.infinite negative)).toWhole =
      if m = 0 ∨ negative = true then 0 else UInt32.size - 1 := by
  cases negative <;> by_cases hm : m = 0 <;> simp [mul, hm, toWhole]

/-- Whatever zero is multiplied by comes to zero: with an infinite factor, by way of NaN. -/
theorem toWhole_zero_mul (x : Value) : ((finite false 0).mul x).toWhole = 0 := by
  cases x with
  | nan => rfl
  | infinite negative => rw [toWhole_mul_infinite, if_pos (.inl rfl)]
  | finite negative n =>
    cases negative
    · rw [mul, Nat.zero_mul]
      exact toWhole_rounded_zero
    · exact toWhole_rounded_true ..

/-- With a larger factor the product comes to no less. All negative factors come to zero. -/
theorem toWhole_mul_mono_right (m : Nat) (h : x.le y = true) :
    ((finite false m).mul x).toWhole ≤ ((finite false m).mul y).toWhole := by
  rcases le_cases h with rfl | rfl | ⟨a, k, b, n, rfl, rfl, hle⟩
  · rw [toWhole_mul_infinite, if_pos (.inr rfl)]
    exact Nat.zero_le _
  · by_cases hm : m = 0
    · rw [hm, toWhole_zero_mul]
      exact Nat.zero_le _
    · rw [toWhole_mul_infinite, if_neg (by simp [hm])]
      exact toWhole_le _
  · cases a
    · cases b
      · have hkn : k ≤ n := Int.ofNat_le.mp hle
        exact toWhole_rounded_mono (Nat.mul_le_mul_left m hkn) 149
      · -- Both are zero.
        have hk : k = 0 := by
          simp only [signed, Bool.false_eq_true, if_false, if_true] at hle
          omega
        rw [mul, hk, Nat.mul_zero]
        exact toWhole_rounded_zero.trans_le (Nat.zero_le _)
    · exact (toWhole_rounded_true ..).trans_le (Nat.zero_le _)

theorem toWhole_mul_mono_left (hx : (finite false 0).le x = true) (h : m ≤ n) :
    ((finite false m).mul x).toWhole ≤ ((finite false n).mul x).toWhole := by
  by_cases hm : m = 0
  · rw [hm, toWhole_zero_mul]
    exact Nat.zero_le _
  have hn : n ≠ 0 := by omega
  rcases le_cases hx with hinfinite | rfl | ⟨_, _, b, k, -, rfl, -⟩
  · cases hinfinite
  · rw [toWhole_mul_infinite, toWhole_mul_infinite, if_neg (by simp [hm]), if_neg (by simp [hn])]
  · cases b
    · exact toWhole_rounded_mono (Nat.mul_le_mul_right k h) 149
    · exact (toWhole_rounded_true ..).trans_le (Nat.zero_le _)

end Value

/-- The order of numbers. -/
def le (x y : Binary32) : Bool := x.value.le y.value

end Binary32

namespace ImageSize

open Binary32

/-! ## One axis -/

theorem toNat_scaleAxis (scale : Binary32) (axis : UInt32) : (scaleAxis scale axis).toNat =
    max 1 ((Value.finite false (roundUnits (axis.toNat * one) 0)).mul scale.value).toWhole := by
  have hle := Value.toWhole_le ((Value.ofNat axis.toNat).mul scale.value)
  have hlt : max 1 ((Value.ofNat axis.toNat).mul scale.value).toWhole < UInt32.size :=
    max_lt (by decide) (Nat.lt_of_le_pred (by decide) hle)
  rw [scaleAxis, UInt32.toNat_ofNat_of_lt' hlt, Value.ofNat_eq axis.toNat_lt]

theorem scaleAxis_mono_left {s t : Binary32} (h : s.le t = true) (axis : UInt32) :
    scaleAxis s axis ≤ scaleAxis t axis := by
  rw [UInt32.le_iff_toNat_le, toNat_scaleAxis, toNat_scaleAxis]
  have hle := Value.toWhole_mul_mono_right (roundUnits (axis.toNat * one) 0) h
  omega

theorem scaleAxis_mono_right {scale : Binary32} (hscale : Binary32.le ⟨0⟩ scale = true)
    {a b : UInt32} (h : a ≤ b) : scaleAxis scale a ≤ scaleAxis scale b := by
  rw [UInt32.le_iff_toNat_le, toNat_scaleAxis, toNat_scaleAxis]
  have hround := roundUnits_mono (Nat.mul_le_mul_right one (UInt32.le_iff_toNat_le.mp h)) 0
  have hle := Value.toWhole_mul_mono_left (x := scale.value) hscale hround
  omega

/-! ## Scale 1 -/

theorem one_eq : one = 2 ^ 149 := Nat.one_shiftLeft 149

theorem value_full : (⟨0x3f800000⟩ : Binary32).value = .finite false one := by decide

/-- Up to `2^24`, a whole number is a multiple of the spacing around it. -/
theorem dvd_of_le {n : Nat} (h : n ≤ 2 ^ 24) : 2 ^ spacing (n * one) ∣ n * one := by
  rcases h.lt_or_eq with hlt | rfl
  · have hspacing : spacing (n * one) ≤ 149 :=
      (spacing_mono (Nat.mul_le_mul_right one (Nat.le_pred_of_lt hlt))).trans_eq (by decide)
    exact Nat.dvd_mul_left_of_dvd (one_eq ▸ Nat.pow_dvd_pow 2 hspacing) n
  · decide

theorem rounded_of_le {n : Nat} (h : n ≤ 2 ^ 24) :
    Value.rounded false (n * one * one) 149 = .finite false (n * one) := by
  have hround := roundUnits_of_dvd (dvd_of_le h) 149
  rw [← one_eq] at hround
  have hlt : n * one < tooLarge := (Nat.mul_le_mul_right one h).trans_lt (by decide)
  simp only [Value.rounded, hround, if_pos hlt]

theorem toWhole_whole {n : Nat} (h : n < UInt32.size) :
    (Value.finite false (n * one)).toWhole = n := by
  have hdiv : (n * one + one / 2) / one = n := by
    rw [Nat.add_comm, Nat.add_mul_div_right _ _ (by decide), (by decide : one / 2 / one = 0),
      Nat.zero_add]
  simp only [Value.toWhole, hdiv, Bool.false_eq_true, if_false]
  exact Nat.min_eq_left (Nat.le_pred_of_lt h)

theorem scaleAxis_full {axis : UInt32} (hpos : 1 ≤ axis.toNat) (hle : axis.toNat ≤ 2 ^ 24) :
    scaleAxis ⟨0x3f800000⟩ axis = axis := by
  have hnumber : roundUnits (axis.toNat * one) 0 = axis.toNat * one := by
    simpa only [Nat.pow_zero, Nat.mul_one] using roundUnits_of_dvd (dvd_of_le hle) 0
  have hvalue : ((Value.finite false (axis.toNat * one)).mul (.finite false one)).toWhole =
      axis.toNat := by
    rw [Value.mul, bne_self_eq_false, rounded_of_le hle, toWhole_whole axis.toNat_lt]
  rw [← UInt32.toNat_inj, toNat_scaleAxis, value_full, hnumber, hvalue]
  omega

/-! ## Both axes -/

/-- Scale 1 leaves every resolution with axes from 1 to `2^24` as it is. No scale that is a number
and not negative makes more of a smaller axis, and no smaller scale makes more of any axis. -/
theorem resolve_ordered :
    (∀ e : Extent, 1 ≤ e.width.toNat → e.width.toNat ≤ 2 ^ 24 →
      1 ≤ e.height.toNat → e.height.toNat ≤ 2 ^ 24 → full.resolve e = e) ∧
    (∀ scale, Binary32.le ⟨0⟩ scale = true → ∀ e e' : Extent,
      (e.width ≤ e'.width →
        ((relative scale).resolve e).width ≤ ((relative scale).resolve e').width) ∧
      (e.height ≤ e'.height →
        ((relative scale).resolve e).height ≤ ((relative scale).resolve e').height)) ∧
    ∀ s t : Binary32, s.le t = true → ∀ e : Extent,
      ((relative s).resolve e).width ≤ ((relative t).resolve e).width ∧
      ((relative s).resolve e).height ≤ ((relative t).resolve e).height := by
  refine ⟨fun e hw hw' hh hh' => ?_, fun scale hscale e e' => ?_, fun s t h e => ?_⟩
  · rw [full, resolve, scaleAxis_full hw hw', scaleAxis_full hh hh']
  · exact ⟨scaleAxis_mono_right hscale, scaleAxis_mono_right hscale⟩
  · exact ⟨scaleAxis_mono_left h e.width, scaleAxis_mono_left h e.height⟩

/-- The largest axis that scale 1 is sure to keep, beside the smallest; half of two axes; and the
infinite scales, of which the negative one comes to one pixel. -/
theorem resolve_ordered_infinite :
    full.resolve ⟨16777216, 1⟩ = ⟨16777216, 1⟩ ∧
    Binary32.le ⟨0⟩ ⟨0x3f000000⟩ = true ∧
    ((relative ⟨0x3f000000⟩).resolve ⟨1919, 1⟩).width ≤
      ((relative ⟨0x3f000000⟩).resolve ⟨1920, 1⟩).width ∧
    Binary32.le ⟨0xff800000⟩ ⟨0x7f800000⟩ = true ∧
    ((relative ⟨0xff800000⟩).resolve ⟨1920, 1080⟩).height ≤
      ((relative ⟨0x7f800000⟩).resolve ⟨1920, 1080⟩).height := by
  have hhalf : Binary32.le ⟨0⟩ ⟨0x3f000000⟩ = true := by decide
  have hinfinite : Binary32.le ⟨0xff800000⟩ ⟨0x7f800000⟩ = true := by decide
  obtain ⟨hfull, haxes, hscales⟩ := resolve_ordered
  exact ⟨hfull ⟨16777216, 1⟩ (by decide) (by decide) (by decide) (by decide), hhalf,
    (haxes _ hhalf ⟨1919, 1⟩ ⟨1920, 1⟩).1 (by decide), hinfinite,
    (hscales _ _ hinfinite ⟨1920, 1080⟩).2⟩

end ImageSize

end FrameGraph
