import FrameGraph.Number.Binary32
import Mathlib.Algebra.Group.Nat.Defs
import Mathlib.Data.Nat.Log

/-!
# Rounding keeps the order

A magnitude is rounded to a multiple of a spacing that grows with it. Within one spacing, rounding
is that of quotients, which keeps their order (`Binary32.divEven_mono`). From one spacing to the
next, it stays on its side of the power of two between them, so that all of it keeps the order
(`Binary32.roundUnits_mono`). A multiple of its own spacing is left as it is
(`Binary32.roundUnits_of_dvd`).
-/

namespace FrameGraph

namespace Binary32

/-! ## Quotients -/

theorem div_le_divEven (n d : Nat) : n / d ≤ divEven n d := by
  simp only [divEven]
  split_ifs <;> omega

theorem divEven_le (n d : Nat) : divEven n d ≤ n / d + 1 := by
  simp only [divEven]
  split_ifs <;> omega

theorem divEven_mono {m n : Nat} (h : m ≤ n) (d : Nat) : divEven m d ≤ divEven n d := by
  rcases (Nat.div_le_div_right (c := d) h).lt_or_eq with hlt | heq
  · exact (divEven_le m d).trans (hlt.trans_le (div_le_divEven n d))
  · have hm := Nat.div_add_mod m d
    have hn := Nat.div_add_mod n d
    rw [heq] at hm
    have hrest : m % d ≤ n % d := by omega
    simp only [divEven, heq]
    split_ifs <;> omega

theorem divEven_mul (m : Nat) {d : Nat} (hd : 0 < d) : divEven (m * d) d = m := by
  rw [divEven, Nat.mul_mod_left, Nat.mul_div_cancel m hd, if_pos (by omega)]

theorem divEven_le_of_le_mul {m n d : Nat} (hd : 0 < d) (h : n ≤ m * d) : divEven n d ≤ m :=
  (divEven_mono h d).trans_eq (divEven_mul m hd)

theorem le_divEven_of_mul_le {m n d : Nat} (hd : 0 < d) (h : m * d ≤ n) : m ≤ divEven n d :=
  (divEven_mul m hd).symm.trans_le (divEven_mono h d)

/-! ## Magnitudes -/

theorem roundUnits_eq (n k : Nat) : roundUnits n k =
    divEven n (2 ^ (k + spacing (n / 2 ^ k))) * 2 ^ spacing (n / 2 ^ k) := by
  rw [roundUnits, Nat.shiftRight_eq_div_pow, Nat.shiftLeft_eq, Nat.one_shiftLeft]

theorem spacing_mono {m n : Nat} (h : m ≤ n) : spacing m ≤ spacing n := by
  simp only [spacing, Nat.log2_eq_log_two]
  exact Nat.sub_le_sub_right (Nat.log_mono_right h) 23

/-- A magnitude of some spacing is not rounded beyond the least one of the next spacing. -/
theorem roundUnits_le (n k : Nat) : roundUnits n k ≤ 2 ^ (24 + spacing (n / 2 ^ k)) := by
  have hlog : (n / 2 ^ k).log2 + 1 ≤ 24 + spacing (n / 2 ^ k) := by
    rw [spacing]
    omega
  have hlt : n / 2 ^ k < 2 ^ (24 + spacing (n / 2 ^ k)) :=
    Nat.lt_log2_self.trans_le (Nat.pow_le_pow_right (by decide) hlog)
  rw [Nat.div_lt_iff_lt_mul (Nat.two_pow_pos k)] at hlt
  have hle : n ≤ 2 ^ 24 * 2 ^ (k + spacing (n / 2 ^ k)) := by
    rw [Nat.add_comm k, Nat.pow_add, ← Nat.mul_assoc, ← Nat.pow_add]
    exact hlt.le
  rw [roundUnits_eq, Nat.pow_add 2 24]
  exact Nat.mul_le_mul_right _ (divEven_le_of_le_mul (Nat.two_pow_pos _) hle)

/-- A magnitude of a spacing above the first is not rounded below the least one of its spacing. -/
theorem le_roundUnits {n k : Nat} (h : 0 < spacing (n / 2 ^ k)) :
    2 ^ (23 + spacing (n / 2 ^ k)) ≤ roundUnits n k := by
  have hlog : 23 + spacing (n / 2 ^ k) = (n / 2 ^ k).log2 := by
    rw [spacing] at h ⊢
    omega
  have hne : n / 2 ^ k ≠ 0 := by
    intro hzero
    rw [hzero] at h
    exact absurd h (by decide)
  have hpow : 2 ^ (23 + spacing (n / 2 ^ k)) ≤ n / 2 ^ k := hlog ▸ Nat.log2_self_le hne
  rw [Nat.le_div_iff_mul_le (Nat.two_pow_pos k)] at hpow
  have hle : 2 ^ 23 * 2 ^ (k + spacing (n / 2 ^ k)) ≤ n := by
    rw [Nat.add_comm k, Nat.pow_add, ← Nat.mul_assoc, ← Nat.pow_add]
    exact hpow
  rw [roundUnits_eq, Nat.pow_add 2 23]
  exact Nat.mul_le_mul_right _ (le_divEven_of_mul_le (Nat.two_pow_pos _) hle)

theorem roundUnits_mono {m n : Nat} (h : m ≤ n) (k : Nat) : roundUnits m k ≤ roundUnits n k := by
  rcases (spacing_mono (Nat.div_le_div_right (c := 2 ^ k) h)).lt_or_eq with hlt | heq
  · calc roundUnits m k ≤ 2 ^ (24 + spacing (m / 2 ^ k)) := roundUnits_le m k
      _ ≤ 2 ^ (23 + spacing (n / 2 ^ k)) := Nat.pow_le_pow_right (by decide) (by omega)
      _ ≤ roundUnits n k := le_roundUnits (by omega)
  · rw [roundUnits_eq, roundUnits_eq, heq]
    exact Nat.mul_le_mul_right _ (divEven_mono h _)

theorem roundUnits_of_dvd {m : Nat} (h : 2 ^ spacing m ∣ m) (k : Nat) :
    roundUnits (m * 2 ^ k) k = m := by
  rw [roundUnits_eq, Nat.mul_div_cancel m (Nat.two_pow_pos k)]
  have hsplit : m * 2 ^ k = m / 2 ^ spacing m * 2 ^ (k + spacing m) := by
    rw [Nat.add_comm k, Nat.pow_add, ← Nat.mul_assoc, Nat.div_mul_cancel h]
  rw [hsplit, divEven_mul _ (Nat.two_pow_pos _), Nat.div_mul_cancel h]

end Binary32

end FrameGraph
