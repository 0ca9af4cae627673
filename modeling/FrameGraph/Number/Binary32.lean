/-!
# Binary32 numbers

A binary32 number is kept as its bit pattern. Its value is a sign and a magnitude counted in
units of `2^-149`, the spacing of the least numbers, so that every finite magnitude is a natural
number and the three operations that sizes need (from a whole number, product, to a whole
number) are exact integer arithmetic followed by one rounding.
-/

namespace FrameGraph

/-- A binary32 number by its bit pattern: sign, eight exponent bits, 23 fraction bits. -/
structure Binary32 where
  bits : UInt32
  deriving DecidableEq, Repr, Inhabited

namespace Binary32

/-- What a bit pattern denotes. A finite magnitude is a count of units of `2^-149`. -/
inductive Value
  | nan
  | infinite (negative : Bool)
  | finite (negative : Bool) (units : Nat)
  deriving DecidableEq, Repr

/-- How many units make one: `2^149`. -/
def one : Nat := 1 <<< 149

/-- The first magnitude too large to be finite: `2^128`, in units. -/
def tooLarge : Nat := 1 <<< 277

def value (x : Binary32) : Value :=
  let n := x.bits.toNat
  let negative := decide (1 <<< 31 ≤ n)
  let exponent := (n >>> 23) % 256
  let fraction := n % (1 <<< 23)
  if exponent = 255 then
    if fraction = 0 then .infinite negative else .nan
  else if exponent = 0 then .finite negative fraction
  else .finite negative (((1 <<< 23) + fraction) <<< (exponent - 1))

/-- The quotient `n / d` rounded to the nearest natural number, a half to the even neighbour. -/
def divEven (n d : Nat) : Nat :=
  let q := n / d
  let r := n % d
  if 2 * r < d then q else if d < 2 * r then q + 1 else q + q % 2

/-- The spacing, as a power of two, of the numbers around a magnitude of `units` units:
24 bits are kept. -/
def spacing (units : Nat) : Nat := units.log2 - 23

/-- The magnitude `n / 2^k` rounded to the kept bits, a half to the even neighbour. -/
def roundUnits (n k : Nat) : Nat :=
  let s := spacing (n >>> k)
  divEven n (1 <<< (k + s)) <<< s

namespace Value

/-- The number nearest to `n / 2^k` units; a magnitude that rounds to `2^128` is infinite. -/
def rounded (negative : Bool) (n k : Nat) : Value :=
  let units := roundUnits n k
  if units < tooLarge then .finite negative units else .infinite negative

def ofNat (n : Nat) : Value := rounded false (n * one) 0

def mul : Value → Value → Value
  | .nan, _ | _, .nan => .nan
  | .infinite a, .infinite b => .infinite (a != b)
  | .infinite a, .finite b n | .finite a n, .infinite b =>
    if n = 0 then .nan else .infinite (a != b)
  | .finite a m, .finite b n => rounded (a != b) (m * n) 149

/-- The nearest whole number, a half away from zero, clamped to `0 … 2^32 - 1`; NaN gives 0. -/
def toWhole : Value → Nat
  | .nan => 0
  | .infinite negative => if negative then 0 else UInt32.size - 1
  | .finite negative n => if negative then 0 else min ((n + one / 2) / one) (UInt32.size - 1)

/-- Equality of numbers: NaN equals nothing, and the two zeros are equal. -/
def equal : Value → Value → Bool
  | .infinite a, .infinite b => a == b
  | .finite a m, .finite b n => m == n && (m == 0 || a == b)
  | _, _ => false

theorem equal_comm (x y : Value) : x.equal y = y.equal x := by
  cases x <;> cases y <;> simp only [equal]
  · rw [Bool.beq_comm]
  · next a m b n =>
    by_cases h : m = n
    · subst h; rw [Bool.beq_comm (a := a)]
    · rw [beq_false_of_ne h, beq_false_of_ne (Ne.symm h)]; rfl

theorem equal_trans {x y z : Value} (hxy : x.equal y = true) (hyz : y.equal z = true) :
    x.equal z = true := by
  cases x <;> cases y <;> cases z <;> simp only [equal, Bool.false_eq_true] at *
  · simp_all
  · simp only [Bool.and_eq_true, Bool.or_eq_true, beq_iff_eq] at *
    grind

end Value

/-- Equality of numbers, which is not equality of bit patterns. -/
def equal (x y : Binary32) : Bool := x.value.equal y.value

theorem equal_comm (x y : Binary32) : x.equal y = y.equal x := Value.equal_comm ..

theorem equal_trans {x y z : Binary32} (hxy : x.equal y = true) (hyz : y.equal z = true) :
    x.equal z = true := Value.equal_trans hxy hyz

end Binary32

end FrameGraph
