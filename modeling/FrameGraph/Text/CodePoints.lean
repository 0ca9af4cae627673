/-!
# Sets of code points

A set of code points is kept as the places at which it changes, in ascending order: it begins to
hold at the first, ends to hold at the second, and so on.
-/

namespace FrameGraph

namespace CodePoints

/-- The number of changes up to a code point, by bisection between `low` and `high`. -/
def changesUpTo (changes : Array Nat) (c : Nat) : (fuel : Nat) → (low high : Nat) → Nat
  | 0, low, _ => low
  | fuel + 1, low, high =>
    if high ≤ low then low
    else
      let middle := (low + high) / 2
      if changes.getD middle 0 ≤ c then changesUpTo changes c fuel (middle + 1) high
      else changesUpTo changes c fuel low middle

/-- Whether a set with these changes, fewer than `2 ^ 32` of them, has a character. -/
def has (changes : Array Nat) (c : Char) : Bool :=
  changesUpTo changes c.toNat 32 0 changes.size % 2 == 1

end CodePoints

end FrameGraph
