import FrameGraph.Number.Binary32

/-!
# Shortest decimals

The decimal text of a binary32 number: the fewest digits that read back as the same number, and
of those the nearest to it (a tie goes up), written positionally without an exponent.

A decimal `c * 10^p` reads back as a number when it lies between the midpoints to the number's
two neighbours. The coarsest grid `10^p` with a point there gives the fewest digits, and if a
grid has a point there, then so is one of the two grid points around the number.
-/

namespace FrameGraph

namespace Binary32

/-- The decimals that read back as one magnitude: bounds in quarters of a unit, and whether the
bounds themselves belong. -/
structure Reading where
  low : Nat
  high : Nat
  closed : Bool

/-- The midpoints to the neighbours of `units`. Just above a power of two the lower neighbour
is half as far, and a midpoint goes to the number whose last kept bit is even. -/
def Reading.of (units : Nat) : Reading :=
  let gap := 1 <<< spacing units
  let below := if 1 < gap ∧ units = 1 <<< units.log2 then gap else 2 * gap
  ⟨4 * units - below, 4 * units + 2 * gap, units / gap % 2 == 0⟩

/-- Whether `c * num / den` lies between the bounds. -/
def Reading.holds (r : Reading) (c num den : Nat) : Bool :=
  let x := 4 * c * num * one
  if r.closed then r.low * den ≤ x && x ≤ r.high * den
  else r.low * den < x && x < r.high * den

/-- The point of the grid `num / den` that is nearest to `units` among those that read back. -/
def gridPoint? (units num den : Nat) : Option Nat :=
  let r := Reading.of units
  let c := units * den / (one * num)
  match r.holds c num den, r.holds (c + 1) num den with
  | false, false => none
  | true, false => some c
  | false, true => some (c + 1)
  | true, true => if 2 * units * den < (2 * c + 1) * (one * num) then some c else some (c + 1)

/-- A decimal `coefficient * 10^exponent`. -/
structure Decimal where
  coefficient : Nat
  exponent : Int

/-- Tries the grids `10^p`, `10^(p-1)`, … and takes the first with a point that reads back. -/
def searchGrid (units : Nat) : (fuel : Nat) → Int → Decimal
  | 0, p => ⟨0, p⟩
  | fuel + 1, p =>
    match gridPoint? units (Nat.pow 10 p.toNat) (Nat.pow 10 (-p).toNat) with
    | some c => ⟨c, p⟩
    | none => searchGrid units fuel (p - 1)

/-- The shortest decimal of a positive magnitude. No magnitude needs a grid coarser than `10^38`
or finer than `10^-60`. -/
def shortest (units : Nat) : Decimal := searchGrid units 100 38

/-- Writes a decimal without an exponent. -/
def Decimal.positional (d : Decimal) : String :=
  let digits := toString d.coefficient
  if 0 ≤ d.exponent then digits ++ "".pushn '0' d.exponent.toNat
  else
    let places := (-d.exponent).toNat
    let cs := digits.toList
    if cs.length ≤ places then "0." ++ "".pushn '0' (places - cs.length) ++ digits
    else
      let whole := cs.length - places
      String.ofList (cs.take whole) ++ "." ++ String.ofList (cs.drop whole)

def Value.text : Value → String
  | .nan => "NaN"
  | .infinite negative => (if negative then "-" else "") ++ "inf"
  | .finite negative units =>
    (if negative then "-" else "") ++ (if units = 0 then "0" else (shortest units).positional)

def text (x : Binary32) : String := x.value.text

end Binary32

end FrameGraph
