import FrameGraph.Ron.Name
import FrameGraph.Ron.Quotation

/-!
# Numbers

Whole numbers in four bases with underscores between their digits, and the shapes of decimal
fractions. Only whole numbers have values here; a fraction is only ever skipped.
-/

namespace FrameGraph

namespace Ron

/-- The base of a number, and the digits after its sign. -/
def base (cs : List Char) : Nat × List Char :=
  match cs with
  | '0' :: 'x' :: rest => (16, rest)
  | '0' :: 'b' :: rest => (2, rest)
  | '0' :: 'o' :: rest => (8, rest)
  | _ => (10, cs)

def inWhole (c : Char) : Bool := (hexValue? c).isSome || c = '_'

def inFraction (c : Char) : Bool :=
  c.isDigit || c = 'e' || c = 'E' || c = '.' || c = '+' || c = '-' || c = '_'

/-- The value of digits in a base, underscores left out. -/
def valueOf? (b : Nat) (digits : List Char) : Option Nat :=
  digits.foldlM (fun value c =>
    if c = '_' then some value
    else (hexValue? c).bind fun d => if d < b then some (value * b + d) else none) 0

/-- Reads a number without a sign, up to a largest one. -/
def whole (largest : Nat) : Reader Nat := fun cs => do
  let (b, digits) := base cs
  let run := digits.takeWhile inWhole
  let rest := digits.dropWhile inWhole
  if run.isEmpty ∨ run.head? = some '_' then stop digits (.expected "a number")
  else
    match valueOf? b run with
    | none => stop digits (.expected "digits of the base")
    | some value => if value ≤ largest then return (value, rest) else stop digits .outOfRange

/-- Reads a number of 32 bits. -/
def word : Reader UInt32 := fun cs => do
  let (value, rest) ← whole (UInt32.size - 1) cs
  return (UInt32.ofNat value, rest)

/-! ## Fractions -/

/-- Drops a sign. -/
def unsigned : List Char → List Char
  | '+' :: cs => cs
  | '-' :: cs => cs
  | cs => cs

/-- Whether the characters after a mantissa are an exponent or nothing. -/
def isExponent : List Char → Bool
  | [] => true
  | c :: cs =>
    let digits := unsigned cs
    (c = 'e' || c = 'E') && !digits.isEmpty && digits.all Char.isDigit

/-- Whether characters are a decimal fraction: digits with at most one point among or beside them,
and perhaps an exponent. -/
def isFraction (cs : List Char) : Bool :=
  let cs := unsigned cs
  let before := cs.takeWhile Char.isDigit
  let (after, rest) := match cs.dropWhile Char.isDigit with
    | '.' :: rest => (rest.takeWhile Char.isDigit, rest.dropWhile Char.isDigit)
    | rest => ([], rest)
  !(before.isEmpty && after.isEmpty) && isExponent rest

/-- Skips a fraction, or one of the names of infinite and undefined numbers. -/
def skipFraction (cs : List Char) : Except Fault (List Char) :=
  match ["inf", "+inf", "-inf", "NaN", "+NaN", "-NaN"].findSome? (afterName? · cs) with
  | some rest => .ok rest
  | none =>
    if isFraction (cs.takeWhile inFraction) then .ok (cs.dropWhile inFraction)
    else stop cs (.expected "a number")

/-- Skips a number of any kind. One without a point is whole if it fits into 64 bits, and a
fraction otherwise. -/
def skipNumber (cs : List Char) : Except Fault (List Char) :=
  let digits := unsigned cs
  if (digits.takeWhile inWhole).length < (digits.takeWhile inFraction).length then skipFraction cs
  else
    let largest := match cs with
      | '-' :: _ => 1 <<< 63
      | '+' :: _ => (1 <<< 63) - 1
      | _ => UInt64.size - 1
    match whole largest digits with
    | .ok (_, rest) => .ok rest
    | .error _ => skipFraction cs

end Ron

end FrameGraph
