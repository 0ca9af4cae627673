/-!
# Durations

The text of a span of time given in whole nanoseconds: the largest of the units s, ms, µs, ns of
which there is at least one, with as many decimal places as are not zero.
-/

namespace FrameGraph

/-- A span of time in nanoseconds. -/
structure Duration where
  nanoseconds : Nat
  deriving DecidableEq, Repr

namespace Duration

/-- The digits of `n` in `places` decimal places, without the zeros at the end. -/
def fraction (n places : Nat) : String :=
  let digits := toString n
  let padded := "".pushn '0' (places - digits.length) ++ digits
  String.ofList ((padded.toList.reverse.dropWhile (· == '0')).reverse)

/-- A number `n` in a unit of `10^places` nanoseconds. -/
def inUnit (n places : Nat) (unit : String) : String :=
  let rest := n % Nat.pow 10 places
  toString (n / Nat.pow 10 places) ++ (if rest = 0 then "" else "." ++ fraction rest places) ++ unit

def text (d : Duration) : String :=
  let n := d.nanoseconds
  if Nat.pow 10 9 ≤ n then inUnit n 9 "s"
  else if Nat.pow 10 6 ≤ n then inUnit n 6 "ms"
  else if Nat.pow 10 3 ≤ n then inUnit n 3 "µs"
  else inUnit n 0 "ns"

end Duration

end FrameGraph
