import FrameGraph.Pattern.Basic

/-!
# Sizes of patterns

How much memory a machine takes that follows a pattern byte by byte: a state for each byte that has
to be there, and states that lead on without one where ways part and meet. Repetitions with bounds
are spelled out. A pattern is refused where its machine would take too much.
-/

namespace FrameGraph

namespace Pattern

/-- The bytes of a state. -/
def stateSize : Nat := 32

/-- The bytes of a way out of a state that is taken with one of a range of bytes. -/
def waySize : Nat := 8

/-- The bytes of a state that leads on to two others. -/
def forkSize : Nat := stateSize + 8

/-- How many runs of neighbours a list of characters in order has. -/
def runs : List Char → Nat
  | [] => 0
  | [_] => 1
  | c :: d :: cs => runs (d :: cs) + if c.toNat + 1 = d.toNat then 0 else 1

/-- What one character of a set takes. A set of ASCII characters is one state and its end. A set of
one character is its bytes. All others are about as large as the set of all characters, which takes
nine states with sixteen ways. -/
def sizeOfSet : CharSet → Nat
  | .within first last =>
    if first = last then first.utf8Size * stateSize else ofMany (.within first last)
  | set => ofMany set
where
  ofMany (set : CharSet) : Nat :=
    if set.goesBeyondAscii then 9 * stateSize + 16 * waySize
    else if set.asciiMembers.length = 1 then stateSize
    else 2 * stateSize + runs set.asciiMembers * waySize

/-- Whether a pattern may match empty text. -/
def mayBeEmpty : Pattern → Bool
  | empty | look _ => true
  | one _ => false
  | seq p q => p.mayBeEmpty && q.mayBeEmpty
  | either p q => p.mayBeEmpty || q.mayBeEmpty
  | group p => p.mayBeEmpty
  | times p least _ => least = 0 || p.mayBeEmpty

/-- What the machine for a pattern takes. -/
def size : Pattern → Nat
  | empty | look _ => stateSize
  | one set => sizeOfSet set
  | seq p q => (if p = empty then 0 else p.size) + if q = empty then 0 else q.size
  | either p q =>
    let fork := match p with
      | either .. => 4
      | _ => forkSize + stateSize
    p.size + q.size + fork
  | group p => p.size + 2 * stateSize
  | times p 0 none => p.size + if p.mayBeEmpty then 2 * forkSize + stateSize else forkSize
  | times p least none => least * p.size + forkSize
  | times p least (some most) =>
    if least = most then most * p.size
    else
      let first := if least = 0 ∧ most ≠ 1 then stateSize else least * p.size
      first + stateSize + (most - least) * (p.size + forkSize)

/-- What a machine takes that looks for a pattern in a text: it passes over any bytes before, and
keeps where a match begins and ends. -/
def machineSize (p : Pattern) : Nat :=
  p.size + (forkSize + 2 * stateSize + waySize) + 2 * stateSize + stateSize

/-- How large a machine may be. -/
def sizeLimit : Nat := 10 * (1 <<< 20)

/-- A fixed number of repetitions takes as much as that many patterns. -/
theorem size_times (p : Pattern) (n : Nat) : (times p n (some n)).size = n * p.size := by
  simp [size]

end Pattern

end FrameGraph
