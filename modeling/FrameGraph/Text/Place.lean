/-!
# Places in a text

Lines and columns, and the stretches between two places.
-/

namespace FrameGraph

/-- A place in a text. Lines and columns are counted from 1. -/
structure TextPlace where
  line : Nat := 1
  column : Nat := 1
  deriving DecidableEq, Repr

namespace TextPlace

/-- The place behind a character that stands here. -/
def after (p : TextPlace) (c : Char) : TextPlace :=
  if c = '\n' then ⟨p.line + 1, 1⟩ else { p with column := p.column + 1 }

/-- The place behind some characters that stand here. -/
def afterAll (p : TextPlace) (cs : List Char) : TextPlace := cs.foldl after p

/-- Whether a place comes no later than another. -/
def le (p q : TextPlace) : Bool := p.line < q.line || (p.line = q.line && p.column ≤ q.column)

end TextPlace

/-- The characters from one place up to another. -/
structure Stretch where
  first : TextPlace
  stop : TextPlace
  deriving DecidableEq, Repr

namespace Stretch

/-- No characters, at a place. -/
def point (p : TextPlace) : Stretch := ⟨p, p⟩

def isOnOneLine (s : Stretch) : Bool := s.first.line = s.stop.line

/-- Whether a stretch comes no later than another: it begins earlier, or it is no longer. -/
def le (s t : Stretch) : Bool := if s.first = t.first then s.stop.le t.stop else s.first.le t.first

/-- From the beginning of one stretch to the end of another. -/
def upTo (s t : Stretch) : Stretch := ⟨s.first, t.stop⟩

end Stretch

end FrameGraph
