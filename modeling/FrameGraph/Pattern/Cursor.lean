import FrameGraph.Pattern.Fault
import FrameGraph.Text.Blank

/-!
# Reading patterns

A cursor stands at a place of a pattern. Readers move it on and stop at the first fault.
-/

namespace FrameGraph

namespace Pattern

structure Cursor where
  place : TextPlace := {}
  rest : List Char
  /-- White space and comments between the parts are skipped. -/
  spaced : Bool := false
  /-- The names that groups have so far. -/
  names : List (String × Stretch) := []
  deriving Repr

namespace Cursor

def next (c : Cursor) : Cursor :=
  match c.rest with
  | [] => c
  | d :: rest => { c with place := c.place.after d, rest }

/-- What is left after white space and comments. -/
def afterSpace : (inComment : Bool) → List Char → List Char
  | _, [] => []
  | true, d :: rest => afterSpace (d ≠ '\n') rest
  | false, d :: rest =>
    if isWhiteSpace d then afterSpace false rest
    else if d = '#' then afterSpace true rest
    else d :: rest

def skip (c : Cursor) : Cursor :=
  if c.spaced then
    let rest := afterSpace false c.rest
    { c with place := c.place.afterAll (c.rest.take (c.rest.length - rest.length)), rest }
  else c

/-- The character behind the next one. White space and the marks of comments between them do not
count where they are skipped, unless nothing else is left. -/
def second? (c : Cursor) : Option Char :=
  let rest := c.rest.drop 1
  if !c.spaced then rest.head?
  else
    match rest.dropWhile isWhiteSpace with
    | '#' :: comment => (comment.dropWhile isWhiteSpace).head?.or rest.head?
    | seen => seen.head?.or rest.head?

end Cursor

abbrev Read := StateT Cursor (Except Fault)

namespace Read

def peek : Read (Option Char) := return (← get).rest.head?

def next : Read Unit := modify Cursor.next

def skip : Read Unit := modify Cursor.skip

/-- Takes a character and the space behind it. -/
def advance : Read Unit := modify fun c => c.next.skip

def place : Read TextPlace := return (← get).place

/-- The stretch from a place up to here. -/
def since (first : TextPlace) : Read Stretch := return ⟨first, ← place⟩

def here : Read Stretch := return .point (← place)

/-- The stretch of the next character. -/
def mark : Read Stretch := do
  let c ← get
  return ⟨c.place, c.next.place⟩

def fail {α : Type} (stretch : Stretch) (cause : Cause) : Read α := throw ⟨cause, stretch, none⟩

/-- Takes a word if it is next, and tells whether it was. -/
def word (w : String) : Read Bool := do
  if w.toList.isPrefixOf (← get).rest then
    w.toList.forM fun _ => next
    return true
  else return false

def takeUpTo (isMember : Char → Bool) (step : Read Unit) : (room : Nat) → Read (List Char)
  | 0 => return []
  | room + 1 => do
    match ← peek with
    | none => return []
    | some c =>
      if isMember c then
        step
        return c :: (← takeUpTo isMember step room)
      else return []

/-- Takes all characters of a kind that are next, each with a step. -/
def takeAll (isMember : Char → Bool) (step : Read Unit) : Read (List Char) := do
  takeUpTo isMember step (← get).rest.length

end Read

end Pattern

end FrameGraph
