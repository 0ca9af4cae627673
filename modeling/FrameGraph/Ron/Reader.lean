import FrameGraph.Text.Place

/-!
# Readers

A reader takes a value off the front of a text and gives it with the rest, or the fault that stops
it. A fault keeps the text from where it was found, which is enough to tell its place.
-/

namespace FrameGraph

namespace Ron

/-- Why a text cannot be read. -/
inductive Cause
  | endOfText
  | expected (what : String)
  /-- A name where others are expected. -/
  | unknown (what name : String)
  | repeated (field : String)
  | missing (field : String)
  | badEscape
  | outOfRange
  | tooDeep
  | trailing
  deriving DecidableEq, Repr

namespace Cause

def message : Cause → String
  | endOfText => "Unexpected end of text"
  | expected what => s!"Expected {what}"
  | unknown what name => s!"Unknown {what} {name}"
  | repeated field => s!"Field {field} is given twice"
  | missing field => s!"Field {field} is missing"
  | badEscape => "Invalid escape sequence"
  | outOfRange => "Number out of range"
  | tooDeep => "Too many nested values"
  | trailing => "Unexpected text after the value"

end Cause

/-- What stops a reader, and the text that was left at that place. -/
structure Fault where
  cause : Cause
  rest : List Char
  deriving DecidableEq, Repr

namespace Fault

/-- A fault found while reading `source`, with its place. -/
def text (f : Fault) (source : List Char) : String :=
  let place := TextPlace.afterAll {} (source.take (source.length - f.rest.length))
  s!"{place.line}:{place.column}: {f.cause.message}"

end Fault

/-- Takes a value off the front of a text. -/
abbrev Reader (α : Type) := List Char → Except Fault (α × List Char)

/-- A fault at the front of `cs`. -/
def stop {α : Type} (cs : List Char) (cause : Cause) : Except Fault α := .error ⟨cause, cs⟩

/-- Takes a fixed character. -/
def expect (c : Char) (cs : List Char) : Except Fault (List Char) :=
  match cs with
  | [] => stop [] .endOfText
  | d :: ds => if d = c then .ok ds else stop cs (.expected s!"'{c}'")

/-- What follows a word at the front of a text. -/
def afterWord? (word : String) (cs : List Char) : Option (List Char) :=
  if word.toList.isPrefixOf cs then some (cs.drop word.length) else none

end Ron

end FrameGraph
