import FrameGraph.Pattern.Cursor
import FrameGraph.Pattern.Tree
import FrameGraph.Text.Hexadecimal

/-!
# Escapes

What a backslash and the characters behind it stand for: a character, a class, or a question about
the place.
-/

namespace FrameGraph

namespace Pattern

namespace Read

/-- The value of hexadecimal digits. -/
def hexadecimal (digits : List Char) : Nat :=
  digits.foldl (fun n c => 16 * n + (hexValue? c).getD 0) 0

/-- Takes a number of hexadecimal digits. -/
def hexDigits : (count : Nat) → Read (List Char)
  | 0 => return []
  | count + 1 => do
    match ← peek with
    | none => fail (← here) .unfinishedEscape
    | some c =>
      if (hexValue? c).isNone then fail (← mark) .notHexadecimal
      advance
      return c :: (← hexDigits count)

/-- Takes hexadecimal digits up to what is none of them, which has to be a closing brace.
`opening` is the place of the opening one. -/
def bracedHexDigits (opening : TextPlace) : Read (List Char) := do
  let digits ← takeAll (fun c => (hexValue? c).isSome) advance
  match ← peek with
  | none => fail (← since opening) .unfinishedEscape
  | some '}' => return digits
  | some _ => fail (← mark) .notHexadecimal

/-- Reads the number of a character, behind the letter that announces it with a number of digits.
`start` is where the escape begins. -/
def codePoint (start : TextPlace) (count : Nat) : Read Literal := do
  advance
  match ← peek with
  | none => fail (← here) .unfinishedEscape
  | some '{' =>
    let opening ← place
    let inner := (← mark).stop
    advance
    let digits ← bracedHexDigits opening
    let stop ← place
    advance
    if digits.isEmpty then fail (← since opening) .emptyHexadecimal
    match scalar? (hexadecimal digits) with
    | none => fail ⟨inner, stop⟩ .notScalar
    | some char => return { char, stretch := ← since start }
  | some _ =>
    let first ← place
    let digits ← hexDigits count
    match scalar? (hexadecimal digits) with
    | none => fail (← since first) .notScalar
    | some char => return { char, isByte := count = 2, stretch := ← since start }

/-- Reads the name of a property, behind the letter that announces it. -/
def property (start : TextPlace) : Read Tree := do
  advance
  match ← peek with
  | none => fail (← here) .unfinishedEscape
  | some '\\' => fail (← mark) .invalidProperty
  | some '{' =>
    advance
    let name ← takeAll (· ≠ '}') advance
    if (← peek).isNone then fail (← here) .unfinishedEscape
    next
    return .property (← since start) (String.ofList name)
  | some c =>
    advance
    return .property (← since start) (String.singleton c)

def edgeOfName? : String → Option WordEdge
  | "start" => some .start
  | "end" => some .stop
  | "start-half" => some .startHalf
  | "end-half" => some .stopHalf
  | _ => none

/-- Reads the edge of a word that stands in braces behind `\b`. Braces that cannot hold one are
left. `start` is where the escape begins. -/
def bracedEdge? (start : TextPlace) : Read (Option WordEdge) := do
  let isNameChar (c : Char) : Bool := c.isAlpha || c = '-'
  let before ← get
  advance
  match ← peek with
  | none => fail (← since start) .unfinishedEdge
  | some c =>
    if !isNameChar c then
      set before
      return none
    let inner ← place
    let name ← takeAll isNameChar advance
    if (← peek) ≠ some '}' then fail (← since before.place) .unclosedEdge
    let stop ← place
    next
    match edgeOfName? (String.ofList name) with
    | some edge => return some edge
    | none => fail ⟨inner, stop⟩ .unrecognizedEdge

/-- Reads what stands behind `\b`. -/
def edge (start : TextPlace) : Read Tree := do
  let found ← if (← peek) = some '{' then bracedEdge? start else pure none
  return .anchor (← since start) (.word (found.getD .boundary))

/-- Whether a backslash makes a character stand for itself: those of ASCII that are no letters and
digits, and no angle brackets, which ask for the edges of words. -/
def standsForItself (c : Char) : Bool :=
  c.toNat < 0x80 && !c.isAlphanum && c ≠ '<' && c ≠ '>'

/-- The control characters that letters stand for. -/
def controlOf? : Char → Option Char
  | 'a' => some '\x07'
  | 'f' => some '\x0c'
  | 't' => some '\t'
  | 'n' => some '\n'
  | 'r' => some '\r'
  | 'v' => some '\x0b'
  | _ => none

def anchorOf? : Char → Option Anchor
  | 'A' => some .textStart
  | 'z' => some .textEnd
  | 'B' => some (.word .noBoundary)
  | '<' => some (.word .start)
  | '>' => some (.word .stop)
  | _ => none

/-- The classes that letters stand for, capitals for what is not in them. -/
def shorthandOf? : Char → Option (Shorthand × Bool)
  | 'd' => some (.digit, false)
  | 's' => some (.space, false)
  | 'w' => some (.word, false)
  | 'D' => some (.digit, true)
  | 'S' => some (.space, true)
  | 'W' => some (.word, true)
  | _ => none

/-- Reads an escape, from the backslash on. -/
def escape : Read Tree := do
  let start ← place
  next
  match ← peek with
  | none => fail (← since start) .unfinishedEscape
  | some 'x' => return .literal (← codePoint start 2)
  | some 'u' => return .literal (← codePoint start 4)
  | some 'U' => return .literal (← codePoint start 8)
  | some 'p' | some 'P' => property start
  | some c =>
    next
    let stretch ← since start
    if c.isDigit then fail stretch .backreference
    else if standsForItself c then return .literal { char := c, stretch }
    else if c = 'b' then edge start
    else
      match controlOf? c, anchorOf? c, shorthandOf? c with
      | some char, _, _ => return .literal { char, stretch }
      | _, some a, _ => return .anchor stretch a
      | _, _, some (s, negated) => return .shorthand stretch s negated
      | none, none, none => fail stretch .unrecognizedEscape

end Read

end Pattern

end FrameGraph
