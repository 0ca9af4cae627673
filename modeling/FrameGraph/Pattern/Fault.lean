import FrameGraph.Text.Columns
import FrameGraph.Text.Place

/-!
# Faults of patterns

Why a pattern cannot be used, and the text that shows the fault in the pattern: its lines, with
marks below the characters that are at fault.
-/

namespace FrameGraph

namespace Pattern

/-- What is wrong with a pattern at some place. -/
inductive Cause
  | unrecognizedEscape
  | unfinishedEscape
  | emptyHexadecimal
  | notScalar
  | notHexadecimal
  | backreference
  | lookaround
  | notInClass
  | reversedRange
  | rangeOfClass
  | unclosedClass
  | invalidDecimal
  | danglingNegation
  | repeatedNegation
  | duplicateFlag
  | unfinishedFlags
  | unrecognizedFlag
  | duplicateName
  | emptyName
  | invalidName
  | unfinishedName
  | unclosedGroup
  | unopenedGroup
  | tooDeep (limit : Nat)
  | reversedCount
  | emptyCount
  | unclosedCount
  | nothingToRepeat
  | unclosedEdge
  | unrecognizedEdge
  | unfinishedEdge
  | invalidProperty
  /-- A class of all scripts where characters beyond ASCII are out of reach. -/
  | beyondAscii
  /-- A part that would match a piece of a character. -/
  | pieceOfCharacter
  | unknownProperty
  | unknownPropertyValue
  | unknownShorthand
  | unknownCases
  deriving DecidableEq, Repr

namespace Cause

def message : Cause → String
  | unrecognizedEscape => "unrecognized escape sequence"
  | unfinishedEscape => "incomplete escape sequence, reached end of pattern prematurely"
  | emptyHexadecimal => "hexadecimal literal empty"
  | notScalar => "hexadecimal literal is not a Unicode scalar value"
  | notHexadecimal => "invalid hexadecimal digit"
  | backreference => "backreferences are not supported"
  | lookaround => "look-around, including look-ahead and look-behind, is not supported"
  | notInClass => "invalid escape sequence found in character class"
  | reversedRange => "invalid character class range, the start must be <= the end"
  | rangeOfClass => "invalid range boundary, must be a literal"
  | unclosedClass => "unclosed character class"
  | invalidDecimal => "decimal literal invalid"
  | danglingNegation => "dangling flag negation operator"
  | repeatedNegation => "flag negation operator repeated"
  | duplicateFlag => "duplicate flag"
  | unfinishedFlags => "expected flag but got end of regex"
  | unrecognizedFlag => "unrecognized flag"
  | duplicateName => "duplicate capture group name"
  | emptyName => "empty capture group name"
  | invalidName => "invalid capture group character"
  | unfinishedName => "unclosed capture group name"
  | unclosedGroup => "unclosed group"
  | unopenedGroup => "unopened group"
  | tooDeep limit => s!"exceed the maximum number of nested parentheses/brackets ({limit})"
  | reversedCount => "invalid repetition count range, the start must be <= the end"
  | emptyCount => "repetition quantifier expects a valid decimal"
  | unclosedCount => "unclosed counted repetition"
  | nothingToRepeat => "repetition operator missing expression"
  | unclosedEdge =>
    "special word boundary assertion is either unclosed or contains an invalid character"
  | unrecognizedEdge =>
    "unrecognized special word boundary assertion, valid choices are: start, end, start-half or " ++
      "end-half"
  | unfinishedEdge =>
    "found either the beginning of a special word boundary or a bounded repetition on a \\b " ++
      "with an opening brace, but no closing brace"
  | invalidProperty => "invalid Unicode character class"
  | beyondAscii => "Unicode not allowed here"
  | pieceOfCharacter => "pattern can match invalid UTF-8"
  | unknownProperty => "Unicode property not found"
  | unknownPropertyValue => "Unicode property value not found"
  | unknownShorthand =>
    "Unicode-aware Perl class not found (make sure the unicode-perl feature is enabled)"
  | unknownCases =>
    "Unicode-aware case insensitivity matching is not available (make sure the unicode-case " ++
      "feature is enabled)"

end Cause

/-- What is wrong with a pattern, where, and what earlier stretch it is at odds with. -/
structure Fault where
  cause : Cause
  stretch : Stretch
  earlier : Option Stretch := none
  deriving DecidableEq, Repr

namespace Fault

/-- The stretches at fault, in their order. -/
def stretches (f : Fault) : List Stretch :=
  match f.earlier with
  | none => [f.stretch]
  | some s => if s.le f.stretch then [s, f.stretch] else [f.stretch, s]

/-- Marks below the columns of stretches on one line, at least one mark for each. `width` columns
are behind. -/
def marks : (width : Nat) → List Stretch → String
  | _, [] => ""
  | width, s :: ss =>
    let blanks := s.first.column - 1 - width
    let count := max 1 (s.stop.column - s.first.column)
    "".pushn ' ' blanks ++ "".pushn '^' count ++ marks (width + blanks + count) ss

/-- A line of the pattern, and the marks below it if something on it is at fault. -/
def shownLine (margin : Nat → String) (on : List Stretch) (number : Nat) (line : String) :
    List String :=
  let here := on.filter (·.first.line = number)
  let blank := "".pushn ' ' (margin number).length
  (margin number ++ line) :: if here.isEmpty then [] else [blank ++ marks 0 here]

/-- The lines of the pattern with marks. -/
def shown (f : Fault) (margin : Nat → String) (lines : List String) : List String :=
  let on := f.stretches.filter (·.isOnOneLine)
  (lines.zipIdx 1).flatMap fun (line, number) => shownLine margin on number line

/-- What is said of a stretch over several lines. -/
def note (s : Stretch) : String :=
  s!"on line {s.first.line} (column {s.first.column}) through line {s.stop.line} " ++
    s!"(column {s.stop.column - 1})"

/-- The fault as a text, for the pattern that has it. Lines are numbered where there are several,
and what follows the last line break counts as a line. -/
def text (f : Fault) (pattern : String) : String :=
  let lines := linesOf pattern
  let count := lines.length + if pattern.endsWith "\n" then 1 else 0
  let width := (toString count).length
  let body :=
    if count ≤ 1 then f.shown (fun _ => "    ") lines
    else
      let margin (number : Nat) :=
        let digits := toString number
        "".pushn ' ' (width - digits.length) ++ digits ++ ": "
      let divider := "".pushn '~' 79
      let notes := (f.stretches.filter (!·.isOnOneLine)).map note
      [divider] ++ f.shown margin lines ++ [divider] ++ notes
  unlines ("regex parse error:" :: body) ++ "error: " ++ f.cause.message

end Fault

end Pattern

end FrameGraph
