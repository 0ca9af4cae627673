import FrameGraph.Pattern.Basic
import FrameGraph.Text.Place

/-!
# Patterns as they are written

The parts of a written pattern, each with the stretch of text that it takes. What they mean depends
on the flags that are set where they stand.
-/

namespace FrameGraph

namespace Pattern

/-- What can be turned on and off inside a pattern. -/
inductive Flag
  | anyCase
  | multiLine
  | dotAll
  | swapGreed
  | allScripts
  | returns
  /-- White space between parts means nothing, and comments begin with `#`. -/
  | spaced
  deriving DecidableEq, Repr

def Flag.ofChar? : Char → Option Flag
  | 'i' => some anyCase
  | 'm' => some multiLine
  | 's' => some dotAll
  | 'U' => some swapGreed
  | 'u' => some allScripts
  | 'R' => some returns
  | 'x' => some spaced
  | _ => none

/-- Flags with what they are set to. -/
abbrev FlagSettings := List (Flag × Bool)

/-- A character that stands for itself or is written with an escape. -/
structure Literal where
  char : Char
  /-- It is written as a byte, with two hexadecimal digits. -/
  isByte : Bool := false
  stretch : Stretch
  deriving DecidableEq, Repr

/-- The classes of ASCII characters that have names. -/
inductive AsciiClass
  | alnum
  | alpha
  | ascii
  | blank
  | cntrl
  | digit
  | graph
  | lower
  | print
  | punct
  | space
  | upper
  | word
  | xdigit
  deriving DecidableEq, Repr

namespace AsciiClass

def all : List AsciiClass :=
  [alnum, alpha, ascii, blank, cntrl, digit, graph, lower, print, punct, space, upper, word, xdigit]

def name : AsciiClass → String
  | alnum => "alnum"
  | alpha => "alpha"
  | ascii => "ascii"
  | blank => "blank"
  | cntrl => "cntrl"
  | digit => "digit"
  | graph => "graph"
  | lower => "lower"
  | print => "print"
  | punct => "punct"
  | space => "space"
  | upper => "upper"
  | word => "word"
  | xdigit => "xdigit"

def set (a : AsciiClass) : CharSet :=
  CharSet.unionAll <| match a with
    | alnum => [.within '0' '9', .within 'A' 'Z', .within 'a' 'z']
    | alpha => [.within 'A' 'Z', .within 'a' 'z']
    | ascii => [.within '\x00' '\x7f']
    | blank => [.single '\t', .single ' ']
    | cntrl => [.within '\x00' '\x1f', .single '\x7f']
    | digit => [.within '0' '9']
    | graph => [.within '!' '~']
    | lower => [.within 'a' 'z']
    | print => [.within ' ' '~']
    | punct => [.within '!' '/', .within ':' '@', .within '[' '\x60', .within '\x7b' '~']
    | space => [.within '\t' '\r', .single ' ']
    | upper => [.within 'A' 'Z']
    | word => [.within '0' '9', .within 'A' 'Z', .single '_', .within 'a' 'z']
    | xdigit => [.within '0' '9', .within 'A' 'F', .within 'a' 'f']

end AsciiClass

/-- The classes that one letter after a backslash stands for. -/
inductive Shorthand
  | digit
  | space
  | word
  deriving DecidableEq, Repr

def Shorthand.asciiClass : Shorthand → AsciiClass
  | digit => .digit
  | space => .space
  | word => .word

/-- How two classes are put together. -/
inductive ClassOperator
  | inter
  | diff
  | exclusive
  deriving DecidableEq, Repr

/-- What stands in the brackets of a class. -/
inductive ClassTree
  | nothing (stretch : Stretch)
  | literal (l : Literal)
  | range (stretch : Stretch) (first last : Literal)
  | ascii (stretch : Stretch) (name : AsciiClass) (negated : Bool)
  | shorthand (stretch : Stretch) (s : Shorthand) (negated : Bool)
  | property (stretch : Stretch) (name : String)
  | brackets (stretch : Stretch) (negated : Bool) (inner : ClassTree)
  | union (stretch : Stretch) (items : List ClassTree)
  | combined (stretch : Stretch) (operator : ClassOperator) (left right : ClassTree)

namespace ClassTree

def stretch : ClassTree → Stretch
  | literal l => l.stretch
  | nothing s | range s _ _ | ascii s _ _ | shorthand s _ _ | property s _ | brackets s _ _
  | union s _ | combined s _ _ _ => s

mutual

/-- Whether there is anything in the brackets but more brackets and operators. -/
def hasMember : ClassTree → Bool
  | nothing _ => false
  | literal _ | range .. | ascii .. | shorthand .. | property .. => true
  | brackets _ _ inner => inner.hasMember
  | union _ items => anyHasMember items
  | combined _ _ left right => left.hasMember || right.hasMember

def anyHasMember : List ClassTree → Bool
  | [] => false
  | t :: ts => t.hasMember || anyHasMember ts

end

end ClassTree

/-- What is asked of a place. -/
inductive Anchor
  | lineStart
  | lineEnd
  | textStart
  | textEnd
  | word (edge : WordEdge)
  deriving DecidableEq, Repr

inductive Tree
  | empty (stretch : Stretch)
  | setFlags (stretch : Stretch) (flags : FlagSettings)
  | literal (l : Literal)
  | dot (stretch : Stretch)
  | anchor (stretch : Stretch) (a : Anchor)
  | shorthand (stretch : Stretch) (s : Shorthand) (negated : Bool)
  | property (stretch : Stretch) (name : String)
  | brackets (stretch : Stretch) (negated : Bool) (inner : ClassTree)
  | times (stretch : Stretch) (t : Tree) (least : Nat) (most : Option Nat)
  | group (stretch : Stretch) (isKept : Bool) (flags : FlagSettings) (t : Tree)
  | alternatives (stretch : Stretch) (ts : List Tree)
  | sequence (stretch : Stretch) (ts : List Tree)

namespace Tree

def stretch : Tree → Stretch
  | literal l => l.stretch
  | empty s | setFlags s _ | dot s | anchor s _ | shorthand s _ _ | property s _ | brackets s _ _
  | times s _ _ _ | group s _ _ _ | alternatives s _ | sequence s _ => s

/-- Parts one after another. -/
def ofParts (s : Stretch) : List Tree → Tree
  | [] => empty s
  | [t] => t
  | ts => sequence s ts

end Tree

end Pattern

end FrameGraph
