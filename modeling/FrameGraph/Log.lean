/-!
# Log records

What the library reports while it works. A record is a value: who shows it, and whether, is
decided outside.
-/

namespace FrameGraph

/-- How grave a record is, gravest first. -/
inductive Level
  | error
  | warn
  | info
  | debug
  | trace
  deriving DecidableEq, Repr

namespace Level

def all : List Level := [error, warn, info, debug, trace]

def name : Level → String
  | error => "ERROR"
  | warn => "WARN"
  | info => "INFO"
  | debug => "DEBUG"
  | trace => "TRACE"

/-- How many levels are as grave or graver. -/
def rank : Level → Nat
  | error => 1
  | warn => 2
  | info => 3
  | debug => 4
  | trace => 5

end Level

/-- The part of the library that a record comes from. -/
inductive Origin
  | editor
  | packing
  | compiler
  | device
  | pass
  | plan
  | slot
  | command
  deriving DecidableEq, Repr

structure Record where
  level : Level
  origin : Origin
  text : String
  deriving DecidableEq, Repr

namespace Record

/-- The record on one line, or on several with the later ones indented. -/
def indented (r : Record) : String := "\n    ".intercalate (r.text.splitOn "\n")

end Record

end FrameGraph
