import FrameGraph.Packing

/-!
# Arguments

What a command line asks for. Options have long names, take a value or none, and may each be given
once, in any order. A value follows its option after `=` or as the next argument; only the first
of these may begin with a dash.
-/

namespace FrameGraph

namespace CommandLine

/-- What a command line asks of a run. -/
structure Arguments where
  /-- The file of a description; the deferred lighting pipeline if there is none. -/
  graph : Option String := none
  /-- The file of settings. -/
  config : Option String := none
  strategy : Option Strategy := none
  /-- Short for the naive strategy. -/
  naive : Bool := false
  verbose : Bool := false
  width : Option UInt32 := none
  height : Option UInt32 := none
  dumpDir : Option String := none
  strict : Bool := false
  /-- How many frames run, one if nothing is said. -/
  frames : Option Nat := none
  /-- The file to write the deferred lighting pipeline to, in the place of a run. -/
  writeDefault : Option String := none
  deriving DecidableEq, Repr

/-- What a command line asks for. -/
inductive Request
  | help
  | run (arguments : Arguments)
  deriving DecidableEq, Repr

/-- Why a command line is refused. -/
inductive ArgumentError
  | unexpected (argument : String)
  | repeated (option : String)
  | withoutValue (option : String)
  | needlessValue (option : String)
  | badValue (option value : String)
  | conflict (option other : String)
  | lonely (option other : String)
  deriving DecidableEq, Repr

namespace ArgumentError

def message : ArgumentError → String
  | unexpected argument => s!"unexpected argument '{argument}'"
  | repeated option => s!"'--{option}' is given more than once"
  | withoutValue option => s!"'--{option}' needs a value"
  | needlessValue option => s!"'--{option}' takes no value"
  | badValue option value => s!"'{value}' is no value for '--{option}'"
  | conflict option other => s!"'--{option}' cannot be used with '--{other}'"
  | lonely option other => s!"'--{option}' needs '--{other}'"

end ArgumentError

/-! ## Values -/

/-- The number that digits make, if they are digits and there is one at least. -/
def digits? (cs : List Char) : Option Nat :=
  if cs.isEmpty ∨ !cs.all Char.isDigit then none
  else some (cs.foldl (fun n c => n * 10 + (c.toNat - '0'.toNat)) 0)

/-- Reads a number below a bound. It may have a plus sign. -/
def natural? (bound : Nat) (s : String) : Option Nat :=
  let digits := match s.toList with
    | '+' :: cs => cs
    | cs => cs
  (digits? digits).filter (· < bound)

/-- Reads the length of a side. Zero may have a minus sign. -/
def side? (s : String) : Option UInt32 :=
  let n := match s.toList with
    | '-' :: cs => (digits? cs).filter (· = 0)
    | _ => natural? UInt32.size s
  n.map UInt32.ofNat

/-- Reads the name of a file or directory. -/
def path? (s : String) : Option String := if s.isEmpty then none else some s

def strategy? (s : String) : Option Strategy :=
  if s = "naive" then some .naive else if s = "optimized" then some .optimized else none

/-! ## Options -/

/-- An option without a value. -/
inductive Switch
  | naive
  | verbose
  | strict
  deriving DecidableEq, Repr

/-- An option with a value. -/
inductive Key
  | graph
  | config
  | strategy
  | width
  | height
  | dumpDir
  | frames
  | writeDefault
  deriving DecidableEq, Repr

namespace Switch

def all : List Switch := [naive, verbose, strict]

def name : Switch → String
  | naive => "naive"
  | verbose => "verbose"
  | strict => "strict"

def isOn (a : Arguments) : Switch → Bool
  | naive => a.naive
  | verbose => a.verbose
  | strict => a.strict

def turnOn (a : Arguments) : Switch → Arguments
  | naive => { a with naive := true }
  | verbose => { a with verbose := true }
  | strict => { a with strict := true }

/-- Turns on a switch that is off. -/
def apply (s : Switch) (a : Arguments) : Except ArgumentError Arguments :=
  if s.isOn a then .error (.repeated s.name) else .ok (s.turnOn a)

end Switch

namespace Key

def all : List Key := [graph, config, strategy, width, height, dumpDir, frames, writeDefault]

def name : Key → String
  | graph => "graph"
  | config => "config"
  | strategy => "strategy"
  | width => "width"
  | height => "height"
  | dumpDir => "dump-dir"
  | frames => "frames"
  | writeDefault => "write-default"

def isGiven (a : Arguments) : Key → Bool
  | graph => a.graph.isSome
  | config => a.config.isSome
  | strategy => a.strategy.isSome
  | width => a.width.isSome
  | height => a.height.isSome
  | dumpDir => a.dumpDir.isSome
  | frames => a.frames.isSome
  | writeDefault => a.writeDefault.isSome

/-- The arguments with a value put in, if it is one for the option. -/
def put? (a : Arguments) (value : String) : Key → Option Arguments
  | graph => (path? value).map fun v => { a with graph := some v }
  | config => (path? value).map fun v => { a with config := some v }
  | strategy => (strategy? value).map fun v => { a with strategy := some v }
  | width => (side? value).map fun v => { a with width := some v }
  | height => (side? value).map fun v => { a with height := some v }
  | dumpDir => (path? value).map fun v => { a with dumpDir := some v }
  | frames => (natural? UInt64.size value).map fun v => { a with frames := some v }
  | writeDefault => (path? value).map fun v => { a with writeDefault := some v }

/-- Gives a value to an option that has none. -/
def apply (k : Key) (value : String) (a : Arguments) : Except ArgumentError Arguments :=
  if k.isGiven a then .error (.repeated k.name)
  else
    match k.put? a value with
    | some a => .ok a
    | none => .error (.badValue k.name value)

end Key

/-! ## Reading -/

/-- What one argument is. -/
inductive Word
  | switch (s : Switch)
  | key (k : Key) (value : Option String)
  /-- One-letter options. -/
  | letters (cs : List Char)
  | help
  /-- The end of the options. -/
  | stop
  | needless (name : String)
  | other
  deriving DecidableEq, Repr

namespace Word

/-- A long option, with the value after its `=` if it has one. -/
def long (name : String) (value : Option String) : Word :=
  if name = "help" then if value.isSome then needless name else help
  else
    match Switch.all.find? (·.name == name) with
    | some s => if value.isSome then needless name else switch s
    | none =>
      match Key.all.find? (·.name == name) with
      | some k => key k value
      | none => other

def ofText (s : String) : Word :=
  match s.toList with
  | ['-', '-'] => stop
  | '-' :: '-' :: cs =>
    let name := String.ofList (cs.takeWhile (· ≠ '='))
    match cs.dropWhile (· ≠ '=') with
    | [] => long name none
    | _ :: value => long name (some (String.ofList value))
  | '-' :: c :: cs => letters (c :: cs)
  | _ => other

/-- Whether an argument can be the value of the option before it. -/
def isValue (s : String) : Bool := s = "-" || !s.startsWith "-"

end Word

namespace Arguments

/-- Checks the options that bear on each other. -/
def check (a : Arguments) : Except ArgumentError Request :=
  if a.naive ∧ a.strategy.isSome then .error (.conflict "naive" "strategy")
  else if a.width.isSome ∧ a.height.isNone then .error (.lonely "width" "height")
  else if a.height.isSome ∧ a.width.isNone then .error (.lonely "height" "width")
  else .ok (.run a)

/-- What one-letter options make of the arguments, or nothing if they ask for help. -/
def letters (a : Arguments) (argument : String) :
    List Char → Except ArgumentError (Option Arguments)
  | [] => .ok (some a)
  | 'v' :: cs =>
    match Switch.verbose.apply a with
    | .ok a => letters a argument cs
    | .error err => .error err
  | 'h' :: _ => .ok none
  | _ => .error (.unexpected argument)

/-- Reads arguments from left to right. The first fault or plea for help decides. -/
def readFrom (a : Arguments) : List String → Except ArgumentError Request
  | [] => a.check
  | argument :: rest =>
    match Word.ofText argument with
    | .switch s =>
      match s.apply a with
      | .ok a => readFrom a rest
      | .error err => .error err
    | .key k (some value) =>
      match k.apply value a with
      | .ok a => readFrom a rest
      | .error err => .error err
    | .key k none =>
      match rest with
      | [] => .error (.withoutValue k.name)
      | value :: rest =>
        if Word.isValue value then
          match k.apply value a with
          | .ok a => readFrom a rest
          | .error err => .error err
        else .error (.withoutValue k.name)
    | .letters cs =>
      match a.letters argument cs with
      | .ok (some a) => readFrom a rest
      | .ok none => .ok .help
      | .error err => .error err
    | .help => .ok .help
    | .stop =>
      match rest with
      | [] => a.check
      | other :: _ => .error (.unexpected other)
    | .needless name => .error (.needlessValue name)
    | .other => .error (.unexpected argument)

end Arguments

/-- Reads a command line. -/
def Request.ofList (arguments : List String) : Except ArgumentError Request :=
  Arguments.readFrom {} arguments

end CommandLine

end FrameGraph
