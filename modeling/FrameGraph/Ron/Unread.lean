import FrameGraph.Ron.Number

/-!
# Values that are passed over

The value of a field that nobody asks for is not kept, but it has to be a value: a name, a number,
a text, or one of the four brackets with values in it. How deep brackets may stand in each other
is limited: each counts twice, `Some` once.
-/

namespace FrameGraph

namespace Ron

/-- Passes over one thing at the front of a text. -/
abbrev Skipper := List Char → Except Fault (List Char)

/-- A reader whose value is not kept. -/
def dropping {α : Type} (r : Reader α) : Skipper := fun cs => do return (← r cs).2

/-- Nothing more may be nested here. -/
def noRoom : Skipper := fun cs => stop cs .tooDeep

/-- Passes over values with commas between them, up to a closing character. -/
def skipItems (close : Char) (item : Skipper) : Skipper :=
  dropping (items close (fun _ cs => do return ((), ← item cs)) ())

/-- Passes over a key and a value with a colon between them. -/
def skipPair (key value : Skipper) : Skipper := fun cs => do
  let cs ← expect ':' (← skipSpace (← key cs))
  value (← skipSpace cs)

/-- Whether round brackets, of which the first is taken, hold fields: they begin with a name and a
colon. -/
def holdsFields (cs : List Char) : Except Fault Bool := do
  match name (← skipSpace cs) with
  | .error _ => return false
  | .ok (_, rest) =>
    match ← skipSpace rest with
    | [] => stop [] .endOfText
    | c :: _ => return c = ':'

/-- Passes over what stands in brackets, of which the first is taken. The keys of a map are values
of any kind, those of a record are names. -/
def skipBracket (value : Skipper) (bracket : Char) : Skipper := fun cs => do
  match bracket with
  | '[' => skipItems ']' value cs
  | '\x7b' => skipItems '\x7d' (skipPair value value) cs
  | _ => skipItems ')' (if ← holdsFields cs then skipPair (dropping name) value else value) cs

/-- Passes over a value in `Some( )`, of which the name is taken. -/
def skipSome (bare : Bool) (value : Skipper) : Skipper := fun cs => do
  match ← skipSpace cs with
  | '(' :: cs =>
    let (_, cs) ← comma (← value (← skipSpace cs))
    expect ')' cs
  | cs => if bare then value cs else stop cs (.expected "'('")

/-- The names that are values by themselves, whatever follows. -/
def wholeNames : List String := ["true", "false", "None", "inf", "-inf", "NaN"]

/-- Passes over a value. `bracket` passes over what is in brackets and `within` over what is in
`Some`. -/
def skipShape (bare : Bool) (within : Skipper) (bracket : Char → Skipper) : Skipper :=
    fun cs => do
  if let some rest := wholeNames.findSome? (afterName? · cs) then return rest
  if let some rest := afterName? "Some" cs then return ← skipSome bare within rest
  if let some rest := afterWord? "()" cs then return rest
  if let .ok (_, rest) := name cs then
    match ← skipSpace rest with
    | '(' :: rest => return ← bracket '(' rest
    | rest => return rest
  match cs with
  | [] => stop [] .endOfText
  | c :: rest =>
    if c = '(' || c = '[' || c = '\x7b' then bracket c rest
    else if c.isDigit || c = '+' || c = '-' then skipNumber cs
    else if c = '.' then skipFraction cs
    else if c = '"' || c = 'r' then dropping text cs
    else if c = '\'' then dropping character cs
    else stop cs (.expected "a value")

/-- Passes over a value with so much room for nesting. -/
def skipValue (bare : Bool) : (depth : Nat) → Skipper
  | 0 => skipShape bare noRoom fun _ => noRoom
  | 1 => skipShape bare (skipValue bare 0) (skipBracket noRoom)
  | depth + 2 => skipShape bare (skipValue bare (depth + 1)) (skipBracket (skipValue bare depth))

end Ron

end FrameGraph
