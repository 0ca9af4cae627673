import FrameGraph.Ron.Space

/-!
# Names

Names of records, fields and values. A raw name, after `r#`, may hold a few marks as well.
-/

namespace FrameGraph

namespace Ron

def startsName (c : Char) : Bool := c.isAlpha || c = '_'

def inName (c : Char) : Bool := c.isAlphanum || c = '_'

def inRawName (c : Char) : Bool := inName c || c = '.' || c = '+' || c = '-'

/-- Whether a name goes on at the front of a text. -/
def nameGoesOn : List Char → Bool
  | [] => false
  | c :: _ => inName c

/-- Takes the longest run of characters of a class. -/
def run (p : Char → Bool) (cs : List Char) : String × List Char :=
  (String.ofList (cs.takeWhile p), cs.dropWhile p)

/-- Reads a name. One that begins with `r` must not be the beginning of a raw string, and a mark
right after any other name is taken for a raw name without its sign. -/
def name : Reader String := fun cs =>
  match cs with
  | ['r'] => stop [] .endOfText
  | 'r' :: '"' :: _ => stop cs (.expected "a name")
  | 'r' :: '#' :: rest =>
    match rest with
    | c :: _ => if inRawName c then .ok (run inRawName rest) else stop cs (.expected "a name")
    | [] => stop cs (.expected "a name")
  | 'r' :: _ => .ok (run inName cs)
  | c :: _ =>
    if !startsName c then stop cs (.expected "a name")
    else if cs.takeWhile inRawName = cs.takeWhile inName then .ok (run inName cs)
    else stop cs (.expected "a raw name")
  | [] => stop [] .endOfText

/-- What follows a word that is a whole name at the front of a text. -/
def afterName? (word : String) (cs : List Char) : Option (List Char) :=
  (afterWord? word cs).filter (!nameGoesOn ·)

/-- Reads one of the values of a list, by its name. -/
def oneOf {α : Type} (what : String) (all : List α) (nameOf : α → String) : Reader α :=
    fun cs => do
  let (found, rest) ← name cs
  match all.find? (nameOf · == found) with
  | some a => return (a, rest)
  | none => stop cs (.unknown what found)

/-- Reads a truth value. -/
def truth : Reader Bool := fun cs =>
  match afterWord? "true" cs with
  | some rest => .ok (true, rest)
  | none =>
    match afterWord? "false" cs with
    | some rest => .ok (false, rest)
    | none => stop cs (.expected "true or false")

/-- Reads a value that may be absent: `None`, or a value in `Some( )`. Where `bare` values are
allowed, `Some` and its brackets may be left out. -/
def optional {α : Type} (bare : Bool) (value : Reader α) : Reader (Option α) := fun cs => do
  match afterWord? "None" cs with
  | some rest => return (none, rest)
  | none =>
    let inside : Option (List Char) ← match afterWord? "Some" cs with
      | none => pure none
      | some rest => some <$> skipSpace rest
    match inside with
    | some ('(' :: rest) =>
      let (v, rest) ← value (← skipSpace rest)
      let (_, rest) ← comma rest
      return (some v, ← expect ')' rest)
    | _ =>
      if bare then
        let (v, rest) ← value (inside.getD cs)
        return (some v, rest)
      else stop cs (.expected "None or Some")

end Ron

end FrameGraph
