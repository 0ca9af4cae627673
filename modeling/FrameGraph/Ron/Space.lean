import FrameGraph.Ron.Reader

/-!
# Space

What may stand between any two tokens: blanks, comments to the end of a line, and bracketed
comments, which nest.
-/

namespace FrameGraph

namespace Ron

def isBlank (c : Char) : Bool := c = ' ' || c = '\n' || c = '\t' || c = '\r'

/-- Where in the space a text stands. -/
inductive Spot
  | between
  | line
  /-- In a bracketed comment, with `outer` open ones around it. -/
  | bracketed (outer : Nat)

def skipFrom : Spot → List Char → Except Fault (List Char)
  | .between, '/' :: '/' :: cs => skipFrom .line cs
  | .between, '/' :: '*' :: cs => skipFrom (.bracketed 0) cs
  | .between, ['/'] => stop [] .endOfText
  | .between, '/' :: cs => stop cs (.expected "a comment")
  | .between, c :: cs => if isBlank c then skipFrom .between cs else .ok (c :: cs)
  | .line, c :: cs => skipFrom (if c = '\n' then .between else .line) cs
  | .bracketed outer, '/' :: '*' :: cs => skipFrom (.bracketed (outer + 1)) cs
  | .bracketed 0, '*' :: '/' :: cs => skipFrom .between cs
  | .bracketed (outer + 1), '*' :: '/' :: cs => skipFrom (.bracketed outer) cs
  | .bracketed outer, _ :: cs => skipFrom (.bracketed outer) cs
  | .bracketed _, [] => stop [] (.expected "the end of a comment")
  | _, [] => .ok []

/-- Skips the space at the front of a text. -/
def skipSpace (cs : List Char) : Except Fault (List Char) := skipFrom .between cs

/-- Skips a comma and the space around it, and tells whether there was a comma. -/
def comma : Reader Bool := fun cs => do
  match ← skipSpace cs with
  | ',' :: cs => return (true, ← skipSpace cs)
  | cs => return (false, cs)

/-! ## Lists with commas -/

/-- Reads items with commas between them, and perhaps one after the last, up to a closing
character, which is left. Every item changes a state. `room` bounds the number of items. -/
def itemsUpTo {σ : Type} (close : Char) (item : σ → Reader σ) : (room : Nat) → σ → Reader σ
  | 0, _, cs => stop cs (.expected s!"'{close}'")
  | room + 1, state, cs => do
    match ← skipSpace cs with
    | [] => stop [] .endOfText
    | c :: cs =>
      if c = close then return (state, c :: cs)
      else
        let (state, cs) ← item state (c :: cs)
        let (more, cs) ← comma cs
        if more then itemsUpTo close item room state cs
        else
          match cs with
          | [] => stop [] .endOfText
          | d :: ds =>
            if d = close then return (state, d :: ds) else stop (d :: ds) (.expected "','")

/-- Reads items with commas between them, and the closing character. There is room for all: each
item but the last has a comma to itself. -/
def items {σ : Type} (close : Char) (item : σ → Reader σ) (state : σ) : Reader σ :=
    fun cs => do
  let (state, cs) ← itemsUpTo close item (cs.length + 1) state cs
  return (state, ← expect close cs)

/-- Reads a bracketed list. -/
def listOf {α : Type} (item : Reader α) : Reader (List α) := fun cs => do
  let cs ← expect '[' cs
  let step (found : List α) : Reader (List α) := fun cs => do
    let (x, cs) ← item cs
    return (x :: found, cs)
  let (found, cs) ← items ']' step [] cs
  return (found.reverse, cs)

end Ron

end FrameGraph
