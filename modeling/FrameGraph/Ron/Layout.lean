import FrameGraph.Text.Quoted

/-!
# Layout

How values are written: every item of a record or list on a line of its own with a comma after it,
four blanks further in than its brackets. Brackets with nothing in them stand together.
-/

namespace FrameGraph

namespace Ron

/-- A written value, at a number of indentations. -/
abbrev Layout := Nat → List Char

namespace Layout

def indent (n : Nat) : List Char := List.replicate (4 * n) ' '

/-- Text as it stands. -/
def word (s : String) : Layout := fun _ => s.toList

def quote (s : String) : Layout := fun _ => Quoted.quote .strict s.toList

/-- Items between brackets. -/
def bracket (first last : Char) (items : List Layout) : Layout := fun n =>
  if items.isEmpty then [first, last]
  else
    let line (item : Layout) := indent (n + 1) ++ item (n + 1) ++ [',', '\n']
    first :: '\n' :: items.flatMap line ++ indent n ++ [last]

def list (items : List Layout) : Layout := bracket '[' ']' items

/-- A record, from the names and values of its fields. -/
def fields (fs : List (String × Layout)) : Layout :=
  bracket '(' ')' (fs.map fun (name, value) n => name.toList ++ ':' :: ' ' :: value n)

/-- A value that may be absent. -/
def optional (value : Option Layout) : Layout := fun n =>
  match value with
  | none => "None".toList
  | some v => "Some(".toList ++ v n ++ [')']

end Layout

end Ron

end FrameGraph
