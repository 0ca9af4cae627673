import FrameGraph.Pattern.Escape

/-!
# Classes in brackets

A class holds characters, ranges, named classes and classes in brackets of their own, and may be
put together from several such lists with operators, which bind to the left.
-/

namespace FrameGraph

namespace Pattern

namespace Read

/-- The items of a class up to here, the last one first. -/
structure Items where
  stretch : Stretch
  items : List ClassTree := []

namespace Items

def push (i : Items) (t : ClassTree) : Items :=
  let first := if i.items.isEmpty then t.stretch.first else i.stretch.first
  ⟨⟨first, t.stretch.stop⟩, t :: i.items⟩

def tree (i : Items) : ClassTree :=
  match i.items with
  | [] => .nothing i.stretch
  | [t] => t
  | ts => .union i.stretch ts.reverse

end Items

/-- What stands before an operator, with the operator. -/
abbrev Pending := Option (ClassOperator × ClassTree)

def combine (left : Pending) (right : ClassTree) : ClassTree :=
  match left with
  | none => right
  | some (operator, left) => .combined (left.stretch.upTo right.stretch) operator left right

/-- A class as it opens: the stretch of what opens it, and characters that only there stand for
themselves. -/
structure Opening where
  stretch : Stretch
  negated : Bool
  items : Items

/-- Takes dashes at the beginning of a class, which stand for themselves. -/
def leadingDashes (opening : TextPlace) : (room : Nat) → Items → Read Items
  | 0, items => return items
  | room + 1, items => do
    if (← peek) = some '-' then
      let items := items.push (.literal { char := '-', stretch := ← mark })
      advance
      if (← peek).isNone then fail (.point opening) .unclosedClass
      leadingDashes opening room items
    else return items

/-- Reads what opens a class. A closing bracket stands for itself if nothing is before it. -/
def opening : Read Opening := do
  let start ← place
  let orUnclosed : Read Unit := do
    if (← peek).isNone then fail (← since start) .unclosedClass
  advance
  orUnclosed
  let negated := (← peek) = some '^'
  if negated then
    advance
    orUnclosed
  let items ← leadingDashes start (← get).rest.length { stretch := ← here }
  if items.items.isEmpty && (← peek) = some ']' then
    let items := items.push (.literal { char := ']', stretch := ← mark })
    advance
    orUnclosed
    return ⟨← since start, negated, items⟩
  else return ⟨← since start, negated, items⟩

/-- Reads a class of ASCII characters by its name, as `[:alpha:]`. What is none is left. -/
def asciiClass? : Read (Option ClassTree) := do
  let before ← get
  let back : Read (Option ClassTree) := do
    set before
    return none
  if !(← word "[:") then return none
  let negated ← word "^"
  let name ← takeAll (· ≠ ':') next
  if !(← word ":]") then back
  else
    match AsciiClass.all.find? (·.name == String.ofList name) with
    | none => back
    | some a => return some (.ascii (← since before.place) a negated)

/-- Takes an operator between classes, if one is next. -/
def operator? : Read (Option ClassOperator) := do
  if ← word "&&" then return some .inter
  else if ← word "--" then return some .diff
  else if ← word "~~" then return some .exclusive
  else return none

/-- Reads a character or an escape in a class. -/
def classPart : Read Tree := do
  let stretch ← mark
  match ← peek with
  | some '\\' => escape
  | some char =>
    next
    return .literal { char, stretch }
  | none => return .empty stretch

/-- What an escape is as a member of a class. -/
def asMember : Tree → Read ClassTree
  | .literal l => return .literal l
  | .shorthand stretch s negated => return .shorthand stretch s negated
  | .property stretch name => return .property stretch name
  | t => fail t.stretch .notInClass

/-- What an escape is as an end of a range. -/
def asRangeEnd : Tree → Read Literal
  | .literal l => return l
  | t => fail t.stretch .rangeOfClass

/-- Reads a member of a class or a range. A dash before a closing bracket or another dash is no
range. `unclosed` is the stretch at fault if the class does not go on. -/
def rangeOrMember (unclosed : Stretch) : Read ClassTree := do
  let first ← classPart
  skip
  match ← peek with
  | none => fail unclosed .unclosedClass
  | some '-' =>
    let second := (← get).second?
    if second = some ']' || second = some '-' then asMember first
    else
      advance
      if (← peek).isNone then fail unclosed .unclosedClass
      let last ← classPart
      let stretch := first.stretch.upTo last.stretch
      let first ← asRangeEnd first
      let last ← asRangeEnd last
      if last.char < first.char then fail stretch .reversedRange
      return .range stretch first last
  | some _ => asMember first

mutual

/-- Reads a class from its opening bracket on. `room` bounds how deep classes nest and how long
they are. -/
def bracketed : (room : Nat) → Read (Stretch × Bool × ClassTree)
  | 0 => do fail (← here) .unclosedClass
  | room + 1 => do
    let start ← place
    let o ← opening
    let inner ← members room o.stretch none o.items
    next
    return (← since start, o.negated, inner)

/-- Reads the members of a class up to the bracket that closes it. -/
def members : (room : Nat) → (unclosed : Stretch) → Pending → Items → Read ClassTree
  | 0, unclosed, _, _ => fail unclosed .unclosedClass
  | room + 1, unclosed, left, items => do
    skip
    match ← peek with
    | none => fail unclosed .unclosedClass
    | some ']' => return combine left items.tree
    | some '[' =>
      match ← asciiClass? with
      | some t => members room unclosed left (items.push t)
      | none =>
        let (stretch, negated, inner) ← bracketed room
        members room unclosed left (items.push (.brackets stretch negated inner))
    | some _ =>
      match ← operator? with
      | some operator =>
        members room unclosed (some (operator, combine left items.tree)) { stretch := ← here }
      | none => members room unclosed left (items.push (← rangeOrMember unclosed))

end

end Read

end Pattern

end FrameGraph
