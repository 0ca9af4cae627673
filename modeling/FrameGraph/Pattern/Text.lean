import FrameGraph.Pattern.Class
import FrameGraph.Pattern.Group

/-!
# Patterns as text

Reads what a written pattern consists of, and refuses what nests too deep.
-/

namespace FrameGraph

namespace Pattern

namespace Read

/-- Reads a number. Space may stand around it. The fault of what is none is kept: it counts only
where nothing before it is at fault. -/
def decimal : Read (Except Fault Nat) := do
  let _ ← takeAll isWhiteSpace next
  let first ← place
  let digits ← takeAll Char.isDigit advance
  let stretch ← since first
  let _ ← takeAll isWhiteSpace advance
  let value := digits.foldl (fun n c => 10 * n + (c.toNat - '0'.toNat)) 0
  if digits.isEmpty then return .error ⟨.emptyCount, stretch, none⟩
  else if UInt32.size ≤ value then return .error ⟨.invalidDecimal, stretch, none⟩
  else return .ok value

/-- The part that a repetition stands behind, and the parts before it. -/
def repeatable (parts : List Tree) : Read (Tree × List Tree) := do
  match parts with
  | [] => fail (← here) .nothingToRepeat
  | .empty _ :: _ => fail (← here) .nothingToRepeat
  | .setFlags .. :: _ => fail (← here) .nothingToRepeat
  | t :: parts => return (t, parts)

/-- Reads a repetition of one character and the mark of a lazy one. -/
def repetition (least : Nat) (most : Option Nat) (parts : List Tree) : Read (List Tree) := do
  let (t, parts) ← repeatable parts
  next
  let _ ← word "?"
  return .times (← since t.stretch.first) t least most :: parts

/-- Reads the bounds of a repetition up to the closing brace. `opening` is the place of the opening
one. -/
def bounds (opening : TextPlace) : Read (Nat × Option Nat) := do
  let orUnclosed : Read Unit := do
    if (← peek).isNone then fail (← since opening) .unclosedCount
  let least ← decimal
  orUnclosed
  if (← peek) = some ',' then
    advance
    orUnclosed
    if (← peek) = some '}' then return (← least, none)
    else
      let least ← least
      let most ← decimal
      return (least, some (← most))
  else
    let count ← least
    return (count, some count)

/-- Reads a repetition with bounds in braces. -/
def countedRepetition (parts : List Tree) : Read (List Tree) := do
  let (t, parts) ← repeatable parts
  let opening ← place
  advance
  if (← peek).isNone then fail (← since opening) .unclosedCount
  let (least, most) ← bounds opening
  if (← peek) ≠ some '}' then fail (← since opening) .unclosedCount
  advance
  let _ ← word "?"
  if most.any (· < least) then fail (← since opening) .reversedCount
  return .times (← since t.stretch.first) t least most :: parts

/-- Reads a part that begins with a character of no other meaning. -/
def simplePart (c : Char) : Read Tree := do
  if c = '\\' then escape
  else
    let stretch ← mark
    next
    return match c with
      | '.' => .dot stretch
      | '^' => .anchor stretch .lineStart
      | '$' => .anchor stretch .lineEnd
      | char => .literal { char, stretch }

/-- Turns the skipping of space on or off, where flags say so. -/
def setSpaced (flags : FlagSettings) : Read Unit :=
  modify fun c => { c with spaced := (flags.lookup .spaced).getD c.spaced }

mutual

/-- Reads the parts up to a bar, a closing parenthesis or the end. `parts` are those before, the
last one first. `room` bounds how deep groups nest and how long they are. -/
def sequence : (room : Nat) → (start : TextPlace) → (parts : List Tree) → Read Tree
  | 0, _, _ => do fail (← here) .unclosedGroup
  | room + 1, start, parts => do
    skip
    match ← peek with
    | none | some '|' | some ')' => return .ofParts (← since start) parts.reverse
    | some '(' =>
      match ← head with
      | .flags stretch flags =>
        setSpaced flags
        sequence room start (.setFlags stretch flags :: parts)
      | .group opening isKept flags =>
        let outer := (← get).spaced
        setSpaced flags
        let t ← alternatives room (← place) []
        if (← peek).isNone then fail opening .unclosedGroup
        modify fun c => { c with spaced := outer }
        next
        sequence room start (.group (← since opening.first) isKept flags t :: parts)
    | some '[' =>
      let (stretch, negated, inner) ← bracketed room
      sequence room start (.brackets stretch negated inner :: parts)
    | some '?' => sequence room start (← repetition 0 (some 1) parts)
    | some '*' => sequence room start (← repetition 0 none parts)
    | some '+' => sequence room start (← repetition 1 none parts)
    | some '{' => sequence room start (← countedRepetition parts)
    | some c => sequence room start ((← simplePart c) :: parts)

/-- Reads alternatives up to a closing parenthesis or the end. `earlier` are those before, the last
one first. -/
def alternatives : (room : Nat) → (start : TextPlace) → (earlier : List Tree) → Read Tree
  | 0, _, _ => do fail (← here) .unclosedGroup
  | room + 1, start, earlier => do
    let t ← sequence room (← place) []
    if (← peek) = some '|' then
      next
      alternatives room start (t :: earlier)
    else
      match earlier with
      | [] => return t
      | _ => return .alternatives (← since start) (t :: earlier).reverse

end

/-- Reads a whole pattern. Every character takes at most three steps from one reader to another. -/
def all : Read Tree := do
  let t ← alternatives (4 * (← get).rest.length + 4) {} []
  if (← peek).isSome then fail (← mark) .unopenedGroup
  return t

end Read

/-! ## Depth -/

/-- A fault if something at a depth is beyond the limit. -/
def checkLevel (limit depth : Nat) (s : Stretch) : Except Fault Unit :=
  if limit ≤ depth then .error ⟨.tooDeep limit, s, none⟩ else .ok ()

namespace ClassTree

mutual

def checkDepth (limit : Nat) : (depth : Nat) → ClassTree → Except Fault Unit
  | depth, brackets s _ inner => do
    checkLevel limit depth s
    checkDepth limit (depth + 1) inner
  | depth, union s items => do
    checkLevel limit depth s
    checkDepths limit (depth + 1) items
  | depth, combined s _ left right => do
    checkLevel limit depth s
    checkDepth limit (depth + 1) left
    checkDepth limit (depth + 1) right
  | _, _ => .ok ()

def checkDepths (limit : Nat) : (depth : Nat) → List ClassTree → Except Fault Unit
  | _, [] => .ok ()
  | depth, t :: ts => do
    checkDepth limit depth t
    checkDepths limit depth ts

end

end ClassTree

namespace Tree

mutual

/-- Checks that nothing nests deeper than a limit. The outermost fault counts. -/
def checkDepth (limit : Nat) : (depth : Nat) → Tree → Except Fault Unit
  | depth, brackets s _ inner => do
    checkLevel limit depth s
    inner.checkDepth limit (depth + 1)
  | depth, times s t _ _ => do
    checkLevel limit depth s
    checkDepth limit (depth + 1) t
  | depth, group s _ _ t => do
    checkLevel limit depth s
    checkDepth limit (depth + 1) t
  | depth, alternatives s ts => do
    checkLevel limit depth s
    checkDepths limit (depth + 1) ts
  | depth, sequence s ts => do
    checkLevel limit depth s
    checkDepths limit (depth + 1) ts
  | _, _ => .ok ()

def checkDepths (limit : Nat) : (depth : Nat) → List Tree → Except Fault Unit
  | _, [] => .ok ()
  | depth, t :: ts => do
    checkDepth limit depth t
    checkDepths limit depth ts

end

/-- How deep the parts of a pattern may nest. -/
def depthLimit : Nat := 250

/-- Reads a written pattern. -/
def ofText (s : String) : Except Fault Tree := do
  let t ← Read.all.run' { rest := s.toList }
  t.checkDepth depthLimit 0
  return t

end Tree

end Pattern

end FrameGraph
