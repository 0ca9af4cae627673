import FrameGraph.Pattern.Escape

/-!
# Heads of groups

What stands behind an opening parenthesis: a name, flags for the group, or flags for what follows.
-/

namespace FrameGraph

namespace Pattern

/-- The beginning of a group, or flags alone. -/
inductive Head
  | flags (stretch : Stretch) (flags : FlagSettings)
  /-- A group that `opening` begins. What it matches is set apart if `isKept`. -/
  | group (opening : Stretch) (isKept : Bool) (flags : FlagSettings)

/-- A flag as it is written, or the dash before flags that are turned off. -/
inductive FlagItem
  | negation
  | flag (f : Flag)
  deriving DecidableEq, Repr

def FlagItem.settings : (value : Bool) → List FlagItem → FlagSettings
  | _, [] => []
  | _, negation :: items => settings false items
  | value, flag f :: items => (f, value) :: settings value items

namespace Read

/-- Takes flags up to a colon or a parenthesis, the last one first. -/
def flagItems : (room : Nat) → List (FlagItem × Stretch) → Read (List (FlagItem × Stretch))
  | 0, items => return items
  | room + 1, items => do
    match ← peek with
    | none => fail (← here) .unfinishedFlags
    | some c =>
      if c = ':' || c = ')' then return items
      let stretch ← mark
      let item ← if c = '-' then pure FlagItem.negation
        else
          match Flag.ofChar? c with
          | some f => pure (.flag f)
          | none => fail stretch .unrecognizedFlag
      match items.find? (·.1 == item) with
      | some (_, earlier) =>
        let cause := if item = .negation then Cause.repeatedNegation else .duplicateFlag
        throw ⟨cause, stretch, some earlier⟩
      | none =>
        next
        flagItems room ((item, stretch) :: items)

/-- Reads flags up to a colon or a parenthesis. -/
def flags : Read FlagSettings := do
  let items ← flagItems ((← get).rest.length + 1) []
  match items with
  | (.negation, stretch) :: _ => fail stretch .danglingNegation
  | _ => return FlagItem.settings true (items.reverse.map (·.1))

/-- Whether a character may stand in the name of a group. -/
def isNameChar (isFirst : Bool) (c : Char) : Bool :=
  c = '_' || isLetter c || (!isFirst && (isNumeral c || c = '.' || c = '[' || c = ']'))

def nameUpTo : (room : Nat) → (isFirst : Bool) → Read (List Char)
  | 0, _ => return []
  | room + 1, isFirst => do
    match ← peek with
    | none => return []
    | some '>' => return []
    | some c =>
      if !isNameChar isFirst c then fail (← mark) .invalidName
      next
      return c :: (← nameUpTo room false)

/-- Reads the name of a group up to the angle bracket behind it. No two groups have one name. -/
def groupName : Read Unit := do
  let first ← place
  let name ← nameUpTo (← get).rest.length true
  let stretch ← since first
  if (← peek).isNone then fail (← here) .unfinishedName
  next
  if name.isEmpty then fail (.point first) .emptyName
  let name := String.ofList name
  match (← get).names.lookup name with
  | some earlier => throw ⟨.duplicateName, stretch, some earlier⟩
  | none => modify fun c => { c with names := (name, stretch) :: c.names }

/-- Whether what follows looks ahead or behind. The beginning is taken. -/
def lookaround : Read Bool := do
  if ← word "?=" then return true
  else if ← word "?!" then return true
  else if ← word "?<=" then return true
  else word "?<!"

/-- Reads the head of a group, from the parenthesis on. -/
def head : Read Head := do
  let opening ← mark
  advance
  if ← lookaround then fail (← since opening.first) .lookaround
  let inner ← here
  if (← word "?P<") || (← word "?<") then
    groupName
    return .group opening true []
  else if ← word "?" then
    if (← peek).isNone then fail opening .unclosedGroup
    let settings ← flags
    let isAlone := (← peek) = some ')'
    next
    if !isAlone then return .group opening false settings
    else if settings.isEmpty then fail inner .nothingToRepeat
    else return .flags (← since opening.first) settings
  else return .group opening true []

end Read

end Pattern

end FrameGraph
