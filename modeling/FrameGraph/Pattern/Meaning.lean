import FrameGraph.Pattern.Size
import FrameGraph.Pattern.Text

/-!
# What written patterns mean

A written part means a pattern under the flags that are set where it stands. Tables of all scripts
are not at hand: with the flag for all scripts, the classes and the cases that need one are
refused, and without it, whatever goes beyond ASCII.
-/

namespace FrameGraph

namespace Pattern

/-- The flags that what follows depends on. -/
structure Modes where
  anyCase : Bool := false
  multiLine : Bool := false
  dotAll : Bool := false
  allScripts : Bool := true
  returns : Bool := false
  deriving DecidableEq, Repr

namespace Modes

def set (m : Modes) : Flag × Bool → Modes
  | (.anyCase, v) => { m with anyCase := v }
  | (.multiLine, v) => { m with multiLine := v }
  | (.dotAll, v) => { m with dotAll := v }
  | (.allScripts, v) => { m with allScripts := v }
  | (.returns, v) => { m with returns := v }
  | (.swapGreed, _) | (.spaced, _) => m

def setAll (m : Modes) (flags : FlagSettings) : Modes := flags.foldl set m

def fault {α : Type} (s : Stretch) (cause : Cause) : Except Fault α := .error ⟨cause, s, none⟩

/-- The set of a character in a class. -/
def member (m : Modes) (l : Literal) : Except Fault Char :=
  if m.allScripts || l.char.toNat < 0x80 then .ok l.char
  else if l.isByte then fault l.stretch .pieceOfCharacter
  else fault l.stretch .beyondAscii

/-- What a character that stands for itself means. -/
def literal (m : Modes) (l : Literal) : Except Fault CharSet :=
  if m.allScripts then
    if m.anyCase then fault l.stretch .unknownCases else .ok (.single l.char)
  else if l.isByte && 0x80 ≤ l.char.toNat then fault l.stretch .pieceOfCharacter
  else if m.anyCase && l.char.isAlpha then .ok (.anyCase (.single l.char))
  else .ok (.single l.char)

/-- Adds the other cases to a class if case does not matter. A class without members has none. -/
def withCases (m : Modes) (s : Stretch) (hasMember : Bool) (set : CharSet) : Except Fault CharSet :=
  if !m.anyCase then .ok set
  else if !m.allScripts then .ok (.anyCase set)
  else if hasMember then fault s .unknownCases
  else .ok set

/-- A class that is negated or not. -/
def close (m : Modes) (s : Stretch) (negated hasMember : Bool) (set : CharSet) :
    Except Fault CharSet := do
  let set ← m.withCases s hasMember set
  if !negated then return set
  else if m.allScripts then return .compl set
  else fault s .pieceOfCharacter

def shorthand (m : Modes) (s : Stretch) (h : Shorthand) (negated : Bool) : Except Fault CharSet :=
  if m.allScripts then fault s .unknownShorthand
  else if negated then fault s .pieceOfCharacter
  else .ok h.asciiClass.set

/-- A name of a property without what does not count in it: capitals, blanks, dashes, low lines,
characters beyond ASCII, and `is` in front. -/
def propertyName (name : String) : String :=
  let cs := name.toList
  let (isStripped, rest) : Bool × List Char := match cs with
    | i :: s :: rest => if i.toLower = 'i' && s.toLower = 's' then (true, rest) else (false, cs)
    | _ => (false, cs)
  let counts (c : Char) : Bool := c ≠ ' ' && c ≠ '-' && c ≠ '_' && c.toNat < 0x80
  let plain := (rest.filter counts).map Char.toLower
  if isStripped && plain = ['c'] then "isc" else String.ofList plain

/-- Refuses a class of a property. Three short names stand for a value and not for a property. -/
def property (m : Modes) (s : Stretch) (name : String) : Except Fault CharSet :=
  if !m.allScripts then fault s .beyondAscii
  else if ["cf", "sc", "lc"].contains (propertyName name) then fault s .unknownPropertyValue
  else fault s .unknownProperty

/-- What a dot means: any character, or any but those that break lines. -/
def dot (m : Modes) (s : Stretch) : Except Fault CharSet :=
  if !m.allScripts then fault s .pieceOfCharacter
  else if m.dotAll then .ok (.compl .nothing)
  else if m.returns then .ok (.compl (.union (.single '\r') (.single '\n')))
  else .ok (.compl (.single '\n'))

def look (m : Modes) : Anchor → Look
  | .lineStart => if m.multiLine then .lineStart m.returns else .textStart
  | .lineEnd => if m.multiLine then .lineEnd m.returns else .textEnd
  | .textStart => .textStart
  | .textEnd => .textEnd
  | .word edge => .word edge m.allScripts

end Modes

def ClassOperator.apply : ClassOperator → CharSet → CharSet → CharSet
  | inter => .inter
  | diff => .diff
  | exclusive => .exclusive

namespace ClassTree

mutual

def meaning (m : Modes) : ClassTree → Except Fault CharSet
  | nothing _ => .ok .nothing
  | literal l => return .single (← m.member l)
  | range _ first last => return .within (← m.member first) (← m.member last)
  | ascii s name negated => m.close s negated true name.set
  | shorthand s h negated => m.shorthand s h negated
  | property s name => m.property s name
  | brackets s negated inner => do m.close s negated inner.hasMember (← inner.meaning m)
  | union _ items => meanings m items
  | combined _ operator left right => do
    let set ← left.meaning m
    let other ← right.meaning m
    let other ← m.withCases right.stretch right.hasMember other
    let set ← m.withCases left.stretch left.hasMember set
    return operator.apply set other

/-- The union of what members mean. -/
def meanings (m : Modes) : List ClassTree → Except Fault CharSet
  | [] => .ok .nothing
  | t :: ts => return .union (← t.meaning m) (← meanings m ts)

end

end ClassTree

namespace Tree

mutual

/-- What a part means, and the flags that are set behind it. -/
def meaning (m : Modes) : Tree → Except Fault (Modes × Pattern)
  | empty _ => .ok (m, .empty)
  | setFlags _ flags => .ok (m.setAll flags, .empty)
  | literal l => return (m, .one (← m.literal l))
  | dot s => return (m, .one (← m.dot s))
  | anchor _ a => .ok (m, .look (m.look a))
  | shorthand s h negated => return (m, .one (← m.shorthand s h negated))
  | property s name => return (m, .one (← m.property s name))
  | brackets s negated inner =>
    return (m, .one (← m.close s negated inner.hasMember (← inner.meaning m)))
  | times _ t least most => do
    let (m, p) ← t.meaning m
    return (m, p.repeated least most)
  | group _ isKept flags t => do
    let (_, p) ← t.meaning (m.setAll flags)
    return (m, if isKept then .group p else p)
  | alternatives _ ts => do
    let (m, ps) ← meanings m ts
    return match ps with
      | [] => (m, .empty)
      | p :: ps => (m, ps.foldl .either p)
  | sequence _ ts => do
    let (m, ps) ← meanings m ts
    return (m, ps.foldr .seq .empty)

/-- What parts mean, each with the flags that those before it leave. -/
def meanings (m : Modes) : List Tree → Except Fault (Modes × List Pattern)
  | [] => .ok (m, [])
  | t :: ts => do
    let (m, p) ← t.meaning m
    let (m, ps) ← meanings m ts
    return (m, p :: ps)

end

end Tree

/-- Why a text gives no pattern. -/
inductive Refusal
  | fault (f : Fault)
  | tooLarge
  /-- It asks for words of all scripts. -/
  | allScripts
  deriving DecidableEq, Repr

/-- The reason as a text, for the pattern that is refused. -/
def Refusal.message (source : String) : Refusal → String
  | fault f => f.text source
  | tooLarge => s!"Compiled regex exceeds size limit of {sizeLimit} bytes."
  | allScripts => "error building NFA"

/-- Reads a pattern. -/
def ofText (s : String) : Except Refusal Pattern := do
  let tree ← (Tree.ofText s).mapError .fault
  let (_, p) ← (tree.meaning {}).mapError .fault
  if sizeLimit < p.machineSize then throw .tooLarge
  if p.asksForAllScripts then throw .allScripts
  return p

end Pattern

end FrameGraph
