import FrameGraph.Ron.Fields

/-!
# Documents

A document is one value with space around it. In front of it stand any number of attributes, which
turn on extensions; one of them allows bare values where a value may be absent.
-/

namespace FrameGraph

namespace Ron

/-- The extensions that an attribute can name. The two that unwrap have no use for these values. -/
inductive Extension
  | unwrapNewtypes
  | implicitSome
  | unwrapVariantNewtypes
  deriving DecidableEq, Repr

namespace Extension

def all : List Extension := [unwrapNewtypes, implicitSome, unwrapVariantNewtypes]

def name : Extension → String
  | unwrapNewtypes => "unwrap_newtypes"
  | implicitSome => "implicit_some"
  | unwrapVariantNewtypes => "unwrap_variant_newtypes"

end Extension

/-- Takes words with space after each. -/
def words : List String → Skipper
  | [], cs => .ok cs
  | word :: more, cs =>
    match afterWord? word cs with
    | some rest => do words more (← skipSpace rest)
    | none => stop cs (.expected word)

/-- Reads the names of extensions, separated by commas. `room` bounds their number. -/
def extensionsWithin : (room : Nat) → Reader (List Extension)
  | 0, cs => stop cs (.expected "']'")
  | room + 1, cs => do
    let (extension, cs) ← oneOf "extension" Extension.all Extension.name cs
    let (more, cs) ← comma cs
    if more && nameGoesOn cs then
      let (extensions, cs) ← extensionsWithin room cs
      return (extension :: extensions, cs)
    else if nameGoesOn cs then stop cs (.expected "','")
    else return ([extension], cs)

/-- Reads one attribute, with the space after it. -/
def oneAttribute : Reader (List Extension) := fun cs => do
  let cs ← words ["#", "!", "[", "enable", "("] cs
  let (extensions, cs) ← extensionsWithin cs.length cs
  return (extensions, ← words [")", "]"] cs)

/-- Reads the attributes in front of a value. `room` bounds their number. -/
def attributesWithin : (room : Nat) → Reader (List Extension)
  | 0, cs => .ok ([], cs)
  | room + 1, cs => do
    match cs with
    | '#' :: _ =>
      let (first, cs) ← oneAttribute cs
      let (more, cs) ← attributesWithin room cs
      return (first ++ more, cs)
    | _ => return ([], cs)

/-- Reads a document. -/
def document {α : Type} (value : Scope → Reader α) (cs : List Char) : Except Fault α := do
  let cs ← skipSpace cs
  let (extensions, cs) ← attributesWithin cs.length cs
  let (v, cs) ← value { bare := Extension.implicitSome ∈ extensions } cs
  match ← skipSpace cs with
  | [] => return v
  | cs => stop cs .trailing

end Ron

end FrameGraph
