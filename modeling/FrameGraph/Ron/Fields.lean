import FrameGraph.Ron.Unread

/-!
# Records

A record is a list of named fields in round brackets, in any order, with the name of its type in
front of it or not. A field may be given once. One that the record does not have is passed over.
-/

namespace FrameGraph

namespace Ron

/-- What holds around a value: whether a value that may be absent needs `Some`, and how deep values
may still be nested. -/
structure Scope where
  bare : Bool := false
  depth : Nat := 128

namespace Scope

/-- The scope of the values in a list or record. -/
def into (s : Scope) : Scope := { s with depth := s.depth - 2 }

end Scope

/-- A field: its name, and how its value changes what is known of the record. -/
structure RecordField (σ : Type) where
  name : String
  read : σ → Reader σ

namespace RecordField

/-- A field that is kept in one place and not given twice. -/
def of {σ α : Type} (name : String) (value : Reader α) (known : σ → Option α)
    (keep : σ → α → σ) : RecordField σ where
  name
  read state := fun cs => do
    if (known state).isSome then stop cs (.repeated name)
    else
      let (v, rest) ← value cs
      return (keep state v, rest)

end RecordField

/-- Reads one field with its value. -/
def fieldIn {σ : Type} (fields : List (RecordField σ)) (s : Scope) (state : σ) : Reader σ :=
    fun cs => do
  let (found, rest) ← name cs
  let rest ← skipSpace (← expect ':' (← skipSpace rest))
  match fields.find? (·.name == found) with
  | some field => field.read state rest
  | none => return (state, ← skipValue s.into.bare s.into.depth rest)

/-- Skips the name of a type, which need not be there. -/
def skipTitle (title : String) : Skipper := fun cs => do
  if nameGoesOn cs then
    let (found, rest) ← name cs
    if found = title then return rest else stop cs (.expected title)
  else return cs

/-- Reads a record: what its fields make of a state that knows none of them. -/
def fieldsOf {σ : Type} (title : String) (fields : List (RecordField σ)) (s : Scope)
    (start : σ) : Reader σ := fun cs => do
  let cs ← skipSpace (← skipTitle title cs)
  items ')' (fieldIn fields s) start (← expect '(' cs)

/-- The value of a field that has to be given. -/
def required {α : Type} (field : String) (value : Option α) (cs : List Char) : Except Fault α :=
  match value with
  | some v => .ok v
  | none => stop cs (.missing field)

end Ron

end FrameGraph
