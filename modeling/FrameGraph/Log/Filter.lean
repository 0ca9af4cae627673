import FrameGraph.Log
import FrameGraph.Pattern.Meaning

/-!
# Log filters

Which records a log shows, read from a list of directives separated by commas. A directive is a
level (`warn`), the beginning of a target's name (`renderer`), or both (`renderer=warn`). After a
slash stands a pattern that has to occur in the text of a record.
-/

namespace FrameGraph

/-- Shows records of targets that begin with `target` up to a rank; rank 0 shows none. -/
structure Directive where
  target : Option String
  rank : Nat
  deriving DecidableEq, Repr

namespace Directive

/-- The rank that a word stands for, in capitals or not. -/
def rankOf? (word : String) : Option Nat :=
  let word := word.map Char.toUpper
  if word = "OFF" then some 0 else (Level.all.find? (·.name == word)).map Level.rank

/-- Reads one directive. The error is the part that is not understood. -/
def ofText (s : String) : Except String Directive :=
  match s.splitOn "=" with
  | [word] =>
    match rankOf? word with
    | some rank => .ok ⟨none, rank⟩
    | none => .ok ⟨some word, Level.trace.rank⟩
  | [target, word] =>
    let word := trimmed word
    if word.isEmpty then .ok ⟨some target, Level.trace.rank⟩
    else
      match rankOf? word with
      | some rank => .ok ⟨some target, rank⟩
      | none => .error word
  | _ => .error s

/-- Adds a directive in the place of one with the same target. -/
def insert (d : Directive) : List Directive → List Directive
  | [] => [d]
  | e :: ds => if e.target = d.target then d :: ds else e :: insert d ds

/-- How much of a target's name the directive fixes. -/
def weight (d : Directive) : Nat := (d.target.map String.utf8ByteSize).getD 0

end Directive

structure LogFilter where
  directives : List Directive
  pattern : Option Pattern := none

namespace LogFilter

/-- What reading a filter gives: the filter, and complaints about the parts left out. -/
structure Reading where
  filter : LogFilter
  complaints : List String

/-- Reads a filter. Without a directive only errors are shown. -/
def ofText (s : String) : Reading :=
  let complaint (part : String) := s!"warning: invalid logging spec '{part}', ignoring it"
  let fallback : List Directive := [⟨none, Level.error.rank⟩]
  let directives (part : String) : List (Except String Directive) :=
    let words := (part.splitOn ",").map trimmed
    (words.filter (!·.isEmpty)).map Directive.ofText
  let collect (rs : List (Except String Directive)) (pattern : Option Pattern) : Reading :=
    let ds := (rs.filterMap Except.toOption).foldl (fun ds d => d.insert ds) []
    let ds := if ds.isEmpty then fallback else ds.mergeSort fun a b => a.weight ≤ b.weight
    let bad := rs.filterMap fun
      | .error part => some (complaint part)
      | .ok _ => none
    ⟨⟨ds, pattern⟩, bad⟩
  match s.splitOn "/" with
  | [part] => collect (directives part) none
  | [part, source] =>
    match Pattern.ofText source with
    | .ok p => collect (directives part) (some p)
    | .error r =>
      let reading := collect (directives part) none
      let bad := s!"warning: invalid regex filter - {r.message source}, ignoring it"
      { reading with complaints := reading.complaints ++ [bad] }
  | _ => ⟨⟨fallback, none⟩,
      [s!"warning: invalid logging spec '{s}' (too many '/'s), ignoring it"]⟩

/-- Whether a log shows a record: the directive that fixes most of the target decides. `target`
names the origins. -/
def shows (f : LogFilter) (target : Origin → String) (r : Record) : Bool :=
  let isMatch (d : Directive) := match d.target with
    | none => true
    | some start => (target r.origin).startsWith start
  let heard := match f.directives.reverse.find? isMatch with
    | some d => r.level.rank ≤ d.rank
    | none => false
  heard && f.pattern.all (·.occursIn r.text)

end LogFilter

end FrameGraph
