import FrameGraph.Ron.Reader
import FrameGraph.Text.Hexadecimal
import FrameGraph.Text.Quoted

/-!
# Quotations

Text between double quotes with escapes, raw text between quotes and any number of signs, and
single characters. What `Quoted.quote` writes, `text` reads.
-/

namespace FrameGraph

namespace Ron

/-- The character that a letter stands for after a backslash. -/
def escaped? : Char → Option Char
  | '\'' => some '\''
  | '"' => some '"'
  | '\\' => some '\\'
  | 'n' => some '\n'
  | 'r' => some '\r'
  | 't' => some '\t'
  | '0' => some '\x00'
  | _ => none

/-- Reads the digits of a code point up to the closing brace, at most `room` more. -/
def codePointFrom : (value room : Nat) → (any : Bool) → Reader Char
  | _, _, _, [] => stop [] .endOfText
  | value, _, any, '\x7d' :: cs =>
    match scalar? value with
    | some c => if any then .ok (c, cs) else stop cs .badEscape
    | none => stop cs .badEscape
  | _, 0, _, cs => stop cs .badEscape
  | value, room + 1, _, c :: cs =>
    match hexValue? c with
    | some d => codePointFrom (value * 16 + d) room true cs
    | none => stop cs .badEscape

/-- Reads what stands after a backslash. -/
def escape : Reader Char
  | 'x' :: a :: b :: cs =>
    match hexValue? a, hexValue? b with
    | some a, some b => .ok (Char.ofNat (a * 16 + b), cs)
    | _, _ => stop cs .badEscape
  | 'u' :: '\x7b' :: cs => codePointFrom 0 6 false cs
  | c :: cs =>
    match escaped? c with
    | some d => .ok (d, cs)
    | none => stop cs .badEscape
  | [] => stop [] .endOfText

theorem codePointFrom_length {value room : Nat} {any : Bool} {cs rest : List Char} {c : Char}
    (h : codePointFrom value room any cs = .ok (c, rest)) : rest.length < cs.length := by
  fun_induction codePointFrom value room any cs with
  | case6 => exact Nat.lt_succ_of_lt (by solve_by_elim)
  | _ => simp_all [stop]

/-- An escape takes at least one character. -/
theorem escape_length {cs rest : List Char} {c : Char} (h : escape cs = .ok (c, rest)) :
    rest.length < cs.length := by
  unfold escape at h
  split at h
  · split at h <;> simp_all [stop]
    omega
  · have := codePointFrom_length h
    simp only [List.length_cons]
    omega
  · split at h <;> simp_all [stop]
  · simp [stop] at h

/-- Reads text up to the closing quote, which is taken. -/
def textBody (cs : List Char) : Except Fault (List Char × List Char) :=
  match cs with
  | [] => stop [] (.expected "the end of a text")
  | '"' :: cs => .ok ([], cs)
  | '\\' :: cs =>
    match h : escape cs with
    | .error fault => .error fault
    | .ok (c, rest) => do
      have := escape_length h
      let (more, rest) ← textBody rest
      return (c :: more, rest)
  | c :: cs => do
    let (more, rest) ← textBody cs
    return (c :: more, rest)
termination_by cs.length

/-- Reads raw text up to a quote and a number of signs, which are taken. -/
def rawBody (signs : List Char) : List Char → Except Fault (List Char × List Char)
  | [] => stop [] (.expected "the end of a text")
  | c :: cs =>
    if ('"' :: signs).isPrefixOf (c :: cs) then .ok ([], cs.drop signs.length)
    else do
      let (more, rest) ← rawBody signs cs
      return (c :: more, rest)

/-- Reads a text, quoted or raw. -/
def text : Reader String := fun cs => do
  match cs with
  | '"' :: cs =>
    let (found, rest) ← textBody cs
    return (String.ofList found, rest)
  | 'r' :: cs =>
    let signs := cs.takeWhile (· = '#')
    let (found, rest) ← rawBody signs (← expect '"' (cs.drop signs.length))
    return (String.ofList found, rest)
  | _ => stop cs (.expected "a text")

/-- Reads a character between single quotes. -/
def character : Reader Char := fun cs => do
  match ← expect '\'' cs with
  | [] => stop [] .endOfText
  | '\'' :: _ => stop cs (.expected "a character")
  | '\\' :: cs =>
    let (c, cs) ← escape cs
    return (c, ← expect '\'' cs)
  | c :: cs => return (c, ← expect '\'' cs)

end Ron

end FrameGraph
