import FrameGraph.Text.Invisible

/-!
# Quoted text

How text is written between double quotes: a backslash before what would end or distort it, and
the code point of what cannot be seen.
-/

namespace FrameGraph

namespace Quoted

/-- Which quotes inside the text take a backslash. The double quote always does. -/
inductive Style
  /-- Double quotes only. -/
  | plain
  /-- Single quotes too. -/
  | strict
  deriving DecidableEq

/-- A code point in braces, in hexadecimal without leading zeros. -/
def codePoint (c : Char) : List Char :=
  '\\' :: 'u' :: '\x7b' :: Nat.toDigits 16 c.toNat ++ ['\x7d']

/-- Whether a character is written as itself. -/
def isPlain (c : Char) : Bool :=
  if c.toNat < 0x7f then 0x20 ≤ c.toNat else !isInvisible c

def escape (style : Style) (c : Char) : List Char :=
  if c = '\x00' then ['\\', '0']
  else if c = '\t' then ['\\', 't']
  else if c = '\r' then ['\\', 'r']
  else if c = '\n' then ['\\', 'n']
  else if c = '\\' ∨ c = '"' ∨ (c = '\'' ∧ style = .strict) then ['\\', c]
  else if isPlain c then [c]
  else codePoint c

/-- Text between double quotes. -/
def quote (style : Style) (cs : List Char) : List Char :=
  '"' :: cs.flatMap (escape style) ++ ['"']

end Quoted

/-- Text as logs show it. -/
def quoted (s : String) : String := String.ofList (Quoted.quote .plain s.toList)

end FrameGraph
