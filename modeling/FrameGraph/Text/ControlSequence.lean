/-!
# Control sequences

Text for a terminal may hold sequences that move the cursor or change colours, and control
characters. `shown` leaves what is seen as text: it drops the sequences and all control characters
but white space. White space ends a sequence that is not finished, unless the sequence carries a
string.
-/

namespace FrameGraph

namespace ControlSequence

/-- Where in a control sequence a text stands. -/
inductive Spot
  /-- In no sequence. -/
  | text
  /-- After the escape character. -/
  | escape
  /-- After the escape character and intermediate characters. -/
  | intermediate
  /-- In a sequence with parameters. -/
  | parameters
  /-- At the beginning of a device control sequence. -/
  | device
  | deviceParameters
  | deviceIntermediate
  /-- In a string for the device or an application, up to a string terminator. -/
  | string
  /-- In a command for the operating system, up to a bell. -/
  | command
  deriving DecidableEq, Repr

/-- The byte that ends a string. -/
def terminator : UInt8 := 0x9c

/-- White space among the control characters. -/
def isBreak (c : Char) : Bool := c = '\t' || c = '\n' || c = '\x0c' || c = '\r'

/-- Where a final character leads that follows the escape character. -/
def afterEscape (c : Char) : Spot :=
  if c = '[' then .parameters
  else if c = ']' then .command
  else if c = 'P' then .device
  else if c = 'X' || c = '^' || c = '_' then .string
  else .text

/-- What a character that is no control character leads to, beyond the first 128 or not. -/
def afterPlain : Spot → Char → Spot
  | .text, _ => .text
  | .command, _ => .command
  | .string, c =>
    if (String.singleton c).toUTF8.toList.contains terminator then .text else .string
  | spot, c =>
    if 0x7e < c.toNat then spot
    else
      match spot with
      | .escape => if c.toNat < 0x30 then .intermediate else afterEscape c
      | .intermediate => if c.toNat < 0x30 then .intermediate else .text
      | .parameters => if c.toNat < 0x40 then .parameters else .text
      | .device =>
        if c.toNat < 0x30 then .deviceIntermediate
        else if c.toNat < 0x40 then .deviceParameters else .string
      | .deviceParameters =>
        if c.toNat < 0x30 then .deviceIntermediate
        else if c.toNat < 0x3c then .deviceParameters else .string
      | .deviceIntermediate => if c.toNat < 0x30 then .deviceIntermediate else .string
      | other => other

/-- Whether control characters in a sequence belong to what it carries. -/
def carries : Spot → Bool
  | .device | .deviceParameters | .deviceIntermediate | .string | .command => true
  | _ => false

/-- Reads one character: where the text stands after it, and whether it is seen. -/
def step (spot : Spot) (c : Char) : Spot × Bool :=
  if c = '\x1b' then (.escape, false)
  else if c = '\x18' || c = '\x1a' then (.text, false)
  else if c = '\x07' && spot = .command then (.text, false)
  else if c.toNat < 0x20 then
    if isBreak c && !carries spot then (.text, true) else (spot, false)
  else if c = '\x7f' then (spot, false)
  else (afterPlain spot c, spot = .text)

def shownFrom : Spot → List Char → List Char
  | _, [] => []
  | spot, c :: cs =>
    let (next, seen) := step spot c
    if seen then c :: shownFrom next cs else shownFrom next cs

/-- A text without control characters and with nothing of a sequence is seen as it is. -/
theorem shownFrom_text {cs : List Char} (h : ∀ c ∈ cs, 0x20 ≤ c.toNat ∧ c ≠ '\x7f') :
    shownFrom .text cs = cs := by
  induction cs with
  | nil => rfl
  | cons c cs ih =>
    obtain ⟨hc, hd⟩ := h c (List.mem_cons_self ..)
    have low {d : Char} (hlow : d.toNat < 0x20) : c ≠ d := by
      rintro rfl
      exact absurd hc (Nat.not_le.2 hlow)
    have hstep : step .text c = (.text, true) := by
      simp [step, low (d := '\x1b') (by decide), low (d := '\x18') (by decide),
        low (d := '\x1a') (by decide), Nat.not_lt.2 hc, hd, afterPlain]
    rw [shownFrom, hstep]
    exact congrArg (c :: ·) (ih fun d hd => h d (List.mem_cons_of_mem _ hd))

/-- What is seen of a text. -/
def shown (s : String) : String := String.ofList (shownFrom .text s.toList)

end ControlSequence

end FrameGraph
