import FrameGraph.Pattern.CharSet
import FrameGraph.Text.Letter

/-!
# Patterns

A pattern describes the texts that it matches. It occurs in a text if it matches some part of it.
Whether it does is found by following all matches at once: a pattern leads from a set of places of
the text, at which matches begin, to the set of places at which they end. A set of places is a
number: bit `i` stands for the place before character `i`.
-/

namespace FrameGraph

/-- How words stand around a place. -/
inductive WordEdge
  /-- A word begins or ends. -/
  | boundary
  | noBoundary
  | start
  | stop
  /-- No word comes from before. -/
  | startHalf
  /-- No word goes on. -/
  | stopHalf
  deriving DecidableEq, Repr

/-- Whether words have the letters of all scripts, or those of ASCII. -/
def isWordChar (allScripts : Bool) (c : Char) : Bool :=
  c.isAlphanum || c = '_' || (allScripts && (isLetter c || isNumeral c))

def WordEdge.holds : WordEdge → (before behind : Bool) → Bool
  | boundary, before, behind => before != behind
  | noBoundary, before, behind => before == behind
  | start, before, behind => !before && behind
  | stop, before, behind => before && !behind
  | startHalf, before, _ => !before
  | stopHalf, _, behind => !behind

/-- What can be asked of a place in a text. -/
inductive Look
  | textStart
  | textEnd
  /-- With `returns`, a carriage return breaks lines too, and with a line feed it is one break. -/
  | lineStart (returns : Bool)
  | lineEnd (returns : Bool)
  | word (edge : WordEdge) (allScripts : Bool)
  deriving DecidableEq, Repr

/-- Whether it is so at a place between two characters, or at an end of the text. -/
def Look.holds : Look → (before behind : Option Char) → Bool
  | textStart, before, _ => before.isNone
  | textEnd, _, behind => behind.isNone
  | lineStart returns, before, behind =>
    before.isNone || before = some '\n' ||
      (returns && before = some '\r' && behind ≠ some '\n')
  | lineEnd false, _, behind => behind.isNone || behind = some '\n'
  | lineEnd true, before, behind =>
    behind.isNone || behind = some '\r' || (behind = some '\n' && before ≠ some '\r')
  | word edge allScripts, before, behind =>
    edge.holds (before.any (isWordChar allScripts)) (behind.any (isWordChar allScripts))

inductive Pattern
  | empty
  | one (set : CharSet)
  | look (l : Look)
  | seq (p q : Pattern)
  | either (p q : Pattern)
  /-- A pattern whose match is set apart. -/
  | group (p : Pattern)
  /-- From `least` to `most` times, or any number of times from `least`. -/
  | times (p : Pattern) (least : Nat) (most : Option Nat)
  deriving DecidableEq, Repr

namespace Pattern

/-! ## Matches -/

/-- The number with these bits, the lowest first. -/
def ofBits : List Bool → Nat
  | [] => 0
  | b :: bs => 2 * ofBits bs + b.toNat

theorem testBit_ofBits (bs : List Bool) (i : Nat) : (ofBits bs).testBit i = bs.getD i false := by
  induction bs generalizing i with
  | nil => simp [ofBits]
  | cons b bs ih =>
    cases i with
    | zero => cases b <;> simp [ofBits, Nat.testBit_zero, Nat.add_mod]
    | succ i =>
      have half : (2 * ofBits bs + b.toNat) / 2 = ofBits bs := by
        cases b <;> simp [Nat.mul_add_div]
      rw [ofBits, Nat.testBit_succ, half, ih, List.getD_cons_succ]

/-- What stands before and behind each place of a text. -/
def sides (text : List Char) : List (Option Char × Option Char) :=
  (none :: text.map some).zip (text.map some ++ [none])

/-- Takes a step `n` times. A set that a step does not change stays as it is. -/
def repeatStep (step : Nat → Nat) : (n : Nat) → (places : Nat) → Nat
  | 0, places => places
  | n + 1, places =>
    let next := step places
    if next = places then places else repeatStep step n next

/-- All that is reached in up to `n` steps. -/
def gatherSteps (step : Nat → Nat) : (n : Nat) → (places : Nat) → Nat
  | 0, places => places
  | n + 1, places =>
    let next := places ||| step places
    if next = places then places else gatherSteps step n next

theorem repeatStep_eq (step : Nat → Nat) (n places : Nat) :
    repeatStep step n places = Nat.repeat step n places := by
  have shift (n : Nat) (places : Nat) :
      Nat.repeat step (n + 1) places = Nat.repeat step n (step places) := by
    induction n with
    | zero => rfl
    | succ n ih => exact congrArg step ih
  induction n generalizing places with
  | zero => rfl
  | succ n ih =>
    rw [repeatStep]
    split
    · next h =>
      have fixed : ∀ m, Nat.repeat step m places = places := by
        intro m
        induction m with
        | zero => rfl
        | succ m ih => exact (congrArg step ih).trans h
      exact (fixed (n + 1)).symm
    · rw [ih, shift]

/-- The places at which matches end that begin at the given places. As many repetitions as the
text has places stand for all greater numbers: with more of them than characters, some are
empty, and one empty repetition more or less makes no difference. -/
def ends (text : List Char) : Pattern → (places : Nat) → Nat
  | empty, places => places
  | one set, places => (places &&& ofBits (text.map set.has)) <<< 1
  | look l, places => places &&& ofBits ((sides text).map fun (before, behind) =>
      l.holds before behind)
  | seq p q, places => ends text q (ends text p places)
  | either p q, places => ends text p places ||| ends text q places
  | group p, places => ends text p places
  | times p least most, places =>
    let bound := text.length + 1
    let more := (most.map fun most => min (most - least) bound).getD bound
    gatherSteps (ends text p) more (repeatStep (ends text p) (min least bound) places)

/-- Whether a pattern can only match empty text. -/
def isWithoutText : Pattern → Bool
  | empty | look _ => true
  | one _ => false
  | seq p q | either p q => p.isWithoutText && q.isWithoutText
  | group p | times p _ _ => p.isWithoutText

/-- A pattern a number of times, without repetitions that make no difference. -/
def repeated (p : Pattern) (least : Nat) (most : Option Nat) : Pattern :=
  let (least, most) :=
    if p.isWithoutText then (min least 1, some (min (most.getD 1) 1)) else (least, most)
  if most = some 0 then empty
  else if least = 1 ∧ most = some 1 then p
  else times p least most

/-- Whether a pattern asks for words of all scripts. -/
def asksForAllScripts : Pattern → Bool
  | look (.word _ allScripts) => allScripts
  | empty | one _ | look _ => false
  | seq p q | either p q => p.asksForAllScripts || q.asksForAllScripts
  | group p | times p _ _ => p.asksForAllScripts

/-- Whether a pattern matches some part of a text. -/
def occursIn (p : Pattern) (s : String) : Bool :=
  let text := s.toList
  ends text p ((1 <<< (text.length + 1)) - 1) ≠ 0

/-- The empty pattern occurs in every text. -/
theorem occursIn_empty (s : String) : occursIn empty s = true := by
  have h : 1 < 1 <<< (s.toList.length + 1) := by
    rw [Nat.one_shiftLeft]
    exact Nat.one_lt_two_pow (Nat.succ_ne_zero _)
  exact decide_eq_true (Nat.sub_ne_zero_of_lt h)

end Pattern

end FrameGraph
