/-!
# Sets of characters

A set is kept as it is put together; membership is decided from its parts.
-/

namespace FrameGraph

inductive CharSet
  | nothing
  /-- From one character to another, with both. -/
  | within (first last : Char)
  | union (s t : CharSet)
  | inter (s t : CharSet)
  | compl (s : CharSet)
  /-- With the other case of each ASCII letter. -/
  | anyCase (s : CharSet)
  deriving DecidableEq, Repr

namespace CharSet

def has : CharSet → Char → Bool
  | nothing, _ => false
  | within first last, c => first ≤ c && c ≤ last
  | union s t, c => s.has c || t.has c
  | inter s t, c => s.has c && t.has c
  | compl s, c => !s.has c
  | anyCase s, c => s.has c || s.has c.toLower || s.has c.toUpper

/-- One character. -/
def single (c : Char) : CharSet := within c c

/-- The members of the first set that the second does not have. -/
def diff (s t : CharSet) : CharSet := inter s (compl t)

/-- The members of just one of two sets. -/
def exclusive (s t : CharSet) : CharSet := union (diff s t) (diff t s)

def unionAll (sets : List CharSet) : CharSet := sets.foldr union nothing

theorem has_single (c d : Char) : (single c).has d = (d == c) := by
  rw [Bool.eq_iff_iff]
  simp only [single, has, Bool.and_eq_true, decide_eq_true_eq, beq_iff_eq]
  exact ⟨fun ⟨h, h'⟩ => Char.le_antisymm h' h, fun h => h ▸ ⟨Char.le_refl _, Char.le_refl _⟩⟩

theorem has_exclusive (s t : CharSet) (c : Char) :
    (exclusive s t).has c = (s.has c != t.has c) := by
  simp only [exclusive, diff, has]
  cases s.has c <;> cases t.has c <;> rfl

theorem has_unionAll (sets : List CharSet) (c : Char) :
    (unionAll sets).has c = sets.any (·.has c) := by
  induction sets with
  | nil => rfl
  | cons s sets ih => rw [unionAll, List.foldr_cons, has, List.any_cons, ← ih, unionAll]

/-- The members of a set among the characters of ASCII. -/
def asciiMembers (s : CharSet) : List Char := ((List.range 0x80).map Char.ofNat).filter s.has

/-- Whether a set may have characters beyond ASCII. -/
def goesBeyondAscii : CharSet → Bool
  | nothing => false
  | within _ last => '\x7f' < last
  | union s t => s.goesBeyondAscii || t.goesBeyondAscii
  | inter s t => s.goesBeyondAscii && t.goesBeyondAscii
  | compl _ => true
  | anyCase s => s.goesBeyondAscii

end CharSet

end FrameGraph
