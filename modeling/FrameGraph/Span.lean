/-!
# Spans

Closed intervals of positions in an execution order.
-/

namespace FrameGraph

/-- The positions from `first` to `last`, both included. -/
structure Span where
  first : Nat
  last : Nat
  first_le_last : first ≤ last
  deriving DecidableEq, Repr

namespace Span

/-- The span with these bounds, if they are in order. -/
def ofBounds? (first last : Nat) : Option Span :=
  if h : first ≤ last then some ⟨first, last, h⟩ else none

def point (i : Nat) : Span := ⟨i, i, Nat.le_refl i⟩

/-- The span between two positions given in either order. -/
def between (a b : Nat) : Span := ⟨min a b, max a b, by omega⟩

/-- The number of positions. -/
def length (s : Span) : Nat := s.last - s.first + 1

/-- No span is empty. -/
def isEmpty (_ : Span) : Bool := false

def contains (s : Span) (i : Nat) : Bool := s.first ≤ i && i ≤ s.last

/-- Whether the spans have a position in common. -/
def overlaps (s t : Span) : Bool := max s.first t.first ≤ min s.last t.last

/-- The least span that covers both. -/
def hull (s t : Span) : Span :=
  ⟨min s.first t.first, max s.last t.last, by have := s.first_le_last; omega⟩

/-- The least span that covers `s` and the position `i`. -/
def extend (s : Span) (i : Nat) : Span := s.hull (point i)

/-- The least span that covers all the positions of a list, if it has any. -/
def envelope? : List Nat → Option Span
  | [] => none
  | i :: is => some (is.foldl extend (point i))

/-- The positions of the span in order. -/
def positions (s : Span) : List Nat := List.range' s.first s.length

@[simp] theorem contains_iff {s : Span} {i : Nat} :
    s.contains i = true ↔ s.first ≤ i ∧ i ≤ s.last := by
  simp only [contains, Bool.and_eq_true, decide_eq_true_eq]

theorem overlaps_iff {s t : Span} :
    s.overlaps t = true ↔ ∃ i, s.contains i = true ∧ t.contains i = true := by
  have hs := s.first_le_last
  have ht := t.first_le_last
  simp only [overlaps, decide_eq_true_eq, contains_iff]
  refine ⟨fun h => ⟨max s.first t.first, by omega, by omega⟩, ?_⟩
  rintro ⟨i, h, h'⟩
  omega

theorem overlaps_comm {s t : Span} : s.overlaps t = t.overlaps s := by
  simp only [overlaps, Nat.max_comm, Nat.min_comm]

theorem contains_hull_left {s t : Span} {i : Nat} (h : s.contains i = true) :
    (s.hull t).contains i = true := by
  rw [contains_iff] at h ⊢
  exact ⟨Nat.le_trans (Nat.min_le_left ..) h.1, Nat.le_trans h.2 (Nat.le_max_left ..)⟩

theorem contains_hull_right {s t : Span} {i : Nat} (h : t.contains i = true) :
    (s.hull t).contains i = true := by
  rw [contains_iff] at h ⊢
  exact ⟨Nat.le_trans (Nat.min_le_right ..) h.1, Nat.le_trans h.2 (Nat.le_max_right ..)⟩

theorem mem_positions {s : Span} {i : Nat} : i ∈ s.positions ↔ s.contains i = true := by
  have hs := s.first_le_last
  rw [positions, List.mem_range'_1, contains_iff, length]
  omega

def text (s : Span) : String := s!"[{s.first}, {s.last}]"

end Span

end FrameGraph
