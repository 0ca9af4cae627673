/-!
# Columns and lines

Padding of text to the width of a column, and the lines of a text. Widths count characters.
-/

namespace FrameGraph

theorem toList_pushn (s : String) (c : Char) (n : Nat) :
    (s.pushn c n).toList = s.toList ++ List.replicate n c := by
  rw [String.pushn_eq_repeat_push]
  induction n with
  | zero => exact (List.append_nil _).symm
  | succ n ih => rw [Nat.repeat, String.toList_push, ih, List.append_assoc, List.replicate_succ']

/-- Text at the left of a column. -/
def padRight (width : Nat) (s : String) : String := s.pushn ' ' (width - s.length)

@[simp] theorem length_padRight (width : Nat) (s : String) :
    (padRight width s).length = max width s.length := by
  rw [padRight, String.length_pushn]
  omega

/-- Text in the middle of a column; an odd blank goes to the right. -/
def padBoth (width : Nat) (s : String) : String :=
  let blanks := width - s.length
  ("".pushn ' ' (blanks / 2) ++ s).pushn ' ' (blanks - blanks / 2)

theorem toList_padBoth (width : Nat) (s : String) :
    (padBoth width s).toList = List.replicate ((width - s.length) / 2) ' ' ++ s.toList ++
      List.replicate (width - s.length - (width - s.length) / 2) ' ' := by
  rw [padBoth, toList_pushn, String.toList_append, toList_pushn]
  rfl

@[simp] theorem length_padBoth (width : Nat) (s : String) :
    (padBoth width s).length = max width s.length := by
  rw [← String.length_toList, toList_padBoth, List.length_append, List.length_append,
    List.length_replicate, List.length_replicate, String.length_toList]
  omega

/-- Splits characters after each line break. What follows the last one is a line unless it is
empty, and a carriage return before a line break belongs to it. -/
def linesOfChars : (line : List Char) → List Char → List (List Char)
  | [], [] => []
  | line, [] => [line.reverse]
  | line, '\n' :: cs =>
    let line := match line with
      | '\r' :: rest => rest
      | _ => line
    line.reverse :: linesOfChars [] cs
  | line, c :: cs => linesOfChars (c :: line) cs

/-- The lines of a text, without their ends. -/
def linesOf (s : String) : List String := (linesOfChars [] s.toList).map String.ofList

/-- Lines with an end after each. -/
def unlines (lines : List String) : String := String.join (lines.map (· ++ "\n"))

/-! ## Lines of joined lines -/

/-- The characters of lines with an end after each. -/
def charsOfLines (lines : List String) : List Char :=
  lines.flatMap fun line => line.toList ++ ['\n']

@[simp] theorem charsOfLines_append (lines more : List String) :
    charsOfLines (lines ++ more) = charsOfLines lines ++ charsOfLines more :=
  List.flatMap_append

theorem toList_unlines (lines : List String) : (unlines lines).toList = charsOfLines lines := by
  simp only [unlines, String.toList_join, List.flatMap_map, String.toList_append, charsOfLines]
  rfl

/-- Leaves out each carriage return that stands right before a line break. -/
def dropReturns : List Char → List Char
  | [] => []
  | '\r' :: '\n' :: cs => '\n' :: dropReturns cs
  | c :: cs => c :: dropReturns cs

theorem dropReturns_cons {c : Char} {cs : List Char} (h : c ≠ '\r' ∨ cs.head? ≠ some '\n') :
    dropReturns (c :: cs) = c :: dropReturns cs := by
  rw [dropReturns]
  rintro cs' rfl rfl
  simp at h

/-- Before the last character of a line there is nothing to leave out. -/
theorem dropReturns_append {line : List Char} (hline : '\n' ∉ line) {c : Char} (hc : c ≠ '\n')
    (cs : List Char) : dropReturns (line ++ c :: cs) = line ++ dropReturns (c :: cs) := by
  induction line with
  | nil => rfl
  | cons d line ih =>
    have hhead : (line ++ c :: cs).head? ≠ some '\n' := by
      cases line with
      | nil => exact fun h => hc (Option.some.inj h)
      | cons d' line => exact fun h => hline (by simp [Option.some.inj h])
    rw [List.cons_append, dropReturns_cons (.inr hhead), ih (fun h => hline (.tail _ h))]
    rfl

/-- A line that ends is kept but for a carriage return. -/
theorem flatMap_linesOfChars_end {line cs : List Char} (hline : '\n' ∉ line)
    (h : (linesOfChars [] cs).flatMap (· ++ ['\n']) = dropReturns cs) :
    (linesOfChars line ('\n' :: cs)).flatMap (· ++ ['\n']) =
      dropReturns (line.reverse ++ '\n' :: cs) := by
  have hbreak : dropReturns ('\n' :: cs) = '\n' :: dropReturns cs :=
    dropReturns_cons (.inl (by decide))
  cases line with
  | nil =>
    simp [linesOfChars, h, hbreak]
  | cons c line =>
    have hrest : '\n' ∉ line.reverse := fun h => hline (.tail _ (List.mem_reverse.mp h))
    have hc : c ≠ '\n' := fun h => hline (h ▸ .head _)
    rw [List.reverse_cons, List.append_assoc, List.singleton_append, dropReturns_append hrest hc]
    by_cases hreturn : c = '\r'
    · rw [hreturn, dropReturns]
      simp [linesOfChars, h]
    · rw [dropReturns_cons (.inl hreturn), hbreak]
      simp [linesOfChars, hreturn, h]

/-- Splitting keeps all the characters of lines that end but these. -/
theorem flatMap_linesOfChars {line : List Char} (hline : '\n' ∉ line) (cs : List Char) :
    (linesOfChars line (cs ++ ['\n'])).flatMap (· ++ ['\n']) =
      dropReturns (line.reverse ++ (cs ++ ['\n'])) := by
  induction cs generalizing line with
  | nil => exact flatMap_linesOfChars_end hline rfl
  | cons c cs ih =>
    by_cases hc : c = '\n'
    · rw [hc]
      exact flatMap_linesOfChars_end hline (ih List.not_mem_nil)
    · have hpending : '\n' ∉ c :: line := by simp [hline, Ne.symm hc]
      have hstep : linesOfChars line (c :: (cs ++ ['\n'])) =
          linesOfChars (c :: line) (cs ++ ['\n']) := by rw [linesOfChars]; exact hc
      rw [List.cons_append, hstep, ih hpending, List.reverse_cons, List.append_assoc]
      rfl

theorem charsOfLines_linesOf (lines : List String) :
    charsOfLines (linesOf (unlines lines)) = dropReturns (charsOfLines lines) := by
  have hchars : charsOfLines (linesOf (unlines lines)) =
      (linesOfChars [] (charsOfLines lines)).flatMap (· ++ ['\n']) := by
    rw [linesOf, toList_unlines, charsOfLines, List.flatMap_map]
    simp only [String.toList_ofList]
  rw [hchars]
  rcases List.eq_nil_or_concat lines with rfl | ⟨before, last, rfl⟩
  · rfl
  · rw [List.concat_eq_append, charsOfLines_append]
    have hlast : charsOfLines [last] = last.toList ++ ['\n'] := List.append_nil _
    rw [hlast, ← List.append_assoc]
    exact flatMap_linesOfChars List.not_mem_nil _

end FrameGraph
