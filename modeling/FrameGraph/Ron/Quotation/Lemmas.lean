import FrameGraph.Ron.Quotation

/-!
# Reading quotations back

Every character is read as what was written for it, so a quoted text is read as the text it was
made from, whatever follows its closing quote.
-/

namespace FrameGraph

namespace Ron

theorem codePointFrom_digit {value room d : Nat} {any : Bool} {cs : List Char} (h : d < 16) :
    codePointFrom value (room + 1) any (d.digitChar :: cs) =
      codePointFrom (value * 16 + d) room true cs := by
  have hv := hexValue?_digitChar h
  have hb : d.digitChar ≠ '\x7d' := by
    intro hb
    rw [hb] at hv
    cases hv
  rw [codePointFrom, hv]
  exact fun hc => absurd hc hb

/-- The digits of a number are read from the first to the last, while there is room. -/
theorem codePointFrom_toDigits {n value room : Nat} {any : Bool} {cs : List Char}
    (h : (Nat.toDigits 16 n).length ≤ room) :
    codePointFrom value room any (Nat.toDigits 16 n ++ cs) =
      codePointFrom (value * Nat.pow 16 (Nat.toDigits 16 n).length + n)
        (room - (Nat.toDigits 16 n).length) true cs := by
  induction n using Nat.strongRecOn generalizing cs with
  | ind n ih =>
    by_cases hn : n < 16
    · rw [Nat.toDigits_of_lt_base hn] at h ⊢
      obtain ⟨room, rfl⟩ := Nat.exists_eq_add_of_le' h
      exact codePointFrom_digit hn
    · have hlast : n % 16 < 16 := Nat.mod_lt _ (by decide)
      have hsplit : Nat.toDigits 16 n =
          Nat.toDigits 16 (n / 16) ++ [(n % 16).digitChar] := by
        rw [← Nat.toDigits_of_lt_base hlast,
          Nat.toDigits_append_toDigits (by decide) (by omega) hlast, Nat.div_add_mod]
      rw [hsplit, List.length_append, List.length_singleton] at h ⊢
      rw [List.append_assoc, ih (n / 16) (by omega) (by omega), List.singleton_append]
      have hroom : room - (Nat.toDigits 16 (n / 16)).length =
          room - ((Nat.toDigits 16 (n / 16)).length + 1) + 1 := by omega
      have hpow : Nat.pow 16 ((Nat.toDigits 16 (n / 16)).length + 1) =
          Nat.pow 16 (Nat.toDigits 16 (n / 16)).length * 16 := rfl
      rw [hroom, codePointFrom_digit hlast, hpow, Nat.add_mul]
      congr 1
      rw [Nat.mul_assoc, Nat.add_assoc, Nat.div_add_mod']

/-- Six digits are room enough for every code point. -/
theorem codePoint_lt (c : Char) : c.toNat < Nat.pow 16 6 := by
  have := c.valid
  simp only [UInt32.isValidChar, Nat.isValidChar] at this
  have h : c.toNat = c.val.toNat := rfl
  have hpow : Nat.pow 16 6 = 0x1000000 := rfl
  omega

/-- A code point in braces is read back. -/
theorem escape_codePoint (c : Char) (cs : List Char) :
    escape ('u' :: '\x7b' :: Nat.toDigits 16 c.toNat ++ '\x7d' :: cs) = .ok (c, cs) := by
  have hroom : (Nat.toDigits 16 c.toNat).length ≤ 6 :=
    (Nat.length_toDigits_le_iff (by decide) (by decide)).2 (codePoint_lt c)
  simp only [List.cons_append, escape]
  rw [codePointFrom_toDigits hroom, Nat.zero_mul, Nat.zero_add]
  simp only [codePointFrom, scalar?_toNat, if_true]

theorem textBody_plain {c : Char} {cs : List Char} (hq : c ≠ '"') (hb : c ≠ '\\') :
    textBody (c :: cs) = (textBody cs).map fun r => (c :: r.1, r.2) := by
  rw [textBody]
  · cases textBody cs <;> rfl
  · simpa using hq
  · simpa using hb

theorem textBody_of_escape {c : Char} {cs rest : List Char} (h : escape cs = .ok (c, rest)) :
    textBody ('\\' :: cs) = (textBody rest).map fun r => (c :: r.1, r.2) := by
  rw [textBody]
  split
  · next h' => rw [h] at h'; cases h'
  · next h' =>
    rw [h] at h'
    cases h'
    cases textBody rest <;> rfl

/-- What is written for a character is read as that character. -/
theorem textBody_escape_append (style : Quoted.Style) (c : Char) (cs : List Char) :
    textBody (Quoted.escape style c ++ cs) = (textBody cs).map fun r => (c :: r.1, r.2) := by
  unfold Quoted.escape
  split
  · next h => subst h; exact textBody_of_escape rfl
  split
  · next h => subst h; exact textBody_of_escape rfl
  split
  · next h => subst h; exact textBody_of_escape rfl
  split
  · next h => subst h; exact textBody_of_escape rfl
  split
  · next h =>
    refine textBody_of_escape ?_
    obtain rfl | rfl | ⟨rfl, _⟩ := h <;> rfl
  · next h =>
    split
    · exact textBody_plain (fun hq => h (.inr (.inl hq))) (fun hb => h (.inl hb))
    · rw [Quoted.codePoint]
      exact textBody_of_escape (by simpa using escape_codePoint c cs)

theorem textBody_flatMap (style : Quoted.Style) (cs rest : List Char) :
    textBody (cs.flatMap (Quoted.escape style) ++ '"' :: rest) = .ok (cs, rest) := by
  induction cs with
  | nil => rw [List.flatMap_nil, List.nil_append, textBody]
  | cons c cs ih => rw [List.flatMap_cons, List.append_assoc, textBody_escape_append, ih]; rfl

/-- What is written for a text is read as that text, whatever follows. -/
theorem text_quote (style : Quoted.Style) (s : String) (rest : List Char) :
    text (Quoted.quote style s.toList ++ rest) = .ok (s, rest) := by
  simp only [Quoted.quote, text, List.cons_append, List.append_assoc, textBody_flatMap]
  simp [Bind.bind, Except.bind, pure, Except.pure]

end Ron

end FrameGraph
