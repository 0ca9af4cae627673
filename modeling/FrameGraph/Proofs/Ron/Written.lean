import FrameGraph.Ron.Document
import FrameGraph.Ron.Layout
import FrameGraph.Ron.Quotation.Lemmas

/-!
# Reading what was written

A layout is written for a reader if the reader takes its text for the value that it was made from
(`Ron.Written`). Values stand in front of a comma or a closing bracket, where names end, and begin
with a character that is neither space nor a closing bracket. With these two facts about each item
the items between brackets are read one by one (`Ron.Taken.items_bracket`), and from that follow
lists and records of whatever is written for a reader.
-/

namespace FrameGraph

namespace Ron

/-! ## Space -/

/-- Whether a character closes a list or a record. -/
def closes (c : Char) : Bool := c = ')' || c = ']'

/-- Whether a value can begin with a character: it is neither blank, nor does it begin a comment,
nor does it close a bracket. -/
def beginsValue (c : Char) : Bool := !isBlank c && c != '/' && !closes c

/-- Whether a character stands right behind values. -/
def endsValue (c : Char) : Bool := c = ',' || closes c

theorem endsValue_of_closes {c : Char} (h : closes c = true) : endsValue c = true := by
  simp [endsValue, h]

theorem skipSpace_of_ne {c : Char} (hblank : isBlank c = false) (hslash : c ≠ '/')
    (cs : List Char) : skipSpace (c :: cs) = .ok (c :: cs) := by
  unfold skipSpace
  rw [skipFrom]
  · simp [hblank]
  all_goals simp [hslash]

theorem skipSpace_blank {c : Char} (hblank : isBlank c = true) (cs : List Char) :
    skipSpace (c :: cs) = skipSpace cs := by
  have hslash : c ≠ '/' := by
    rintro rfl
    cases hblank
  unfold skipSpace
  rw [skipFrom]
  · simp [hblank]
  all_goals simp [hslash]

theorem skipSpace_indent (n : Nat) (cs : List Char) :
    skipSpace (Layout.indent n ++ cs) = skipSpace cs := by
  unfold Layout.indent
  induction 4 * n with
  | zero => rfl
  | succ k ih =>
    rw [List.replicate_succ, List.cons_append, skipSpace_blank rfl, ih]

theorem skipSpace_beginsValue {c : Char} (h : beginsValue c = true) (cs : List Char) :
    skipSpace (c :: cs) = .ok (c :: cs) := by
  simp only [beginsValue, Bool.and_eq_true, Bool.not_eq_true', bne_iff_ne] at h
  exact skipSpace_of_ne h.1.1 h.1.2 cs

theorem skipSpace_endsValue {c : Char} (h : endsValue c = true) (cs : List Char) :
    skipSpace (c :: cs) = .ok (c :: cs) := by
  simp only [endsValue, closes, Bool.or_eq_true, decide_eq_true_eq] at h
  obtain rfl | rfl | rfl := h
  all_goals exact skipSpace_of_ne rfl (by decide) cs

/-- Nothing is left to skip behind skipped space. -/
theorem skipSpace_skipped {cs rest : List Char} (h : skipSpace cs = .ok rest) :
    skipSpace rest = .ok rest := by
  have hfrom : ∀ spot cs, skipFrom spot cs = .ok rest → skipSpace rest = .ok rest := by
    intro spot cs h
    fun_induction skipFrom spot cs with
    | case3 | case4 | case12 => cases h
    | case6 c cs _ _ _ hslash hblank =>
      cases h
      exact skipSpace_of_ne (Bool.eq_false_iff.mpr hblank) hslash cs
    | case13 =>
      cases h
      rfl
    | _ => solve_by_elim
  exact hfrom .between cs h

/-- There is no comma in front of a closing bracket. -/
theorem comma_closes {c : Char} (h : closes c = true) (cs : List Char) :
    comma (c :: cs) = .ok (false, c :: cs) := by
  unfold comma
  simp only [skipSpace_endsValue (endsValue_of_closes h), bind, Except.bind]
  split
  · next heq =>
    cases heq
    cases h
  · rfl

/-- A comma is taken with the space behind it. -/
theorem comma_comma {cs rest : List Char} (h : skipSpace cs = .ok rest) :
    comma (',' :: cs) = .ok (true, rest) := by
  unfold comma
  simp only [skipSpace_endsValue (c := ',') rfl, bind, Except.bind, h, pure, Except.pure]

/-! ## Values in front of a comma or a closing bracket -/

/-- The layout is of the value: its text begins as values do, and in front of a comma or a closing
bracket it is read as the value. -/
structure Written {α : Type} (r : Reader α) (layout : Layout) (a : α) : Prop where
  begins : ∀ n, ∃ c cs, layout n = c :: cs ∧ beginsValue c = true
  reads : ∀ n {c : Char} (rest : List Char), endsValue c = true →
    r (layout n ++ c :: rest) = .ok (a, c :: rest)

namespace Written

variable {α : Type} {r : Reader α} {w : Layout} {a : α}

/-- No space stands in front of the value. -/
theorem skipSpace_append (h : Written r w a) (n : Nat) (cs : List Char) :
    skipSpace (w n ++ cs) = .ok (w n ++ cs) := by
  obtain ⟨c, ds, hw, hc⟩ := h.begins n
  rw [hw, List.cons_append, skipSpace_beginsValue hc]

/-- What is made of a value is read where the value is. -/
theorem map {β : Type} (h : Written r w a) (f : α → β) :
    Written (fun cs => do let (v, rest) ← r cs; return (f v, rest)) w (f a) where
  begins := h.begins
  reads n c rest hc := by
    simp only [h.reads n rest hc, bind, Except.bind]
    rfl

end Written

/-- Whether a text is a name that no reader takes for the beginning of something else. -/
def isPlainName (s : String) : Bool :=
  match s.toList with
  | [] => false
  | c :: cs => startsName c && c != 'r' && cs.all inName

theorem inName_of_startsName {c : Char} (h : startsName c = true) : inName c = true := by
  simp only [startsName, inName, Char.isAlphanum, Bool.or_eq_true] at h ⊢
  exact h.imp_left .inl

theorem inRawName_of_inName {c : Char} (h : inName c = true) : inRawName c = true := by
  simp [inRawName, h]

/-- A name is read up to the first character that no name has. -/
theorem name_append {s : String} (hs : isPlainName s = true) {c : Char}
    (hc : inRawName c = false) (rest : List Char) :
    name (s.toList ++ c :: rest) = .ok (s, c :: rest) := by
  unfold isPlainName at hs
  split at hs
  · cases hs
  · next d ds hd =>
    simp only [Bool.and_eq_true, bne_iff_ne, List.all_eq_true] at hs
    obtain ⟨⟨hstarts, hr⟩, hall⟩ := hs
    have hname : ∀ x ∈ d :: ds, inName x = true :=
      List.forall_mem_cons.mpr ⟨inName_of_startsName hstarts, hall⟩
    have hraw : ∀ x ∈ d :: ds, inRawName x = true := fun x hx => inRawName_of_inName (hname x hx)
    have hstop : inName c = false := by
      rw [Bool.eq_false_iff]
      intro hin
      rw [inRawName_of_inName hin] at hc
      cases hc
    have htake : ∀ {p : Char → Bool}, (∀ x ∈ d :: ds, p x = true) → p c = false →
        (s.toList ++ c :: rest).takeWhile p = s.toList ∧
          (s.toList ++ c :: rest).dropWhile p = c :: rest := by
      intro p hp hpc
      rw [hd, List.takeWhile_append_of_pos hp, List.dropWhile_append_of_pos hp]
      simp [hpc]
    obtain ⟨htakeName, hdropName⟩ := htake hname hstop
    obtain ⟨htakeRaw, -⟩ := htake hraw hc
    have hrun : run inName (s.toList ++ c :: rest) = (s, c :: rest) := by
      rw [run, htakeName, hdropName, String.ofList_toList]
    rw [hd, List.cons_append] at htakeName htakeRaw hrun ⊢
    rw [name]
    · rw [hstarts, htakeName, htakeRaw, hrun]
      simp only [Bool.not_true, Bool.false_eq_true, if_false, if_true]
    all_goals simp [hr]

theorem inRawName_of_endsValue {c : Char} (h : endsValue c = true) : inRawName c = false := by
  simp only [endsValue, closes, Bool.or_eq_true, decide_eq_true_eq] at h
  obtain rfl | rfl | rfl := h <;> rfl

theorem beginsValue_of_startsName {c : Char} (h : startsName c = true) : beginsValue c = true := by
  simp only [beginsValue, closes, isBlank, Bool.and_eq_true, Bool.not_eq_true',
    Bool.or_eq_false_iff, decide_eq_false_iff_not, bne_iff_ne]
  refine ⟨⟨⟨⟨⟨?_, ?_⟩, ?_⟩, ?_⟩, ?_⟩, ?_, ?_⟩
  all_goals
    rintro rfl
    cases h

theorem exists_of_isPlainName {s : String} (h : isPlainName s = true) :
    ∃ c cs, s.toList = c :: cs ∧ beginsValue c = true := by
  unfold isPlainName at h
  split at h
  · cases h
  · next c cs hs =>
    simp only [Bool.and_eq_true] at h
    exact ⟨c, cs, hs, beginsValue_of_startsName h.1.1⟩

/-- A value with a plain name of its own is written by its name. -/
theorem written_oneOf {α : Type} {what : String} {all : List α} {nameOf : α → String} {a : α}
    (hname : isPlainName (nameOf a) = true) (hfind : all.find? (nameOf · == nameOf a) = some a) :
    Written (oneOf what all nameOf) (.word (nameOf a)) a where
  begins _ := exists_of_isPlainName hname
  reads n c rest hc := by
    unfold oneOf Layout.word
    simp only [name_append hname (inRawName_of_endsValue hc), bind, Except.bind, hfind]
    rfl

theorem written_text (s : String) : Written text (.quote s) s where
  begins _ := ⟨'"', _, rfl, rfl⟩
  reads _ _ _ _ := text_quote .strict s _

theorem afterWord?_append (word : String) (cs : List Char) :
    afterWord? word (word.toList ++ cs) = some cs := by
  unfold afterWord?
  rw [if_pos (by simp)]
  rw [← String.length_toList, List.drop_left]

/-- A value that may be absent is written as `None` or in `Some( )`. -/
theorem written_optional {α : Type} {value : Reader α} {w : α → Layout} (bare : Bool)
    {a? : Option α} (h : ∀ a ∈ a?, Written value (w a) a) :
    Written (optional bare value) (.optional (a?.map w)) a? where
  begins n := by
    cases a? with
    | none => exact ⟨'N', _, rfl, rfl⟩
    | some a => exact ⟨'S', _, rfl, rfl⟩
  reads n c rest hc := by
    cases a? with
    | none =>
      unfold optional Layout.optional
      simp only [Option.map_none, afterWord?_append]
      rfl
    | some a =>
      have ha := h a rfl
      have hshape : "Some(".toList ++ w a n ++ [')'] ++ c :: rest =
          "Some".toList ++ '(' :: (w a n ++ ')' :: c :: rest) := by simp
      have hnone : afterWord? "None" ("Some".toList ++ '(' :: (w a n ++ ')' :: c :: rest)) =
          none := rfl
      have hopen : skipSpace ('(' :: (w a n ++ ')' :: c :: rest)) =
          .ok ('(' :: (w a n ++ ')' :: c :: rest)) := skipSpace_of_ne rfl (by decide) _
      have hread := ha.reads n (c := ')') (c :: rest) rfl
      have hcomma : comma (')' :: c :: rest) = .ok (false, ')' :: c :: rest) := comma_closes rfl _
      unfold optional Layout.optional
      simp only [Option.map_some, hshape, hnone, afterWord?_append, hopen, ha.skipSpace_append,
        hread, hcomma, expect, bind, Except.bind, Functor.map, Except.map, pure, Except.pure,
        if_true]

/-! ## Items between brackets -/

section Items

variable {σ : Type} {item : σ → Reader σ} {close : Char} {ws : List Layout} {s t : σ}

/-- An item on a line of its own. -/
def Layout.line (n : Nat) (w : Layout) : List Char := indent n ++ w n ++ [',', '\n']

theorem Layout.length_le_lines (ws : List Layout) (n : Nat) :
    ws.length ≤ (ws.flatMap (line n)).length := by
  induction ws with
  | nil => exact Nat.le_refl _
  | cons w ws ih =>
    simp only [List.flatMap_cons, List.length_append, List.length_cons, line]
    omega

theorem itemsUpTo_congr {cs ds : List Char} (h : skipSpace cs = skipSpace ds) (room : Nat) :
    itemsUpTo close item (room + 1) s cs = itemsUpTo close item (room + 1) s ds := by
  rw [itemsUpTo, itemsUpTo, h]

/-- One state becomes another by the items of the layouts, one after the other. -/
inductive Taken (item : σ → Reader σ) : List Layout → σ → σ → Prop
  | nil {s : σ} : Taken item [] s s
  | cons {w : Layout} {ws : List Layout} {s t u : σ} :
    Written (item s) w t → Taken item ws t u → Taken item (w :: ws) s u

/-- The space in front of the next item, or of the closing bracket, can be skipped. -/
theorem Taken.exists_skipSpace (h : Taken item ws s t) (hclose : closes close = true)
    (n m : Nat) (rest : List Char) : ∃ cs,
    skipSpace (ws.flatMap (Layout.line n) ++ (Layout.indent m ++ close :: rest)) = .ok cs := by
  cases h with
  | nil =>
    refine ⟨close :: rest, ?_⟩
    rw [List.flatMap_nil, List.nil_append, skipSpace_indent,
      skipSpace_endsValue (endsValue_of_closes hclose)]
  | cons hw _ =>
    simp only [List.flatMap_cons, Layout.line, List.append_assoc]
    rw [skipSpace_indent]
    exact ⟨_, hw.skipSpace_append ..⟩

/-- The items are taken one by one, each with its comma, up to the closing bracket. -/
theorem Taken.itemsUpTo_lines (h : Taken item ws s t) (hclose : closes close = true)
    (n m : Nat) (rest : List Char) {room : Nat} (hroom : ws.length < room) :
    itemsUpTo close item room s
        (ws.flatMap (Layout.line n) ++ (Layout.indent m ++ close :: rest)) =
      .ok (t, close :: rest) := by
  induction h generalizing room with
  | nil =>
    obtain ⟨room, rfl⟩ := Nat.exists_eq_add_one_of_ne_zero (Nat.ne_zero_of_lt hroom)
    rw [List.flatMap_nil, List.nil_append, itemsUpTo, skipSpace_indent,
      skipSpace_endsValue (endsValue_of_closes hclose)]
    simp only [bind, Except.bind, if_true]
    rfl
  | @cons w ws s t u hw hws ih =>
    obtain ⟨room, rfl⟩ := Nat.exists_eq_add_one_of_ne_zero (Nat.ne_zero_of_lt hroom)
    have hmore : ws.length < room := Nat.lt_of_succ_lt_succ hroom
    obtain ⟨room, rfl⟩ := Nat.exists_eq_add_one_of_ne_zero (Nat.ne_zero_of_lt hmore)
    obtain ⟨c, cs, hc, hbegins⟩ := hw.begins n
    have hne : c ≠ close := by
      rintro rfl
      simp [beginsValue, hclose] at hbegins
    obtain ⟨tail, htail⟩ := hws.exists_skipSpace hclose n m rest
    let lines := ws.flatMap (Layout.line n) ++ (Layout.indent m ++ close :: rest)
    have hskip := hw.skipSpace_append n (',' :: '\n' :: lines)
    have hread := hw.reads n ('\n' :: lines) (c := ',') rfl
    have hcomma : comma (',' :: '\n' :: lines) = .ok (true, tail) :=
      comma_comma ((skipSpace_blank rfl lines).trans htail)
    -- The rest is read from behind the space that the comma takes with it.
    have hrest : itemsUpTo close item (room + 1) t tail = .ok (u, close :: rest) := by
      rw [itemsUpTo_congr ((skipSpace_skipped htail).trans htail.symm), ih hmore]
    rw [hc, List.cons_append] at hskip hread
    simp only [List.flatMap_cons, Layout.line, List.append_assoc, List.cons_append,
      List.nil_append, hc]
    rw [itemsUpTo, skipSpace_indent, hskip]
    simp only [bind, Except.bind, hne, if_false, hread, hcomma, if_true]
    exact hrest

/-- Between brackets the items are taken, and the closing bracket with them. -/
theorem Taken.items_bracket (h : Taken item ws s t) (hclose : closes close = true)
    (first : Char) (n : Nat) (rest : List Char) : ∃ body,
    Layout.bracket first close ws n ++ rest = first :: body ∧
      items close item s body = .ok (t, rest) := by
  have hbody : ∀ {body : List Char},
      itemsUpTo close item (body.length + 1) s body = .ok (t, close :: rest) →
      items close item s body = .ok (t, rest) := by
    intro body hitems
    simp only [items, hitems, bind, Except.bind, expect, if_true]
    rfl
  unfold Layout.bracket
  split
  · next hempty =>
    rw [List.isEmpty_iff] at hempty
    subst hempty
    refine ⟨close :: rest, rfl, hbody ?_⟩
    exact h.itemsUpTo_lines hclose 0 0 rest (Nat.succ_pos _)
  · refine ⟨'\n' :: (ws.flatMap (Layout.line (n + 1)) ++ (Layout.indent n ++ close :: rest)), ?_,
      hbody ?_⟩
    · change first :: '\n' :: ws.flatMap (Layout.line (n + 1)) ++ Layout.indent n ++ [close] ++
        rest = _
      simp only [List.cons_append, List.append_assoc, List.nil_append]
    · have hroom := Layout.length_le_lines ws (n + 1)
      rw [itemsUpTo_congr (skipSpace_blank rfl _), h.itemsUpTo_lines hclose]
      simp only [List.length_cons, List.length_append]
      omega

end Items

/-! ## Lists and records -/

theorem Layout.exists_bracket (first last : Char) (ws : List Layout) (n : Nat) :
    ∃ cs, bracket first last ws n = first :: cs := by
  unfold bracket
  split
  · exact ⟨_, rfl⟩
  · exact ⟨_, rfl⟩

section Lists

variable {α : Type} {value : Reader α} {w : α → Layout} {as : List α}

/-- The values are found one by one, the last one first. -/
theorem Taken.found (h : ∀ a ∈ as, Written value (w a) a) (found : List α) :
    Taken (fun found cs => do let (x, rest) ← value cs; return (x :: found, rest)) (as.map w)
      found (as.reverse ++ found) := by
  induction as generalizing found with
  | nil => exact .nil
  | cons a as ih =>
    obtain ⟨ha, has⟩ := List.forall_mem_cons.mp h
    have hrest := ih has (a :: found)
    rw [List.reverse_cons, List.append_assoc]
    exact .cons (ha.map (· :: found)) hrest

/-- A list of what is written for a reader is written for the reader of lists. -/
theorem written_list (h : ∀ a ∈ as, Written value (w a) a) :
    Written (listOf value) (.list (as.map w)) as where
  begins n := by
    obtain ⟨cs, hcs⟩ := Layout.exists_bracket '[' ']' (as.map w) n
    exact ⟨'[', cs, hcs, rfl⟩
  reads n c rest _ := by
    have hclose : closes ']' = true := rfl
    obtain ⟨body, hbody, hitems⟩ := (Taken.found h []).items_bracket hclose '[' n (c :: rest)
    unfold listOf Layout.list
    rw [hbody]
    simp only [expect, if_true, bind, Except.bind, pure, Except.pure] at hitems ⊢
    simp only [hitems, List.append_nil, List.reverse_reverse]

end Lists

section Records

variable {σ α : Type} {fields : List (RecordField σ)} {scope : Scope} {s t : σ}

/-- A field, from its name and value, as `Layout.fields` has it. -/
def Layout.field (f : String × Layout) : Layout := fun n => f.1.toList ++ ':' :: ' ' :: f.2 n

/-- A field that is not known yet is written by its name and its value. -/
theorem written_field {field : String} {value : Reader α} {known : σ → Option α}
    {keep : σ → α → σ} {w : Layout} {a : α} (hname : isPlainName field = true)
    (hfind : fields.find? (·.name == field) = some (.of field value known keep))
    (hknown : known s = none) (h : Written value w a) :
    Written (fieldIn fields scope s) (.field (field, w)) (keep s a) where
  begins n := by
    obtain ⟨c, cs, hc, hbegins⟩ := exists_of_isPlainName hname
    refine ⟨c, cs ++ ':' :: ' ' :: w n, ?_, hbegins⟩
    rw [Layout.field, hc, List.cons_append]
  reads n c rest hc := by
    have hcolon : skipSpace (':' :: ' ' :: (w n ++ c :: rest)) =
        .ok (':' :: ' ' :: (w n ++ c :: rest)) := skipSpace_of_ne rfl (by decide) _
    have hvalue : skipSpace (' ' :: (w n ++ c :: rest)) = .ok (w n ++ c :: rest) := by
      rw [skipSpace_blank rfl, h.skipSpace_append]
    have hread := (h.map (keep s)).reads n rest hc
    unfold fieldIn Layout.field
    simp only [List.append_assoc, List.cons_append, name_append hname (c := ':') rfl, hcolon,
      expect, hvalue, if_true, bind, Except.bind, hfind]
    simp only [RecordField.of, hknown, Option.isSome_none, Bool.false_eq_true, if_false]
    exact hread

theorem Taken.field {field : String} {value : Reader α} {known : σ → Option α}
    {keep : σ → α → σ} {w : Layout} {a : α} {fs : List (String × Layout)}
    (hname : isPlainName field = true)
    (hfind : fields.find? (·.name == field) = some (.of field value known keep))
    (hknown : known s = none) (h : Written value w a)
    (hmore : Taken (fieldIn fields scope) (fs.map Layout.field) (keep s a) t) :
    Taken (fieldIn fields scope) (((field, w) :: fs).map Layout.field) s t :=
  .cons (written_field hname hfind hknown h) hmore

/-- A record is read back, whatever follows its closing bracket. -/
theorem fieldsOf_fields {fs : List (String × Layout)}
    (h : Taken (fieldIn fields scope) (fs.map Layout.field) s t)
    (title : String) (n : Nat) (rest : List Char) :
    fieldsOf title fields scope s (Layout.fields fs n ++ rest) = .ok (t, rest) := by
  have hclose : closes ')' = true := rfl
  obtain ⟨body, hbody, hitems⟩ := h.items_bracket hclose '(' n rest
  have htitle : skipTitle title ('(' :: body) = .ok ('(' :: body) := rfl
  have hopen : skipSpace ('(' :: body) = .ok ('(' :: body) := skipSpace_of_ne rfl (by decide) _
  have hfields : Layout.fields fs n ++ rest = '(' :: body := hbody
  unfold fieldsOf
  rw [hfields]
  simp only [htitle, hopen, expect, if_true, bind, Except.bind, hitems]

/-- A record that is read back whatever follows is written for its reader. -/
theorem written_fields {r : Reader α} {fs : List (String × Layout)} {a : α}
    (h : ∀ n rest, r (Layout.fields fs n ++ rest) = .ok (a, rest)) :
    Written r (.fields fs) a where
  begins n := by
    obtain ⟨cs, hcs⟩ := Layout.exists_bracket '(' ')' _ n
    exact ⟨'(', cs, hcs, rfl⟩
  reads n c rest _ := h n (c :: rest)

end Records

end Ron

end FrameGraph
