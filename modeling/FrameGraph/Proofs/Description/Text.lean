import FrameGraph.Description.Text
import FrameGraph.Proofs.Ron.Written

/-!
# Descriptions survive their text

The text of a description is read as that description (`Description.ofText_toText`). Each record is
written for its reader as soon as its fields are, so the proof follows the records: nodes and ports
are made of texts and names, links of ports, descriptions of nodes and links. The reader that finds
a record does not look past its closing bracket, which lets a description be followed by nothing.
-/

namespace FrameGraph

open Ron

theorem NodeEntry.reader_layout (s : Scope) (e : NodeEntry) (n : Nat) (rest : List Char) :
    reader s (e.layout n ++ rest) = .ok (e, rest) := by
  have hkey := written_text e.key
  have hkind : Written (oneOf "kind" PassKind.all PassKind.name) (.word e.kind.name) e.kind :=
    written_oneOf (by cases e.kind <;> decide) (by cases e.kind <;> decide)
  have hname : Written (optional s.bare text) (.optional (e.name.map .quote)) e.name :=
    written_optional s.bare fun name _ => written_text name
  have hfields : fieldsOf "NodeDescription" (NodeFields.all s) s {} (e.layout n ++ rest) =
      .ok ({ key := some e.key, kind := some e.kind, name := some e.name }, rest) := by
    refine fieldsOf_fields (.field ?_ rfl rfl hkey <| .field ?_ rfl rfl hkind <|
      .field ?_ rfl rfl hname .nil) ..
    all_goals decide
  unfold reader
  rw [hfields]
  rfl

theorem PortRef.reader_layout (s : Scope) (p : PortRef) (n : Nat) (rest : List Char) :
    reader s (p.layout n ++ rest) = .ok (p, rest) := by
  have hnode := written_text p.node
  have hport := written_text p.port
  have hfields : fieldsOf "PortRef" PortFields.all s {} (p.layout n ++ rest) =
      .ok ({ node := some p.node, port := some p.port }, rest) := by
    refine fieldsOf_fields (.field ?_ rfl rfl hnode <| .field ?_ rfl rfl hport .nil) ..
    all_goals decide
  unfold reader
  rw [hfields]
  rfl

theorem LinkEntry.reader_layout (s : Scope) (l : LinkEntry) (n : Nat) (rest : List Char) :
    reader s (l.layout n ++ rest) = .ok (l, rest) := by
  have hport (p : PortRef) : Written (PortRef.reader s.into) p.layout p :=
    written_fields (PortRef.reader_layout s.into p)
  have hfields : fieldsOf "LinkDescription" (LinkFields.all s) s {} (l.layout n ++ rest) =
      .ok ({ source := some l.source, target := some l.target }, rest) := by
    refine fieldsOf_fields (.field ?_ rfl rfl (hport l.source) <|
      .field ?_ rfl rfl (hport l.target) .nil) ..
    all_goals decide
  unfold reader
  rw [hfields]
  rfl

namespace Description

theorem reader_layout (s : Scope) (d : Description) (n : Nat) (rest : List Char) :
    reader s (d.layout n ++ rest) = .ok (d, rest) := by
  have hnodes : Written (listOf (NodeEntry.reader s.into.into))
      (.list (d.nodes.map NodeEntry.layout)) d.nodes :=
    written_list fun e _ => written_fields (NodeEntry.reader_layout s.into.into e)
  have hlinks : Written (listOf (LinkEntry.reader s.into.into))
      (.list (d.links.map LinkEntry.layout)) d.links :=
    written_list fun l _ => written_fields (LinkEntry.reader_layout s.into.into l)
  have hfields : fieldsOf "GraphDescription" (DescriptionFields.all s) s {} (d.layout n ++ rest) =
      .ok ({ nodes := some d.nodes, links := some d.links }, rest) := by
    refine fieldsOf_fields (.field ?_ rfl rfl hnodes <| .field ?_ rfl rfl hlinks .nil) ..
    all_goals decide
  unfold reader
  rw [hfields]
  rfl

/-- The text of a description is read as that description. -/
theorem ofText_toText (d : Description) : ofText d.toText = .ok d := by
  have hbegins : ∃ cs, d.layout 0 = '(' :: cs := by
    unfold layout Layout.fields
    exact Layout.exists_bracket ..
  obtain ⟨cs, hcs⟩ := hbegins
  have hskip : skipSpace (d.layout 0) = .ok (d.layout 0) := by
    rw [hcs, skipSpace_of_ne rfl (by decide)]
  have hplain : attributesWithin (d.layout 0).length (d.layout 0) = .ok ([], d.layout 0) := by
    rw [hcs]
    rfl
  have hread := reader_layout {} d 0 []
  rw [List.append_nil] at hread
  have hdoc : document reader (d.layout 0) = .ok d := by
    unfold document
    simp only [hskip, hplain, hread, bind, Except.bind, List.not_mem_nil, decide_false]
    rfl
  rw [ofText, toText, String.toList_ofList, hdoc]

example : toText {} = "(\n    nodes: [],\n    links: [],\n)" := by decide

end Description

end FrameGraph
