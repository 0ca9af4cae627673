import FrameGraph.Proofs.Editor.WellFormed
import Mathlib.Logic.Relation

/-!
# Accepted edits

The editor changes the first node, port or edge that has the id it is given. In a well-formed graph
there is no other one, and what an accepted edit leaves is the graph that `Editor.Change` describes
(`Editor.WellFormed.edit_ok`). So every editor that can be reached, by edits or from a description,
arises from the empty graph by such changes alone (`Editor.Reachable.changes`), all of which keep it
well-formed. What a change keeps holds of every editor that can be reached
(`Editor.Reachable.induct`).
-/

namespace FrameGraph

/-! ## The first of an id and all of it -/

section

variable {α : Type} {key : α → Nat} {a : α} {as : List α}

theorem key_ne_of_mem (h : ((a :: as).map key).Nodup) : ∀ b ∈ as, key b ≠ key a :=
  fun _ hb hk => (List.nodup_cons.mp h).1 (hk ▸ List.mem_map_of_mem hb)

/-- Where keys are distinct, the first member with a key is the only one. -/
theorem changeFirst_eq_map (h : (as.map key).Nodup) (k : Nat) (change : α → α) :
    changeFirst (key · == k) change as = as.map fun a => if key a = k then change a else a := by
  induction as with
  | nil => rfl
  | cons a as ih =>
    rw [changeFirst, List.map_cons, ih (List.nodup_cons.mp h).2]
    by_cases ha : key a = k
    · have hsame : as.map (fun b => if key b = k then change b else b) = as :=
        (List.map_congr_left fun b hb => if_neg (ha ▸ key_ne_of_mem h b hb)).trans (List.map_id _)
      rw [if_pos (beq_iff_eq.mpr ha), if_pos ha, hsame]
    · rw [if_neg (mt beq_iff_eq.mp ha), if_neg ha]

theorem eraseP_eq_filter (h : (as.map key).Nodup) (k : Nat) :
    as.eraseP (key · == k) = as.filter (key · != k) := by
  induction as with
  | nil => rfl
  | cons a as ih =>
    rw [List.eraseP_cons, List.filter_cons]
    by_cases ha : key a = k
    · have hsame : as.filter (key · != k) = as :=
        List.filter_eq_self.mpr fun b hb => bne_iff_ne.mpr (ha ▸ key_ne_of_mem h b hb)
      simp only [ha, beq_self_eq_true, bne_self_eq_false, cond_true, Bool.false_eq_true, if_false,
        hsame]
    · simp only [beq_false_of_ne ha, bne_iff_ne.mpr ha, cond_false, if_true,
        ih (List.nodup_cons.mp h).2]

end

theorem Node.sublist_ids (nodes : List Node) :
    (nodes.map (·.id)).Sublist (nodes.flatMap Node.ids) := by
  rw [List.map_eq_flatMap]
  exact List.Sublist.flatMap_right _ fun n _ => List.singleton_sublist.mpr List.mem_cons_self

namespace Editor

variable {e e' : Editor} {nodes : List Node}

/-- Marking a port sets its flag and no other. -/
theorem mark_eq (h : (nodes.flatMap Node.ids).Nodup) (port : Endpoint) (connected : Bool) :
    mark nodes port connected = marked nodes port connected := by
  rw [mark, changeFirst_eq_map ((Node.sublist_ids nodes).nodup h)]
  refine List.map_congr_left fun n hn => ?_
  have hports : (n.ports.map (·.id)).Nodup := ((List.nodup_flatMap.mp h).1 n hn).of_cons
  rw [changeFirst_eq_map hports]
  split
  · next hid =>
    simp only [Node.withFlags]
    congr 1
    refine List.map_congr_left fun p _ => ?_
    simp only [Endpoint.isAt, hid, beq_self_eq_true, Bool.true_and, beq_iff_eq, eq_comm (b := p.id)]
    split <;> rfl
  · next hid =>
    have hflag : ∀ p : Port, port.isAt n.id p.id = false := fun p => by
      simp only [Endpoint.isAt, beq_false_of_ne (Ne.symm hid), Bool.false_and]
    simp only [hflag, Bool.false_eq_true, if_false, Node.withFlags_connected]

theorem ids_marked (nodes : List Node) (port : Endpoint) (connected : Bool) :
    (marked nodes port connected).flatMap Node.ids = nodes.flatMap Node.ids := by
  simp only [marked, List.flatMap_map, Node.ids_withFlags]

@[simp] theorem freed_nil (nodes : List Node) : freed nodes [] = nodes := by
  simp [freed, Node.withFlags_connected]

theorem freed_cons (edge : Edge) (gone : List Edge) (nodes : List Node) :
    freed nodes (edge :: gone) = freed (marked nodes edge.stop false) gone := by
  simp only [freed, marked, List.map_map]
  refine List.map_congr_left fun n _ => ?_
  simp only [Function.comp_apply, Node.withFlags, List.map_map, List.any_cons]
  congr 1
  refine List.map_congr_left fun p _ => ?_
  simp only [Function.comp_apply]
  cases edge.stop.isAt n.id p.id <;> simp

/-- Freeing the inputs of several edges frees those that one of them ends at. -/
theorem foldl_mark_eq (h : (nodes.flatMap Node.ids).Nodup) (gone : List Edge) :
    gone.foldl (fun nodes edge => mark nodes edge.stop false) nodes = freed nodes gone := by
  induction gone generalizing nodes with
  | nil => exact (freed_nil nodes).symm
  | cons edge gone ih =>
    rw [List.foldl_cons, mark_eq h, ih (by rwa [ids_marked]), freed_cons]

namespace WellFormed

theorem nodes_ids_nodup (h : e.WellFormed) : (e.nodes.flatMap Node.ids).Nodup :=
  (List.nodup_append.mp h.ids_nodup).1

theorem edges_nodup (h : e.WellFormed) : (e.edges.map (·.id)).Nodup :=
  (List.nodup_append.mp h.ids_nodup).2.1

theorem nodes_nodup (h : e.WellFormed) : (e.nodes.map (·.id)).Nodup :=
  (Node.sublist_ids e.nodes).nodup h.nodes_ids_nodup

theorem mark_eq (h : e.WellFormed) (port : Endpoint) (connected : Bool) :
    mark e.nodes port connected = marked e.nodes port connected :=
  Editor.mark_eq h.nodes_ids_nodup port connected

end WellFormed

/-! ## What accepted edits leave -/

namespace WellFormed

theorem remove_eq (hw : e.WellFormed) (id : NodeId) : e.remove id =
    match e.node? id with
    | none => .error (.unknownNode id)
    | some n => .ok (⟨n, e.edges.filter (·.touches id)⟩, e.withoutNode id) := by
  have hrest : ((e.nodes.filter (·.id != id)).flatMap Node.ids).Nodup :=
    (List.filter_sublist.flatMap _).nodup hw.nodes_ids_nodup
  unfold remove
  cases e.node? id with
  | none => rfl
  | some n =>
    simp only [eraseP_eq_filter hw.nodes_nodup, foldl_mark_eq hrest]
    rfl

theorem disconnect_eq (hw : e.WellFormed) (id : EdgeId) : e.disconnect id =
    match e.edges.find? (·.id == id) with
    | none => .error (.unknownEdge id)
    | some edge => .ok (edge, { e with
        nodes := marked e.nodes edge.stop false, edges := e.edges.filter (·.id != id) }) := by
  unfold disconnect
  cases e.edges.find? (·.id == id) with
  | none => rfl
  | some edge => simp only [hw.mark_eq, eraseP_eq_filter hw.edges_nodup]

theorem remove_ok (hw : e.WellFormed) {id : NodeId} {r : Removal}
    (h : e.remove id = .ok (r, e')) : e' = e.withoutNode id := by
  rw [hw.remove_eq] at h
  split at h
  · cases h
  · cases h
    rfl

theorem disconnect_ok (hw : e.WellFormed) {id : EdgeId} {edge : Edge}
    (h : e.disconnect id = .ok (edge, e')) : edge ∈ e.edges ∧ e' = e.withoutEdge edge := by
  rw [hw.disconnect_eq] at h
  split at h
  · cases h
  · next edge hfind =>
    cases h
    have hid : edge.id = id := by simpa using List.find?_some hfind
    subst hid
    exact ⟨List.mem_of_find?_eq_some hfind, rfl⟩

end WellFormed

theorem WellFormed.link_ok (hw : e.WellFormed) {m n : Node} {o p : Port} {edge : Edge}
    (hm : m ∈ e.nodes) (ho : o ∈ m.ports) (hn : n ∈ e.nodes) (hp : p ∈ n.ports)
    (h : e.link (m.id, o) (n.id, p) = .ok (edge, e')) :
    e.Linkable m o n p ∧ edge = e.newEdge (m.id, o) (n.id, p) ∧
      e' = e.withEdge (m.id, o) (n.id, p) := by
  unfold link at h
  simp only [hw.mark_eq] at h
  split at h
  · cases h
  · next hne =>
    split at h
    · cases h
    · next hroles =>
      split at h
      · cases h
      · next hpayload =>
        cases hfresh : e.edges.find? (·.samePorts (e.newEdge (m.id, o) (n.id, p))) with
        | some other => simp only [hfresh] at h; cases h
        | none =>
          simp only [hfresh] at h
          split at h
          · cases h
          · next hfree =>
            cases h
            have hroles := not_or.mp hroles
            exact ⟨{
              start_mem := hm, output_mem := ho, stop_mem := hn, input_mem := hp, ne := hne
              output := Decidable.not_not.mp hroles.1, input := Decidable.not_not.mp hroles.2
              payload := Decidable.not_not.mp hpayload
              fresh := fun edge he => by simpa using List.find?_eq_none.mp hfresh edge he
              free := by simpa using hfree }, rfl, rfl⟩

/-- Ports that an edge may join are linked. -/
theorem Linkable.link {m n : Node} {o p : Port} (h : e.Linkable m o n p)
    (hids : (e.nodes.flatMap Node.ids).Nodup) : e.link (m.id, o) (n.id, p) =
      .ok (e.newEdge (m.id, o) (n.id, p), e.withEdge (m.id, o) (n.id, p)) := by
  have hroles : ¬ (o.role ≠ .output ∨ p.role ≠ .input) := by simp [h.output, h.input]
  have hfresh : e.edges.find? (·.samePorts (e.newEdge (m.id, o) (n.id, p))) = none :=
    List.find?_eq_none.mpr fun edge hedge => Bool.eq_false_iff.mp (h.fresh edge hedge)
  unfold Editor.link
  rw [if_neg h.ne, if_neg hroles, if_neg fun hne => hne h.payload]
  simp only [hfresh, h.free, Bool.false_eq_true, if_false, mark_eq hids]
  rfl

/-- They are linked in whichever order they are named. -/
theorem Linkable.connect {m n : Node} {o p : Port} {oPort pPort : String} (h : e.Linkable m o n p)
    (hids : (e.nodes.flatMap Node.ids).Nodup) (ho : e.port m.id oPort = .ok o)
    (hp : e.port n.id pPort = .ok p) :
    let linked := .ok (e.newEdge (m.id, o) (n.id, p), e.withEdge (m.id, o) (n.id, p))
    e.connect m.id oPort n.id pPort = linked ∧ e.connect n.id pPort m.id oPort = linked := by
  have hforward : orient (m.id, o) (n.id, p) = ((m.id, o), (n.id, p)) := by
    simp [orient, h.output]
  have hbackward : orient (n.id, p) (m.id, o) = ((m.id, o), (n.id, p)) := by
    simp [orient, h.input, h.output]
  constructor
  · rw [Editor.connect, ho, hp]
    simp only [hforward, h.link hids]
  · rw [Editor.connect, hp, ho]
    simp only [hbackward, h.link hids]

theorem WellFormed.connect_ok (hw : e.WellFormed) {a b : NodeId} {aPort bPort : String}
    {edge : Edge} (h : e.connect a aPort b bPort = .ok (edge, e')) :
    ∃ m o n p, e.Asked a aPort b bPort m o n p ∧ e.Linkable m o n p ∧
      edge = e.newEdge (m.id, o) (n.id, p) ∧ e' = e.withEdge (m.id, o) (n.id, p) := by
  unfold connect at h
  split at h
  · cases h
  · next p hp =>
    split at h
    · cases h
    · next q hq =>
      obtain ⟨m, hm⟩ := port_ok hp
      obtain ⟨n, hn⟩ := port_ok hq
      have hlink := h
      rw [← hm.id, ← hn.id] at hlink
      -- The edge starts at the second port if that one is the output.
      simp only [orient] at hlink
      split at hlink
      · exact ⟨n, q, m, p, .inr ⟨hn, hm⟩, hw.link_ok hn.mem hn.port_mem hm.mem hm.port_mem hlink⟩
      · exact ⟨m, p, n, q, .inl ⟨hm, hn⟩, hw.link_ok hm.mem hm.port_mem hn.mem hn.port_mem hlink⟩

theorem WellFormed.edit_ok (hw : e.WellFormed) {x : Edit} (h : e.edit x = .ok e') :
    e.Change e' := by
  cases x with
  | add | addNamed | addKind =>
    obtain ⟨n, h⟩ := map_snd_ok h
    obtain ⟨hkind, rfl⟩ := add_ok h
    exact .insert _ _ _ hkind
  | remove =>
    obtain ⟨r, h⟩ := map_snd_ok h
    exact hw.remove_ok h ▸ .remove _
  | connect =>
    obtain ⟨edge, h⟩ := map_snd_ok h
    obtain ⟨m, o, n, p, -, hl, -, rfl⟩ := hw.connect_ok h
    exact .link hl
  | disconnect =>
    obtain ⟨edge, h⟩ := map_snd_ok h
    obtain ⟨hedge, rfl⟩ := hw.disconnect_ok h
    exact .unlink hedge

/-! ## Every reachable editor is made by changes -/

/-- What comes of a graph by any number of changes. -/
abbrev Changes : Editor → Editor → Prop := Relation.ReflTransGen Change

theorem WellFormed.changes (hw : e.WellFormed) (h : e.Changes e') : e'.WellFormed := by
  induction h with
  | refl => exact hw
  | tail _ hc ih => exact ih.change hc

theorem WellFormed.changes_apply (hw : e.WellFormed) (x : Edit) : e.Changes (e.apply x) := by
  unfold apply
  cases h : e.edit x with
  | error => exact .refl
  | ok => exact .single (hw.edit_ok h)

/-- The kinds of the seeds differ, so that no seed is refused. -/
theorem changes_seeded : empty.Changes seeded := by
  refine .tail (.tail (.single (.insert _ _ _ ?_)) (.insert _ _ _ ?_)) (.insert _ _ _ ?_)
  all_goals decide

end Editor

namespace Description

open Editor

/-- A graph that is loaded is made by adding nodes and by connecting ports of graphs that are
well-formed. -/
theorem load_induct {P : Editor → Prop} {d : Description} {e : Editor} (h : d.load = .ok e)
    (empty : P .empty)
    (add : ∀ {e e' name kind n}, P e → e.addNamed name kind = .ok (n, e') → P e')
    (connect : ∀ {e e' a aPort b bPort edge}, e.WellFormed → P e →
      e.connect a aPort b bPort = .ok (edge, e') → P e') : P e := by
  obtain ⟨l, l', hnodes, hlinks, rfl⟩ := load_ok h
  have hl : l.editor.WellFormed ∧ P l.editor := by
    refine foldlM_induct (P := fun l => l.editor.WellFormed ∧ P l.editor) (fun hl hentry => ?_) _
      ⟨.empty, empty⟩ hnodes
    obtain ⟨n, hadd⟩ := addNode_ok hentry
    obtain ⟨hkind, heq⟩ := add_ok hadd
    exact ⟨heq ▸ hl.1.insert hkind, add hl.2 hadd⟩
  refine (foldlM_induct (P := fun l => l.editor.WellFormed ∧ P l.editor) (fun hl hlink => ?_) _ hl
    hlinks).2
  obtain ⟨a, b, edge, hconnect⟩ := addLink_ok hlink
  obtain ⟨m, o, n, p, -, hlinkable, -, heq⟩ := hl.1.connect_ok hconnect
  exact ⟨heq ▸ hl.1.withEdge hlinkable, connect hl.1 hl.2 hconnect⟩

theorem changes_load {d : Description} {e : Editor} (h : d.load = .ok e) : empty.Changes e := by
  refine load_induct h .refl (fun he hadd => ?_) fun hw he hconnect => ?_
  · obtain ⟨hkind, rfl⟩ := add_ok hadd
    exact he.tail (.insert _ _ _ hkind)
  · obtain ⟨m, o, n, p, -, hl, -, rfl⟩ := hw.connect_ok hconnect
    exact he.tail (.link hl)

end Description

namespace Editor.Reachable

variable {e : Editor}

theorem changes (h : e.Reachable) : Editor.empty.Changes e := by
  induction h with
  | empty => exact .refl
  | seeded => exact changes_seeded
  | loaded h => exact Description.changes_load h
  | edited x _ ih => exact ih.trans ((WellFormed.empty.changes ih).changes_apply x)

/-- Any run of edits leads on to reachable editors. -/
theorem foldl (h : e.Reachable) (edits : List Edit) : (edits.foldl apply e).Reachable := by
  induction edits generalizing e with
  | nil => exact h
  | cons edit edits ih => exact ih (h.edited edit)

/-- What holds of the empty graph and is kept by every change holds of every reachable editor. -/
theorem induct {P : Editor → Prop} (h : e.Reachable) (empty : P .empty)
    (change : ∀ {e e'}, P e → e.Change e' → P e') : P e := by
  have hchanges := h.changes
  clear h
  induction hchanges with
  | refl => exact empty
  | tail _ hc ih => exact change ih hc

/-- Every editor that can be reached is well-formed. -/
theorem wellFormed (h : e.Reachable) : e.WellFormed := WellFormed.empty.changes h.changes

end Editor.Reachable

namespace Editor

/-- A seeded graph with one link, and a second link to the same input that is refused. -/
theorem wellFormed_of_refused_link :
    let linked := seeded.apply (.connect 0 "Scene" 5 "Scene")
    let e := (linked.apply (.addNamed "Other" .gBuffer)).apply (.connect 5 "Scene" 0 "Scene")
    e.Reachable ∧ e.edges.length = 1 ∧ e.nodes.length = 4 ∧ e.WellFormed := by
  have h := ((Reachable.seeded.edited (.connect 0 "Scene" 5 "Scene")).edited
    (.addNamed "Other" .gBuffer)).edited (.connect 5 "Scene" 0 "Scene")
  exact ⟨h, by decide, by decide, Reachable.wellFormed h⟩

end Editor

end FrameGraph
