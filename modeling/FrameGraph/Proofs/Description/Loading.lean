import FrameGraph.Proofs.Description.Validity
import FrameGraph.Proofs.Editor.Catalogue
import FrameGraph.Proofs.Editor.Links
import Mathlib.Data.List.Induction

/-!
# Loading descriptions

Loading goes through nodes and links one by one, and whether a link is accepted depends on those
before it. While links are added, the edges of the graph run along the wires of the links so far, so
that the flag of an input says whether one of these links ends there
(`Description.Loading.Holds.incoming_eq_nil_iff`). What all of it comes to is that exactly the valid
descriptions are loaded (`Description.load_exact`).
-/

namespace FrameGraph

namespace Description

variable {entries : List NodeEntry} {link : LinkEntry} {ref : PortRef} {i : Nat}
  {spec : PortSpec} {w : Wire}

/-! ## Loading nodes -/

/-- What a loading holds after some nodes: their names, kinds and keys, in a graph made of
catalogue nodes by edits. -/
structure Loading.Holds (l : Loading) (entries : List NodeEntry) : Prop where
  consistent : l.editor.Consistent
  catalogued : l.editor.Catalogued
  nodes : l.editor.nodes.map (fun n => (n.name, n.kind, some n.id)) =
    entries.map fun entry => (entry.shownName, entry.kind, l.keys.lookup entry.key)
  keys : ∀ {key id}, l.keys.lookup key = some id → key ∈ entries.map (·.key)

variable {l l' : Loading} {entry : NodeEntry}

theorem addNode_eq_ok_iff : l.addNode entry = .ok l' ↔
    (entry.kind.isSingleton = true → ∀ n ∈ l.editor.nodes, n.kind ≠ entry.kind) ∧
    l.keys.lookup entry.key = none ∧
    l' = ⟨l.editor.insert entry.shownName entry.kind entry.kind.ports,
      (entry.key, l.editor.nextId) :: l.keys⟩ := by
  have hkinds : (entry.kind.isSingleton = true → ∀ n ∈ l.editor.nodes, n.kind ≠ entry.kind) ↔
      ¬ (entry.kind.isSingleton = true ∧ (l.editor.nodeOfKind? entry.kind).isSome = true) := by
    rw [Editor.nodeOfKind?_isSome, not_and, not_exists]
    simp only [not_and, ne_eq]
  rw [hkinds]
  unfold Loading.addNode Editor.addNamed Editor.add
  split
  · next hadd =>
    split at hadd
    · next hrefused => simp [hrefused]
    · cases hadd
  · next hadd =>
    split at hadd
    · cases hadd
    · next hnew =>
      cases hadd
      cases hlookup : l.keys.lookup entry.key with
      | none =>
        simp only [Option.isSome_none, Bool.false_eq_true, if_false]
        exact ⟨fun h => ⟨hnew, trivial, (Except.ok.inj h).symm⟩, fun h => congrArg _ h.2.2.symm⟩
      | some id => simp

namespace Loading.Holds

/-- The keys stand for different nodes. -/
theorem keys_nodup (h : l.Holds entries) : (entries.map (·.key)).Nodup := by
  have hids : (entries.map (·.key)).map (List.lookup · l.keys) =
      (l.editor.nodes.map (·.id)).map some := by
    have hthird := congrArg (List.map (·.2.2)) h.nodes
    rw [List.map_map, List.map_map] at hthird
    rw [List.map_map, List.map_map]
    exact hthird.symm
  refine List.Nodup.of_map (List.lookup · l.keys) ?_
  rw [hids]
  exact h.consistent.nodes_nodup.map fun _ _ => Option.some.inj

theorem exists_node (h : l.Holds entries) (hi : entries[i]? = some entry) :
    ∃ n, l.editor.nodes[i]? = some n ∧ n.name = entry.shownName ∧ n.kind = entry.kind ∧
      l.keys.lookup entry.key = some n.id := by
  have hget := congrArg (·[i]?) h.nodes
  simp only [List.getElem?_map, hi, Option.map_some, Option.map_eq_some_iff, Prod.mk.injEq] at hget
  obtain ⟨n, hn, hname, hkind, hid⟩ := hget
  exact ⟨n, hn, hname, hkind, hid.symm⟩

theorem countP_kind (h : l.Holds entries) (kind : PassKind) :
    entries.countP (·.kind == kind) = l.editor.nodes.countP (·.kind == kind) := by
  have hkinds := congrArg (fun ns => (ns.map (·.2.1)).countP (· == kind)) h.nodes
  simp only [List.map_map, List.countP_map] at hkinds
  exact hkinds.symm

theorem start : Loading.Holds {} [] where
  consistent := .empty
  catalogued := nofun
  nodes := rfl
  keys h := nomatch h

theorem addNode (h : l.Holds entries) (hl : l.addNode entry = .ok l') :
    l'.Holds (entries ++ [entry]) ∧ l'.editor.edges = l.editor.edges := by
  obtain ⟨hkinds, hnew, rfl⟩ := addNode_eq_ok_iff.mp hl
  have hkey : entry.key ∉ entries.map (·.key) := by
    intro hmem
    obtain ⟨x, hx, hxkey⟩ := List.mem_map.mp hmem
    obtain ⟨n, -, -, -, hlookup⟩ := h.exists_node (List.getElem?_of_mem hx).choose_spec
    rw [hxkey, hnew] at hlookup
    cases hlookup
  -- Old keys stand for the same nodes as before.
  have hold : ∀ x ∈ entries, List.lookup x.key ((entry.key, l.editor.nextId) :: l.keys) =
      l.keys.lookup x.key := by
    intro x hx
    have hne : (x.key == entry.key) = false := by
      rw [beq_eq_false_iff_ne]
      intro heq
      exact hkey (heq ▸ List.mem_map_of_mem hx)
    rw [List.lookup_cons, hne]
  refine ⟨⟨h.consistent.change (.insert _ _ _ hkinds), h.catalogued.insert _ _, ?_, ?_⟩, rfl⟩
  · have hentries : entries.map (fun x => (x.shownName, x.kind,
        List.lookup x.key ((entry.key, l.editor.nextId) :: l.keys))) =
        entries.map fun x => (x.shownName, x.kind, l.keys.lookup x.key) :=
      List.map_congr_left fun x hx => by rw [hold x hx]
    simp only [Editor.insert, List.map_append, hentries, h.nodes, List.map_cons, List.map_nil,
      List.lookup_cons_self, Editor.newNode]
  · intro key id hlookup
    rw [List.map_append, List.mem_append]
    rw [List.lookup_cons] at hlookup
    split at hlookup
    · next heq => exact .inr (by simp [beq_iff_eq.mp heq])
    · exact .inl (h.keys hlookup)

/-- A node of a new key is added, unless it is the second of a kind of which there is one. -/
theorem exists_addNode (h : l.Holds entries) (hkey : entry.key ∉ entries.map (·.key))
    (hkind : entry.kind.isSingleton = true → entries.countP (·.kind == entry.kind) = 0) :
    ∃ l', l.addNode entry = .ok l' := by
  refine ⟨_, addNode_eq_ok_iff.mpr ⟨fun hsingle n hn => ?_, ?_, rfl⟩⟩
  · have hnone := hkind hsingle
    rw [h.countP_kind, List.countP_eq_zero] at hnone
    exact fun heq => hnone n hn (beq_iff_eq.mpr heq)
  · cases hlookup : l.keys.lookup entry.key with
    | none => rfl
    | some id => exact absurd (h.keys hlookup) hkey

end Loading.Holds

theorem holds_of_nodes (h : entries.foldlM Loading.addNode {} = .ok l) :
    l.Holds entries ∧ l.editor.edges = [] := by
  induction entries using List.reverseRecOn generalizing l with
  | nil =>
    cases h
    exact ⟨.start, rfl⟩
  | append_singleton entries entry ih =>
    obtain ⟨m, hentries, hentry⟩ := foldlM_concat_eq_ok_iff.mp h
    obtain ⟨hm, hedges⟩ := ih hentries
    obtain ⟨hl, hsame⟩ := hm.addNode hentry
    exact ⟨hl, hsame.trans hedges⟩

theorem exists_of_nodes (hkeys : (entries.map (·.key)).Nodup)
    (hkinds : ∀ kind ∈ [PassKind.sceneProvider, .present],
      entries.countP (·.kind == kind) ≤ 1) :
    ∃ l, entries.foldlM Loading.addNode {} = .ok l := by
  induction entries using List.reverseRecOn with
  | nil => exact ⟨_, rfl⟩
  | append_singleton entries entry ih =>
    rw [List.map_append, List.map_singleton, List.nodup_append] at hkeys
    obtain ⟨hold, -, hnew⟩ := hkeys
    obtain ⟨l, hl⟩ := ih hold fun kind hkind =>
      Nat.le_trans (by rw [List.countP_append]; omega) (hkinds kind hkind)
    have hkey : entry.key ∉ entries.map (·.key) := fun hmem =>
      hnew _ hmem _ List.mem_cons_self rfl
    have hkind : entry.kind.isSingleton = true → entries.countP (·.kind == entry.kind) = 0 := by
      intro hsingle
      have hone := hkinds entry.kind (PassKind.mem_of_isSingleton hsingle)
      rw [List.countP_append, List.countP_singleton, if_pos (beq_self_eq_true _)] at hone
      omega
    obtain ⟨l', hl'⟩ := (holds_of_nodes hl).1.exists_addNode hkey hkind
    exact ⟨l', foldlM_concat_eq_ok_iff.mpr ⟨l, hl, hl'⟩⟩

/-! ## Loading links -/

theorem connect_eq_ok_iff {r : Edge × Editor} : l.connect link = .ok r ↔
    ∃ a b, l.keys.lookup link.source.node = some a ∧ l.keys.lookup link.target.node = some b ∧
      l.editor.connect a link.source.port b link.target.port = .ok r := by
  unfold Loading.connect Loading.node
  cases l.keys.lookup link.source.node with
  | none => simp
  | some a => cases l.keys.lookup link.target.node <;> simp

theorem addLink_eq_ok_iff : l.addLink link = .ok l' ↔
    ∃ edge e', l.connect link = .ok (edge, e') ∧ l' = { l with editor := e' } := by
  unfold Loading.addLink
  cases hconnect : l.connect link with
  | error err => exact iff_of_false nofun nofun
  | ok r =>
    constructor
    · exact fun h => ⟨r.1, r.2, rfl, (Except.ok.inj h).symm⟩
    · rintro ⟨edge, e', h, rfl⟩
      cases h
      rfl

section

variable {e : Editor} {a b : NodeId} {m n : Node} {o p : Port}

namespace Loading.Holds

theorem names_of_finds (h : l.Holds entries) (hkey : l.keys.lookup ref.node = some a)
    (hf : l.editor.Finds a ref.port n p) : Names entries ref (l.editor.place n.id) p.spec := by
  obtain ⟨entry, hentry, hname⟩ := List.mem_map.mp (h.keys hkey)
  obtain ⟨i, hi⟩ := List.getElem?_of_mem hentry
  obtain ⟨n', hn', -, hkind, hlookup⟩ := h.exists_node hi
  have hid : n'.id = n.id := by
    rw [hname, hkey] at hlookup
    exact (Option.some.inj hlookup).symm.trans hf.id.symm
  obtain rfl := h.consistent.node_eq (List.mem_of_getElem? hn') hf.mem hid
  have hports : n'.ports.map (·.spec) = entry.kind.ports :=
    hkind ▸ h.catalogued n' hf.mem
  refine ⟨entry, ?_, hname, hports ▸ List.mem_map_of_mem hf.port_mem, ?_⟩
  · rw [h.consistent.place_of_getElem? hn', hi]
  · have hport := List.find?_some hf.first
    exact beq_iff_eq.mp hport

theorem finds_of_names (h : l.Holds entries) (hnames : Names entries ref i spec) :
    ∃ n p, l.keys.lookup ref.node = some n.id ∧ l.editor.Finds n.id ref.port n p ∧
      p.spec = spec ∧ l.editor.place n.id = i := by
  obtain ⟨entry, hi, hkey, hspec, hname⟩ := hnames
  obtain ⟨n, hn, -, hkind, hlookup⟩ := h.exists_node hi
  have hmem := List.mem_of_getElem? hn
  have hports : n.ports.map (·.spec) = entry.kind.ports := hkind ▸ h.catalogued n hmem
  obtain ⟨p, hp, rfl⟩ := List.mem_map.mp (hports ▸ hspec)
  refine ⟨n, p, hkey ▸ hlookup, ⟨hmem, rfl, ?_⟩, rfl, h.consistent.place_of_getElem? hn⟩
  exact hname ▸ (h.catalogued n hmem).portNamed?_eq hp

/-- What the editor is asked to link, if it may be, is what the link joins. -/
theorem joins_of_asked (h : l.Holds entries) (hs : l.keys.lookup link.source.node = some a)
    (ht : l.keys.lookup link.target.node = some b)
    (hasked : l.editor.Asked a link.source.port b link.target.port m o n p)
    (hlegal : l.editor.Legal m o n p) :
    Joins entries link ⟨l.editor.place m.id, o.name, l.editor.place n.id, p.name⟩ := by
  obtain ⟨⟨hm, -⟩, hn, -⟩ := hasked.mem
  refine ⟨o.spec, p.spec, ?_, ?_, hlegal.output, hlegal.input, hlegal.payload, rfl, rfl⟩
  · rcases hasked with ⟨ho, hp⟩ | ⟨ho, hp⟩
    · exact .inl ⟨h.names_of_finds hs ho, h.names_of_finds ht hp⟩
    · exact .inr ⟨h.names_of_finds ht ho, h.names_of_finds hs hp⟩
  · exact fun hplace => hlegal.ne (congrArg (·.id) (h.consistent.place_inj hm hn hplace))

theorem asked_of_joins (h : l.Holds entries) (hj : Joins entries link w) :
    ∃ a b m o n p, l.keys.lookup link.source.node = some a ∧
      l.keys.lookup link.target.node = some b ∧
      l.editor.Asked a link.source.port b link.target.port m o n p ∧
      m.id ≠ n.id ∧ o.role = .output ∧ p.role = .input ∧ o.payload = p.payload ∧
      w = ⟨l.editor.place m.id, o.name, l.editor.place n.id, p.name⟩ := by
  obtain ⟨os, ps, hends, hne, ho, hp, hpayload, hwo, hwp⟩ := hj
  have hwire : ∀ {m n : Node} {o p : Port}, o.spec = os → p.spec = ps →
      l.editor.place m.id = w.source → l.editor.place n.id = w.target →
      m.id ≠ n.id ∧ o.role = .output ∧ p.role = .input ∧ o.payload = p.payload ∧
        w = ⟨l.editor.place m.id, o.name, l.editor.place n.id, p.name⟩ := by
    rintro m n o p rfl rfl hm hn
    refine ⟨fun hid => hne (by rw [← hm, ← hn, hid]), ho, hp, hpayload, ?_⟩
    rw [hm, hn, Port.name, Port.name, ← hwo, ← hwp]
  rcases hends with ⟨hs, ht⟩ | ⟨ht, hs⟩
  · obtain ⟨m, o, hmkey, hmo, hospec, hmplace⟩ := h.finds_of_names hs
    obtain ⟨n, p, hnkey, hnp, hpspec, hnplace⟩ := h.finds_of_names ht
    exact ⟨_, _, m, o, n, p, hmkey, hnkey, .inl ⟨hmo, hnp⟩, hwire hospec hpspec hmplace hnplace⟩
  · obtain ⟨m, o, hmkey, hmo, hospec, hmplace⟩ := h.finds_of_names ht
    obtain ⟨n, p, hnkey, hnp, hpspec, hnplace⟩ := h.finds_of_names hs
    exact ⟨_, _, m, o, n, p, hnkey, hmkey, .inr ⟨hmo, hnp⟩, hwire hospec hpspec hmplace hnplace⟩

/-- An input is free if the wire of no edge ends there. -/
theorem incoming_eq_nil_iff (h : l.Holds entries) (hn : n ∈ l.editor.nodes) (hp : p ∈ n.ports)
    (i : Nat) (name : String) : l.editor.incoming n.id p.id = [] ↔
      ∀ v ∈ l.editor.wires, ¬ v.Meets ⟨i, name, l.editor.place n.id, p.name⟩ := by
  constructor
  · rintro hfree v hv ⟨htarget, hinput⟩
    obtain ⟨x, hx, rfl⟩ := List.mem_map.mp hv
    obtain ⟨_, -, _, -, n', hn', p', hp', hj⟩ := h.consistent.joins x hx
    simp only [Editor.wire, hj.stop] at htarget hinput
    obtain rfl := h.consistent.place_inj hn' hn htarget
    obtain rfl := (h.catalogued n' hn').port_eq hp' hp hinput
    have hmem : x ∈ l.editor.incoming n'.id p'.id :=
      Editor.mem_incoming.mpr ⟨hx, by rw [hj.stop], by rw [hj.stop]⟩
    rw [hfree] at hmem
    cases hmem
  · intro hnone
    refine List.eq_nil_iff_forall_not_mem.mpr fun x hx => ?_
    obtain ⟨hmem, -, hport⟩ := Editor.mem_incoming.mp hx
    obtain ⟨_, -, _, -, n', hn', p', hp', hj⟩ := h.consistent.joins x hmem
    rw [hj.stop] at hport
    obtain ⟨rfl, rfl⟩ := h.consistent.port_eq hn' hp' hn hp hport
    refine hnone _ (List.mem_map_of_mem hmem) ⟨?_, ?_⟩
    · rw [Editor.wire, hj.stop]
    · rw [Editor.wire, hj.stop]

theorem addLink (h : l.Holds entries) (hl : l.addLink link = .ok l') :
    l'.Holds entries ∧ ∃ w, Joins entries link w ∧ (∀ v ∈ l.editor.wires, ¬ v.Meets w) ∧
      l'.editor.wires = l.editor.wires ++ [w] := by
  obtain ⟨edge, e', hconnect, rfl⟩ := addLink_eq_ok_iff.mp hl
  obtain ⟨a, b, hs, ht, hconnect⟩ := connect_eq_ok_iff.mp hconnect
  obtain ⟨m, o, n, p, hasked, hlegal, hlinked⟩ := h.consistent.connect_eq_ok_iff.mp hconnect
  obtain ⟨⟨hm, ho⟩, hn, hp⟩ := hasked.mem
  have hlinkable := (h.consistent.linkable_iff hm ho hn hp).mpr hlegal
  obtain ⟨rfl, rfl⟩ := (h.consistent.linked_iff hn hp).mp hlinked
  refine ⟨⟨h.consistent.change (.link hlinkable), h.catalogued.withEdge _ _, ?_, h.keys⟩, _,
    h.joins_of_asked hs ht hasked hlegal,
    (h.incoming_eq_nil_iff hn hp _ _).mp hlegal.free, ?_⟩
  · rw [← h.nodes, Editor.withEdge, Editor.marked, List.map_map]
    rfl
  · have hplace : ∀ id, (l.editor.withEdge (m.id, o) (n.id, p)).place id = l.editor.place id :=
      Editor.place_congr (List.map_map ..)
    have hwire : (l.editor.withEdge (m.id, o) (n.id, p)).wire = l.editor.wire := by
      funext x
      rw [Editor.wire, hplace, hplace, Editor.wire]
    rw [Editor.wires, hwire, Editor.withEdge, List.map_append]
    rfl

/-- A link that joins two ports is added, unless the wire of an edge ends at the same input. -/
theorem exists_addLink (h : l.Holds entries) (hj : Joins entries link w)
    (hfree : ∀ v ∈ l.editor.wires, ¬ v.Meets w) : ∃ l', l.addLink link = .ok l' := by
  obtain ⟨a, b, m, o, n, p, hs, ht, hasked, hne, ho, hp, hpayload, rfl⟩ := h.asked_of_joins hj
  obtain ⟨-, hnmem, hpmem⟩ := hasked.mem
  have hlegal : l.editor.Legal m o n p :=
    ⟨hne, ho, hp, hpayload, (h.incoming_eq_nil_iff hnmem hpmem _ _).mpr hfree⟩
  have hlinked := (h.consistent.linked_iff (m := m) (o := o) hnmem hpmem).mpr ⟨rfl, rfl⟩
  have hconnect := h.consistent.connect_eq_ok_iff.mpr ⟨m, o, n, p, hasked, hlegal, hlinked⟩
  exact ⟨_, addLink_eq_ok_iff.mpr
    ⟨_, _, connect_eq_ok_iff.mpr ⟨a, b, hs, ht, hconnect⟩, rfl⟩⟩

end Loading.Holds

end

/-! ## All links -/

theorem exists_of_forall₂ {α β : Type} {R : α → β → Prop} {as : List α} {bs : List β} {b : β}
    (h : List.Forall₂ R as bs) (hb : b ∈ bs) : ∃ a ∈ as, R a b := by
  induction h with
  | nil => cases hb
  | cons hab _ ih =>
    rcases List.mem_cons.mp hb with rfl | hb
    · exact ⟨_, List.mem_cons_self, hab⟩
    · obtain ⟨a, ha, hR⟩ := ih hb
      exact ⟨a, List.mem_cons_of_mem _ ha, hR⟩

variable {links : List LinkEntry}

/-- After some links the edges run along the wires of these links. -/
theorem Loading.Holds.addLinks (h : l.Holds entries) (hedges : l.editor.edges = [])
    (hl : links.foldlM Loading.addLink l = .ok l') :
    l'.Holds entries ∧ List.Forall₂ (Joins entries) links l'.editor.wires := by
  induction links using List.reverseRecOn generalizing l' with
  | nil =>
    cases hl
    refine ⟨h, ?_⟩
    rw [Editor.wires, hedges]
    exact .nil
  | append_singleton links link ih =>
    obtain ⟨m, hlinks, hlink⟩ := foldlM_concat_eq_ok_iff.mp hl
    obtain ⟨hm, hjoins⟩ := ih hlinks
    obtain ⟨hl', w, hw, -, hwires⟩ := hm.addLink hlink
    exact ⟨hl', hwires ▸ List.rel_append hjoins (.cons hw .nil)⟩

/-- The links of a description are all added exactly if each of them joins two ports and no two
of them end at one input. -/
theorem Loading.Holds.exists_addLinks_iff (h : l.Holds entries) (hedges : l.editor.edges = []) :
    (∃ l', links.foldlM Loading.addLink l = .ok l') ↔
      (∀ link ∈ links, ∃ w, Joins entries link w) ∧ links.Pairwise (Apart entries) := by
  induction links using List.reverseRecOn with
  | nil => exact iff_of_true ⟨l, rfl⟩ ⟨nofun, .nil⟩
  | append_singleton links link ih =>
    simp only [foldlM_concat_eq_ok_iff, List.forall_mem_append, List.forall_mem_singleton,
      List.pairwise_append, List.pairwise_singleton, true_and]
    constructor
    · rintro ⟨l', m, hlinks, hlink⟩
      obtain ⟨hm, hjoins⟩ := h.addLinks hedges hlinks
      obtain ⟨-, w, hw, hfree, -⟩ := hm.addLink hlink
      obtain ⟨hall, hapart⟩ := ih.mp ⟨m, hlinks⟩
      refine ⟨⟨hall, w, hw⟩, hapart, fun a ha v w' hv hw' => ?_⟩
      obtain ⟨v', hv', hav⟩ := exists_of_forall₂ hjoins.flip ha
      rw [hv.unique h.keys_nodup hav, hw'.unique h.keys_nodup hw]
      exact hfree v' hv'
    · rintro ⟨⟨hall, w, hw⟩, hapart, hlast⟩
      obtain ⟨m, hlinks⟩ := ih.mpr ⟨hall, hapart⟩
      obtain ⟨hm, hjoins⟩ := h.addLinks hedges hlinks
      obtain ⟨l', hlink⟩ := hm.exists_addLink hw fun v hv => by
        obtain ⟨a, ha, hav⟩ := exists_of_forall₂ hjoins hv
        exact hlast a ha v w hav hw
      exact ⟨l', m, hlinks, hlink⟩

/-! ## All of it -/

theorem load_eq_ok_iff {d : Description} {e : Editor} : d.load = .ok e ↔
    ∃ l l', d.nodes.foldlM Loading.addNode {} = .ok l ∧
      d.links.foldlM Loading.addLink l = .ok l' ∧ l'.editor = e := by
  refine ⟨load_ok, ?_⟩
  rintro ⟨l, l', hnodes, hlinks, rfl⟩
  unfold load
  simp only [hnodes, hlinks, bind, Except.bind, pure, Except.pure]

/-- What is loaded are the nodes of a description, and edges along the wires of its links. -/
theorem holds_of_load {d : Description} {e : Editor} (h : d.load = .ok e) :
    ∃ l : Loading, l.editor = e ∧ l.Holds d.nodes ∧
      List.Forall₂ (Joins d.nodes) d.links e.wires := by
  obtain ⟨l, l', hnodes, hlinks, rfl⟩ := load_eq_ok_iff.mp h
  obtain ⟨hl, hedges⟩ := holds_of_nodes hnodes
  obtain ⟨hl', hjoins⟩ := hl.addLinks hedges hlinks
  exact ⟨l', rfl, hl', hjoins⟩

/-- Exactly the valid descriptions are loaded. -/
theorem exists_load_iff (d : Description) : (∃ e, d.load = .ok e) ↔ d.Valid := by
  rw [valid_iff]
  constructor
  · rintro ⟨e, h⟩
    obtain ⟨l, l', hnodes, hlinks, -⟩ := load_eq_ok_iff.mp h
    obtain ⟨hl, hedges⟩ := holds_of_nodes hnodes
    refine ⟨⟨hl.keys_nodup, fun kind hkind => ?_⟩,
      (hl.exists_addLinks_iff hedges).mp ⟨l', hlinks⟩⟩
    exact hl.countP_kind kind ▸ hl.consistent.singletons kind hkind
  · rintro ⟨⟨hkeys, hsingletons⟩, hvalid⟩
    obtain ⟨l, hnodes⟩ := exists_of_nodes hkeys hsingletons
    obtain ⟨hl, hedges⟩ := holds_of_nodes hnodes
    obtain ⟨l', hlinks⟩ := (hl.exists_addLinks_iff hedges).mpr hvalid
    exact ⟨l'.editor, load_eq_ok_iff.mpr ⟨l, l', hnodes, hlinks, rfl⟩⟩

/-- A description is loaded exactly if it is valid. The graph then has the described nodes in their
order, with the ports of their kinds, and one edge for each link, in the order of the links, from
the output to the input that the link joins. Writing the links in another order, and any of them
from its other end, changes neither whether the description is loaded nor, but for their order,
between which ports the edges run. -/
theorem load_exact (d : Description) :
    ((∃ e, d.load = .ok e) ↔ d.Valid) ∧
    (∀ e, d.load = .ok e →
      e.nodes.map (fun n => (n.name, n.kind, n.ports.map (·.spec))) =
        d.nodes.map (fun entry => (entry.shownName, entry.kind, entry.kind.ports)) ∧
      List.Forall₂ (Joins d.nodes) d.links e.wires ∧
      ∀ x ∈ e.edges, e.Follows x (e.wire x)) ∧
    ∀ links, Rearranged d.links links →
      ((∃ e, d.load = .ok e) ↔ ∃ e, load ⟨d.nodes, links⟩ = .ok e) ∧
      ∀ e e', d.load = .ok e → load ⟨d.nodes, links⟩ = .ok e' → e.wires.Perm e'.wires := by
  refine ⟨d.exists_load_iff, fun e h => ?_, fun links hlinks => ⟨?_, fun e e' h h' => ?_⟩⟩
  · obtain ⟨l, rfl, hl, hjoins⟩ := holds_of_load h
    refine ⟨?_, hjoins, fun x hx => hl.consistent.follows_wire hx⟩
    have hports : ∀ n ∈ l.editor.nodes, n.ports.map (·.spec) = n.kind.ports := hl.catalogued
    have hheads := congrArg (List.map fun t => (t.1, t.2.1, t.2.1.ports)) hl.nodes
    rw [List.map_map, List.map_map] at hheads
    rw [List.map_congr_left fun n hn => by rw [hports n hn]]
    exact hheads
  · rw [exists_load_iff, exists_load_iff, valid_iff, valid_iff, hlinks.links_valid_iff]
  · obtain ⟨l, -, hl, hjoins⟩ := holds_of_load h
    obtain ⟨-, -, -, hjoins'⟩ := holds_of_load h'
    exact hlinks.wires_perm hl.keys_nodup hjoins hjoins'

/-- Two blurs that feed each other. -/
def blurRing : Description where
  nodes := [⟨"a", .gaussianBlur, none⟩, ⟨"b", .gaussianBlur, some "Soft"⟩]
  links := [⟨⟨"a", "Blurred Image"⟩, ⟨"b", "Image"⟩⟩, ⟨⟨"b", "Blurred Image"⟩, ⟨"a", "Image"⟩⟩]

/-- The ring is loaded, and also with its second link first and written from its input. -/
theorem blurRing_load_exact :
    blurRing.Valid ∧ ∃ e e', blurRing.load = .ok e ∧
      load ⟨blurRing.nodes, [⟨⟨"a", "Image"⟩, ⟨"b", "Blurred Image"⟩⟩,
        ⟨⟨"a", "Blurred Image"⟩, ⟨"b", "Image"⟩⟩]⟩ = .ok e' ∧
      e.nodes.map (·.name) = ["Gaussian Blur", "Soft"] ∧
      e.wires = [⟨0, "Blurred Image", 1, "Image"⟩, ⟨1, "Blurred Image", 0, "Image"⟩] ∧
      e.wires.Perm e'.wires := by
  obtain ⟨hvalid, -, hrearranged⟩ := load_exact blurRing
  obtain ⟨hload, hperm⟩ := hrearranged
    [⟨⟨"a", "Image"⟩, ⟨"b", "Blurred Image"⟩⟩, ⟨⟨"a", "Blurred Image"⟩, ⟨"b", "Image"⟩⟩]
    ⟨_, .swap .., .cons (.inr rfl) (.cons (.inl rfl) .nil)⟩
  obtain ⟨e', he'⟩ := hload.mp ⟨_, rfl⟩
  exact ⟨hvalid.mp ⟨_, rfl⟩, _, e', rfl, he', by decide, by decide, hperm _ _ rfl he'⟩

end Description

end FrameGraph
