import FrameGraph.Description
import FrameGraph.Proofs.Editor.Wires
import Mathlib.Data.List.Perm.Basic

/-!
# Valid descriptions

What a description has to be to make a graph, said without making one (`Description.Valid`): keys
are distinct, every link joins two ports of the catalogue that an edge may join, and no two links
end at one input. Neither the order of the links nor the direction in which each is written plays a
part in it (`Description.Rearranged.links_valid_iff`).
-/

namespace FrameGraph

/-- The same link, written from its other end. -/
def LinkEntry.reversed (link : LinkEntry) : LinkEntry := ⟨link.target, link.source⟩

namespace Description

variable {entries : List NodeEntry} {link : LinkEntry} {ref : PortRef} {i j : Nat}
  {spec spec' : PortSpec} {v w : Wire}

/-! ## Validity -/

/-- The reference is to a port that the kind of the entry at that place declares. -/
def Names (entries : List NodeEntry) (ref : PortRef) (i : Nat) (spec : PortSpec) : Prop :=
  ∃ entry, entries[i]? = some entry ∧ entry.key = ref.node ∧
    spec ∈ entry.kind.ports ∧ spec.name = ref.port

/-- The link, in either direction, joins an output and an input of one payload on two nodes. -/
def Joins (entries : List NodeEntry) (link : LinkEntry) (w : Wire) : Prop :=
  ∃ o p, (Names entries link.source w.source o ∧ Names entries link.target w.target p ∨
      Names entries link.target w.source o ∧ Names entries link.source w.target p) ∧
    w.source ≠ w.target ∧ o.role = .output ∧ p.role = .input ∧ o.payload = p.payload ∧
    w.output = o.name ∧ w.input = p.name

/-- Two links do not end at one input. -/
def Apart (entries : List NodeEntry) (a b : LinkEntry) : Prop :=
  ∀ v w, Joins entries a v → Joins entries b w → ¬ v.Meets w

structure Valid (d : Description) : Prop where
  keys : (d.nodes.map (·.key)).Nodup
  singletons : ∀ kind ∈ [PassKind.sceneProvider, .present], d.nodes.countP (·.kind == kind) ≤ 1
  declared : ∀ link ∈ d.links, link.source.node ∈ d.nodes.map (·.key) ∧
    link.target.node ∈ d.nodes.map (·.key)
  joins : ∀ link ∈ d.links, ∃ w, Joins d.nodes link w
  apart : d.links.Pairwise (Apart d.nodes)

theorem Names.mem_keys (h : Names entries ref i spec) : ref.node ∈ entries.map (·.key) := by
  obtain ⟨entry, hi, hkey, -, -⟩ := h
  exact hkey ▸ List.mem_map_of_mem (List.mem_of_getElem? hi)

/-- With distinct keys, a reference is to one port. -/
theorem Names.unique (hkeys : (entries.map (·.key)).Nodup) (h : Names entries ref i spec)
    (h' : Names entries ref j spec') : i = j ∧ spec = spec' := by
  obtain ⟨entry, hi, hkey, hspec, hname⟩ := h
  obtain ⟨entry', hj, hkey', hspec', hname'⟩ := h'
  have hij : i = j := by
    refine (List.getElem?_inj ?_ hkeys).mp ?_
    · simpa using (List.getElem?_eq_some_iff.mp hi).1
    · rw [List.getElem?_map, List.getElem?_map, hi, hj, Option.map_some, Option.map_some, hkey,
        hkey']
  subst hij
  obtain rfl := Option.some.inj (hi.symm.trans hj)
  exact ⟨rfl, List.inj_on_of_nodup_map entry.kind.port_names_nodup hspec hspec'
    (hname.trans hname'.symm)⟩

theorem Joins.declared (h : Joins entries link w) :
    link.source.node ∈ entries.map (·.key) ∧ link.target.node ∈ entries.map (·.key) := by
  obtain ⟨o, p, ⟨ho, hp⟩ | ⟨ho, hp⟩, -⟩ := h
  · exact ⟨ho.mem_keys, hp.mem_keys⟩
  · exact ⟨hp.mem_keys, ho.mem_keys⟩

/-- The keys of links that join ports need no mention. -/
theorem valid_iff {d : Description} : d.Valid ↔
    ((d.nodes.map (·.key)).Nodup ∧
      ∀ kind ∈ [PassKind.sceneProvider, .present], d.nodes.countP (·.kind == kind) ≤ 1) ∧
    (∀ link ∈ d.links, ∃ w, Joins d.nodes link w) ∧ d.links.Pairwise (Apart d.nodes) := by
  constructor
  · exact fun h => ⟨⟨h.keys, h.singletons⟩, h.joins, h.apart⟩
  · rintro ⟨⟨hkeys, hsingletons⟩, hjoins, hapart⟩
    exact ⟨hkeys, hsingletons, fun link hlink => (hjoins link hlink).choose_spec.declared,
      hjoins, hapart⟩

/-- With distinct keys, a link is along one wire. -/
theorem Joins.unique (hkeys : (entries.map (·.key)).Nodup) (hv : Joins entries link v)
    (hw : Joins entries link w) : v = w := by
  obtain ⟨o, p, hends, -, ho, hp, -, hvo, hvp⟩ := hv
  obtain ⟨o', p', hends', -, ho', hp', -, hwo, hwp⟩ := hw
  have hop : o ≠ p' := fun h => by rw [h, hp'] at ho; cases ho
  have hpo : p ≠ o' := fun h => by rw [h, ho'] at hp; cases hp
  -- An output is not an input, so that the link is read in the same direction.
  have hsame : (v.source = w.source ∧ o = o') ∧ v.target = w.target ∧ p = p' := by
    rcases hends with ⟨hs, ht⟩ | ⟨ht, hs⟩ <;> rcases hends' with ⟨hs', ht'⟩ | ⟨ht', hs'⟩
    · exact ⟨hs.unique hkeys hs', ht.unique hkeys ht'⟩
    · exact absurd (hs.unique hkeys hs').2 hop
    · exact absurd (hs.unique hkeys hs').2 hpo
    · exact ⟨ht.unique hkeys ht', hs.unique hkeys hs'⟩
  obtain ⟨⟨hsource, rfl⟩, htarget, rfl⟩ := hsame
  cases v
  cases w
  simp only [Wire.mk.injEq]
  exact ⟨hsource, hvo.trans hwo.symm, htarget, hvp.trans hwp.symm⟩

theorem joins_reversed : Joins entries link.reversed w ↔ Joins entries link w := by
  simp only [Joins, LinkEntry.reversed, or_comm]

/-! ## Order and direction of links -/

/-- The same links in another order, some of them written from their other end. -/
def Rearranged (links links' : List LinkEntry) : Prop :=
  ∃ turned, links.Perm turned ∧
    List.Forall₂ (fun a b => b = a ∨ b = a.reversed) turned links'

namespace Rearranged

variable {links links' : List LinkEntry}

/-- What the links join is the same, in another order. -/
theorem exists_perm (h : Rearranged links links') (entries : List NodeEntry) :
    ∃ turned, links.Perm turned ∧ turned.map (Joins entries) = links'.map (Joins entries) := by
  obtain ⟨turned, hperm, hturned⟩ := h
  refine ⟨turned, hperm, ?_⟩
  rw [← List.forall₂_eq_eq_eq, List.forall₂_map_left_iff, List.forall₂_map_right_iff]
  refine hturned.imp fun a b hab => funext fun w => propext ?_
  rcases hab with rfl | rfl
  · exact Iff.rfl
  · exact joins_reversed.symm

theorem map_joins_perm (h : Rearranged links links') (entries : List NodeEntry) :
    (links.map (Joins entries)).Perm (links'.map (Joins entries)) := by
  obtain ⟨turned, hperm, hjoins⟩ := h.exists_perm entries
  exact hjoins ▸ hperm.map _

theorem links_valid_iff (h : Rearranged links links') (entries : List NodeEntry) :
    ((∀ link ∈ links, ∃ w, Joins entries link w) ∧ links.Pairwise (Apart entries)) ↔
      (∀ link ∈ links', ∃ w, Joins entries link w) ∧ links'.Pairwise (Apart entries) := by
  have hperm := h.map_joins_perm entries
  have hjoins : ∀ ls : List LinkEntry, (∀ link ∈ ls, ∃ w, Joins entries link w) ↔
      ∀ joins ∈ ls.map (Joins entries), ∃ w, joins w := fun ls => by simp
  have hapart : ∀ ls : List LinkEntry, ls.Pairwise (Apart entries) ↔
      (ls.map (Joins entries)).Pairwise fun j k => ∀ v w, j v → k w → ¬ v.Meets w :=
    fun ls => by rw [List.pairwise_map]; exact Iff.rfl
  rw [hjoins, hjoins, hapart, hapart, hperm.pairwise_iff fun hjk v w hv hw hmeets =>
    hjk w v hw hv hmeets.symm]
  simp only [hperm.mem_iff]

/-- Wires of the same links are the same in another order. -/
theorem wires_perm {entries : List NodeEntry} (h : Rearranged links links')
    (hkeys : (entries.map (·.key)).Nodup) {ws ws' : List Wire}
    (hws : List.Forall₂ (Joins entries) links ws)
    (hws' : List.Forall₂ (Joins entries) links' ws') : ws.Perm ws' := by
  obtain ⟨turned, hperm, hjoins⟩ := h.exists_perm entries
  obtain ⟨us, hus, husws⟩ := List.perm_comp_forall₂ hperm.symm hws
  have hus' : List.Forall₂ (fun joins w => joins w) (turned.map (Joins entries)) us :=
    List.forall₂_map_left_iff.mpr hus
  rw [hjoins, List.forall₂_map_left_iff] at hus'
  have hunique : Relator.RightUnique (Joins entries) := fun _ _ _ hv hw => hv.unique hkeys hw
  exact husws.symm.trans (List.right_unique_forall₂' hunique hus' hws' ▸ .refl _)

end Rearranged

end Description

end FrameGraph
