import FrameGraph.Proofs.Compile.Culling

/-!
# The scene provider comes first

Where all edges join nodes of the snapshot, everything that the scene provider reaches is kept
(`mem_kept_of_reached`). So an edge from a kept node leads to every kept node but the scene
provider, and its start stands before its end. Nothing stands before the first node in order,
which leaves the scene provider for it, whatever edges lead there from nodes that are not kept
(`compile_root_first`).
-/

namespace FrameGraph

open Relation Reachability

section

variable {nodes kept order : List Node} {edges : List Edge} {provider : Node}
  (hclosed : ∀ e ∈ edges, e.isBetween nodes = true)
  (hprovider : nodes.filter (·.kind == .sceneProvider) = [provider])
  (hkept : reachable nodes edges = .ok kept)

include hprovider hkept

theorem provider_mem_kept : provider ∈ kept := by
  have hmem : provider ∈ nodes.filter (·.kind == .sceneProvider) :=
    hprovider ▸ List.mem_singleton_self provider
  exact (mem_reachable hprovider hkept).mpr ⟨List.mem_of_mem_filter hmem, .refl⟩

include hclosed

theorem mem_kept_of_reached {a : NodeId} (ha : ReflTransGen (Arc edges) provider.id a) :
    a ∈ kept.map (·.id) := by
  induction ha with
  | refl => exact List.mem_map_of_mem (provider_mem_kept hprovider hkept)
  | tail _ harc ih =>
    obtain ⟨e, he, rfl, rfl⟩ := harc
    exact stop_mem_kept hclosed hkept he ih

/-- An edge from a kept node leads to every kept node but the scene provider. -/
theorem exists_edge_of_mem_kept {n : Node} (hn : n ∈ kept) (hne : n.id ≠ provider.id) :
    ∃ e ∈ edges, e.stop.node = n.id ∧ ∃ m ∈ kept, e.start.node = m.id := by
  rcases ReflTransGen.cases_tail ((mem_reachable hprovider hkept).mp hn).2 with heq | ⟨a, ha, harc⟩
  · exact absurd heq hne
  · obtain ⟨e, he, rfl, hstop⟩ := harc
    obtain ⟨m, hm, hid⟩ := List.mem_map.mp (mem_kept_of_reached hclosed hprovider hkept ha)
    exact ⟨e, he, hstop, m, hm, hid.symm⟩

/-- Before every node in order but the scene provider stands one from which an edge leads to it. -/
theorem exists_edge_before (hids : (kept.map (·.id)).Nodup)
    (horder : inOrder kept edges = .ok order) {before after : List Node} {n : Node}
    (hsplit : order = before ++ n :: after) (hne : n.id ≠ provider.id) :
    ∃ e ∈ edges, e.stop.node = n.id ∧ e.start.node ∈ before.map (·.id) := by
  have hperm := inOrder_perm horder
  have hn : n ∈ kept := hperm.subset (by simp [hsplit])
  obtain ⟨e, he, hstop, m, hm, hstart⟩ :=
    exists_edge_of_mem_kept hclosed hprovider hkept hn hne
  have hbefore : m ∈ before :=
    mem_before_of_inOrder hids horder hsplit (hperm.mem_iff.mpr hm) he hstart hstop
  exact ⟨e, he, hstop, hstart ▸ List.mem_map_of_mem hbefore⟩

end

/-- Where all edges join nodes of the snapshot, a compile that comes past the order has the scene
provider first, and an edge leads to every other node from one that stands before it. -/
theorem compile_root_first {δ : Type} [Allocator δ] (w : Workshop δ) (verbose : Bool)
    {nodes kept order : List Node} {edges : List Edge} (hids : (nodes.map (·.id)).Nodup)
    (hclosed : ∀ e ∈ edges, e.isBetween nodes = true) (hkept : reachable nodes edges = .ok kept)
    (horder : inOrder kept edges = .ok order) :
    ∃ provider rest, nodes.filter (·.kind == .sceneProvider) = [provider] ∧
      (compile w verbose nodes edges).result.order = provider.id :: rest ∧
      ∀ before id after, rest = before ++ id :: after →
        ∃ e ∈ edges, e.stop.node = id ∧ e.start.node ∈ provider.id :: before := by
  obtain ⟨provider, hprovider, -⟩ := reachable_ok hkept
  have hcompiled : (compile w verbose nodes edges).result.order = order.map (·.id) :=
    (compile_scheduled (Schedule.of_inOrder hkept horder)).2
  have hkeptIds : (kept.map (·.id)).Nodup := ((reachable_sublist hkept).map _).nodup hids
  have horderIds : (order.map (·.id)).Nodup := ((inOrder_perm horder).map _).nodup_iff.mpr hkeptIds
  have hbefore : ∀ before n after, order = before ++ n :: after → n.id ≠ provider.id →
      ∃ e ∈ edges, e.stop.node = n.id ∧ e.start.node ∈ before.map (·.id) :=
    fun _ _ _ hsplit hne =>
      exists_edge_before hclosed hprovider hkept hkeptIds horder hsplit hne
  cases order with
  | nil => cases (inOrder_perm horder).mem_iff.mpr (provider_mem_kept hprovider hkept)
  | cons first rest =>
    have hfirst : first.id = provider.id := by
      by_contra hne
      obtain ⟨_, _, _, hnone⟩ := hbefore [] first rest rfl hne
      cases hnone
    refine ⟨provider, rest.map (·.id), hprovider, by rw [hcompiled, List.map_cons, hfirst], ?_⟩
    intro before id after hsplit
    obtain ⟨before, rest', rfl, rfl, hrest⟩ := List.map_eq_append_iff.mp hsplit
    obtain ⟨m, after, rfl, rfl, -⟩ := List.map_eq_cons_iff.mp hrest
    -- No other node has the id of the first one.
    rw [List.map_cons, List.nodup_cons, hfirst] at horderIds
    have hne : m.id ≠ provider.id := fun heq =>
      horderIds.1 (heq ▸ List.mem_map_of_mem (by simp))
    have hm := hbefore (first :: before) m after rfl hne
    rwa [List.map_cons, hfirst] at hm

/-- A scene provider with the greatest id, last in the list, with an edge into it from a node that
it does not feed. -/
def lateProvider : List Node × List Edge :=
  let blur (id : NodeId) : Node :=
    { id, name := "Blur", kind := .gaussianBlur
      ports := [⟨id + 10, .imageInput "Image" .rgba16Float, false⟩,
        ⟨id + 20, .imageOutput "Blurred Image" .rgba16Float, false⟩] }
  let link (id : EdgeId) (a b : NodeId) : Edge :=
    ⟨id, ⟨a, a + 20, "Blurred Image"⟩, ⟨b, b + 10, "Image"⟩, .image⟩
  ([blur 1, blur 2, blur 3, { blur 9 with name := "Scene Provider", kind := .sceneProvider }],
   [link 40 1 9, link 41 1 2, link 42 3 2, link 43 9 3, link 44 9 2])

theorem lateProvider_first :
    let w : Workshop := { device := {}, clock := ⟨"", "", ""⟩ }
    let order := (compile w false lateProvider.1 lateProvider.2).result.order
    (∃ e ∈ lateProvider.2, e.stop.node = 9) ∧ order = [9, 3, 2] ∧
      ∃ provider rest, lateProvider.1.filter (·.kind == .sceneProvider) = [provider] ∧
        order = provider.id :: rest ∧ ∀ before id after, rest = before ++ id :: after →
          ∃ e ∈ lateProvider.2, e.stop.node = id ∧ e.start.node ∈ provider.id :: before := by
  intro w order
  have hids : (lateProvider.1.map (·.id)).Nodup := by decide
  have hclosed : ∀ e ∈ lateProvider.2, e.isBetween lateProvider.1 = true := by decide
  obtain ⟨kept, order, hkept, horder⟩ : ∃ kept order,
      reachable lateProvider.1 lateProvider.2 = .ok kept ∧
        inOrder kept lateProvider.2 = .ok order := ⟨_, _, rfl, rfl⟩
  exact ⟨by decide, by decide +kernel, compile_root_first w false hids hclosed hkept horder⟩

end FrameGraph
