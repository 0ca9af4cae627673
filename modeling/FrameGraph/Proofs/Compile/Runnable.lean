import FrameGraph.Proofs.Compile.Rooted
import FrameGraph.Proofs.Editor.Catalogue

/-!
# Which graphs run

A graph made by an editor has at most one scene provider, and its edges join nodes that are there,
so that it has a schedule exactly if there is a scene provider and no cycle among what it feeds
(`Editor.WellFormed.runnable_iff`). Nothing stops allocation after that if all nodes are from the
catalogue, where every port says what it carries, and the device has no limit. So these graphs
compile if they can be scheduled, with whatever settings
(`Editor.CatalogueReachable.compile_cases`).
-/

namespace FrameGraph

open Relation Reachability

/-- What is kept has a cycle exactly if the scene provider reaches one. -/
theorem hasCycle_kept_iff {nodes kept : List Node} {edges : List Edge} {provider : Node}
    (hclosed : ∀ e ∈ edges, e.isBetween nodes = true)
    (hprovider : nodes.filter (·.kind == .sceneProvider) = [provider])
    (hkept : reachable nodes edges = .ok kept) :
    Order.HasCycle kept edges ↔
      ∃ a, ReflTransGen (Arc edges) provider.id a ∧ TransGen (Arc edges) a a := by
  constructor
  · rintro ⟨a, ha⟩
    obtain ⟨_, hab, -⟩ := TransGen.head'_iff.mp ha
    obtain ⟨n, hn, rfl⟩ := List.mem_map.mp hab.1
    have hreach := ((mem_reachable hprovider hkept).mp hn).2
    exact ⟨n.id, hreach, ha.lift id fun _ _ h => h.2.2⟩
  · rintro ⟨a, hreach, ha⟩
    have hmem := fun b => mem_kept_of_reached hclosed hprovider hkept (a := b)
    have hleads : ∀ b, TransGen (Arc edges) a b → TransGen (Order.Leads kept edges) a b := by
      intro b hab
      induction hab with
      | single harc => exact .single ⟨hmem _ hreach, hmem _ (hreach.tail harc), harc⟩
      | tail hab harc ih =>
        have hb := hreach.trans hab.to_reflTransGen
        exact ih.tail ⟨hmem _ hb, hmem _ (hb.tail harc), harc⟩
    exact ⟨a, hleads a ha⟩

/-! ## Allocation -/

section

variable {a : Allotment} {d : Device} {buckets : List Bucket}

/-- A device without a limit stops at no bucket of known payload. -/
theorem Allotment.not_stops {b : Bucket} (hlimit : d.limit = none) (hknown : b.payload ≠ .unknown)
    (err : CompileError) : ¬ a.Stops d b err := by
  intro h
  cases h with
  | unsupported hunknown => exact hknown hunknown
  | spent _ hspent => cases hlimit.symm.trans hspent

theorem Allocation.exists_resources (hlimit : d.limit = none)
    (hknown : ∀ b ∈ buckets, b.payload ≠ .unknown) :
    ∃ t, (Allocation.of a d buckets).resources = .ok t := by
  cases hresources : (Allocation.of a d buckets).resources with
  | ok t => exact ⟨t, rfl⟩
  | error err =>
    obtain ⟨before, b, after, rfl, hstops, -⟩ := Allocation.resources_eq_error.mp hresources
    have hafter : (d.after before).limit = none := hlimit
    exact absurd hstops (Allotment.not_stops hafter (hknown b (by simp)) err)

end

namespace Editor

variable {e : Editor} {strategy : Strategy} {s : Schedule}

/-- The graph has a scene provider, from which no cycle is reached. -/
def Runnable (e : Editor) : Prop :=
  ∃ provider ∈ e.nodes, provider.kind = .sceneProvider ∧
    ∀ a, ReflTransGen (Arc e.edges) provider.id a → ¬ TransGen (Arc e.edges) a a

/-! ## Schedules -/

namespace WellFormed

theorem isBetween (h : e.WellFormed) : ∀ edge ∈ e.edges, edge.isBetween e.nodes = true := by
  intro edge hedge
  obtain ⟨m, hm, _, _, n, hn, _, _, hj⟩ := h.joins edge hedge
  rw [Edge.isBetween_iff, hj.start, hj.stop]
  exact ⟨List.mem_map_of_mem hm, List.mem_map_of_mem hn⟩

theorem filter_sceneProvider (h : e.WellFormed) {provider : Node} (hmem : provider ∈ e.nodes)
    (hkind : provider.kind = .sceneProvider) :
    e.nodes.filter (·.kind == .sceneProvider) = [provider] := by
  have hle := h.singletons .sceneProvider List.mem_cons_self
  rw [List.countP_eq_length_filter] at hle
  have hfilter : provider ∈ e.nodes.filter (·.kind == .sceneProvider) :=
    List.mem_filter.mpr ⟨hmem, beq_iff_eq.mpr hkind⟩
  obtain ⟨n, hn⟩ := List.length_eq_one_iff.mp
    (Nat.le_antisymm hle (List.length_pos_of_mem hfilter))
  rw [hn] at hfilter ⊢
  rw [List.mem_singleton.mp hfilter]

/-- A graph has a schedule exactly if it is runnable. -/
theorem runnable_iff (h : e.WellFormed) (strategy : Strategy) :
    e.Runnable ↔ ∃ s, Schedule.of strategy e.nodes e.edges = .ok s := by
  constructor
  · rintro ⟨provider, hmem, hkind, hacyclic⟩
    have hprovider := h.filter_sceneProvider hmem hkind
    have hcount : rootCount e.nodes = 1 := by
      rw [rootCount, List.countP_eq_length_filter, hprovider, List.length_singleton]
    rcases reachable_cases e.nodes e.edges with ⟨hzero, -⟩ | ⟨_, -, -, hkept⟩ | ⟨htwo, -⟩
    · omega
    · rcases inOrder_cases _ e.edges with ⟨hcycle, -⟩ | ⟨-, order, horder⟩
      · obtain ⟨a, hreach, ha⟩ := (hasCycle_kept_iff h.isBetween hprovider hkept).mp hcycle
        exact absurd ha (hacyclic a hreach)
      · exact ⟨_, Schedule.of_inOrder hkept horder⟩
    · omega
  · rintro ⟨s, hs⟩
    obtain ⟨kept, hkept, horder, -⟩ := Schedule.of_ok hs
    obtain ⟨provider, hprovider, -⟩ := reachable_ok hkept
    have hfilter : provider ∈ e.nodes.filter (·.kind == .sceneProvider) :=
      hprovider ▸ List.mem_singleton_self provider
    obtain ⟨hmem, hkind⟩ := List.mem_filter.mp hfilter
    refine ⟨provider, hmem, beq_iff_eq.mp hkind, fun a hreach ha => ?_⟩
    have hcycle := (hasCycle_kept_iff h.isBetween hprovider hkept).mpr ⟨a, hreach, ha⟩
    rcases inOrder_cases kept e.edges with ⟨-, herror⟩ | ⟨hacyclic, -⟩
    · cases herror.symm.trans horder
    · exact hacyclic hcycle

end WellFormed

/-- No bucket of a catalogue graph is of unknown payload. -/
theorem Catalogued.payload_ne_unknown (h : e.Catalogued)
    (hs : Schedule.of strategy e.nodes e.edges = .ok s) :
    ∀ b ∈ s.packing.buckets, b.payload ≠ .unknown := by
  intro b hb
  obtain ⟨kept, hkept, horder, hpacking⟩ := Schedule.of_ok hs
  rw [hpacking] at hb
  obtain ⟨rest, hrest, -⟩ := (Packing.holds_placeAll b hb).first
  have horigin : b.origin ∈ Logical.all s.order e.edges :=
    (Packing.residents_sublist ..).subset (hrest ▸ List.mem_cons_self)
  obtain ⟨i, n, p, hn, hp, hx⟩ := Logical.mem_all.mp horigin
  have hnode : n ∈ e.nodes := (reachable_sublist hkept).subset
    ((inOrder_perm horder).subset (List.mem_of_getElem? hn))
  have hspec : p.spec ∈ n.kind.ports := by
    rw [← h n hnode]
    exact List.mem_map_of_mem (List.mem_of_mem_filter hp)
  have hpayload : b.payload = p.spec.payload := by
    rw [Bucket.payload, Bucket.spec, ← hx]
    rfl
  exact hpayload ▸ n.kind.payload_ne_unknown p.spec hspec

/-- A catalogue graph compiles on a device without a limit exactly if it is runnable. -/
theorem CatalogueReachable.compile_cases (h : e.CatalogueReachable) (w : Workshop)
    (hlimit : w.device.limit = none) (verbose : Bool) :
    (e.Runnable ∧ ∃ s t, Schedule.of w.settings.strategy e.nodes e.edges = .ok s ∧
      (Allocation.of w.allotment w.device s.packing.buckets).resources = .ok t ∧
      (compile w verbose e.nodes e.edges).result.Finishes s (Compile.assemble w s t)) ∨
    (¬ e.Runnable ∧ ∃ err, Schedule.of w.settings.strategy e.nodes e.edges = .error err ∧
      (compile w verbose e.nodes e.edges).result.Fails err none) := by
  have hrunnable := h.reachable.consistent.runnable_iff w.settings.strategy
  cases hs : Schedule.of w.settings.strategy e.nodes e.edges with
  | error err =>
    refine .inr ⟨fun hrun => ?_, err, rfl, compile_unscheduled hs⟩
    obtain ⟨s, hok⟩ := hrunnable.mp hrun
    cases hs.symm.trans hok
  | ok s =>
    obtain ⟨t, ht⟩ := Allocation.exists_resources (a := w.allotment) hlimit
      (h.catalogued.payload_ne_unknown hs)
    exact .inl ⟨hrunnable.mpr ⟨s, hs⟩, s, t, rfl, ht, compile_finished hs ht⟩

end Editor

end FrameGraph
