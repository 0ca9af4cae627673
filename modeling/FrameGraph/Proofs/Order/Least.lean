import FrameGraph.Proofs.Order.Cycles
import Mathlib.Data.List.Sort
import Mathlib.Order.Bounds.Basic

/-!
# The least id first

While a sort runs, what is ready stands in ascending order of ids, so that the sort takes the least
id of those that nothing left leads to (`Order.State.Ascends`). That settles which ids it takes, by
which ids are listed and which of them lead to which (`Order.TakesLeast.unique`). So nodes and
edges are put in the same order, or refused for the same cycles, in whatever order they are given
(`inOrder_eq_of_perm`).
-/

namespace FrameGraph

namespace Order

/-! ## Ids taken one after another -/

/-- A listed id that is not taken, and to which only taken ids lead. -/
structure Free (nodes : List Node) (edges : List Edge) (taken : List NodeId) (a : NodeId) :
    Prop where
  listed : a ∈ nodes.map (·.id)
  left : a ∉ taken
  released : ∀ b, Leads nodes edges b a → b ∈ taken

/-- Ids of which each is the least of those that are free when it is taken, until none is. -/
structure TakesLeast (nodes : List Node) (edges : List Edge) (ids : List NodeId) : Prop where
  least : ∀ before a after, ids = before ++ a :: after → IsLeast {b | Free nodes edges before b} a
  final : ∀ a, ¬ Free nodes edges ids a

theorem TakesLeast.unique {nodes : List Node} {edges : List Edge} {ids ids' : List NodeId}
    (h : TakesLeast nodes edges ids) (h' : TakesLeast nodes edges ids') : ids = ids' := by
  -- Two such lists that begin alike go on alike, as a set has one least member.
  have hfrom : ∀ rest before rest', ids = before ++ rest → ids' = before ++ rest' →
      rest = rest' := by
    intro rest
    induction rest with
    | nil =>
      intro before rest' hids hids'
      cases rest' with
      | nil => rfl
      | cons a rest' =>
        rw [List.append_nil] at hids
        exact absurd (hids ▸ (h'.least _ _ _ hids').1) (h.final a)
    | cons a rest ih =>
      intro before rest' hids hids'
      cases rest' with
      | nil =>
        rw [List.append_nil] at hids'
        exact absurd (hids' ▸ (h.least _ _ _ hids).1) (h'.final a)
      | cons b rest' =>
        obtain rfl := (h.least _ _ _ hids).unique (h'.least _ _ _ hids')
        rw [ih (before ++ [a]) rest' (by simp [hids]) (by simp [hids'])]
  exact hfrom ids [] ids' rfl rfl

/-! ## What a sort takes -/

section

variable {ids : List NodeId} {links : List Link} {n i j : Nat} {js : List Nat}

theorem before_iff : before ids i j = true ↔
    ids.getD i 0 < ids.getD j 0 ∨ ids.getD i 0 = ids.getD j 0 ∧ i < j := by
  simp [before]

theorem le_of_before (h : before ids i j = true) : ids.getD i 0 ≤ ids.getD j 0 :=
  (before_iff.mp h).elim Nat.le_of_lt fun h => Nat.le_of_eq h.1

theorem le_of_not_before (h : ¬ before ids i j = true) : ids.getD j 0 ≤ ids.getD i 0 :=
  Nat.le_of_not_lt fun hlt => h (before_iff.mpr (.inl hlt))

theorem enqueue_ascends (i : Nat) (h : js.Pairwise fun i j => ids.getD i 0 ≤ ids.getD j 0) :
    (enqueue ids i js).Pairwise fun i j => ids.getD i 0 ≤ ids.getD j 0 := by
  induction js with
  | nil => exact List.pairwise_singleton ..
  | cons j js ih =>
    obtain ⟨hj, hjs⟩ := List.pairwise_cons.mp h
    simp only [enqueue]
    split
    · next hbefore =>
      refine List.pairwise_cons.mpr ⟨fun k hk => ?_, h⟩
      rcases List.mem_cons.mp hk with rfl | hk
      · exact le_of_before hbefore
      · exact (le_of_before hbefore).trans (hj k hk)
    · next hbefore =>
      refine List.pairwise_cons.mpr ⟨fun k hk => ?_, ih hjs⟩
      rcases mem_enqueue.mp hk with rfl | hk
      · exact le_of_not_before hbefore
      · exact hj k hk

namespace State

/-- A sort in which what is ready stands in ascending order, and that took the least id of those
that were free whenever it took one. -/
structure Ascends (n : Nat) (ids : List NodeId) (links : List Link) (s : State) : Prop where
  ready : s.ready.Pairwise fun i j => ids.getD i 0 ≤ ids.getD j 0
  least : ∀ before j after, s.taken = before ++ j :: after → ∀ k < n, k ∉ before →
    (∀ i, Follows links i k → i ∈ before) → ids.getD j 0 ≤ ids.getD k 0

variable {s : State}

theorem release_ascends (js : List Nat)
    (h : s.ready.Pairwise fun i j => ids.getD i 0 ≤ ids.getD j 0) :
    (js.foldl (release ids) s).ready.Pairwise fun i j => ids.getD i 0 ≤ ids.getD j 0 := by
  induction js generalizing s with
  | nil => exact h
  | cons j js ih =>
    refine ih ?_
    simp only [release]
    split
    · exact enqueue_ascends j h
    · exact h

theorem Ascends.step (hcounts : s.Counts n links []) (h : s.Ascends n ids links) :
    (s.step ids links).Ascends n ids links := by
  cases hready : s.ready with
  | nil =>
    rw [State.step, hready]
    exact h
  | cons i ready =>
    have hsorted := h.ready
    rw [hready] at hsorted
    obtain ⟨hi, hrest⟩ := List.pairwise_cons.mp hsorted
    refine ⟨?_, fun before j after hsplit k hk hnot hreleased => ?_⟩
    · rw [State.step, hready]
      exact release_ascends _ hrest
    · rw [taken_step hready] at hsplit
      rcases List.eq_nil_or_concat' after with rfl | ⟨rest, last, rfl⟩
      · -- The position just taken was the first of those that were ready.
        obtain ⟨rfl, hj⟩ := List.append_inj' hsplit rfl
        cases hj
        have hzero : s.waiting.getD k 0 = 0 := by
          rw [hcounts.waiting k hk, List.count_nil, Nat.add_zero]
          exact held_eq_zero.mpr hreleased
        have hmem := (List.mem_append.mp ((hcounts.free k hk).mp hzero)).resolve_left hnot
        rw [hready] at hmem
        rcases List.mem_cons.mp hmem with rfl | hmem
        · exact Nat.le_refl _
        · exact hi k hmem
      · rw [← List.cons_append, ← List.append_assoc] at hsplit
        obtain ⟨htaken, -⟩ := List.append_inj' hsplit rfl
        exact h.least before j rest htaken k hk hnot hreleased

theorem Ascends.run (hlinks : ∀ l ∈ links, l.2 < n) (hcounts : s.Counts n links [])
    (h : s.Ascends n ids links) (fuel : Nat) :
    (State.run ids links fuel s).Ascends n ids links := by
  induction fuel generalizing s with
  | zero => exact h
  | succ fuel ih => exact ih (hcounts.step hlinks) (h.step hcounts)

theorem start_ascends (n : Nat) (ids : List NodeId) (links : List Link) :
    (start ids links).Ascends n ids links := by
  have hfold : ∀ (js ready : List Nat), (ready.Pairwise fun i j => ids.getD i 0 ≤ ids.getD j 0) →
      (js.foldl (fun ready i => enqueue ids i ready) ready).Pairwise fun i j =>
        ids.getD i 0 ≤ ids.getD j 0 := by
    intro js
    induction js with
    | nil => exact fun _ h => h
    | cons j js ih => exact fun ready h => ih _ (enqueue_ascends j h)
  exact ⟨hfold _ [] .nil, fun before j after hsplit => absurd hsplit (by simp [start])⟩

end State

end

section

variable {nodes nodes' : List Node} {edges edges' : List Edge}

theorem result_ascends (nodes : List Node) (edges : List Edge) :
    (result nodes edges).Ascends nodes.length (nodes.map (·.id)) (links nodes edges) := by
  have hcounts := State.counts_start (nodes.map (·.id)) (links nodes edges)
  rw [List.length_map] at hcounts
  refine State.Ascends.run (fun l hl => ?_) hcounts (State.start_ascends ..) _
  exact (links_lt (i := l.1) (j := l.2) hl).2

theorem idAt_eq {i : Nat} (hi : i < nodes.length) : idAt nodes i = nodes[i].id := by
  rw [idAt, List.getD_eq_getElem?_getD, List.getElem?_map, List.getElem?_eq_getElem hi,
    Option.map_some, Option.getD_some]

theorem idAt_mem {i : Nat} (hi : i < nodes.length) : idAt nodes i ∈ nodes.map (·.id) :=
  idAt_eq hi ▸ List.mem_map_of_mem (List.getElem_mem hi)

theorem idAt_positionD {a : NodeId} (ha : a ∈ nodes.map (·.id)) :
    idAt nodes (positionD nodes a) = a :=
  idAt_of_position? (position?_of_mem ha)

section

variable (hids : (nodes.map (·.id)).Nodup)

include hids

theorem positionD_idAt {i : Nat} (hi : i < nodes.length) : positionD nodes (idAt nodes i) = i := by
  rw [idAt_eq hi, positionD, position?_of_getElem? hids (List.getElem?_eq_getElem hi),
    Option.getD_some]

theorem idAt_inj {i j : Nat} (hi : i < nodes.length) (hj : j < nodes.length)
    (h : idAt nodes i = idAt nodes j) : i = j := by
  rw [← positionD_idAt hids hi, h, positionD_idAt hids hj]

/-- An id is free if its position is not taken and waits for taken positions only. -/
theorem free_idAt {taken : List Nat} (htaken : ∀ i ∈ taken, i < nodes.length) {k : Nat}
    (hk : k < nodes.length) :
    Free nodes edges (taken.map (idAt nodes)) (idAt nodes k) ↔
      k ∉ taken ∧ ∀ i, Follows (links nodes edges) i k → i ∈ taken := by
  constructor
  · intro h
    refine ⟨fun hmem => h.left (List.mem_map_of_mem hmem), fun i hik => ?_⟩
    obtain ⟨j, hj, heq⟩ := List.mem_map.mp (h.released _ (leads_of_follows hik))
    exact idAt_inj hids (htaken j hj) (links_lt hik).1 heq ▸ hj
  · rintro ⟨hnot, hreleased⟩
    refine ⟨idAt_mem hk, fun hmem => ?_, fun b hb => ?_⟩
    · obtain ⟨j, hj, heq⟩ := List.mem_map.mp hmem
      exact hnot (idAt_inj hids (htaken j hj) hk heq ▸ hj)
    · have hfollows := follows_of_leads hb
      rw [positionD_idAt hids hk] at hfollows
      exact idAt_positionD hb.1 ▸ List.mem_map_of_mem (hreleased _ hfollows)

/-- A sort takes ids with the least first. -/
theorem result_takesLeast (edges : List Edge) :
    TakesLeast nodes edges ((result nodes edges).taken.map (idAt nodes)) := by
  have hcounts := counts_result nodes edges
  have hlt : ∀ i ∈ (result nodes edges).taken, i < nodes.length := fun i hi =>
    hcounts.lt i (List.mem_append_left _ hi)
  constructor
  · intro before a after hsplit
    obtain ⟨first, rest, htaken, rfl, hrest⟩ := List.map_eq_append_iff.mp hsplit
    obtain ⟨j, last, rfl, rfl, -⟩ := List.map_eq_cons_iff.mp hrest
    have hfirst : ∀ i ∈ first, i < nodes.length := fun i hi => hlt i (by simp [htaken, hi])
    have hnodup := hcounts.nodup.of_append_left
    rw [htaken, List.nodup_middle, List.nodup_cons, List.mem_append, not_or] at hnodup
    constructor
    · exact (free_idAt hids hfirst (hlt j (by simp [htaken]))).mpr
        ⟨hnodup.1.1, hcounts.forward _ _ _ htaken⟩
    · intro b hb
      have hb : Free nodes edges (first.map (idAt nodes)) b := hb
      have hlisted := hb.listed
      have hk := position?_lt (position?_of_mem hlisted)
      rw [← idAt_positionD hlisted, free_idAt hids hfirst hk] at hb
      calc idAt nodes j ≤ idAt nodes (positionD nodes b) :=
            (result_ascends nodes edges).least _ _ _ htaken _ hk hb.1 hb.2
        _ = b := idAt_positionD hlisted
  · intro a ha
    have hk := position?_lt (position?_of_mem ha.listed)
    rw [← idAt_positionD ha.listed, free_idAt hids hlt hk] at ha
    exact ha.1 ((mem_taken hk).mpr ha.2)

/-- The ids that a cycle is reported with ascend, and none stands twice. -/
theorem cycleMembers_sortedLT (edges : List Edge) :
    (cycleMembers (nodes.map (·.id)) (links nodes edges)
      (result nodes edges).waiting).SortedLT := by
  have hnodup : (cycleMembers (nodes.map (·.id)) (links nodes edges)
      (result nodes edges).waiting).Nodup := by
    rw [cycleMembers, (List.mergeSort_perm ..).nodup_iff]
    have hsub := (peel_sublist (links nodes edges) (nodes.map (·.id)).length _).trans
      (List.filter_sublist (p := fun i => (result nodes edges).waiting.getD i 0 != 0)
        (l := List.range (nodes.map (·.id)).length))
    refine (hsub.nodup List.nodup_range).map_on fun i hi j hj => ?_
    have hlt : ∀ {k}, k ∈ List.range (nodes.map (·.id)).length → k < nodes.length := fun hk => by
      rwa [List.mem_range, List.length_map] at hk
    exact idAt_inj hids (hlt (hsub.subset hi)) (hlt (hsub.subset hj))
  exact List.sortedLE_mergeSort.sortedLT_of_nodup hnodup

end

/-! ## Any order of nodes and edges -/

theorem leads_perm (hnodes : nodes.Perm nodes') (hedges : edges.Perm edges') :
    Leads nodes edges = Leads nodes' edges' := by
  funext a b
  simp only [Leads, (hnodes.map (·.id)).mem_iff, hedges.mem_iff]

theorem TakesLeast.perm (hnodes : nodes.Perm nodes') (hedges : edges.Perm edges')
    {ids : List NodeId} (h : TakesLeast nodes edges ids) : TakesLeast nodes' edges' ids := by
  have hfree : ∀ {taken a}, Free nodes' edges' taken a ↔ Free nodes edges taken a := by
    intro taken a
    have hleads := leads_perm hnodes hedges
    have hmem := (hnodes.map (·.id)).mem_iff (a := a)
    exact ⟨fun ⟨h, hl, hr⟩ => ⟨hmem.mpr h, hl, hleads ▸ hr⟩,
      fun ⟨h, hl, hr⟩ => ⟨hmem.mp h, hl, hleads ▸ hr⟩⟩
  constructor
  · simpa only [hfree] using h.least
  · simpa only [hfree] using h.final

end

end Order

open FrameGraph.Order

/-- Nodes that are put in order have their ids taken with the least first. -/
theorem inOrder_takesLeast {nodes order : List Node} {edges : List Edge}
    (hids : (nodes.map (·.id)).Nodup) (h : inOrder nodes edges = .ok order) :
    TakesLeast nodes edges (order.map (·.id)) := by
  obtain ⟨hperm, rfl⟩ := taken_of_inOrder h
  have hmap : ((result nodes edges).taken.filterMap (nodes[·]?)).map (·.id) =
      (result nodes edges).taken.map (idAt nodes) := by
    rw [List.map_filterMap, ← List.filterMap_eq_map]
    refine List.filterMap_congr fun i hi => ?_
    have hi := List.mem_range.mp (hperm.mem_iff.mp hi)
    rw [List.getElem?_eq_getElem hi, Option.map_some, Function.comp_apply, idAt_eq hi]
  rw [hmap]
  exact result_takesLeast hids edges

theorem eq_of_map_id {order order' nodes : List Node} (hids : (nodes.map (·.id)).Nodup)
    (h : order ⊆ nodes) (h' : order' ⊆ nodes) (heq : order.map (·.id) = order'.map (·.id)) :
    order = order' := by
  induction order generalizing order' with
  | nil => exact (List.map_eq_nil_iff.mp heq.symm).symm
  | cons n order ih =>
    obtain ⟨n', rest, rfl, hn, hrest⟩ := List.map_eq_cons_iff.mp heq.symm
    rw [List.cons_subset] at h h'
    rw [List.inj_on_of_nodup_map hids h.1 h'.1 hn.symm, ih h.2 h'.2 hrest.symm]

/-- The order of nodes depends on the nodes and edges alone, not on how they are listed. -/
theorem inOrder_eq_of_perm {nodes nodes' : List Node} {edges edges' : List Edge}
    (hids : (nodes.map (·.id)).Nodup) (hnodes : nodes.Perm nodes') (hedges : edges.Perm edges') :
    inOrder nodes edges = inOrder nodes' edges' := by
  have hids' : (nodes'.map (·.id)).Nodup := (hnodes.map _).nodup_iff.mp hids
  have hleads := leads_perm hnodes hedges
  have hcycle : HasCycle nodes edges ↔ HasCycle nodes' edges' := by rw [HasCycle, hleads]; rfl
  rcases inOrder_cases nodes edges with ⟨hhas, herror⟩ | ⟨hnot, order, horder⟩ <;>
    rcases inOrder_cases nodes' edges' with ⟨hhas', herror'⟩ | ⟨hnot', order', horder'⟩
  · rw [herror, herror']
    have hmembers := (cycleMembers_sortedLT hids edges).eq_of_mem_iff
      (cycleMembers_sortedLT hids' edges') fun a => by
        rw [mem_cycleMembers, mem_cycleMembers, hleads]
    rw [hmembers]
  · exact absurd (hcycle.mp hhas) hnot'
  · exact absurd (hcycle.mpr hhas') hnot
  · have heq := ((inOrder_takesLeast hids horder).perm hnodes hedges).unique
      (inOrder_takesLeast hids' horder')
    have hsub := (inOrder_perm horder).subset
    have hsub' := ((inOrder_perm horder').trans hnodes.symm).subset
    rw [horder, horder', eq_of_map_id hids hsub hsub' heq]

end FrameGraph
