import FrameGraph.Proofs.Order.Least
import Mathlib.Data.List.Lex

/-!
# The least arrangement

A list runs forward along a relation if of two related things the first stands before the second
(`RunsForward`). A sort gives positions that run forward along the edges, an edge standing for the
last positions at which its two ids stand, and it gives them wherever there is no cycle
(`inOrder_correct`). Of all arrangements of nodes along their edges, it is the one whose ids come
first in lexicographic order: where another arrangement first departs from it, what comes next
there is free as well, and the sort has taken the least of all that is free (`inOrder_isLeast`).
-/

namespace FrameGraph

open Relation

/-- Of two related things, the first stands before the second. -/
def RunsForward {α : Type} [DecidableEq α] (r : α → α → Prop) (xs : List α) : Prop :=
  ∀ a b, r a b → xs.idxOf a < xs.idxOf b

section

variable {α : Type} [DecidableEq α] {r : α → α → Prop} {xs : List α}

theorem RunsForward.mem_before (h : RunsForward r xs) {before after : List α} {a b : α}
    (hsplit : xs = before ++ b :: after) (hb : b ∉ before) (hab : r a b) : a ∈ before := by
  by_contra ha
  have hlt := h a b hab
  rw [hsplit, List.idxOf_append_of_notMem ha, List.idxOf_append_of_notMem hb,
    List.idxOf_cons_self] at hlt
  omega

theorem RunsForward.of_mem_before (hmem : ∀ a b, r a b → b ∈ xs)
    (h : ∀ before b after, xs = before ++ b :: after → ∀ a, r a b → a ∈ before) :
    RunsForward r xs := by
  intro a b hab
  obtain ⟨before, after, hsplit, hb⟩ := List.eq_append_cons_of_mem (hmem a b hab)
  have ha := h before b after hsplit a hab
  rw [hsplit, List.idxOf_append_of_mem ha, List.idxOf_append_of_notMem hb, List.idxOf_cons_self]
  exact Nat.lt_of_lt_of_le (List.idxOf_lt_length_of_mem ha) (Nat.le_add_right ..)

end

namespace Order

variable {nodes order : List Node} {edges : List Edge}

/-! ## Positions -/

/-- The last position at which a node of this id stands. -/
structure StandsLast (nodes : List Node) (id : NodeId) (i : Nat) : Prop where
  here : (nodes.map (·.id))[i]? = some id
  last : ∀ j, (nodes.map (·.id))[j]? = some id → j ≤ i

/-- An edge leads from one position to another. -/
def Joined (nodes : List Node) (edges : List Edge) (i j : Nat) : Prop :=
  ∃ e ∈ edges, StandsLast nodes e.start.node i ∧ StandsLast nodes e.stop.node j

theorem position?_eq_some {id : NodeId} {i : Nat} :
    position? nodes id = some i ↔ StandsLast nodes id i := by
  rw [position?, lastIndex?_eq_some]
  exact ⟨fun ⟨hhere, hlast⟩ => ⟨hhere, hlast⟩, fun h => ⟨h.here, h.last⟩⟩

theorem follows_eq_joined (nodes : List Node) (edges : List Edge) :
    Follows (links nodes edges) = Joined nodes edges := by
  funext i j
  simp only [Follows, mem_links, position?_eq_some, Joined]

theorem result_runsForward (h : inOrder nodes edges = .ok order) :
    RunsForward (Joined nodes edges) (result nodes edges).taken := by
  obtain ⟨hperm, -⟩ := taken_of_inOrder h
  rw [← follows_eq_joined]
  refine .of_mem_before (fun i j hij => ?_) fun before j after hsplit i hij => ?_
  · exact hperm.mem_iff.mpr (List.mem_range.mpr (links_lt hij).2)
  · exact (counts_result nodes edges).forward before j after hsplit i hij

/-! ## Ids -/

/-- The nodes are all there, and every edge between two of them runs forward. -/
structure Arranges (nodes : List Node) (edges : List Edge) (order : List Node) : Prop where
  perm : order.Perm nodes
  forward : RunsForward (Leads nodes edges) (order.map (·.id))

theorem TakesLeast.runsForward {ids : List NodeId} (h : TakesLeast nodes edges ids)
    (hperm : ids.Perm (nodes.map (·.id))) : RunsForward (Leads nodes edges) ids :=
  .of_mem_before (fun _ _ hab => hperm.mem_iff.mpr hab.2.1) fun before b after hsplit a hab =>
    (h.least before b after hsplit).1.released a hab

/-- Taking the least free id each time gives the least of the lists that run forward. -/
theorem TakesLeast.le_of_runsForward {ids others : List NodeId} (h : TakesLeast nodes edges ids)
    (hperm : others.Perm (nodes.map (·.id))) (hnodup : others.Nodup)
    (hforward : RunsForward (Leads nodes edges) others) : ids ≤ others := by
  -- Induction on what is left where both lists have begun alike.
  have hfrom : ∀ rest before rest', ids = before ++ rest → others = before ++ rest' →
      rest ≤ rest' := by
    intro rest
    induction rest with
    | nil =>
      intro before rest' _ _
      cases rest' with
      | nil => exact le_refl _
      | cons => exact le_of_lt .nil
    | cons a rest ih =>
      intro before rest' hids hothers
      obtain ⟨hfree, hleast⟩ := h.least before a rest hids
      cases rest' with
      | nil =>
        rw [List.append_nil] at hothers
        exact absurd (hothers ▸ hperm.mem_iff.mpr hfree.listed) hfree.left
      | cons b rest' =>
        have hnot : b ∉ before := by
          rw [hothers, List.nodup_middle, List.nodup_cons, List.mem_append, not_or] at hnodup
          exact hnodup.1.1
        have hb : Free nodes edges before b :=
          ⟨hperm.mem_iff.mp (by simp [hothers]), hnot,
            fun c hcb => hforward.mem_before hothers hnot hcb⟩
        rcases Nat.lt_or_eq_of_le (hleast hb) with hlt | rfl
        · exact le_of_lt (List.Lex.rel hlt)
        · have hrest := ih (before ++ [a]) rest' (by simp [hids]) (by simp [hothers])
          exact List.cons_le_cons a hrest
  exact hfrom ids [] others rfl rfl

end Order

open FrameGraph.Order

/-- Nodes are put in order exactly if the edges between their positions have no cycle. The order
has every position once, and of two positions that an edge joins, the start before the end. -/
theorem inOrder_correct (nodes : List Node) (edges : List Edge) :
    ((∃ order, inOrder nodes edges = .ok order) ↔ ¬ ∃ i, TransGen (Joined nodes edges) i i) ∧
    ∀ order, inOrder nodes edges = .ok order → order.Perm nodes ∧
      ∃ positions, positions.Perm (List.range nodes.length) ∧
        order.map some = positions.map (nodes[·]?) ∧ RunsForward (Joined nodes edges) positions := by
  constructor
  · rw [← follows_eq_joined, exists_cycle_iff]
    rcases inOrder_cases nodes edges with ⟨hcycle, herror⟩ | ⟨hcycle, hok⟩
    · exact iff_of_false (fun ⟨_, hok⟩ => nomatch herror.symm.trans hok) (not_not.mpr hcycle)
    · exact iff_of_true hok hcycle
  · intro order h
    obtain ⟨hperm, horder⟩ := taken_of_inOrder h
    refine ⟨inOrder_perm h, _, hperm, ?_, result_runsForward h⟩
    rw [horder, List.map_filterMap, ← List.filterMap_eq_map]
    refine List.filterMap_congr fun i hi => ?_
    have hi := List.mem_range.mp (hperm.mem_iff.mp hi)
    rw [List.getElem?_eq_getElem hi, Option.map_some, Function.comp_apply,
      List.getElem?_eq_getElem hi]

/-- Where edges have no cycle, nodes are put in the order whose ids come first, lexicographically,
among all arrangements of the nodes along the edges. -/
theorem inOrder_isLeast {nodes : List Node} {edges : List Edge} (hids : (nodes.map (·.id)).Nodup)
    (hcycle : ¬ HasCycle nodes edges) :
    ∃ order, inOrder nodes edges = .ok order ∧
      IsLeast {ids | ∃ other, Arranges nodes edges other ∧ other.map (·.id) = ids}
        (order.map (·.id)) := by
  rcases inOrder_cases nodes edges with ⟨hhas, -⟩ | ⟨-, order, horder⟩
  · exact absurd hhas hcycle
  · have hleast := inOrder_takesLeast hids horder
    have hperm := inOrder_perm horder
    refine ⟨order, horder, ⟨order, ⟨hperm, hleast.runsForward (hperm.map _)⟩, rfl⟩, ?_⟩
    rintro ids ⟨other, hother, rfl⟩
    have hnodup := (hother.perm.map (·.id)).nodup_iff.mpr hids
    exact hleast.le_of_runsForward (hother.perm.map _) hnodup hother.forward

/-- Six nodes out of order. Two edges lead to lesser ids, one of them twice, and one leads away. -/
def Order.crossed : List Node × List Edge :=
  let link (id : EdgeId) (a b : NodeId) : Edge := ⟨id, ⟨a, 0, "Out"⟩, ⟨b, 0, "In"⟩, .image⟩
  ([4, 1, 5, 0, 3, 2].map fun id => { id, name := "Pass", kind := .unknown, ports := [] },
    [link 10 5 0, link 11 3 1, link 12 3 1, link 13 0 99])

/-- Node 2 comes before node 1, on which it does not depend: node 1 has to wait for node 3. -/
theorem crossed_isLeast :
    ∃ order, inOrder crossed.1 crossed.2 = .ok order ∧ order.map (·.id) = [2, 3, 1, 4, 5, 0] ∧
      IsLeast {ids | ∃ other, Arranges crossed.1 crossed.2 other ∧ other.map (·.id) = ids}
        (order.map (·.id)) := by
  have hcycle : ¬ HasCycle crossed.1 crossed.2 := by
    rcases inOrder_cases crossed.1 crossed.2 with ⟨-, herror⟩ | ⟨hcycle, -⟩
    · cases herror
    · exact hcycle
  obtain ⟨order, horder, hleast⟩ := inOrder_isLeast (by decide) hcycle
  refine ⟨order, horder, ?_, hleast⟩
  cases horder
  decide +kernel

end FrameGraph
