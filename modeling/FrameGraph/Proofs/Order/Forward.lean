import FrameGraph.Order
import FrameGraph.Proofs.Order.Positions
import Mathlib.Data.List.Induction
import Mathlib.Data.List.Nodup
import Mathlib.Data.List.Perm.Subperm

/-!
# Edges run forward

While a sort runs, every counter is the number of links that come from positions not yet taken,
and a position is ready or taken as soon as its counter is zero (`Order.State.Counts`). So all
that a position waits for is taken before it, and if every position is taken, the result is the
given nodes in an order in which every edge between two of them runs forward.
-/

namespace FrameGraph

namespace Order

/-- The number of links that hold a position back once some positions are taken. -/
def held (links : List Link) (taken : List Nat) (j : Nat) : Nat :=
  links.countP fun l => l.2 == j && !taken.contains l.1

section Counting

variable {ids : List NodeId} {links : List Link} {n : Nat}

theorem held_eq_zero {taken : List Nat} {j : Nat} :
    held links taken j = 0 ↔ ∀ i, (i, j) ∈ links → i ∈ taken := by
  rw [held, List.countP_eq_zero]
  constructor
  · intro h i hi
    simpa using h (i, j) hi
  · rintro h ⟨i, k⟩ hi
    simp only [Bool.and_eq_true, beq_iff_eq, Bool.not_eq_true', not_and, Bool.not_eq_false]
    rintro rfl
    exact List.contains_iff_mem.mpr (h i hi)

/-- Taking a position frees those that wait for it, once for each link. -/
theorem held_concat {taken : List Nat} {i : Nat} (hi : i ∉ taken) (j : Nat) :
    held links taken j = held links (taken ++ [i]) j + (dependents links i).count j := by
  unfold held dependents
  induction links with
  | nil => rfl
  | cons l links ih =>
    obtain ⟨a, b⟩ := l
    simp only [List.countP_cons, List.filter_cons]
    by_cases ha : a = i
    · subst ha
      simp only [beq_self_eq_true, if_true, List.map_cons, List.count_cons, ih]
      by_cases hb : b = j <;> simp [hb, hi]
      omega
    · simp only [beq_false_of_ne ha, Bool.false_eq_true, if_false, ih]
      by_cases hb : b = j <;> by_cases hmem : a ∈ taken <;> simp [hb, hmem, ha]
      omega

namespace State

/-- A sort of `n` positions, in which the positions `owed` are still to be released. -/
structure Counts (n : Nat) (links : List Link) (owed : List Nat) (s : State) : Prop where
  length : s.waiting.length = n
  nodup : (s.taken ++ s.ready).Nodup
  lt : ∀ j ∈ s.taken ++ s.ready, j < n
  waiting : ∀ j < n, s.waiting.getD j 0 = held links s.taken j + owed.count j
  free : ∀ j < n, s.waiting.getD j 0 = 0 ↔ j ∈ s.taken ++ s.ready
  forward : ∀ before j after, s.taken = before ++ j :: after →
    ∀ i, (i, j) ∈ links → i ∈ before

theorem getD_set {xs : List Nat} {j k v : Nat} (hj : j < xs.length) :
    (xs.set j v).getD k 0 = if j = k then v else xs.getD k 0 := by
  rw [List.getD_eq_getElem?_getD, List.getElem?_set, List.getD_eq_getElem?_getD]
  split <;> rfl

theorem enqueue_perm (ids : List NodeId) (i : Nat) (js : List Nat) :
    (enqueue ids i js).Perm (i :: js) := by
  induction js with
  | nil => rfl
  | cons j js ih =>
    simp only [enqueue]
    split
    · rfl
    · exact (ih.cons j).trans (.swap ..)

variable {s : State} {owed : List Nat}

theorem Counts.release {j : Nat} (h : s.Counts n links (j :: owed)) (hj : j < n) :
    (s.release ids j).Counts n links owed := by
  have hwaiting := h.waiting j hj
  rw [List.count_cons_self] at hwaiting
  have hnew : j ∉ s.taken ++ s.ready := by
    rw [← h.free j hj]
    omega
  have hleft : s.waiting.getD j 0 - 1 = held links s.taken j + owed.count j := by omega
  have hget : ∀ k, (s.release ids j).waiting.getD k 0 =
      if j = k then s.waiting.getD j 0 - 1 else s.waiting.getD k 0 :=
    fun k => getD_set (by rwa [h.length])
  have hmem : ∀ k, k ∈ s.taken ++ (s.release ids j).ready ↔
      k ∈ s.taken ++ s.ready ∨ k = j ∧ s.waiting.getD j 0 - 1 = 0 := by
    intro k
    simp only [State.release, List.mem_append]
    split
    · next hz =>
      rw [mem_enqueue]
      simp only [hz, and_true]
      tauto
    · next hz => simp only [hz, and_false, or_false]
  refine ⟨by simp [State.release, h.length], ?_, fun k hk => ?_, fun k hk => ?_, fun k hk => ?_,
    h.forward⟩
  · simp only [State.release]
    split
    · have hperm := (enqueue_perm ids j s.ready).append_left s.taken
      exact (hperm.trans List.perm_middle).nodup_iff.mpr (List.nodup_cons.mpr ⟨hnew, h.nodup⟩)
    · exact h.nodup
  · rcases (hmem k).mp hk with hk | ⟨rfl, _⟩
    · exact h.lt k hk
    · exact hj
  · rw [hget]
    split
    · next heq =>
      subst heq
      exact hleft
    · next hne =>
      rw [h.waiting k hk, List.count_cons_of_ne hne]
      rfl
  · rw [hget]
    refine Iff.trans ?_ (hmem k).symm
    split
    · next heq =>
      subst heq
      simp [hnew]
    · next hne =>
      rw [h.free k hk]
      simp [Ne.symm hne]

/-- Taking the first ready position leaves those that wait for it to be released. -/
theorem Counts.take {i : Nat} {ready : List Nat} (h : s.Counts n links [])
    (hready : s.ready = i :: ready) :
    ({ s with ready, taken := s.taken ++ [i] } : State).Counts n links (dependents links i) := by
  have hsame : s.taken ++ s.ready = s.taken ++ [i] ++ ready := by rw [hready]; simp
  have hi : i ∈ s.taken ++ s.ready := by rw [hready]; simp
  have hnodup := h.nodup
  rw [hready, List.nodup_middle, List.nodup_cons, List.mem_append, not_or] at hnodup
  refine ⟨h.length, ?_, fun j hj => ?_, fun j hj => ?_, fun j hj => ?_, ?_⟩
  · exact hsame ▸ h.nodup
  · exact h.lt j (hsame ▸ hj)
  · rw [h.waiting j hj, held_concat hnodup.1.1, List.count_nil, Nat.add_zero]
  · exact hsame ▸ h.free j hj
  · intro before j after hsplit k hk
    rcases List.eq_nil_or_concat' after with rfl | ⟨rest, last, rfl⟩
    · -- The position just taken waits for nothing, so all it waited for is taken.
      obtain ⟨rfl, hj⟩ := List.append_inj' hsplit rfl
      cases hj
      have hzero := (h.free i (h.lt i hi)).mpr hi
      rw [h.waiting i (h.lt i hi), List.count_nil, Nat.add_zero] at hzero
      exact held_eq_zero.mp hzero k hk
    · rw [← List.cons_append, ← List.append_assoc] at hsplit
      obtain ⟨htaken, -⟩ := List.append_inj' hsplit rfl
      exact h.forward before j rest htaken k hk

variable (hlinks : ∀ l ∈ links, l.2 < n)

include hlinks

theorem Counts.step (h : s.Counts n links []) : (s.step ids links).Counts n links [] := by
  have hrelease : ∀ (owed : List Nat) (s : State), (∀ j ∈ owed, j < n) →
      s.Counts n links owed → (owed.foldl (State.release ids) s).Counts n links [] := by
    intro owed
    induction owed with
    | nil => exact fun _ _ h => h
    | cons j owed ih =>
      intro s hlt h
      exact ih _ (fun k hk => hlt k (List.mem_cons_of_mem _ hk))
        (h.release (hlt j List.mem_cons_self))
  unfold State.step
  split
  · exact h
  · next i ready hready =>
    refine hrelease _ _ (fun j hj => ?_) (h.take hready)
    obtain ⟨l, hl, rfl⟩ := List.mem_map.mp hj
    exact hlinks l (List.mem_of_mem_filter hl)

theorem Counts.run (h : s.Counts n links []) (fuel : Nat) :
    (State.run ids links fuel s).Counts n links [] := by
  induction fuel generalizing s with
  | zero => exact h
  | succ fuel ih => exact ih (h.step hlinks)

omit hlinks in
theorem counts_start (ids : List NodeId) (links : List Link) :
    (State.start ids links).Counts ids.length links [] := by
  have hget : ∀ j < ids.length,
      (State.start ids links).waiting.getD j 0 = links.countP (·.2 == j) := by
    intro j hj
    simp [State.start, List.getD_eq_getElem?_getD, hj]
  have hready : (State.start ids links).ready.Perm
      ((List.range ids.length).filter fun j => (State.start ids links).waiting.getD j 0 == 0) := by
    have hfold : ∀ (js ready : List Nat),
        (js.foldl (fun ready i => enqueue ids i ready) ready).Perm (js ++ ready) := by
      intro js
      induction js with
      | nil => exact fun _ => .refl _
      | cons j js ih =>
        exact fun ready => (ih _).trans (((enqueue_perm ids j ready).append_left js).trans
          List.perm_middle)
    exact (hfold _ []).trans (.of_eq (List.append_nil _))
  have hmem : ∀ j, j ∈ (State.start ids links).ready ↔
      j < ids.length ∧ (State.start ids links).waiting.getD j 0 = 0 := by
    intro j
    rw [hready.mem_iff, List.mem_filter, List.mem_range, beq_iff_eq]
  refine ⟨?_, ?_, fun j hj => ((hmem j).mp hj).1, fun j hj => ?_, fun j hj => ?_, ?_⟩
  · simp [State.start]
  · exact hready.nodup_iff.mpr (List.nodup_range.filter _)
  · rw [hget j hj, List.count_nil, Nat.add_zero]
    refine List.countP_congr fun l _ => ?_
    simp [State.start]
  · refine Iff.trans ?_ (hmem j).symm
    exact (and_iff_right hj).symm
  · intro before j after hsplit
    exact absurd hsplit (by simp [State.start])

end State

end Counting

variable {nodes order : List Node} {edges : List Edge}

theorem counts_result (nodes : List Node) (edges : List Edge) :
    (result nodes edges).Counts nodes.length (links nodes edges) [] := by
  have hstart := State.counts_start (nodes.map (·.id)) (links nodes edges)
  rw [List.length_map] at hstart
  refine hstart.run (fun l hl => ?_) _
  obtain ⟨e, _, _, hstop⟩ := mem_links.mp hl
  exact position?_lt hstop

theorem filterMap_getElem?_range {α : Type} (xs : List α) :
    (List.range xs.length).filterMap (xs[·]?) = xs := by
  induction xs using List.reverseRecOn with
  | nil => rfl
  | append_singleton xs x ih =>
    have hprefix : (List.range xs.length).filterMap ((xs ++ [x])[·]?) =
        (List.range xs.length).filterMap (xs[·]?) :=
      List.filterMap_congr fun i hi => List.getElem?_append_left (List.mem_range.mp hi)
    rw [List.length_append, List.length_singleton, List.range_succ, List.filterMap_append,
      hprefix, ih]
    simp

/-- A finished sort takes every position once. -/
theorem taken_of_inOrder (h : inOrder nodes edges = .ok order) :
    (result nodes edges).taken.Perm (List.range nodes.length) ∧
      order = (result nodes edges).taken.filterMap (nodes[·]?) := by
  simp only [inOrder] at h
  split at h
  · next hlength =>
    cases h
    have hcounts := counts_result nodes edges
    have hsub : (result nodes edges).taken.Subperm (List.range nodes.length) :=
      List.subperm_of_subset hcounts.nodup.of_append_left fun j hj =>
        List.mem_range.mpr (hcounts.lt j (List.mem_append_left _ hj))
    exact ⟨hsub.perm_of_length_le (by simp [hlength]), rfl⟩
  · cases h

end Order

open FrameGraph.Order

variable {nodes order : List Node} {edges : List Edge}

theorem inOrder_perm (h : inOrder nodes edges = .ok order) : order.Perm nodes := by
  obtain ⟨hperm, rfl⟩ := taken_of_inOrder h
  exact (hperm.filterMap _).trans (.of_eq (filterMap_getElem?_range nodes))

/-- Before a node stand all nodes from which an edge leads to it. -/
theorem mem_before_of_inOrder (hids : (nodes.map (·.id)).Nodup)
    (h : inOrder nodes edges = .ok order) {before after : List Node} {m n : Node}
    (hsplit : order = before ++ n :: after) (hm : m ∈ order) {e : Edge} (he : e ∈ edges)
    (hstart : e.start.node = m.id) (hstop : e.stop.node = n.id) : m ∈ before := by
  have hmem := (inOrder_perm h).subset hm
  obtain ⟨-, horder⟩ := taken_of_inOrder h
  obtain ⟨i, hi⟩ := List.mem_iff_getElem?.mp hmem
  -- The taken positions split where the order splits.
  obtain ⟨first, rest, htaken, hfirst, hrest⟩ :=
    List.filterMap_eq_append_iff.mp (horder.symm.trans hsplit)
  obtain ⟨skipped, j, last, rfl, hskipped, hj, -⟩ := List.filterMap_eq_cons_iff.mp hrest
  have hlink : (i, j) ∈ links nodes edges := mem_links.mpr
    ⟨e, he, hstart ▸ position?_of_getElem? hids hi, hstop ▸ position?_of_getElem? hids hj⟩
  rw [← List.append_assoc] at htaken
  have hi' := (counts_result nodes edges).forward _ j last htaken i hlink
  have hbefore : (first ++ skipped).filterMap (nodes[·]?) = before := by
    rw [List.filterMap_append, hfirst, List.filterMap_eq_nil_iff.mpr hskipped, List.append_nil]
  exact hbefore ▸ List.mem_filterMap.mpr ⟨i, hi', hi⟩

end FrameGraph
