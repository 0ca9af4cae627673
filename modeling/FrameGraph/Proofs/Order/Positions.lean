import FrameGraph.Graph
import Mathlib.Data.List.Nodup

/-!
# Looking things up

A position map sends an id to the last position at which it stands. Every position it gives lies in
the list, and where ids are distinct it is the only one. A search gives a member that satisfies it
wherever there is one.
-/

namespace FrameGraph

variable {α : Type} [DecidableEq α] {a : α} {xs : List α} {i : Nat}

theorem getElem?_of_lastIndex? (h : lastIndex? a xs = some i) : xs[i]? = some a := by
  induction xs generalizing i with
  | nil => cases h
  | cons x xs ih =>
    unfold lastIndex? at h
    split at h
    · next j hj =>
      cases h
      exact ih hj
    · split at h
      · next hx =>
        cases h
        exact congrArg some hx
      · cases h

theorem lastIndex?_eq_none : lastIndex? a xs = none ↔ a ∉ xs := by
  induction xs with
  | nil => simp [lastIndex?]
  | cons x xs ih =>
    simp only [lastIndex?, List.mem_cons, not_or]
    split
    · next j hj =>
      refine iff_of_false (by simp) fun ⟨_, hmem⟩ => ?_
      rw [ih.mpr hmem] at hj
      cases hj
    · next hnone =>
      simp only [ite_eq_right_iff, reduceCtorEq, imp_false, ih.mp hnone, not_false_eq_true,
        and_true]
      exact not_congr eq_comm

theorem lastIndex?_eq_some :
    lastIndex? a xs = some i ↔ xs[i]? = some a ∧ ∀ j, xs[j]? = some a → j ≤ i := by
  have hlast : ∀ {xs : List α} {i j : Nat}, lastIndex? a xs = some i → xs[j]? = some a → j ≤ i := by
    intro xs
    induction xs with
    | nil => exact fun h => nomatch h
    | cons x xs ih =>
      intro i j h hj
      unfold lastIndex? at h
      cases j with
      | zero => exact Nat.zero_le i
      | succ j =>
        split at h
        · next k hk =>
          cases h
          exact Nat.succ_le_succ (ih hk hj)
        · next hnone =>
          rw [List.getElem?_cons_succ] at hj
          exact absurd (List.mem_of_getElem? hj) (lastIndex?_eq_none.mp hnone)
  constructor
  · intro h
    exact ⟨getElem?_of_lastIndex? h, fun j => hlast h⟩
  · rintro ⟨hi, hle⟩
    cases hk : lastIndex? a xs with
    | none => exact absurd (List.mem_of_getElem? hi) (lastIndex?_eq_none.mp hk)
    | some k => exact congrArg some (Nat.le_antisymm (hle k (getElem?_of_lastIndex? hk)) (hlast hk hi))

theorem lastIndex?_of_nodup (hxs : xs.Nodup) (h : xs[i]? = some a) :
    lastIndex? a xs = some i := by
  cases hlast : lastIndex? a xs with
  | none => exact absurd (List.mem_of_getElem? h) (lastIndex?_eq_none.mp hlast)
  | some j =>
    have hget := getElem?_of_lastIndex? hlast
    have hj := (List.getElem?_eq_some_iff.mp hget).1
    exact congrArg some ((List.getElem?_inj hj hxs).mp (hget.trans h.symm))

omit [DecidableEq α] in
theorem exists_find? {p : α → Bool} (ha : a ∈ xs) (hp : p a = true) :
    ∃ b, xs.find? p = some b ∧ b ∈ xs ∧ p b = true := by
  have hsome : (xs.find? p).isSome = true := List.find?_isSome.mpr ⟨a, ha, hp⟩
  obtain ⟨b, hb⟩ := Option.isSome_iff_exists.mp hsome
  exact ⟨b, hb, List.mem_of_find?_eq_some hb, List.find?_some hb⟩

variable {nodes : List Node} {id : NodeId}

theorem exists_of_position? (h : position? nodes id = some i) :
    ∃ n, nodes[i]? = some n ∧ n.id = id := by
  have hget := getElem?_of_lastIndex? h
  rwa [List.getElem?_map, Option.map_eq_some_iff] at hget

theorem mem_of_position? (h : position? nodes id = some i) : id ∈ nodes.map (·.id) :=
  List.mem_of_getElem? (getElem?_of_lastIndex? h)

theorem position?_lt (h : position? nodes id = some i) : i < nodes.length := by
  obtain ⟨n, hn, _⟩ := exists_of_position? h
  exact (List.getElem?_eq_some_iff.mp hn).1

theorem position?_of_getElem? (hids : (nodes.map (·.id)).Nodup) {n : Node}
    (h : nodes[i]? = some n) : position? nodes n.id = some i :=
  lastIndex?_of_nodup hids (by rw [List.getElem?_map, h, Option.map_some])

end FrameGraph
