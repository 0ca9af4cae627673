import FrameGraph.Proofs.Order.Cycles

/-!
# Every moment of a sort

A step of a sort takes one position and then takes its links away one by one. A moment is what a
sort has come to after any number of these changes (`Order.Moment`), and every state of a run is
one (`Order.Moment.run`). At every moment a counter that is about to be lowered is positive, and a
position becomes ready only once (`Order.Moment.steady`), whatever links there are: repeated ones,
links from a position to itself, positions whose ids are repeated.
-/

namespace FrameGraph

namespace Order

/-- What a sort has come to at some moment: its state, the positions that are still to be released
because of the one taken last, and all positions that have become ready so far. -/
inductive Moment (ids : List NodeId) (links : List Link) :
    State → (owed entered : List Nat) → Prop
  | start : Moment ids links (.start ids links) [] (State.start ids links).ready
  | take {s : State} {entered ready : List Nat} {i : Nat} :
    Moment ids links s [] entered → s.ready = i :: ready →
    Moment ids links { s with ready, taken := s.taken ++ [i] } (dependents links i) entered
  | release {s : State} {owed entered : List Nat} {j : Nat} :
    Moment ids links s (j :: owed) entered →
    Moment ids links (s.release ids j) owed
      (if s.waiting.getD j 0 - 1 = 0 then entered ++ [j] else entered)

/-- What counters and positions come to at a moment of a sort of `n` positions. -/
structure Steady (n : Nat) (links : List Link) (s : State) (owed entered : List Nat) : Prop where
  length : s.waiting.length = n
  lt : ∀ j ∈ entered ++ owed, j < n
  /-- Each counter that is to be lowered is positive. -/
  positive : ∀ j ∈ owed, 0 < s.waiting.getD j 0
  le : ∀ counter ∈ s.waiting, counter ≤ links.length
  /-- No position becomes ready twice. -/
  once : entered.Nodup
  taken : s.taken.Nodup
  /-- What has become ready is ready still, or it is taken. -/
  kept : entered.Perm (s.taken ++ s.ready)

namespace Moment

variable {ids : List NodeId} {links : List Link} {s : State} {owed entered : List Nat}

/-! ## Runs go from moment to moment -/

theorem releaseAll {released : List Nat} (h : Moment ids links s (released ++ owed) entered) :
    ∃ entered', Moment ids links (released.foldl (State.release ids) s) owed entered' := by
  induction released generalizing s entered with
  | nil => exact ⟨entered, h⟩
  | cons j released ih => exact ih h.release

theorem step (h : Moment ids links s [] entered) :
    ∃ entered', Moment ids links (s.step ids links) [] entered' := by
  unfold State.step
  split
  · exact ⟨entered, h⟩
  · next i ready hready =>
    have htake := h.take hready
    rw [← List.append_nil (dependents links i)] at htake
    exact htake.releaseAll

theorem run (h : Moment ids links s [] entered) (fuel : Nat) :
    ∃ entered', Moment ids links (.run ids links fuel s) [] entered' := by
  induction fuel generalizing s entered with
  | zero => exact ⟨entered, h⟩
  | succ fuel ih =>
    obtain ⟨entered', h'⟩ := h.step
    exact ih h'

/-! ## What every moment keeps -/

theorem counts (hlinks : ∀ l ∈ links, l.2 < ids.length) (h : Moment ids links s owed entered) :
    s.Counts ids.length links owed ∧ ∀ j ∈ owed, j < ids.length := by
  induction h with
  | start => exact ⟨State.counts_start ids links, fun _ hj => nomatch hj⟩
  | take _ hready ih =>
    refine ⟨ih.1.take hready, fun j hj => ?_⟩
    obtain ⟨l, hl, rfl⟩ := List.mem_map.mp hj
    exact hlinks l (List.mem_of_mem_filter hl)
  | release _ ih =>
    exact ⟨ih.1.release (ih.2 _ List.mem_cons_self), fun k hk => ih.2 k (List.mem_cons_of_mem _ hk)⟩

theorem entered_perm (h : Moment ids links s owed entered) :
    entered.Perm (s.taken ++ s.ready) := by
  induction h with
  | start => exact .refl _
  | @take s entered ready i _ hready ih =>
    rw [hready] at ih
    rwa [List.append_assoc]
  | @release s owed entered j _ ih =>
    simp only [State.release]
    split
    · -- The position that becomes ready is put in its place among the others.
      have hplaced : (s.taken ++ s.ready ++ [j]).Perm (s.taken ++ enqueue ids j s.ready) := by
        rw [List.append_assoc]
        exact ((List.perm_append_singleton j s.ready).trans
          (State.enqueue_perm ids j s.ready).symm).append_left s.taken
      exact (ih.append_right [j]).trans hplaced
    · exact ih

/-- Counters only go down, from at most the number of links. -/
theorem waiting_le (h : Moment ids links s owed entered) :
    ∀ counter ∈ s.waiting, counter ≤ links.length := by
  induction h with
  | start =>
    intro counter hcounter
    obtain ⟨j, -, rfl⟩ := List.mem_map.mp hcounter
    exact List.countP_le_length
  | take _ _ ih => exact ih
  | @release s _ _ j _ ih =>
    intro counter hcounter
    rcases List.mem_or_eq_of_mem_set hcounter with hold | rfl
    · exact ih counter hold
    · rw [List.getD_eq_getElem?_getD]
      cases hj : s.waiting[j]? with
      | none => exact Nat.zero_le _
      | some before => exact (Nat.sub_le ..).trans (ih before (List.mem_of_getElem? hj))

theorem steady (hlinks : ∀ l ∈ links, l.2 < ids.length)
    (h : Moment ids links s owed entered) : Steady ids.length links s owed entered := by
  obtain ⟨hcounts, howed⟩ := h.counts hlinks
  have hperm := h.entered_perm
  refine ⟨hcounts.length, fun j hj => ?_, fun j hj => ?_, h.waiting_le,
    hperm.nodup_iff.mpr hcounts.nodup, hcounts.nodup.of_append_left, hperm⟩
  · rcases List.mem_append.mp hj with hj | hj
    · exact hcounts.lt j (hperm.subset hj)
    · exact howed j hj
  · rw [hcounts.waiting j (howed j hj)]
    have hcount := List.count_pos_iff.mpr hj
    omega

end Moment

end Order

end FrameGraph
