import FrameGraph.Proofs.Order.Least
import FrameGraph.Proofs.Renumber.Snapshot

/-!
# The order under other ids

A sort works on positions and looks at ids only to compare them (`Order.State.run_congr`). Under
other ids in the same order the nodes therefore come out in the same order, or the same cycle is
reported under its other ids (`inOrder_renumber`).
-/

namespace FrameGraph

namespace Order

/-! ## A sort sees no more of ids than how they compare -/

section

variable {ids ids' : List NodeId} {links : List Link} {n : Nat}
  (h : ∀ i < n, ∀ j < n, before ids i j = before ids' i j)

include h

theorem enqueue_congr {i : Nat} (hi : i < n) {js : List Nat} (hjs : ∀ j ∈ js, j < n) :
    enqueue ids i js = enqueue ids' i js := by
  induction js with
  | nil => rfl
  | cons j js ih =>
    rw [enqueue, enqueue, h i hi j (hjs j List.mem_cons_self),
      ih fun k hk => hjs k (List.mem_cons_of_mem _ hk)]

namespace State

variable {s : State}

theorem foldl_release_congr {js : List Nat} (hjs : ∀ j ∈ js, j < n) (hs : ∀ j ∈ s.ready, j < n) :
    js.foldl (release ids) s = js.foldl (release ids') s := by
  induction js generalizing s with
  | nil => rfl
  | cons j js ih =>
    have hj := hjs j List.mem_cons_self
    have hrelease : s.release ids j = s.release ids' j := by
      rw [release, release, enqueue_congr h hj hs]
    rw [List.foldl_cons, List.foldl_cons, hrelease]
    refine ih (fun k hk => hjs k (List.mem_cons_of_mem _ hk)) fun k hk => ?_
    rw [release] at hk
    split at hk
    · rcases mem_enqueue.mp hk with rfl | hk
      · exact hj
      · exact hs k hk
    · exact hs k hk

theorem start_congr (hids : ids.length = n) (hids' : ids'.length = n) :
    start ids links = start ids' links := by
  have hfold : ∀ (free ready : List Nat), (∀ j ∈ free, j < n) → (∀ j ∈ ready, j < n) →
      free.foldl (fun ready i => enqueue ids i ready) ready =
        free.foldl (fun ready i => enqueue ids' i ready) ready := by
    intro free
    induction free with
    | nil => exact fun _ _ _ => rfl
    | cons i free ih =>
      intro ready hfree hready
      have hi := hfree i List.mem_cons_self
      rw [List.foldl_cons, List.foldl_cons, enqueue_congr h hi hready]
      refine ih _ (fun k hk => hfree k (List.mem_cons_of_mem _ hk)) fun k hk => ?_
      rcases mem_enqueue.mp hk with rfl | hk
      · exact hi
      · exact hready k hk
  unfold start
  simp only [hids, hids']
  rw [hfold _ _ (fun j hj => List.mem_range.mp (List.mem_of_mem_filter hj))
    fun _ hj => absurd hj List.not_mem_nil]

variable (hlinks : ∀ l ∈ links, l.2 < n)

include hlinks

theorem step_congr (hs : s.Counts n links []) : s.step ids links = s.step ids' links := by
  unfold step
  split
  · rfl
  · next i ready hready =>
    refine foldl_release_congr h (fun j hj => ?_) fun j hj => hs.lt j ?_
    · obtain ⟨l, hl, rfl⟩ := List.mem_map.mp hj
      exact hlinks l (List.mem_of_mem_filter hl)
    · rw [hready]
      exact List.mem_append_right _ (List.mem_cons_of_mem _ hj)

theorem run_congr (hs : s.Counts n links []) (fuel : Nat) :
    run ids links fuel s = run ids' links fuel s := by
  induction fuel generalizing s with
  | zero => rfl
  | succ fuel ih =>
    rw [run, run, ← step_congr h hlinks hs]
    exact ih (hs.step hlinks)

end State

end

/-! ## Other ids -/

section

variable {ρ : Nat → Nat} {nodes : List Node} {edges : List Edge}

theorem map_id_renumber (nodes : List Node) :
    (nodes.map (Node.renumber ρ)).map (·.id) = (nodes.map (·.id)).map ρ := by
  rw [List.map_map, List.map_map]
  rfl

theorem idAt_renumber {i : Nat} (hi : i < nodes.length) :
    idAt (nodes.map (.renumber ρ)) i = ρ (idAt nodes i) := by
  simp [idAt, List.getD_eq_getElem?_getD, hi]

theorem idAt_lt_iff (h : Renumbers ρ nodes edges) {i j : Nat} (hi : i < nodes.length)
    (hj : j < nodes.length) :
    idAt (nodes.map (.renumber ρ)) i < idAt (nodes.map (.renumber ρ)) j ↔
      idAt nodes i < idAt nodes j := by
  rw [idAt_renumber hi, idAt_renumber hj, idAt_eq hi, idAt_eq hj]
  exact h.lt_iff (List.getElem_mem hi) (List.getElem_mem hj)

theorem before_renumber (h : Renumbers ρ nodes edges) {i j : Nat} (hi : i < nodes.length)
    (hj : j < nodes.length) :
    before ((nodes.map (Node.renumber ρ)).map (·.id)) i j = before (nodes.map (·.id)) i j := by
  have heq : idAt (nodes.map (.renumber ρ)) i = idAt (nodes.map (.renumber ρ)) j ↔
      idAt nodes i = idAt nodes j := by
    rw [idAt_renumber hi, idAt_renumber hj, idAt_eq hi, idAt_eq hj]
    exact h.eq_iff (.node (List.getElem_mem hi)) (.node (List.getElem_mem hj))
  rw [Bool.eq_iff_iff, before_iff, before_iff]
  exact or_congr (idAt_lt_iff h hi hj) (and_congr_left' heq)

theorem links_renumber (h : Renumbers ρ nodes edges) :
    links (nodes.map (.renumber ρ)) (edges.map (.renumber ρ)) = links nodes edges := by
  unfold links
  rw [List.filterMap_map]
  refine List.filterMap_congr fun e he => ?_
  have hstart := position?_renumber h (.startNode he)
  have hstop := position?_renumber h (.stopNode he)
  simp only [Function.comp_apply, Edge.renumber, Endpoint.renumber, hstart, hstop]

theorem result_renumber (h : Renumbers ρ nodes edges) :
    result (nodes.map (.renumber ρ)) (edges.map (.renumber ρ)) = result nodes edges := by
  have hbefore : ∀ i < nodes.length, ∀ j < nodes.length,
      before ((nodes.map (Node.renumber ρ)).map (·.id)) i j = before (nodes.map (·.id)) i j :=
    fun i hi j hj => before_renumber h hi hj
  have hlinks : ∀ l ∈ links nodes edges, l.2 < nodes.length := fun l hl => (links_lt hl).2
  have hlength : ((nodes.map (Node.renumber ρ)).map (·.id)).length = nodes.length := by simp
  have hcounts := State.counts_start ((nodes.map (Node.renumber ρ)).map (·.id)) (links nodes edges)
  rw [hlength] at hcounts
  unfold result
  simp only [links_renumber h, hlength, List.length_map]
  rw [State.run_congr hbefore hlinks hcounts,
    State.start_congr hbefore hlength (List.length_map ..)]

theorem cycleMembers_renumber (h : Renumbers ρ nodes edges) (waiting : List Nat) :
    cycleMembers ((nodes.map (Node.renumber ρ)).map (·.id)) (links nodes edges) waiting =
      (cycleMembers (nodes.map (·.id)) (links nodes edges) waiting).map ρ := by
  unfold cycleMembers
  simp only [List.length_map]
  generalize hmembers : peel (links nodes edges) nodes.length _ = members
  have hlt : ∀ i ∈ members, i < nodes.length := fun i hi =>
    List.mem_range.mp (List.mem_of_mem_filter ((peel_sublist ..).subset (hmembers ▸ hi)))
  have hids : members.map (idAt (nodes.map (.renumber ρ))) = (members.map (idAt nodes)).map ρ := by
    rw [List.map_map]
    exact List.map_congr_left fun i hi => idAt_renumber (hlt i hi)
  change (members.map (idAt (nodes.map (.renumber ρ)))).mergeSort =
    ((members.map (idAt nodes)).mergeSort).map ρ
  rw [hids]
  refine (List.map_mergeSort fun a ha b hb => ?_).symm
  obtain ⟨i, hi, rfl⟩ := List.mem_map.mp ha
  obtain ⟨j, hj, rfl⟩ := List.mem_map.mp hb
  have hle := idAt_lt_iff h (hlt j hj) (hlt i hi)
  rw [idAt_renumber (hlt i hi), idAt_renumber (hlt j hj)] at hle
  rw [decide_eq_decide, ← Nat.not_lt, ← Nat.not_lt, hle]

end

end Order

open FrameGraph.Order

/-- Nodes come out in the same order, or the same nodes are reported as members of cycles. -/
theorem inOrder_renumber {ρ : Nat → Nat} {nodes : List Node} {edges : List Edge}
    (h : Renumbers ρ nodes edges) :
    inOrder (nodes.map (.renumber ρ)) (edges.map (.renumber ρ)) =
      ((inOrder nodes edges).map (·.map (.renumber ρ))).mapError (.renumber ρ) := by
  unfold inOrder
  simp only [result_renumber h, links_renumber h, cycleMembers_renumber h, List.length_map]
  split
  · simp only [Except.map, Except.mapError, List.map_filterMap, List.getElem?_map]
  · rfl

end FrameGraph
