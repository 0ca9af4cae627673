import FrameGraph.Proofs.Order.Least

/-!
# What is reported of a cycle

Where nodes cannot be put in order, the positions that a sort leaves are peeled. Every round drops
some of them, until a round drops none (`Order.exists_rounds`). The ids of those that are left are
reported: they lie between cycles (`inOrder_reports_between`). That is every id on a cycle, and also
every id over which one cycle leads to another (`Order.Bridges`). A report is true to its wording
exactly if there is no such id (`inOrder_reports_bridges`).
-/

namespace FrameGraph

open Relation

namespace Order

/-! ## Rounds of peeling -/

/-- As long as a round drops a position, another one follows. -/
theorem exists_rounds (links : List Link) {fuel : Nat} {stuck : List Nat}
    (hfuel : stuck.length ≤ fuel) :
    ∃ rounds, peel links fuel stuck = (leading links)^[rounds] stuck ∧
      leading links (peel links fuel stuck) = peel links fuel stuck ∧
      rounds + (peel links fuel stuck).length ≤ stuck.length := by
  induction fuel generalizing stuck with
  | zero =>
    rw [List.length_eq_zero_iff.mp (Nat.le_zero.mp hfuel)]
    exact ⟨0, rfl, rfl, Nat.le_refl _⟩
  | succ fuel ih =>
    have hsub : (leading links stuck).Sublist stuck := List.filter_sublist
    rw [peel_succ]
    split
    · next hlength => exact ⟨0, rfl, hsub.eq_of_length hlength, (Nat.zero_add _).le⟩
    · next hlength =>
      have hlt := Nat.lt_of_le_of_ne hsub.length_le hlength
      have hfewer : (leading links stuck).length ≤ fuel := by omega
      obtain ⟨rounds, hpeel, hrest, hle⟩ := ih hfewer
      exact ⟨rounds + 1, hpeel, hrest, by omega⟩

/-- The positions that a sort leaves, each held back by another one of them. -/
def stuck (nodes : List Node) (edges : List Edge) : List Nat :=
  (List.range nodes.length).filter fun i => (result nodes edges).waiting.getD i 0 != 0

theorem length_stuck_le (nodes : List Node) (edges : List Edge) :
    (stuck nodes edges).length ≤ nodes.length :=
  (List.length_filter_le ..).trans_eq List.length_range

theorem cycleMembers_eq (nodes : List Node) (edges : List Edge) :
    cycleMembers (nodes.map (·.id)) (links nodes edges) (result nodes edges).waiting =
      ((peel (links nodes edges) nodes.length (stuck nodes edges)).map (idAt nodes)).mergeSort := by
  rw [cycleMembers, List.length_map]
  rfl

/-! ## Bridges -/

/-- On no cycle, but on the way from one cycle to another, which does not lead back. -/
structure Bridges {α : Type} (r : α → α → Prop) (a : α) : Prop where
  off : ¬ TransGen r a a
  ends : ∃ b c, TransGen r b b ∧ TransGen r c c ∧ TransGen r b a ∧ TransGen r a c ∧
    ¬ ReflTransGen r c b

theorem between_iff {α : Type} {r : α → α → Prop} {a : α} :
    Between r a ↔ TransGen r a a ∨ Bridges r a := by
  constructor
  · rintro ⟨⟨b, hb, hba⟩, c, hc, hac⟩
    by_cases ha : TransGen r a a
    · exact .inl ha
    · -- Both ends are on cycles, so neither of them is `a`.
      have hba : TransGen r b a :=
        (reflTransGen_iff_eq_or_transGen.mp hba).resolve_left fun h => ha (h ▸ hb)
      have hac : TransGen r a c :=
        (reflTransGen_iff_eq_or_transGen.mp hac).resolve_left fun h => ha (h ▸ hc)
      exact .inr ⟨ha, b, c, hb, hc, hba, hac, fun hcb => ha ((hac.trans_left hcb).trans hba)⟩
  · rintro (ha | ⟨-, b, c, hb, hc, hba, hac, -⟩)
    · exact ⟨⟨a, ha, .refl⟩, a, ha, .refl⟩
    · exact ⟨⟨b, hb, hba.to_reflTransGen⟩, c, hc, hac.to_reflTransGen⟩

theorem inOrder_eq_error {nodes : List Node} {edges : List Edge} {error : CompileError}
    (h : inOrder nodes edges = .error error) :
    HasCycle nodes edges ∧ error = .cycle
      (cycleMembers (nodes.map (·.id)) (links nodes edges) (result nodes edges).waiting) := by
  rcases inOrder_cases nodes edges with ⟨hcycle, herror⟩ | ⟨-, order, hok⟩
  · exact ⟨hcycle, Except.error.inj (h.symm.trans herror)⟩
  · cases h.symm.trans hok

end Order

open FrameGraph.Order

variable {nodes : List Node} {edges : List Edge}

/-- Where nodes cannot be put in order, peeling what is left comes to an end, and the ids of what is
left then are reported, the least first: those that come after a cycle and lead to one. -/
theorem inOrder_reports_between (hids : (nodes.map (·.id)).Nodup) {error : CompileError}
    (h : inOrder nodes edges = .error error) :
    ∃ rounds left ids, left = (leading (links nodes edges))^[rounds] (stuck nodes edges) ∧
      leading (links nodes edges) left = left ∧ rounds + left.length ≤ nodes.length ∧
      error = .cycle ids ∧ ids.Perm (left.map (idAt nodes)) ∧ ids ≠ [] ∧ ids.SortedLT ∧
      ∀ a, a ∈ ids ↔ Between (Leads nodes edges) a := by
  obtain ⟨⟨a, ha⟩, rfl⟩ := inOrder_eq_error h
  have hstuck := length_stuck_le nodes edges
  obtain ⟨rounds, hleft, hrest, hle⟩ := exists_rounds (links nodes edges) hstuck
  refine ⟨rounds, _, _, hleft, hrest, hle.trans hstuck, rfl, ?_, ?_,
    cycleMembers_sortedLT hids edges, fun _ => mem_cycleMembers⟩
  · rw [cycleMembers_eq]
    exact List.mergeSort_perm ..
  · exact List.ne_nil_of_mem (mem_cycleMembers.mpr (between_iff.mpr (.inl ha)))

/-- What is reported are the ids on cycles and the bridges from one cycle to another, the least
first. It is the ids on cycles alone exactly if there is no bridge. -/
theorem inOrder_reports_bridges (hids : (nodes.map (·.id)).Nodup) {ids : List NodeId}
    (h : inOrder nodes edges = .error (.cycle ids)) :
    ids.SortedLT ∧
    (∀ a, a ∈ ids ↔ TransGen (Leads nodes edges) a a ∨ Bridges (Leads nodes edges) a) ∧
    ((∀ a, a ∈ ids ↔ TransGen (Leads nodes edges) a a) ↔ ¬ ∃ a, Bridges (Leads nodes edges) a) := by
  obtain ⟨-, herror⟩ := inOrder_eq_error h
  cases herror
  have hmem : ∀ a, a ∈ cycleMembers (nodes.map (·.id)) (links nodes edges)
      (result nodes edges).waiting ↔
        TransGen (Leads nodes edges) a a ∨ Bridges (Leads nodes edges) a :=
    fun _ => mem_cycleMembers.trans between_iff
  refine ⟨cycleMembers_sortedLT hids edges, hmem, fun honly ⟨a, ha⟩ => ?_, fun hnone a => ?_⟩
  · exact ha.off ((honly a).mp ((hmem a).mpr (.inr ha)))
  · exact (hmem a).trans (or_iff_left fun ha => hnone ⟨a, ha⟩)

/-- Two rings, `0 ⇄ 1` and `3 ⇄ 4`, with node 2 on the way from the first to the second. Node 5
comes before both, node 6 after both, and one link is doubled. -/
def Order.bridgedRings : List Node × List Edge :=
  let link (id : EdgeId) (a b : NodeId) : Edge := ⟨id, ⟨a, 0, "Out"⟩, ⟨b, 0, "In"⟩, .image⟩
  ([6, 3, 0, 2, 5, 4, 1].map fun id => { id, name := "Pass", kind := .gaussianBlur, ports := [] },
    [link 10 0 1, link 11 1 0, link 12 1 2, link 13 2 3, link 14 3 4, link 15 4 3, link 16 2 3,
      link 17 5 0, link 18 4 6])

theorem inOrder_bridgedRings :
    inOrder bridgedRings.1 bridgedRings.2 = .error (.cycle [0, 1, 2, 3, 4]) := by
  have hperm : (cycleMembers (bridgedRings.1.map (·.id)) (links bridgedRings.1 bridgedRings.2)
      (result bridgedRings.1 bridgedRings.2).waiting).Perm [0, 1, 2, 3, 4] := by
    rw [cycleMembers_eq]
    exact (List.mergeSort_perm ..).trans (by decide +kernel)
  have hids : (bridgedRings.1.map (·.id)).Nodup := by decide
  have hmembers := (cycleMembers_sortedLT hids bridgedRings.2).eq_of_mem_iff (by decide)
    fun _ => hperm.mem_iff
  have hlength : ¬ (result bridgedRings.1 bridgedRings.2).taken.length = bridgedRings.1.length := by
    decide +kernel
  simp only [inOrder, if_neg hlength, hmembers]

theorem bridgedRings_between :
    ∃ rounds left ids,
      left = (leading (links bridgedRings.1 bridgedRings.2))^[rounds]
        (stuck bridgedRings.1 bridgedRings.2) ∧
      leading (links bridgedRings.1 bridgedRings.2) left = left ∧
      rounds + left.length ≤ bridgedRings.1.length ∧
      CompileError.cycle [0, 1, 2, 3, 4] = .cycle ids ∧
      ids.Perm (left.map (idAt bridgedRings.1)) ∧ ids ≠ [] ∧ ids.SortedLT ∧
      ∀ a, a ∈ ids ↔ Between (Leads bridgedRings.1 bridgedRings.2) a :=
  inOrder_reports_between (by decide) inOrder_bridgedRings

/-- From node 2 one comes to nodes 3, 4 and 6 only. -/
theorem bridgedRings_off : ¬ TransGen (Leads bridgedRings.1 bridgedRings.2) 2 2 := by
  have hstep : ∀ e ∈ bridgedRings.2, e.start.node ∈ [2, 3, 4, 6] → e.stop.node ∈ [3, 4, 6] := by
    decide
  have hclosed : ∀ a, TransGen (Leads bridgedRings.1 bridgedRings.2) 2 a → a ∈ [3, 4, 6] := by
    intro a ha
    induction ha with
    | single h =>
      obtain ⟨-, -, e, he, hstart, rfl⟩ := h
      exact hstep e he (by rw [hstart]; decide)
    | tail _ h ih =>
      obtain ⟨-, -, e, he, rfl, rfl⟩ := h
      exact hstep e he (List.mem_cons_of_mem _ ih)
  exact fun h => absurd (hclosed 2 h) (by decide)

/-- Node 2 is reported since it is a bridge. -/
theorem bridgedRings_bridges :
    (bridgedRings.1.map (·.id)).Nodup ∧
      inOrder bridgedRings.1 bridgedRings.2 = .error (.cycle [0, 1, 2, 3, 4]) ∧
      Bridges (Leads bridgedRings.1 bridgedRings.2) 2 := by
  have hids : (bridgedRings.1.map (·.id)).Nodup := by decide
  obtain ⟨-, hmem, -⟩ := inOrder_reports_bridges hids inOrder_bridgedRings
  exact ⟨hids, inOrder_bridgedRings, ((hmem 2).mp (by decide)).resolve_left bridgedRings_off⟩

/-- What is reported of the two rings is more than the ids on cycles. -/
theorem bridgedRings_not_only_cycles :
    inOrder bridgedRings.1 bridgedRings.2 = .error (.cycle [0, 1, 2, 3, 4]) ∧
      ¬ ∀ a, a ∈ [0, 1, 2, 3, 4] ↔ TransGen (Leads bridgedRings.1 bridgedRings.2) a a :=
  ⟨inOrder_bridgedRings, fun honly => bridgedRings_off ((honly 2).mp (by decide))⟩

end FrameGraph
