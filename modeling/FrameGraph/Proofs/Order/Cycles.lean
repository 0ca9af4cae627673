import FrameGraph.Proofs.Order.Forward
import Mathlib.Data.Fintype.Card
import Mathlib.Data.Set.Finite.List
import Mathlib.Logic.Relation

/-!
# Cycles

A sort stops when nothing is ready. What is not taken then waits for something that is not taken
either, and as there are finitely many positions, it comes after a cycle (`Order.not_mem_taken`).
So nodes are put in order exactly if the edges between them have no cycle (`inOrder_cases`).
Peeling what is left keeps what also leads to a cycle (`Order.mem_cycleMembers`).
-/

namespace FrameGraph

open Relation

/-- Where every member of a finite set leads to a member, every member leads to a cycle. -/
theorem exists_cycle_of_forall_exists {α : Type} {r : α → α → Prop} {s : List α}
    (hs : ∀ a ∈ s, ∃ b ∈ s, r a b) {a : α} (ha : a ∈ s) :
    ∃ c, ReflTransGen r a c ∧ TransGen r c c := by
  by_contra hnone
  push Not at hnone
  -- Without a cycle, one of the members that `a` leads to would lead nowhere.
  let t : Set α := {b | b ∈ s ∧ ReflTransGen r a b}
  have : Finite t := s.finite_toSet.subset fun b hb => hb.1
  have : IsTrans t fun b c => TransGen r c b := ⟨fun _ _ _ hab hbc => hbc.trans hab⟩
  have : Std.Irrefl fun b c : t => TransGen r (c : α) b := ⟨fun b => hnone b b.2.2⟩
  have hwf : WellFounded fun b c : t => TransGen r (c : α) b :=
    Finite.wellFounded_of_trans_of_irrefl _
  obtain ⟨⟨b, hb, hab⟩, -, hlast⟩ := hwf.has_min Set.univ ⟨⟨a, ha, .refl⟩, trivial⟩
  obtain ⟨c, hc, hbc⟩ := hs b hb
  exact hlast ⟨c, hc, hab.tail hbc⟩ trivial (.single hbc)

namespace Order

/-- Position `j` waits for position `i`. -/
def Follows (links : List Link) (i j : Nat) : Prop := (i, j) ∈ links

/-- A cycle leads to `a`, and `a` leads to a cycle. -/
structure Between {α : Type} (r : α → α → Prop) (a : α) : Prop where
  comes : ∃ c, TransGen r c c ∧ ReflTransGen r c a
  leads : ∃ c, TransGen r c c ∧ ReflTransGen r a c

/-! ## Where a sort stops -/

namespace State

variable {ids : List NodeId} {links : List Link}

@[simp] theorem taken_release (s : State) (j : Nat) : (s.release ids j).taken = s.taken := rfl

theorem taken_foldl_release (js : List Nat) (s : State) :
    (js.foldl (release ids) s).taken = s.taken := by
  induction js generalizing s with
  | nil => rfl
  | cons j js ih => rw [List.foldl_cons, ih, taken_release]

theorem run_of_ready_eq_nil {s : State} (h : s.ready = []) (fuel : Nat) :
    run ids links fuel s = s := by
  induction fuel with
  | zero => rfl
  | succ fuel ih => rwa [run, step, h]

theorem taken_step {s : State} {i : Nat} {ready : List Nat} (h : s.ready = i :: ready) :
    (s.step ids links).taken = s.taken ++ [i] := by
  rw [step, h, taken_foldl_release]

/-- A run takes a position in every step, or it comes to where nothing is ready. -/
theorem ready_run (ids : List NodeId) (links : List Link) (fuel : Nat) (s : State) :
    (run ids links fuel s).ready = [] ∨
      (run ids links fuel s).taken.length = s.taken.length + fuel := by
  induction fuel generalizing s with
  | zero => exact .inr rfl
  | succ fuel ih =>
    cases hready : s.ready with
    | nil => exact .inl (by rw [run_of_ready_eq_nil hready, hready])
    | cons i ready =>
      refine (ih (s.step ids links)).imp_right fun h => ?_
      rw [run, h, taken_step hready, List.length_append, List.length_singleton]
      omega

end State

section

variable {nodes : List Node} {edges : List Edge} {i j : Nat}

theorem ready_result (nodes : List Node) (edges : List Edge) : (result nodes edges).ready = [] := by
  have hcounts := counts_result nodes edges
  rcases State.ready_run (nodes.map (·.id)) (links nodes edges) (nodes.map (·.id)).length
    (.start (nodes.map (·.id)) (links nodes edges)) with h | h
  · exact h
  · -- Every position is taken, so that none is left to be ready.
    have hsub := (List.subperm_of_subset hcounts.nodup fun j hj =>
      List.mem_range.mpr (hcounts.lt j hj)).length_le
    have hlength : (result nodes edges).taken.length = 0 + nodes.length :=
      h.trans (by rw [List.length_map]; rfl)
    rw [List.length_append, List.length_range] at hsub
    exact List.length_eq_zero_iff.mp (by omega)

theorem links_lt (h : Follows (links nodes edges) i j) : i < nodes.length ∧ j < nodes.length := by
  obtain ⟨_, _, hi, hj⟩ := mem_links.mp h
  exact ⟨position?_lt hi, position?_lt hj⟩

theorem mem_taken (hj : j < nodes.length) :
    j ∈ (result nodes edges).taken ↔
      ∀ i, Follows (links nodes edges) i j → i ∈ (result nodes edges).taken := by
  have hcounts := counts_result nodes edges
  have hfree := hcounts.free j hj
  rw [ready_result, List.append_nil, hcounts.waiting j hj, List.count_nil, Nat.add_zero] at hfree
  exact hfree.symm.trans held_eq_zero

theorem mem_before_of_transGen (h : TransGen (Follows (links nodes edges)) i j)
    {before after : List Nat} (hsplit : (result nodes edges).taken = before ++ j :: after) :
    i ∈ before := by
  have hforward := (counts_result nodes edges).forward
  induction h generalizing before after with
  | single hij => exact hforward _ _ _ hsplit i hij
  | tail _ hkj ih =>
    obtain ⟨first, rest, rfl⟩ := List.append_of_mem (hforward _ _ _ hsplit _ hkj)
    rw [List.append_assoc, List.cons_append] at hsplit
    exact List.mem_append_left _ (ih hsplit)

/-- What is never taken comes after a cycle. -/
theorem not_mem_taken (hj : j < nodes.length) :
    j ∉ (result nodes edges).taken ↔
      ∃ c, TransGen (Follows (links nodes edges)) c c ∧
        ReflTransGen (Follows (links nodes edges)) c j := by
  constructor
  · intro hnot
    have hback : ∀ k ∈ (List.range nodes.length).filter (· ∉ (result nodes edges).taken),
        ∃ i ∈ (List.range nodes.length).filter (· ∉ (result nodes edges).taken),
          Function.swap (Follows (links nodes edges)) k i := by
      simp only [List.mem_filter, List.mem_range, decide_eq_true_eq]
      rintro k ⟨hk, hnot⟩
      rw [mem_taken hk] at hnot
      push Not at hnot
      obtain ⟨i, hik, hi⟩ := hnot
      exact ⟨i, ⟨(links_lt hik).1, hi⟩, hik⟩
    obtain ⟨c, hjc, hc⟩ := exists_cycle_of_forall_exists hback (a := j) (by simp [hj, hnot])
    exact ⟨c, transGen_swap.mp hc, reflTransGen_swap.mp hjc⟩
  · rintro ⟨c, hc, hcj⟩ hmem
    -- All that comes before a taken position is taken, and a cycle never is.
    have hcmem : c ∈ (result nodes edges).taken := by
      induction hcj with
      | refl => exact hmem
      | tail _ hkj ih => exact ih (links_lt hkj).1 ((mem_taken hj).mp hmem _ hkj)
    obtain ⟨before, after, hsplit⟩ := List.append_of_mem hcmem
    have hnodup := (counts_result nodes edges).nodup.of_append_left
    rw [hsplit, List.nodup_middle, List.nodup_cons] at hnodup
    exact hnodup.1 (List.mem_append_left _ (mem_before_of_transGen hc hsplit))

/-- A sort takes every position exactly if there is no cycle. -/
theorem length_taken_eq_iff : (result nodes edges).taken.length = nodes.length ↔
    ¬ ∃ c, TransGen (Follows (links nodes edges)) c c := by
  have hcounts := counts_result nodes edges
  have hnodup := hcounts.nodup.of_append_left
  have hsub : (result nodes edges).taken ⊆ List.range nodes.length := fun j hj =>
    List.mem_range.mpr (hcounts.lt j (List.mem_append_left _ hj))
  constructor
  · rintro hlength ⟨c, hc⟩
    obtain ⟨k, hck, -⟩ := TransGen.head'_iff.mp hc
    have hperm := (List.subperm_of_subset hnodup hsub).perm_of_length_le (by simp [hlength])
    have hmem := hperm.mem_iff.mpr (List.mem_range.mpr (links_lt hck).1)
    exact (not_mem_taken (links_lt hck).1).mpr ⟨c, hc, .refl⟩ hmem
  · intro hnone
    have hall : List.range nodes.length ⊆ (result nodes edges).taken := by
      intro j hj
      by_contra hnot
      obtain ⟨c, hc, -⟩ := (not_mem_taken (List.mem_range.mp hj)).mp hnot
      exact hnone ⟨c, hc⟩
    have hle := (List.subperm_of_subset hnodup hsub).length_le
    have hge := (List.subperm_of_subset List.nodup_range hall).length_le
    rw [List.length_range] at hle hge
    exact Nat.le_antisymm hle hge

end

/-! ## Peeling -/

section

variable {links : List Link}

theorem any_dependents {i : Nat} {stuck : List Nat} :
    (dependents links i).any stuck.contains = true ↔ ∃ j ∈ stuck, Follows links i j := by
  simp only [dependents, List.any_map, List.any_filter, List.any_eq_true, Bool.and_eq_true,
    beq_iff_eq, Function.comp_apply, List.contains_iff_mem, Prod.exists, Follows]
  constructor
  · rintro ⟨i, j, hij, rfl, hj⟩
    exact ⟨j, hj, hij⟩
  · rintro ⟨j, hj, hij⟩
    exact ⟨i, j, hij, rfl, hj⟩

/-- The positions that lead to one of some positions. -/
def leading (links : List Link) (stuck : List Nat) : List Nat :=
  stuck.filter fun i => (dependents links i).any stuck.contains

theorem peel_succ (links : List Link) (fuel : Nat) (stuck : List Nat) :
    peel links (fuel + 1) stuck =
      if (leading links stuck).length = stuck.length then stuck
      else peel links fuel (leading links stuck) := rfl

theorem peel_sublist (links : List Link) (fuel : Nat) (stuck : List Nat) :
    (peel links fuel stuck).Sublist stuck := by
  induction fuel generalizing stuck with
  | zero => exact .refl _
  | succ fuel ih =>
    rw [peel_succ]
    split
    · exact .refl _
    · exact (ih _).trans List.filter_sublist

/-- With enough rounds, peeling goes on until every position left leads to another one left. -/
theorem exists_follows_of_mem_peel (links : List Link) {fuel : Nat} {stuck : List Nat}
    (hfuel : stuck.length ≤ fuel) :
    ∀ i ∈ peel links fuel stuck, ∃ j ∈ peel links fuel stuck, Follows links i j := by
  induction fuel generalizing stuck with
  | zero =>
    intro i hi
    rw [List.length_eq_zero_iff.mp (Nat.le_zero.mp hfuel)] at hi
    cases hi
  | succ fuel ih =>
    rw [peel_succ]
    split
    · next hlength =>
      exact fun i hi => any_dependents.mp (List.length_filter_eq_length_iff.mp hlength i hi)
    · next hlength =>
      have hle : (leading links stuck).length ≤ stuck.length := List.length_filter_le ..
      exact ih (by omega)

/-- What leads on among itself for ever is not peeled off. -/
theorem mem_peel_of_forall_exists {p : Nat → Prop} (hp : ∀ i, p i → ∃ j, p j ∧ Follows links i j)
    (fuel : Nat) {stuck : List Nat} (hstuck : ∀ i, p i → i ∈ stuck) {i : Nat} (hi : p i) :
    i ∈ peel links fuel stuck := by
  induction fuel generalizing stuck with
  | zero => exact hstuck i hi
  | succ fuel ih =>
    rw [peel_succ]
    split
    · exact hstuck i hi
    · refine ih fun i hi => List.mem_filter.mpr ⟨hstuck i hi, any_dependents.mpr ?_⟩
      obtain ⟨j, hj, hij⟩ := hp i hi
      exact ⟨j, hstuck j hj, hij⟩

end

section

variable {nodes : List Node} {edges : List Edge} {i : Nat}

theorem waiting_ne_zero (hi : i < nodes.length) :
    (result nodes edges).waiting.getD i 0 ≠ 0 ↔ i ∉ (result nodes edges).taken := by
  have hfree := (counts_result nodes edges).free i hi
  rw [ready_result, List.append_nil] at hfree
  exact not_congr hfree

/-- What a sort leaves and peeling keeps are the positions between cycles. -/
theorem mem_peel_result :
    i ∈ peel (links nodes edges) nodes.length ((List.range nodes.length).filter fun i =>
        (result nodes edges).waiting.getD i 0 != 0) ↔
      Between (Follows (links nodes edges)) i := by
  have hstuck : ∀ k, k ∈ ((List.range nodes.length).filter fun i =>
      (result nodes edges).waiting.getD i 0 != 0) ↔ k < nodes.length ∧
        ∃ c, TransGen (Follows (links nodes edges)) c c ∧
          ReflTransGen (Follows (links nodes edges)) c k := by
    intro k
    rw [List.mem_filter, List.mem_range, bne_iff_ne]
    exact and_congr_right fun hk => (waiting_ne_zero hk).trans (not_mem_taken hk)
  constructor
  · intro hi
    have hserial := exists_follows_of_mem_peel (links nodes edges)
      ((List.length_filter_le (fun i => (result nodes edges).waiting.getD i 0 != 0)
        (List.range nodes.length)).trans_eq List.length_range)
    obtain ⟨c, hic, hc⟩ := exists_cycle_of_forall_exists hserial hi
    exact ⟨((hstuck i).mp ((peel_sublist ..).subset hi)).2, c, hc, hic⟩
  · refine mem_peel_of_forall_exists (fun i hi => ?_) _ fun i hi => (hstuck i).mpr ⟨?_, hi.comes⟩
    · obtain ⟨⟨b, hb, hbi⟩, c, hc, hic⟩ := hi
      rcases ReflTransGen.cases_head hic with rfl | ⟨j, hij, hjc⟩
      · obtain ⟨j, hij, hji⟩ := TransGen.head'_iff.mp hc
        exact ⟨j, ⟨⟨b, hb, hbi.tail hij⟩, i, hc, hji⟩, hij⟩
      · exact ⟨j, ⟨⟨b, hb, hbi.tail hij⟩, c, hc, hjc⟩, hij⟩
    · obtain ⟨-, c, hc, hic⟩ := hi
      obtain ⟨j, hij, -⟩ := TransGen.head'_iff.mp (TransGen.trans_right hic hc)
      exact (links_lt hij).1

end

/-! ## Cycles of ids -/

/-- An edge leads from one listed id to another. -/
def Leads (nodes : List Node) (edges : List Edge) (a b : NodeId) : Prop :=
  a ∈ nodes.map (·.id) ∧ b ∈ nodes.map (·.id) ∧ ∃ e ∈ edges, e.start.node = a ∧ e.stop.node = b

section

variable {nodes : List Node} {edges : List Edge} {i j : Nat} {a b : NodeId}

/-- The id at a position. -/
def idAt (nodes : List Node) (i : Nat) : NodeId := (nodes.map (·.id)).getD i 0

theorem idAt_of_position? (h : position? nodes a = some i) : idAt nodes i = a := by
  rw [idAt, List.getD_eq_getElem?_getD, getElem?_of_lastIndex? h, Option.getD_some]

theorem leads_of_follows (h : Follows (links nodes edges) i j) :
    Leads nodes edges (idAt nodes i) (idAt nodes j) := by
  obtain ⟨e, he, hi, hj⟩ := mem_links.mp h
  rw [idAt_of_position? hi, idAt_of_position? hj]
  exact ⟨List.mem_of_getElem? (getElem?_of_lastIndex? hi),
    List.mem_of_getElem? (getElem?_of_lastIndex? hj), e, he, rfl, rfl⟩

/-- The position of a listed id: the last one at which it stands. -/
def positionD (nodes : List Node) (id : NodeId) : Nat := (position? nodes id).getD 0

theorem position?_of_mem (h : a ∈ nodes.map (·.id)) :
    position? nodes a = some (positionD nodes a) := by
  cases hi : position? nodes a with
  | none => exact absurd h (lastIndex?_eq_none.mp hi)
  | some i => rw [positionD, hi, Option.getD_some]

theorem follows_of_leads (h : Leads nodes edges a b) :
    Follows (links nodes edges) (positionD nodes a) (positionD nodes b) := by
  obtain ⟨ha, hb, e, he, rfl, rfl⟩ := h
  exact mem_links.mpr ⟨e, he, position?_of_mem ha, position?_of_mem hb⟩

/-- The edges between listed nodes have a directed cycle. -/
def HasCycle (nodes : List Node) (edges : List Edge) : Prop :=
  ∃ id, TransGen (Leads nodes edges) id id

theorem exists_cycle_iff :
    (∃ c, TransGen (Follows (links nodes edges)) c c) ↔ HasCycle nodes edges :=
  ⟨fun ⟨_, hc⟩ => ⟨_, hc.lift (idAt nodes) fun _ _ => leads_of_follows⟩,
    fun ⟨_, hc⟩ => ⟨_, hc.lift (positionD nodes) fun _ _ => follows_of_leads⟩⟩

theorem Between.lift {α β : Type} {r : α → α → Prop} {s : β → β → Prop} (f : α → β)
    (h : ∀ a b, r a b → s (f a) (f b)) {a : α} (ha : Between r a) : Between s (f a) := by
  obtain ⟨⟨b, hb, hba⟩, c, hc, hac⟩ := ha
  exact ⟨⟨f b, hb.lift f h, hba.lift f h⟩, f c, hc.lift f h, hac.lift f h⟩

theorem mem_of_between (h : Between (Leads nodes edges) a) : a ∈ nodes.map (·.id) := by
  obtain ⟨-, c, hc, hac⟩ := h
  obtain ⟨b, hab, -⟩ := TransGen.head'_iff.mp (TransGen.trans_right hac hc)
  exact hab.1

/-- The ids reported when some nodes cannot be put in order are those between cycles. -/
theorem mem_cycleMembers :
    a ∈ cycleMembers (nodes.map (·.id)) (links nodes edges) (result nodes edges).waiting ↔
      Between (Leads nodes edges) a := by
  rw [cycleMembers, List.mem_mergeSort, List.mem_map, List.length_map]
  constructor
  · rintro ⟨i, hi, rfl⟩
    exact (mem_peel_result.mp hi).lift (idAt nodes) fun _ _ => leads_of_follows
  · intro ha
    refine ⟨positionD nodes a, mem_peel_result.mpr ?_, ?_⟩
    · exact ha.lift (positionD nodes) fun _ _ => follows_of_leads
    · exact idAt_of_position? (position?_of_mem (mem_of_between ha))

end

end Order

open FrameGraph.Order

/-- Nodes are put in order, unless the edges between them have a cycle. -/
theorem inOrder_cases (nodes : List Node) (edges : List Edge) :
    (HasCycle nodes edges ∧ inOrder nodes edges = .error (.cycle
      (cycleMembers (nodes.map (·.id)) (links nodes edges) (result nodes edges).waiting))) ∨
    (¬ HasCycle nodes edges ∧ ∃ order, inOrder nodes edges = .ok order) := by
  have hiff : (result nodes edges).taken.length = nodes.length ↔ ¬ HasCycle nodes edges :=
    length_taken_eq_iff.trans (not_congr exists_cycle_iff)
  simp only [inOrder]
  split
  · next h => exact .inr ⟨hiff.mp h, _, rfl⟩
  · next h => exact .inl ⟨not_not.mp fun hno => h (hiff.mpr hno), rfl⟩

end FrameGraph
